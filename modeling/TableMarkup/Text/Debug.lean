import TableMarkup.Text.Hex
import TableMarkup.Text.Hidden

/-!
# Text in messages

Names and texts are shown in messages between double quotes, with everything that cannot be seen
written as an escape.
-/

namespace TableMarkup.Text

def debugEscape (c : Char) : List Char :=
  if c = '"' then ['\\', '"']
  else if c = '\\' then ['\\', '\\']
  else if c = '\n' then ['\\', 'n']
  else if c = '\r' then ['\\', 'r']
  else if c = '\t' then ['\\', 't']
  else if c = '\x00' then ['\\', '0']
  else if isHidden c then '\\' :: 'u' :: '\x7b' :: hexDigits c.toNat ++ ['\x7d']
  else [c]

def debugQuoted (s : String) : List Char :=
  '"' :: s.toList.flatMap debugEscape ++ ['"']

end TableMarkup.Text
