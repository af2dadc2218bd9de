import TableMarkup.Yaml.Scalar

/-!
# Places in a YAML text

What a YAML text means depends on columns and lines, so a text is read by a cursor that knows where
it stands.

* `Cursor.skip` moves over a character, `Cursor.skipBreak` over the end of a line.
* `Cursor.span` takes what a class of characters covers.
* `Gap` is the white space between two words of a text; `Gap.folded` is what becomes of it.
-/

namespace TableMarkup.Yaml

structure Cursor where
  rest : List Char
  /-- The number of bytes before this place. -/
  offset : Nat
  line : Nat
  column : Nat

/-- Whether a character may occur in a YAML text at all. -/
def isReadable (c : Char) : Bool :=
  let n := c.toNat
  n == 0x09 || n == 0x0A || n == 0x0D || (0x20 ≤ n && n ≤ 0x7E) || n == 0x85 ||
    (0xA0 ≤ n && n != 0xFFFE && n != 0xFFFF)

def isGapBlank (c : Char) : Bool :=
  c == ' ' || c == '\t'

/-- Whether the character may occur in the name of an anchor. -/
def isNameChar (c : Char) : Bool :=
  c.isAlphanum || c == '_' || c == '-'

namespace Cursor

def start (text : List Char) : Cursor :=
  ⟨text, 0, 0, 0⟩

def peek (c : Cursor) : Option Char :=
  c.rest.head?

def peekNext (c : Cursor) : Option Char :=
  c.rest[1]?

/-- Whether the character at this place is the given one. -/
def isAt (c : Cursor) (ch : Char) : Bool :=
  c.peek == some ch

def atLineEnd (c : Cursor) : Bool :=
  c.peek.all isBreak

/-- Whether a separator or the end of the text is here. -/
def atSeparator (c : Cursor) : Bool :=
  isEnd c.rest

/-- Whether a separator or the end of the text follows the character here. -/
def separatorNext (c : Cursor) : Bool :=
  isEnd (c.rest.drop 1)

/-- The number of bytes of characters. -/
def byteCount (cs : List Char) : Nat :=
  cs.foldl (fun n c => n + c.utf8Size) 0

/-- The place after a number of characters of one line. -/
def skip (c : Cursor) (n : Nat) : Cursor :=
  { c with
    rest := c.rest.drop n
    offset := c.offset + byteCount (c.rest.take n)
    column := c.column + n }

def skipBreak (c : Cursor) : Cursor :=
  match c.rest with
  | '\r' :: '\n' :: rest => ⟨rest, c.offset + 2, c.line + 1, 0⟩
  | ch :: rest => ⟨rest, c.offset + ch.utf8Size, c.line + 1, 0⟩
  | [] => c

def lineEnd (c : Cursor) : List Char :=
  match c.peek with
  | some ch =>
    if ch == '\u2028' || ch == '\u2029' then [ch] else if isBreak ch then ['\n'] else []
  | none => []

/-- The characters of a class from here on, and the place after them. The class holds no line end. -/
def span (c : Cursor) (p : Char → Bool) : List Char × Cursor :=
  let taken := c.rest.takeWhile p
  (taken, c.skip taken.length)

def skipBlanks (c : Cursor) : Cursor :=
  (c.span isGapBlank).2

def skipLine (c : Cursor) : Cursor :=
  (c.span (!isBreak ·)).2

/-- Whether a line begins here with three of a character that stand alone. -/
def atMark (c : Cursor) (ch : Char) : Bool :=
  c.column == 0 && c.rest.take 3 == [ch, ch, ch] && isEnd (c.rest.drop 3)

/-- Whether a line begins here that separates documents. -/
def atDocumentMark (c : Cursor) : Bool :=
  c.atMark '-' || c.atMark '.'

end Cursor

/-- The white space between two words of a text that is no block. -/
inductive Gap where
  | none
  | blanks (cs : List Char)
  /-- The first line end, and the further ones. An escaped first line end is empty. -/
  | lines (first further : List Char)

namespace Gap

/-- What becomes of the gap: blanks stay, one line end is a space, and of several the first goes. -/
def folded : Gap → List Char
  | .none => []
  | .blanks cs => cs
  | .lines first further =>
    if first = ['\n'] then (if further.isEmpty then [' '] else further) else first ++ further

def isOverLines : Gap → Bool
  | .lines _ _ => true
  | _ => false

def isNone : Gap → Bool
  | .none => true
  | _ => false

/-- The gap with one more blank. At the beginning of a line blanks do not count. -/
def addBlank (gap : Gap) (c : Char) : Gap :=
  match gap with
  | .none => .blanks [c]
  | .blanks cs => .blanks (cs ++ [c])
  | .lines first further => .lines first further

def addLine (gap : Gap) (lineEnd : List Char) : Gap :=
  match gap with
  | .lines first further => .lines first (further ++ lineEnd)
  | _ => .lines lineEnd []

end Gap

end TableMarkup.Yaml
