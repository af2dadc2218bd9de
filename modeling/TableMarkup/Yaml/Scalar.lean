import TableMarkup.Yaml.Plain

/-!
# Writing texts

A text is written plain, between single or double quotes, or as a literal block below its key. The
plainest form is taken that is read back as the text.

| Form | Looks like |
|---|---|
| `plain` | `text` |
| `single` | `'text'`, quotes doubled |
| `double` | `"text"`, with escapes |
| `literal` | a bar, and the lines of the text below it |

* `Traits.of` gathers what about a text matters to its form.
* `Form.of` chooses the form, `Form.render` writes the text in it.
-/

namespace TableMarkup.Yaml

def isBreak (c : Char) : Bool :=
  c == '\n' || c == '\r' || c == '\u0085' || c == '\u2028' || c == '\u2029'

/-- Whether the character separates: a space, a tab, the end of a line, or the null character. -/
def isSeparator (c : Char) : Bool :=
  c == ' ' || c == '\t' || isBreak c || c == '\x00'

/-- Whether a separator or the end of the text comes next. -/
def isEnd : List Char → Bool
  | [] => true
  | c :: _ => isSeparator c

/-- Whether the character may stand in a text that is written without escapes. -/
def isPrintable (c : Char) : Bool :=
  let n := c.toNat
  n == 0x0A || (0x20 ≤ n && n ≤ 0x7E) ||
    (0xA0 ≤ n && n != 0xFEFF && n != 0xFFFE && n != 0xFFFF)

/-- Characters that mean something at the beginning of a text. -/
def isLeadingIndicator (c : Char) : Bool :=
  ['#', ',', '[', ']', '\x7b', '\x7d', '&', '*', '!', '|', '>', '\'', '"', '%', '@', '\x60'].contains c

structure Traits where
  indicator : Bool
  multiline : Bool
  special : Bool
  blankStart : Bool
  blankEnd : Bool
  spaceEnd : Bool
  breakSpace : Bool
  spaceBreak : Bool

def startsAsMarkup : List Char → Bool
  | '-' :: '-' :: '-' :: _ => true
  | '.' :: '.' :: '.' :: _ => true
  | '-' :: rest => isEnd rest
  | '?' :: rest => isEnd rest
  | ':' :: rest => isEnd rest
  | c :: _ => isLeadingIndicator c
  | [] => false

/-- Whether something in a text after its first character would be taken for markup: a colon before
a separator, or a hash after one. -/
def continuesAsMarkup : List Char → Bool
  | before :: c :: rest =>
    (c == ':' && isEnd rest) || (c == '#' && isSeparator before) || continuesAsMarkup (c :: rest)
  | _ => false

/-- Whether two characters of the given kinds follow each other. -/
def hasPair (first second : Char → Bool) : List Char → Bool
  | a :: b :: rest => (first a && second b) || hasPair first second (b :: rest)
  | _ => false

def Traits.of (cs : List Char) : Traits where
  indicator := startsAsMarkup cs || continuesAsMarkup cs
  multiline := cs.any isBreak
  special := cs.any (!isPrintable ·)
  blankStart := cs.head?.any fun c => c == ' ' || isBreak c
  blankEnd := cs.getLast?.any fun c => c == ' ' || isBreak c
  spaceEnd := cs.getLast? == some ' '
  breakSpace := hasPair isBreak (· == ' ') cs
  spaceBreak := hasPair (· == ' ') isBreak cs

inductive Form where
  | plain
  | single
  | double
  | literal
deriving DecidableEq

namespace Form

def of (text : String) : Form :=
  let t := Traits.of text.toList
  let onlyDouble := t.special || t.spaceBreak
  -- A text of several lines is a block, unless a block would lose some of it.
  if text.toList.contains '\n' then
    if onlyDouble || t.spaceEnd then .double else .literal
  else if onlyDouble || t.breakSpace then .double
  else if standsForOther text || t.indicator || t.multiline || t.blankStart || t.blankEnd then .single
  else .plain

/-- A line break where a text goes on after the ends of lines: the indentation of its next line. -/
def indented (indent : Nat) (between : Bool) : List Char → List Char
  | [] => []
  | c :: cs =>
    if isBreak c then c :: indented indent true cs
    else (if between then List.replicate indent ' ' else []) ++ c :: indented indent false cs

/-- What a literal block says about itself: whether its first line is indented further, and what
becomes of the line ends after its last line. -/
def literalHeader (cs : List Char) : List Char :=
  let deeper := cs.head?.any fun c => c == ' ' || isBreak c
  let keep := match cs.reverse with
    | last :: before =>
      if !isBreak last then ['-']
      -- One line end is kept by default; of more, or of nothing but one, that has to be said.
      else match before with
        | [] => ['+']
        | c :: _ => if isBreak c then ['+'] else []
    | [] => ['-']
  '|' :: (if deeper then ['2'] else []) ++ keep

/-- Upper-case hexadecimal digits, as many as asked for. -/
def upperHex (width n : Nat) : List Char :=
  let ds := (Text.hexDigits n).map Char.toUpper
  List.replicate (width - ds.length) '0' ++ ds

def escape (c : Char) : List Char :=
  if c = '"' then ['\\', '"']
  else if c = '\\' then ['\\', '\\']
  else if isPrintable c && !isBreak c then [c]
  else
    let short : List (Char × Char) :=
      [('\x00', '0'), ('\x07', 'a'), ('\x08', 'b'), ('\t', 't'), ('\n', 'n'), ('\x0b', 'v'),
        ('\x0c', 'f'), ('\r', 'r'), ('\x1b', 'e'), ('\u0085', 'N'), ('\u2028', 'L'), ('\u2029', 'P')]
    match short.lookup c with
    | some letter => ['\\', letter]
    | none =>
      if c.toNat < 0x100 then '\\' :: 'x' :: upperHex 2 c.toNat
      else if c.toNat < 0x10000 then '\\' :: 'u' :: upperHex 4 c.toNat
      else '\\' :: 'U' :: upperHex 8 c.toNat

/-- A text in a form. Lines after the first are indented by `indent`. The text of a literal block
begins below its header. -/
def render (form : Form) (indent : Nat) (text : String) : List Char :=
  let cs := text.toList
  match form with
  | .plain => cs
  | .single =>
    '\'' :: indented indent false (cs.flatMap fun c => if c = '\'' then ['\'', '\''] else [c]) ++
      (if (Traits.of cs).multiline && cs.getLast?.any isBreak then List.replicate indent ' ' else []) ++
      ['\'']
  | .double => '"' :: cs.flatMap escape ++ ['"']
  | .literal => literalHeader cs ++ '\n' :: indented indent true cs

end Form

/-- A text and the end of its last line, unless the text ends with one that is written as it is. -/
def textLine (indent : Nat) (text : String) : List Char :=
  let form := Form.of text
  form.render indent text ++
    if form = .literal && text.toList.getLast?.any isBreak then [] else ['\n']

end TableMarkup.Yaml
