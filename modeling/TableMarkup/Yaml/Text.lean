import TableMarkup.Yaml.Cursor

/-!
# Reading texts

The texts of a YAML document: plain, quoted, and in blocks. Each reader starts at the first character
of its text and gives the text and the place after it, or nothing if the text is malformed. Readers
count down a supply of steps that the number of characters bounds.

* `readQuoted`, `readPlain` and `readBlock` are the three readers.
-/

namespace TableMarkup.Yaml

def shortEscape? (c : Char) : Option Char :=
  [('0', '\x00'), ('a', '\x07'), ('b', '\x08'), ('t', '\t'), ('\t', '\t'), ('n', '\n'),
    ('v', '\x0b'), ('f', '\x0c'), ('r', '\r'), ('e', '\x1b'), (' ', ' '), ('"', '"'), ('/', '/'),
    ('\\', '\\'), ('N', '\u0085'), ('_', '\u00a0'), ('L', '\u2028'), ('P', '\u2029')].lookup c

/-- The number of hexadecimal digits of a long escape. -/
def escapeWidth? (c : Char) : Option Nat :=
  [('x', 2), ('u', 4), ('U', 8)].lookup c

/-- The character of an escape, after its backslash, and the place after it. -/
def readEscape (c : Cursor) : Option (Char × Cursor) := do
  let letter ← c.peek
  match shortEscape? letter with
  | some ch => some (ch, c.skip 1)
  | none =>
    let width ← escapeWidth? letter
    let digits := (c.skip 1).rest.take width
    guard (digits.length = width)
    let n ← ofBase? 16 digits
    guard n.isValidChar
    some (Char.ofNat n, c.skip (1 + width))

/-- Characters after those that have been read, which are kept last first. -/
def join (read new : List Char) : List Char :=
  new.reverseAux read

/-- Reads on in a quoted text. What has been read is kept last first. -/
def quotedFrom (single : Bool) : Nat → Cursor → Gap → List Char → Option (List Char × Cursor)
  | 0, _, _, _ => none
  | steps + 1, c, gap, read => do
    let ch ← c.peek
    if isGapBlank ch then quotedFrom single steps (c.skip 1) (gap.addBlank ch) read
    else if isBreak ch then quotedFrom single steps c.skipBreak (gap.addLine c.lineEnd) read
    else if c.atDocumentMark then none
    else
      let read := join read gap.folded
      if single && ch == '\'' then
        if c.peekNext == some '\'' then quotedFrom single steps (c.skip 2) .none ('\'' :: read)
        else some (read.reverse, c.skip 1)
      else if !single && ch == '"' then some (read.reverse, c.skip 1)
      else if !single && ch == '\\' then
        if (c.skip 1).peek.any isBreak then
          quotedFrom single steps (c.skip 1).skipBreak (.lines [] []) read
        else
          let (escaped, c) ← readEscape (c.skip 1)
          quotedFrom single steps c .none (escaped :: read)
      else quotedFrom single steps (c.skip 1) .none (ch :: read)

def readQuoted (single : Bool) (c : Cursor) : Option (List Char × Cursor) :=
  quotedFrom single (c.rest.length + 1) (c.skip 1) .none []

/-- A plain text, and whether it is followed by the end of its line. -/
structure PlainText where
  text : List Char
  after : Cursor
  lineEnded : Bool

/-- Reads on in a plain text. In a block its further lines have to reach the column `indent`. What has
been read is kept last first. -/
def plainFrom (flow : Bool) (indent : Nat) : Nat → Cursor → Gap → List Char → Option PlainText
  | 0, c, gap, read => some ⟨read.reverse, c, gap.isOverLines⟩
  | steps + 1, c, gap, read =>
    let done (_ : Unit) := some ⟨read.reverse, c, gap.isOverLines⟩
    match c.peek with
    | none => done ()
    | some ch =>
      -- A tab before the column of the block would be indentation.
      if isGapBlank ch then
        if gap.isOverLines && c.column < indent && ch == '\t' then none
        else plainFrom flow indent steps (c.skip 1) (gap.addBlank ch) read
      else if isBreak ch then
        plainFrom flow indent steps c.skipBreak (gap.addLine c.lineEnd) read
      else if !gap.isNone && !flow && c.column < indent then done ()
      else if c.atDocumentMark then done ()
      -- A hash begins a comment only after white space.
      else if !gap.isNone && ch == '#' then done ()
      else if flow && ch == ':' && (c.peekNext.any [',', '?', '[', ']', '\x7b', '\x7d'].contains) then
        none
      else if (ch == ':' && c.separatorNext) ||
          (flow && [',', '[', ']', '\x7b', '\x7d'].contains ch) then done ()
      else plainFrom flow indent steps (c.skip 1) .none (ch :: join read gap.folded)

def readPlain (flow : Bool) (indent : Nat) (c : Cursor) : Option PlainText :=
  plainFrom flow indent (c.rest.length + 1) c .none []

inductive Chomping where
  | strip
  | clip
  | keep
deriving DecidableEq

/-- The header of a block, after the character that says how it is folded. -/
def readBlockHeader (c : Cursor) : Option (Chomping × Option Nat × Cursor) := do
  let chomping? (c : Cursor) : Option Chomping :=
    if c.isAt '+' then some .keep else if c.isAt '-' then some .strip else none
  let digit? (c : Cursor) : Option Nat := c.peek.bind Text.digit?
  let (chomping, increment, c) := match chomping? c, digit? c with
    | some chomping, _ =>
      match digit? (c.skip 1) with
      | some d => (chomping, some d, c.skip 2)
      | none => (chomping, none, c.skip 1)
    | none, some d =>
      match chomping? (c.skip 1) with
      | some chomping => (chomping, some d, c.skip 2)
      | none => (.clip, some d, c.skip 1)
    | none, none => (.clip, none, c)
  guard (increment ≠ some 0)
  let c := c.skipBlanks
  let c := if c.isAt '#' then c.skipLine else c
  guard c.atLineEnd
  some (chomping, increment, c.skipBreak)

/-- Empty lines in a block, with the indentation of the line after them. Without a known indentation,
the deepest one decides. -/
def blockBreaks (indent : Option Nat) (deepest : Nat) : Nat → Cursor → List Char →
    Option (List Char × Nat × Cursor)
  | 0, _, _ => none
  | steps + 1, c, breaks =>
    -- No more spaces are taken than indent the block.
    let room := indent.elim c.rest.length (· - c.column)
    let spaces := ((c.rest.takeWhile (· == ' ')).take room).length
    let c := c.skip spaces
    let deepest := max deepest c.column
    if c.isAt '\t' && indent.all (c.column < ·) then none
    else if c.peek.any isBreak then
      blockBreaks indent deepest steps c.skipBreak (breaks ++ c.lineEnd)
    else some (breaks, deepest, c)

/-- The text of a block, as far as it is read. -/
structure BlockText where
  text : List Char
  lineEnd : List Char
  emptyLines : List Char
  blankStart : Bool

def blockFrom (literal : Bool) (indent : Nat) : Nat → Cursor → BlockText → Option (BlockText × Cursor)
  | 0, _, _ => none
  | steps + 1, c, b =>
    match c.peek with
    | none => some (b, c)
    | some ch =>
      if c.column ≠ indent then some (b, c)
      else do
        let blankStart := isGapBlank ch
        -- Folding spares lines that begin with a blank, and the line ends around them.
        let joint :=
          if !literal && b.lineEnd == ['\n'] && !b.blankStart && !blankStart then
            if b.emptyLines.isEmpty then [' '] else []
          else b.lineEnd
        let (content, c) := c.span (!isBreak ·)
        let lineEnd := c.lineEnd
        let c := c.skipBreak
        let (emptyLines, _, c) ← blockBreaks (some indent) 0 (c.rest.length + 1) c []
        blockFrom literal indent steps c
          ⟨b.text ++ joint ++ b.emptyLines ++ content, lineEnd, emptyLines, blankStart⟩

/-- Reads a block, whose lines are indented further than `outer` columns. -/
def readBlock (literal : Bool) (outer : Int) (c : Cursor) : Option (List Char × Cursor) := do
  let (chomping, increment, c) ← readBlockHeader (c.skip 1)
  let given := increment.map fun n => outer.toNat + n
  let (emptyLines, deepest, c) ← blockBreaks given 0 (c.rest.length + 1) c []
  -- Without a given indentation the deepest line up to the first text decides.
  let indent := given.getD (max deepest (max 1 (outer + 1).toNat))
  let (b, c) ← blockFrom literal indent (c.rest.length + 1) c ⟨[], [], emptyLines, false⟩
  let ending := match chomping with
    | .strip => []
    | .clip => b.lineEnd
    | .keep => b.lineEnd ++ b.emptyLines
  some (b.text ++ ending, c)

end TableMarkup.Yaml
