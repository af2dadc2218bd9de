import TableMarkup.Yaml.Text

/-!
# Tokens

A YAML text as a row of tokens, with the nesting that indentation expresses made explicit. That a
text is a key is known only when its colon is met; until then it is remembered as a possible key, and
the colon puts the token `key` in front of it.

* `Token.scan` gives the tokens of a text, or nothing if the text is malformed.
-/

namespace TableMarkup.Yaml

inductive Token where
  | version (major minor : Nat)
  | tagHandle (handle : List Char)
  | documentStart
  | documentEnd
  | blockSequence
  | blockMapping
  | blockEnd
  | flowSequence
  | flowSequenceEnd
  | flowMapping
  | flowMappingEnd
  | item
  | comma
  | key
  | value
  | alias (name : List Char)
  | anchor (name : List Char)
  | tag (handle : List Char)
  | text (content : List Char) (plain : Bool)
deriving DecidableEq

structure PossibleKey where
  required : Bool
  place : Nat
  /-- How many bytes come before it. -/
  offset : Nat
  line : Nat
  column : Nat

structure Scan where
  cursor : Cursor
  tokens : Array Token
  /-- The columns of the open blocks, innermost first. -/
  indents : List Nat
  keyAllowed : Bool
  /-- The possible key in each open flow collection, innermost first. -/
  flowKeys : List (Option PossibleKey)
  /-- The possible key outside of all flow collections. -/
  blockKey : Option PossibleKey

namespace Scan

def start (text : List Char) : Scan :=
  ⟨.start text, #[], [], true, [], none⟩

def inFlow (s : Scan) : Bool :=
  !s.flowKeys.isEmpty

/-- The column of the innermost open block, before the first column if none is open. -/
def indent (s : Scan) : Int :=
  match s.indents with
  | [] => -1
  | column :: _ => column

def push (s : Scan) (t : Token) : Scan :=
  { s with tokens := s.tokens.push t }

def pushMark (s : Scan) (t : Token) (width : Nat) : Scan :=
  { s.push t with cursor := s.cursor.skip width }

/-- The possible key of the innermost collection. -/
def possibleKey (s : Scan) : Option PossibleKey :=
  s.flowKeys.head?.getD s.blockKey

def withKey (s : Scan) (k : Option PossibleKey) : Scan :=
  match s.flowKeys with
  | [] => { s with blockKey := k }
  | _ :: outer => { s with flowKeys := k :: outer }

def dropKey (s : Scan) : Option Scan :=
  if s.possibleKey.any (·.required) then none else some (s.withKey none)

def noteKey (s : Scan) : Option Scan :=
  if s.keyAllowed then do
    let c := s.cursor
    -- What begins in the column of an open block has to be a key.
    let required := !s.inFlow && s.indent == c.column
    let s ← s.dropKey
    some (s.withKey (some ⟨required, s.tokens.size, c.offset, c.line, c.column⟩))
  else some s

/-- Whether a possible key is too far back: on an earlier line, or more than 1024 bytes away. -/
def isStale (c : Cursor) (k : PossibleKey) : Bool :=
  k.line < c.line || k.offset + 1024 < c.offset

def dropStale (s : Scan) : Option Scan :=
  let stale (k : Option PossibleKey) : Bool := k.any (isStale s.cursor)
  let fresh (k : Option PossibleKey) : Option PossibleKey := if stale k then none else k
  if (s.blockKey :: s.flowKeys).any fun k => stale k && k.any (·.required) then none
  else some { s with blockKey := fresh s.blockKey, flowKeys := s.flowKeys.map fresh }

/-- Closes the blocks that are indented further than a column. -/
def closeBlocks (s : Scan) (column : Int) : Scan :=
  if s.inFlow then s
  else
    let closed := (s.indents.takeWhile fun (n : Nat) => decide (column < (n : Int))).length
    { s with
      tokens := s.tokens ++ Array.replicate closed .blockEnd
      indents := s.indents.drop closed }

/-- Opens a block at a column, if none is open there; its token comes before the token at `place`. -/
def openBlock (s : Scan) (column place : Nat) (t : Token) : Scan :=
  if s.inFlow || (column : Int) ≤ s.indent then s
  else
    { s with
      tokens := s.tokens.take place ++ #[t] ++ s.tokens.drop place
      indents := column :: s.indents }

/-- The scan at the next character that is no white space and in no comment. -/
def toContent (s : Scan) : Nat → Scan
  | 0 => s
  | steps + 1 =>
    let c := if s.cursor.column = 0 && s.cursor.isAt '\ufeff' then s.cursor.skip 1 else s.cursor
    -- Tabs do not indent: they count as blanks only where no key may begin.
    let tabs := s.inFlow || !s.keyAllowed
    let c := (c.span fun ch => ch == ' ' || (tabs && ch == '\t')).2
    let c := if c.isAt '#' then c.skipLine else c
    if c.peek.any isBreak then
      toContent { s with cursor := c.skipBreak, keyAllowed := s.keyAllowed || !s.inFlow } steps
    else { s with cursor := c }

def finish (s : Scan) : Option Scan :=
  (s.closeBlocks (-1)).dropKey

def directiveEnd (s : Scan) (c : Cursor) : Option Scan :=
  let c := c.skipBlanks
  let c := if c.isAt '#' then c.skipLine else c
  if c.atLineEnd then some { s with cursor := c.skipBreak } else none

/-- A number of at most nine digits. -/
def versionNumber (c : Cursor) : Option (Nat × Cursor) := do
  let (digits, c) := c.span fun ch => (Text.digit? ch).isSome
  guard (digits.length ≤ 9)
  let n ← Text.ofDigits? digits
  some (n, c)

/-- The handle of a tag, up to its second exclamation mark if it has one. -/
def handle (c : Cursor) : List Char × Cursor :=
  let (name, after) := (c.skip 1).span isNameChar
  if after.isAt '!' then ('!' :: name ++ ['!'], after.skip 1) else ('!' :: name, after)

/-- Whether a character may occur in the name of a tag. -/
def isTagChar (bracketed : Bool) (c : Char) : Bool :=
  isNameChar c || ";/?:@&=+$.%!~*'()".toList.contains c || (bracketed && [',', '[', ']'].contains c)

/-- How many bytes follow a byte with which a character begins. -/
def followers? (octet : Nat) : Option Nat :=
  if octet < 0x80 then some 0
  else if octet < 0xC0 then none
  else if octet < 0xE0 then some 1
  else if octet < 0xF0 then some 2
  else if octet < 0xF8 then some 3
  else none

/-- Whether the bytes that percent signs write in a tag make up whole characters; `owed` bytes of one
are still to come. -/
def areEscapesWhole (owed : Nat) : List Char → Bool
  | '%' :: a :: b :: rest =>
    match Text.hexValue? a, Text.hexValue? b with
    | some high, some low =>
      let octet := 16 * high + low
      match owed with
      | 0 => (followers? octet).any fun n => areEscapesWhole n rest
      | n + 1 => 0x80 ≤ octet && octet < 0xC0 && areEscapesWhole n rest
    | _, _ => false
  | '%' :: _ => false
  | _ :: rest => owed = 0 && areEscapesWhole 0 rest
  | [] => owed = 0

def tagName (bracketed : Bool) (c : Cursor) : Option (List Char × Cursor) :=
  let (name, after) := c.span (isTagChar bracketed)
  if areEscapesWhole 0 name then some (name, after) else none

def directive (s : Scan) : Option Scan := do
  let s ← (s.closeBlocks (-1)).dropKey
  let s := { s with keyAllowed := false }
  let (name, c) := (s.cursor.skip 1).span isNameChar
  guard c.atSeparator
  if name = "YAML".toList then
    let (major, c) ← versionNumber c.skipBlanks
    guard (c.isAt '.')
    let (minor, c) ← versionNumber (c.skip 1)
    (s.push (.version major minor)).directiveEnd c
  else if name = "TAG".toList then
    let c := c.skipBlanks
    guard (c.isAt '!')
    let (handle, c) := handle c
    guard (handle = ['!'] || (handle.length > 1 && handle.getLast? == some '!'))
    guard (c.peek.any isGapBlank)
    let (start, c) ← tagName true c.skipBlanks
    guard (!start.isEmpty && c.atSeparator)
    (s.push (.tagHandle handle)).directiveEnd c
  else none

def documentMark (s : Scan) (t : Token) : Option Scan := do
  let s ← (s.closeBlocks (-1)).dropKey
  some { s.pushMark t 3 with keyAllowed := false }

def openFlow (s : Scan) (t : Token) : Option Scan := do
  let s ← s.noteKey
  some { s.pushMark t 1 with keyAllowed := true, flowKeys := none :: s.flowKeys }

def closeFlow (s : Scan) (t : Token) : Option Scan := do
  let s ← s.dropKey
  some { s.pushMark t 1 with keyAllowed := false, flowKeys := s.flowKeys.tail }

def comma (s : Scan) : Option Scan := do
  let s ← s.dropKey
  some { s.pushMark .comma 1 with keyAllowed := true }

def openBlockHere (s : Scan) (t : Token) : Option Scan :=
  if s.inFlow then some s
  else if s.keyAllowed then some (s.openBlock s.cursor.column s.tokens.size t)
  else none

def item (s : Scan) : Option Scan := do
  let s ← (← s.openBlockHere .blockSequence).dropKey
  some { s.pushMark .item 1 with keyAllowed := true }

def key (s : Scan) : Option Scan := do
  let s ← (← s.openBlockHere .blockMapping).dropKey
  some { s.pushMark .key 1 with keyAllowed := !s.inFlow }

/-- The colon before a value. What may have been a key is one now. -/
def value (s : Scan) : Option Scan :=
  match s.possibleKey with
  | some k =>
    -- The token of the key goes where the key began, and that of a new block in front of it.
    let s := { s with tokens := s.tokens.take k.place ++ #[Token.key] ++ s.tokens.drop k.place }
    let s := (s.openBlock k.column k.place .blockMapping).withKey none
    some { s.pushMark .value 1 with keyAllowed := false }
  | none => do
    let s ← s.openBlockHere .blockMapping
    some { s.pushMark .value 1 with keyAllowed := !s.inFlow }

def named (s : Scan) (t : List Char → Token) : Option Scan := do
  let s ← s.noteKey
  let (name, c) := (s.cursor.skip 1).span isNameChar
  guard (!name.isEmpty)
  guard (c.atSeparator || c.peek.any ['?', ':', ',', ']', '\x7d', '%', '@', '\x60'].contains)
  some { s.push (t name) with keyAllowed := false, cursor := c }

def tag (s : Scan) : Option Scan := do
  let s ← s.noteKey
  let c := s.cursor
  let (handle, c) ←
    if c.peekNext == some '<' then do
      let (name, c) ← tagName true (c.skip 2)
      guard (!name.isEmpty && c.isAt '>')
      some ([], c.skip 1)
    else do
      -- With one exclamation mark only, all that follows it is the name of the tag.
      let (handle, after) := handle c
      if handle.length > 1 && handle.getLast? == some '!' then
        let (name, c) ← tagName false after
        guard (!name.isEmpty)
        some (handle, c)
      else
        let (name, c) ← tagName false (c.skip 1)
        some (if name.isEmpty then [] else ['!'], c)
  guard (c.atSeparator || (s.inFlow && c.isAt ','))
  some { s.push (.tag handle) with keyAllowed := false, cursor := c }

def block (s : Scan) (literal : Bool) : Option Scan := do
  let s ← s.dropKey
  let (content, c) ← readBlock literal s.indent s.cursor
  some { s.push (.text content false) with keyAllowed := true, cursor := c }

def quoted (s : Scan) (single : Bool) : Option Scan := do
  let s ← s.noteKey
  let (content, c) ← readQuoted single s.cursor
  some { s.push (.text content false) with keyAllowed := false, cursor := c }

def plain (s : Scan) : Option Scan := do
  let s ← s.noteKey
  let p ← readPlain s.inFlow (s.indent + 1).toNat s.cursor
  some { s.push (.text p.text true) with keyAllowed := p.lineEnded, cursor := p.after }

def startsPlain (s : Scan) (ch : Char) : Bool :=
  if isSeparator ch then false
  else if ch == '-' then !s.cursor.peekNext.any isGapBlank
  else if ch == '?' || ch == ':' then !s.inFlow && !s.cursor.separatorNext
  else !isLeadingIndicator ch

/-- The next token, at the character with which it begins. -/
def token (s : Scan) (ch : Char) : Option Scan :=
  let c := s.cursor
  -- The order counts: marks of documents before dashes, and plain texts last.
  if c.column = 0 && ch == '%' then s.directive
  else if c.atMark '-' then s.documentMark .documentStart
  else if c.atMark '.' then s.documentMark .documentEnd
  else if ch == '[' then s.openFlow .flowSequence
  else if ch == '\x7b' then s.openFlow .flowMapping
  else if ch == ']' then s.closeFlow .flowSequenceEnd
  else if ch == '\x7d' then s.closeFlow .flowMappingEnd
  else if ch == ',' then s.comma
  else if ch == '-' && c.separatorNext then s.item
  else if ch == '?' && (s.inFlow || c.separatorNext) then s.key
  else if ch == ':' && (s.inFlow || c.separatorNext) then s.value
  else if ch == '*' then s.named .alias
  else if ch == '&' then s.named .anchor
  else if ch == '!' then s.tag
  else if ch == '|' && !s.inFlow then s.block true
  else if ch == '>' && !s.inFlow then s.block false
  else if ch == '\'' then s.quoted true
  else if ch == '"' then s.quoted false
  else if s.startsPlain ch then s.plain
  else none

/-- Scans to the end of the text. Every token takes a character at least. -/
def toEnd : Nat → Scan → Option Scan
  | 0, _ => none
  | steps + 1, s => do
    let s ← (s.toContent (s.cursor.rest.length + 1)).dropStale
    match s.cursor.peek with
    | none => s.finish
    | some ch =>
      let s ← (s.closeBlocks s.cursor.column).token ch
      toEnd steps s

end Scan

def Token.scan (text : List Char) : Option (List Token) := do
  guard (text.all isReadable)
  let s ← (Scan.start text).toEnd (text.length + 1)
  some s.tokens.toList

end TableMarkup.Yaml
