import TableMarkup.Yaml.Token

/-!
# Documents

The value that a YAML document holds is a node: a text, a sequence or a mapping. A node may be named
by an anchor, and its alias stands for it wherever it is written.

Aliases stand for numbers, not for names. A node with an anchor gets as its number how many names have
been met before it, and the name stands for that number from then on. So a name that is given again may
share its number with the name that comes after it, and a number stands for the last node that got it.

* `Document.ofText` reads a text that holds at most one document.
* `Document.text?` is the text of a node, also through an alias.
-/

namespace TableMarkup.Yaml

inductive Node where
  | text (content : String) (plain : Bool)
  | sequence (items : List Node)
  | mapping (members : List (Node × Node))
  | alias (number : Nat)
deriving Inhabited

structure Document where
  root : Option Node
  /-- What the nodes with numbers are, the last one first: the content of a text, and nothing for a
  sequence or mapping. -/
  numbered : List (Nat × Option String)

def Document.text? (d : Document) : Node → Option String
  | .text content _ => some content
  | .alias number => (d.numbered.lookup number).join
  | _ => none

namespace Node

/-- What is left of a document, and what its anchors and tag handles stand for. -/
structure Source where
  tokens : List Token
  /-- The names of the anchors met so far, each with its number. -/
  anchors : List (List Char × Nat)
  /-- What the nodes with numbers are, the last one first. -/
  numbered : List (Nat × Option String)
  handles : List (List Char)

/-- Reads a part of a document, if it is well formed. -/
abbrev Reader := StateT Source Option

def peek : Reader (Option Token) := do
  return (← get).tokens.head?

def advance : Reader Unit :=
  modify fun s => { s with tokens := s.tokens.tail }

/-- Passes over the next token if it is the given one, and says whether it was. -/
def accept (t : Token) : Reader Bool := do
  if (← peek) = some t then
    advance
    return true
  else return false

/-- Whether the next token is one of the given ones, or the document ends here. -/
def stopsAt (ts : List Token) : Reader Bool := do
  match ← peek with
  | none => return false
  | some t => return ts.contains t

def missing : Node := .text "" true

structure Properties where
  anchor : Option (List Char)
  tagged : Bool

def standardHandles : List (List Char) := [[], ['!'], ['!', '!']]

def properties : Nat → Properties → Reader Properties
  | 0, p => pure p
  | n + 1, p => do
    match ← peek with
    | some (.anchor name) =>
      if p.anchor.isSome then return p
      advance
      properties n { p with anchor := some name }
    | some (.tag handle) =>
      if p.tagged then return p
      guard ((← get).handles.contains handle)
      advance
      properties n { p with tagged := true }
    | _ => return p

/-- Gives the node that begins here its number, if it has an anchor. -/
def number (p : Properties) (content : Option String) : Reader Unit :=
  match p.anchor with
  | some name => modify fun s =>
    let n := s.anchors.length
    { s with
      anchors := (name, n) :: s.anchors.filter (·.1 ≠ name)
      numbered := (n, content) :: s.numbered }
  | none => pure ()

/-- A node of which only the anchor or tag is written. -/
def bare (p : Properties) : Reader Node := do
  guard (p.anchor.isSome || p.tagged)
  number p (some "")
  return missing

mutual
/-- Reads a node. In a block it may be a block itself; after a key, a sequence need not be indented. -/
def node (inBlock afterKey : Bool) : Nat → Reader Node
  | 0 => failure
  | steps + 1 => do
    if let some (.alias name) ← peek then
      advance
      match (← get).anchors.lookup name with
      | some n => return .alias n
      | none => failure
    else
      let p ← properties 2 ⟨none, false⟩
      let collection (read : Reader Node) : Reader Node := do
        number p none
        read
      match ← peek with
      | some .item =>
        if afterKey then collection (.sequence <$> looseItems steps) else bare p
      | some (.text content plain) => do
        advance
        number p (some (String.ofList content))
        return .text (String.ofList content) plain
      | some .flowSequence => advance; collection (.sequence <$> flowItems true steps)
      | some .flowMapping => advance; collection (.mapping <$> flowMembers true steps)
      | some .blockSequence =>
        if inBlock then advance; collection (.sequence <$> blockItems steps) else bare p
      | some .blockMapping =>
        if inBlock then advance; collection (.mapping <$> blockMembers steps) else bare p
      | _ => bare p

/-- Reads a node unless one of the given tokens shows that none is written. -/
def nodeUnless (ts : List Token) (inBlock afterKey : Bool) : Nat → Reader Node
  | 0 => failure
  | steps + 1 => do
    if ← stopsAt ts then return missing else node inBlock afterKey steps

def blockItems : Nat → Reader (List Node)
  | 0 => failure
  | steps + 1 => do
    if ← accept .item then
      let first ← nodeUnless [.item, .blockEnd] true false steps
      return first :: (← blockItems steps)
    else
      guard (← accept .blockEnd)
      return []

/-- The items of a sequence that is not indented further than its key. -/
def looseItems : Nat → Reader (List Node)
  | 0 => failure
  | steps + 1 => do
    if ← accept .item then
      let first ← nodeUnless [.item, .key, .value, .blockEnd] true false steps
      return first :: (← looseItems steps)
    else return []

def blockMembers : Nat → Reader (List (Node × Node))
  | 0 => failure
  | steps + 1 => do
    if ← accept .key then
      let k ← nodeUnless [.key, .value, .blockEnd] true true steps
      let v ← if ← accept .value then nodeUnless [.key, .value, .blockEnd] true true steps
        else pure missing
      return (k, v) :: (← blockMembers steps)
    else
      guard (← accept .blockEnd)
      return []

/-- The items of a sequence in brackets. An item with a colon is a mapping of one member. -/
def flowItems (first : Bool) : Nat → Reader (List Node)
  | 0 => failure
  | steps + 1 => do
    if ← accept .flowSequenceEnd then return []
    unless first do guard (← accept .comma)
    if ← accept .flowSequenceEnd then return []
    let item ←
      if ← accept .key then do
        let k ←
          if ← stopsAt [.value, .comma, .flowSequenceEnd] then advance; pure missing
          else node false false steps
        let v ← if ← accept .value then nodeUnless [.comma, .flowSequenceEnd] false false steps
          else pure missing
        pure (.mapping [(k, v)])
      else node false false steps
    return item :: (← flowItems false steps)

/-- The members of a mapping in braces. A member without a colon has no value. -/
def flowMembers (first : Bool) : Nat → Reader (List (Node × Node))
  | 0 => failure
  | steps + 1 => do
    if ← accept .flowMappingEnd then return []
    unless first do guard (← accept .comma)
    if ← accept .flowMappingEnd then return []
    let member ←
      if ← accept .key then do
        let k ← nodeUnless [.value, .comma, .flowMappingEnd] false false steps
        let v ← if ← accept .value then nodeUnless [.comma, .flowMappingEnd] false false steps
          else pure missing
        pure (k, v)
      else do
        let k ← node false false steps
        pure (k, missing)
    return member :: (← flowMembers false steps)
end

/-- Reads the directives of a document, and says whether there are any. -/
def directives : Nat → (versioned any : Bool) → Reader Bool
  | 0, _, any => pure any
  | steps + 1, versioned, any => do
    match ← peek with
    | some (.version major minor) =>
      guard (!versioned && major = 1 && (minor = 1 || minor = 2))
      advance
      directives steps true true
    | some (.tagHandle handle) =>
      guard (!((← get).handles.contains handle))
      modify fun s => { s with handles := handle :: s.handles }
      advance
      directives steps versioned true
    | _ => return any

def skipDocumentEnds : Reader Unit :=
  modify fun s => { s with tokens := s.tokens.dropWhile (· = .documentEnd) }

/-- Reads a text of at most one document, and gives its node if there is a document. -/
def document (steps : Nat) : Reader (Option Node) := do
  if (← peek).isNone then return none
  let directed ← do
    modify fun s => { s with handles := [] }
    directives steps false false
  modify fun s => { s with handles := s.handles ++ standardHandles }
  let root ←
    if ← accept .documentStart then
      if (← peek).isNone || (← stopsAt [.documentStart, .documentEnd]) then pure missing
      else node true false steps
    else do
      -- After directives the document has to be begun by a mark.
      guard !directed
      node true false steps
  skipDocumentEnds
  guard (← peek).isNone
  return some root

end Node

/-- Reads a text of at most one document, if it is well formed. -/
def Document.ofText (text : String) : Option Document := do
  let tokens ← Token.scan text.toList
  let (root, source) ← (Node.document (4 * tokens.length + 8)).run ⟨tokens, [], [], []⟩
  return ⟨root, source.numbered⟩

end TableMarkup.Yaml
