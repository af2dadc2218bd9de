import TableMarkup.Markup.Attributes

/-!
# Elements

A document is a tree of elements with a tag, attributes and children. Tags carry no letter case.

* `Element.walk` lists an element and its descendants in document order.
* `Element.headerCells` are the cells of the head of a table: every `th` inside a `thead`.
* `Element.at?` and `Element.update` find and change the element at the end of a path of child
  positions.
-/

namespace TableMarkup

structure Element where
  tag : String
  attributes : Attributes
  children : List Element
deriving Inhabited

namespace Element

def ofTag (tag : String) : Element :=
  { tag, attributes := .empty, children := [] }

def hasTag (e : Element) (tag : String) : Bool :=
  Text.SameLetters e.tag tag

def id? (e : Element) : Option String :=
  e.attributes.text? "id"

mutual
/-- The element and its descendants in document order. -/
def walk : Element → List Element
  | ⟨tag, attributes, children⟩ => ⟨tag, attributes, children⟩ :: walkAll children

def walkAll : List Element → List Element
  | [] => []
  | e :: es => walk e ++ walkAll es
end

mutual
/-- The header cells below the element; `inHead` says whether it stands in the head of a table. -/
def cellsBelow (inHead : Bool) : Element → List Element
  | ⟨_, _, children⟩ => cellsAmong inHead children

def cellsAmong (inHead : Bool) : List Element → List Element
  | [] => []
  | e :: es =>
    -- A cell may stand at any depth below the head.
    let here := inHead || e.hasTag "thead"
    (if here && e.hasTag "th" then [e] else []) ++ cellsBelow here e ++ cellsAmong inHead es
end

/-- Every `th` below the element that stands in a `thead` below the element, in document order. -/
def headerCells (e : Element) : List Element :=
  cellsBelow false e

def countTag (e : Element) (tag : String) : Nat :=
  e.walk.countP (·.hasTag tag)

/-- The element at the end of a path of child positions. -/
def at? (e : Element) : List Nat → Option Element
  | [] => some e
  | i :: path => (e.children[i]?).bind (·.at? path)

/-- The tree with the element at the end of a path changed. A path that leads nowhere changes
nothing. -/
def update (f : Element → Element) : List Nat → Element → Element
  | [], e => f e
  | i :: path, e => { e with children := e.children.modify i (update f path) }

mutual
/-- The element as the text of a JSON object; what is empty is left out. -/
def serialized : Element → List Char
  | ⟨tag, attributes, children⟩ =>
    Json.braced
      (Json.namedMember "tag" (Json.quoted tag) ::
        (if attributes.isEmpty then []
          else [Json.namedMember "attributes" attributes.serialized]) ++
        (if children.isEmpty then []
          else [Json.namedMember "children" (Json.bracketed (serializedAll children))]))

def serializedAll : List Element → List (List Char)
  | [] => []
  | e :: es => serialized e :: serializedAll es
end

end Element

end TableMarkup
