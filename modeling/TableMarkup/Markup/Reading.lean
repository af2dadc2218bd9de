import TableMarkup.Json.Assembly
import TableMarkup.Markup.Element

/-!
# Reading elements

A document is written in JSON: an element is an object with the fields `tag`, `attributes` and
`children`, or an array of them in this order. Only the tag has to be there. Fields of other names
are skipped. Attributes are set in the order in which they are written.

* `Attributes.parse` and `Element.parse` read a text, and tell the first thing that is wrong with it.
-/

namespace TableMarkup

open Json (Event Sink Assembly)

namespace Attributes

inductive Reading where
  | start
  | open (read : Attributes)
  | value (read : Attributes) (name : String) (assembly : Assembly)
  | done (read : Attributes)

def expected : String := "a map of attribute names to values"

def Reading.accept : Reading → Event → Except String Reading
  | .start, .openObject => .ok (.open .empty)
  | .start, e => .error (e.unexpected expected)
  | .open read, .key name => .ok (.value read name .start)
  | .open read, _ => .ok (.done read)
  | .value read name assembly, e =>
    match assembly.accept e with
    | .done j => .ok (.open (read.insert name (.ofJson j)))
    | building => .ok (.value read name building)
  | .done read, _ => .ok (.done read)

def Reading.sink : Sink Reading where
  accept := Reading.accept
  skips _ := false
  room _ := true

def parse (text : List Char) : Except Fault Attributes := do
  match ← Json.read Reading.sink .start text with
  | .done read => .ok read
  | _ => .error .ended

end Attributes

namespace Element

inductive Field where
  | tag
  | attributes
  | children
deriving DecidableEq

structure Draft where
  byPosition : Bool
  tag : Option String
  attributes : Option Attributes
  children : Option (List Element)

inductive Next where
  | name
  | field (f : Field)
  | other
  | close
deriving DecidableEq

/-- The elements around the one that is being read, innermost first, each with those of its children
that are complete, last first. -/
abbrev Outer := List (Draft × List Element)

inductive Reading where
  /-- An element comes next; among the children of another it may be their end. -/
  | element (outer : Outer)
  | inside (outer : Outer) (d : Draft) (next : Next)
  | attributes (outer : Outer) (d : Draft) (read : Attributes.Reading)
  | done (e : Element)

def Reading.start : Reading := .element []

def Draft.after (d : Draft) : Field → Next
  | .tag => if d.byPosition then .field .attributes else .name
  | .attributes => if d.byPosition then .field .children else .name
  | .children => if d.byPosition then .close else .name

def Draft.finish (d : Draft) (outer : Outer) : Except String Reading :=
  match d.tag with
  | none =>
    -- In an array the tag comes first, so one without a tag is empty.
    .error (if d.byPosition then "invalid length 0, expected struct Element with 3 elements"
      else "missing field `tag`")
  | some tag =>
    let e : Element := ⟨tag, d.attributes.getD .empty, d.children.getD []⟩
    match outer with
    | [] => .ok (.done e)
    -- Siblings are kept last first, so a complete one goes to the front.
    | (parent, siblings) :: outer => .ok (.element ((parent, e :: siblings) :: outer))

def Draft.named (d : Draft) (outer : Outer) (name : String) : Except String Reading :=
  let field (f : Field) (isRead : Bool) : Except String Reading :=
    if isRead then .error ("duplicate field `" ++ name ++ "`") else .ok (.inside outer d (.field f))
  if name = "tag" then field .tag d.tag.isSome
  else if name = "attributes" then field .attributes d.attributes.isSome
  else if name = "children" then field .children d.children.isSome
  else .ok (.inside outer d .other)

def Draft.fieldEvent (d : Draft) (outer : Outer) (f : Field) (e : Event) : Except String Reading :=
  match f, e with
  | _, .closeArray => d.finish outer
  | .tag, .string s => .ok (.inside outer { d with tag := some s } (d.after .tag))
  | .tag, e => .error (e.unexpected "a string")
  -- Attributes have a reading of their own, which goes on until their bracket closes.
  | .attributes, e => (Attributes.Reading.start.accept e).map (.attributes outer d)
  | .children, .openArray => .ok (.element ((d, []) :: outer))
  | .children, e => .error (e.unexpected "a sequence")

def Reading.accept : Reading → Event → Except String Reading
  | .element outer, .openObject => .ok (.inside outer ⟨false, none, none, none⟩ .name)
  | .element outer, .openArray => .ok (.inside outer ⟨true, none, none, none⟩ (.field .tag))
  | .element ((d, siblings) :: outer), .closeArray =>
    .ok (.inside outer { d with children := some siblings.reverse } (d.after .children))
  | .element _, e => .error (e.unexpected "struct Element")
  | .inside outer d .name, .key name => d.named outer name
  | .inside outer d .other, .key name => d.named outer name
  | .inside outer d (.field f), e => d.fieldEvent outer f e
  | .inside outer d _, _ => d.finish outer
  | .attributes outer d read, e =>
    match read.accept e with
    | .ok (.done whole) =>
      .ok (.inside outer { d with attributes := some whole } (d.after .attributes))
    | .ok read => .ok (.attributes outer d read)
    | .error message => .error message
  | .done e, _ => .ok (.done e)

def Reading.sink : Sink Reading where
  accept := Reading.accept
  skips
    | .inside _ _ .other => true
    | _ => false
  room
    | .inside _ _ .close => false
    | _ => true

def parse (text : List Char) : Except Fault Element := do
  match ← Json.read Reading.sink .start text with
  | .done e => .ok e
  | _ => .error .ended

end Element

end TableMarkup
