import TableMarkup.Markup.Element

/-!
# Selectors

A selector picks elements by their tag, by the text of one attribute, or by both.

* `Selector.picks` decides about one element, `Selector.find` searches a tree in document order.
* `Selector.render` writes a selector as `table[data-role="datatable"]`.
-/

namespace TableMarkup

structure Selector where
  /-- The tag to have, in whatever letter case. -/
  tag : Option String
  /-- The name of an attribute, and the text that has to be its value exactly. -/
  condition : Option (String × String)
deriving DecidableEq

namespace Selector

def any : Selector := ⟨none, none⟩

def ofTag (tag : String) : Selector := ⟨some tag, none⟩

def withAttribute (s : Selector) (name value : String) : Selector :=
  { s with condition := some (name, value) }

def markedTable : Selector :=
  (ofTag "table").withAttribute "data-role" "datatable"

def picks (s : Selector) (e : Element) : Bool :=
  s.tag.all (e.hasTag ·) &&
    s.condition.all fun (name, value) => e.attributes.text? name = some value

def find (s : Selector) (root : Element) : List Element :=
  root.walk.filter s.picks

def render (s : Selector) : String :=
  s.tag.getD "*" ++
    match s.condition with
    | some (name, value) => "[" ++ name ++ "=\"" ++ value ++ "\"]"
    | none => ""

end Selector

end TableMarkup
