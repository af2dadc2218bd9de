import TableMarkup.Rendering.Renderer

/-!
# The recording renderer

A renderer that makes nothing and keeps a record of what it was asked for. It holds one instance for
each key. The key of an element is its `id`; an element without one carries its key in the attribute
`data-instance-key`, where it is stamped when the element is first seen.

* `Recording.keyFor` is the key of an element, and the attributes with the key on them.
* `Recording.initialise` puts an instance in place of an earlier one of its key, if the configuration
  allows that, and refuses the element otherwise.
-/

namespace TableMarkup

structure Instance where
  /-- How many tables had been made before it. -/
  id : Nat
  key : String
  config : TableConfig

structure Recording where
  version : Option Version
  /-- The tables that are there, oldest first. -/
  instances : List Instance
  /-- How many tables have been made, including those that gave way. -/
  created : Nat

namespace Recording

def fresh (version : Option Version) : Recording :=
  { version, instances := [], created := 0 }

/-- The attribute that carries the key of an element without an `id`. -/
def keyAttribute : String := "data-instance-key"

/-- The key that an element has: its `id`, or what is stamped on it. -/
def keyOf? (e : Element) : Option String :=
  e.id? <|> e.attributes.text? keyAttribute

/-- The key for an element that has none. -/
def newKey (r : Recording) (e : Element) : String :=
  e.tag ++ "-" ++ String.ofList (Text.digits r.created)

/-- The key of an element, and the attributes of the element with the key on them. -/
def keyFor (r : Recording) (e : Element) : String × Attributes :=
  match keyOf? e with
  | some key => (key, e.attributes)
  | none => (r.newKey e, e.attributes.insert keyAttribute (.string (r.newKey e)))

def instance? (r : Recording) (key : String) : Option Instance :=
  r.instances.find? (·.key = key)

/-- The record after one more table has been made, in place of an earlier one of its key. -/
def record (r : Recording) (key : String) (config : TableConfig) : Recording :=
  { r with
    instances := r.instances.eraseP (·.key = key) ++ [⟨r.created, key, config⟩]
    created := r.created + 1 }

/-- Records a table, unless one of its key is there and is not to give way. -/
def initialise (r : Recording) (e : Element) (config : TableConfig) :
    Attempt Refusal Recording Nat :=
  let (key, attributes) := r.keyFor e
  -- The stamp stays on the element also where it is refused.
  if (r.instance? key).isSome && !config.destroys then
    ⟨.error (.occupied key), attributes, r⟩
  else ⟨.ok r.created, attributes, r.record key config⟩

/-- The renderer. Its handles are the numbers of the tables. -/
def renderer : Renderer Recording Nat where
  version := Recording.version
  initialise := initialise

end Recording

end TableMarkup
