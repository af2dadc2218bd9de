import TableMarkup.Json.Braces
import TableMarkup.Ordered
import TableMarkup.Text.Letters
import TableMarkup.Value.Printer

/-!
# Attributes

The attributes of an element are named values in the order in which they were first set. Names carry
no letter case: they are lowered on the way in, and looked up by their lowered form.

* `set` and `remove` give back the value that was there before, which is what `get?` saw: `set_fst`,
  `remove_fst`.
* `afterPrefix` lists the attributes whose names begin with a prefix, without it.
* `ofList` sets one attribute after the other.
-/

namespace TableMarkup

structure Attributes where
  table : Ordered Value
  /-- Names are kept in lower case. -/
  lower_names : ∀ name ∈ table.names, Text.lower name = name

namespace Attributes

def empty : Attributes :=
  ⟨.empty, by simp [Ordered.names, Ordered.empty, Members.names]⟩

instance : Inhabited Attributes := ⟨empty⟩

@[ext] theorem ext {a b : Attributes} (h : a.table = b.table) : a = b := by
  cases a; cases b; simp_all

def entries (a : Attributes) : List (String × Value) :=
  a.table.entries

def size (a : Attributes) : Nat :=
  a.table.size

def isEmpty (a : Attributes) : Bool :=
  a.entries.isEmpty

/-- The value of an attribute, in whatever letter case it is asked for. -/
def get? (a : Attributes) (name : String) : Option Value :=
  a.table.get? (Text.lower name)

def text? (a : Attributes) (name : String) : Option String :=
  (a.get? name).bind Value.text?

/-- Sets an attribute, and gives back the value that it takes the place of. -/
def set (a : Attributes) (name : String) (value : Value) : Option Value × Attributes :=
  let replaced := a.table.replace (Text.lower name) value
  (replaced.1, {
    table := replaced.2
    lower_names := by
      intro other h
      replace h : other ∈ (a.table.insert (Text.lower name) value).names := h
      rw [Ordered.names_insert] at h
      split at h
      · exact a.lower_names other h
      · rcases List.mem_append.mp h with h | h
        · exact a.lower_names other h
        · simp only [List.mem_singleton] at h; simp [h] })

/-- Takes an attribute away, and gives back its value. -/
def remove (a : Attributes) (name : String) : Option Value × Attributes :=
  let taken := a.table.take (Text.lower name)
  (taken.1, {
    table := taken.2
    lower_names := by
      intro other h
      replace h : other ∈ (a.table.erase (Text.lower name)).names := h
      rw [Ordered.names_erase] at h
      exact a.lower_names other (List.mem_of_mem_erase h) })

/-- What gives way to a new value is what a look-up saw. -/
@[simp] theorem set_fst (a : Attributes) (name : String) (value : Value) :
    (a.set name value).1 = a.get? name :=
  a.table.replace_fst (Text.lower name) value

/-- What is taken away is what a look-up saw. -/
@[simp] theorem remove_fst (a : Attributes) (name : String) : (a.remove name).1 = a.get? name :=
  a.table.take_fst (Text.lower name)

def insert (a : Attributes) (name : String) (value : Value) : Attributes :=
  (a.set name value).2

def erase (a : Attributes) (name : String) : Attributes :=
  (a.remove name).2

/-- The attributes that are set by a list of names and values, one after the other. -/
def ofList (entries : List (String × Value)) : Attributes :=
  entries.foldl (fun a entry => a.insert entry.1 entry.2) empty

/-- The attributes whose names begin with a prefix, in order and without the prefix. -/
def afterPrefix (a : Attributes) (start : String) : List (String × Value) :=
  a.entries.filterMap fun (name, value) =>
    (Text.afterPrefix? start name).map fun rest => (rest, value)

def serialized (a : Attributes) : List Char :=
  Json.braced (a.entries.map fun (name, value) => Json.namedMember name value.serialized)

end Attributes

end TableMarkup
