import TableMarkup.Members

/-!
# Entries in insertion order

Attributes and options are kept in the order in which their names first came, each name once.
Setting a name anew replaces its value in place; removing it closes the gap.

* `Ordered.replace` and `Ordered.take` also give back the value that was there before.
* `names_insert`, `names_erase`: the order law.
* `get?_insert_self`, `get?_insert_of_ne`, `get?_erase_self`, `get?_erase_of_ne`: what a look-up
  sees afterwards.
-/

namespace TableMarkup

namespace Members

variable {α : Type}

/-- Sets the value of a name, in place or at the end, and gives back the earlier one. -/
def replace (name : String) (value : α) : List (String × α) → Option α × List (String × α)
  | [] => (none, [(name, value)])
  | (first, v) :: rest =>
    if name = first then (some v, (first, value) :: rest)
    else
      let (before, rest) := replace name value rest
      (before, (first, v) :: rest)

def take (name : String) : List (String × α) → Option α × List (String × α)
  | [] => (none, [])
  | (first, v) :: rest =>
    if name = first then (some v, rest)
    else
      let (before, rest) := take name rest
      (before, (first, v) :: rest)

/-- A name that is not among the names has no value. -/
theorem get?_eq_none {name : String} {entries : Members α} (h : name ∉ names entries) :
    get? name entries = none := by
  induction entries with
  | nil => rfl
  | cons entry rest ih =>
    -- Both the first name and the names of the rest are another name.
    simp only [names, List.map_cons, List.mem_cons, not_or] at h ih
    simp [get?, h.1, ih h.2]

/-- A name that is there keeps its place; another one is added after all the others. -/
theorem names_replace (name : String) (value : α) (entries : Members α) :
    names (replace name value entries).2 =
      if name ∈ names entries then names entries else names entries ++ [name] := by
  induction entries with
  | nil => simp [replace, names]
  | cons entry rest ih =>
    unfold replace
    split
    -- The name of the first entry is set anew, and the search ends here.
    · next h => subst h; simp [names]
    · next h =>
      -- Any other first entry stays, and whether the name is there depends on the rest.
      simp only [names, List.map_cons, List.mem_cons, h, false_or] at ih ⊢
      by_cases hmem : name ∈ List.map Prod.fst rest <;> simp_all

/-- To take a name closes the gap it leaves. Only the first entry of the name goes, as in
`List.erase`. -/
theorem names_take (name : String) (entries : Members α) :
    names (take name entries).2 = (names entries).erase name := by
  induction entries with
  | nil => simp [take, names]
  | cons entry rest ih =>
    unfold take
    split
    · next h => subst h; simp [names]
    · next h =>
      simp only [names, List.map_cons] at ih ⊢
      rw [ih, List.erase_cons_tail (by simpa using Ne.symm h)]

theorem replace_fst (name : String) (value : α) (entries : Members α) :
    (replace name value entries).1 = get? name entries := by
  induction entries with
  | nil => rfl
  | cons entry rest ih => unfold replace; split <;> simp_all [get?]

theorem take_fst (name : String) (entries : Members α) :
    (take name entries).1 = get? name entries := by
  induction entries with
  | nil => rfl
  | cons entry rest ih => unfold take; split <;> simp_all [get?]

/-- A look-up after a name was set: the new value under that name, the old values under all
others. -/
theorem get?_replace (name other : String) (value : α) (entries : Members α) :
    get? other (replace name value entries).2 =
      if other = name then some value else get? other entries := by
  induction entries with
  | nil => simp [replace, get?]
  | cons entry rest ih =>
    unfold replace
    split
    · next h => subst h; simp only [get?]; split <;> rfl
    · next h =>
      -- The first entry is kept, so the look-up ends there or goes on as it did before.
      by_cases ho : other = entry.1
      · subst ho; simp [get?, Ne.symm h]
      · simp only [get?, ho, ↓reduceIte, ih]

/-- To take one name leaves the values of all others. -/
theorem get?_take_of_ne {name other : String} (hne : other ≠ name) (entries : Members α) :
    get? other (take name entries).2 = get? other entries := by
  induction entries with
  | nil => rfl
  | cons entry rest ih =>
    unfold take
    split
    · next h => subst h; simp [get?, hne]
    · simp only [get?, ih]

end Members

/-- Entries in the order in which their names first came, no name twice. -/
structure Ordered (α : Type) where
  entries : List (String × α)
  nodup : (Members.names entries).Nodup

namespace Ordered

variable {α : Type}

def empty : Ordered α := ⟨[], List.nodup_nil⟩

instance : Inhabited (Ordered α) := ⟨empty⟩

def names (t : Ordered α) : List String :=
  Members.names t.entries

def get? (t : Ordered α) (name : String) : Option α :=
  Members.get? name t.entries

/-- Sets the value of a name, in place or at the end, and gives back the earlier one. -/
def replace (t : Ordered α) (name : String) (value : α) : Option α × Ordered α :=
  ((Members.replace name value t.entries).1, {
    entries := (Members.replace name value t.entries).2
    nodup := by
      rw [Members.names_replace]
      split
      · exact t.nodup
      · next h => exact List.nodup_append.mpr ⟨t.nodup, by simp, by grind⟩ })

def take (t : Ordered α) (name : String) : Option α × Ordered α :=
  ((Members.take name t.entries).1, {
    entries := (Members.take name t.entries).2
    nodup := by rw [Members.names_take]; exact t.nodup.erase _ })

/-- Sets the value of a name, in place or at the end. -/
def insert (t : Ordered α) (name : String) (value : α) : Ordered α :=
  (t.replace name value).2

def erase (t : Ordered α) (name : String) : Ordered α :=
  (t.take name).2

def size (t : Ordered α) : Nat :=
  t.entries.length

@[ext] theorem ext {s t : Ordered α} (h : s.entries = t.entries) : s = t := by
  cases s; cases t; simp_all

@[simp] theorem replace_fst (t : Ordered α) (name : String) (value : α) :
    (t.replace name value).1 = t.get? name :=
  Members.replace_fst ..

@[simp] theorem take_fst (t : Ordered α) (name : String) : (t.take name).1 = t.get? name :=
  Members.take_fst ..

/-- A new name comes last; a known one keeps its place. -/
theorem names_insert (t : Ordered α) (name : String) (value : α) :
    (t.insert name value).names = if name ∈ t.names then t.names else t.names ++ [name] :=
  Members.names_replace ..

/-- Without a name the others keep their order. -/
theorem names_erase (t : Ordered α) (name : String) :
    (t.erase name).names = t.names.erase name :=
  Members.names_take ..

@[simp] theorem get?_insert_self (t : Ordered α) (name : String) (value : α) :
    (t.insert name value).get? name = some value := by
  simp [insert, replace, get?, Members.get?_replace]

theorem get?_insert_of_ne (t : Ordered α) {name other : String} (hne : other ≠ name) (value : α) :
    (t.insert name value).get? other = t.get? other := by
  simp [insert, replace, get?, Members.get?_replace, hne]

@[simp] theorem get?_erase_self (t : Ordered α) (name : String) :
    (t.erase name).get? name = none := by
  -- That no name comes twice is used here: a second entry of the name would come to light.
  refine Members.get?_eq_none ?_
  show name ∉ (t.erase name).names
  rw [names_erase]
  exact List.Nodup.not_mem_erase t.nodup

theorem get?_erase_of_ne (t : Ordered α) {name other : String} (hne : other ≠ name) :
    (t.erase name).get? other = t.get? other :=
  Members.get?_take_of_ne hne _

end Ordered

end TableMarkup
