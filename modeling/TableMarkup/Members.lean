/-!
# Members in name order

The members of an object, kept in the order of their names, each name at most once. Names are
compared code point by code point.

* `insert` puts a member at its place and replaces an earlier one of that name.
* `get?` finds a member.
* `Sorted` says that names ascend strictly; `sorted_insert` and `sorted_ofList` keep it.
* `get?_insert_self` and `get?_insert_of_ne` say what a look-up sees after an insertion.
-/

namespace TableMarkup

/-- Named members, meant to be kept in strictly ascending order of their names. -/
abbrev Members (α : Type) := List (String × α)

namespace Members

variable {α β : Type}

/-- The members with one more, or with the member of that name replaced. -/
def insert (name : String) (value : α) : Members α → Members α
  | [] => [(name, value)]
  | (first, v) :: rest =>
    if name < first then (name, value) :: (first, v) :: rest
    else if name = first then (name, value) :: rest
    else (first, v) :: insert name value rest

def get? (name : String) : Members α → Option α
  | [] => none
  | (first, v) :: rest => if name = first then some v else get? name rest

/-- The members of a list, of which the last of each name counts. -/
def ofList (entries : List (String × α)) : Members α :=
  entries.foldl (fun members entry => insert entry.1 entry.2 members) []

def names (members : Members α) : List String :=
  List.map Prod.fst members

/-- The names ascend strictly. -/
def Sorted (members : Members α) : Prop :=
  (names members).Pairwise (· < ·)

/-- To insert a name adds this name and loses none. -/
theorem mem_names_insert {name other : String} {value : α} {members : Members α} :
    other ∈ names (insert name value members) ↔ other = name ∨ other ∈ names members := by
  induction members with
  | nil => simp [insert, names]
  | cons entry rest ih =>
    obtain ⟨first, v⟩ := entry
    simp only [names] at ih ⊢
    unfold insert
    split
    -- The cases are those of `insert`: before the first member, in its place, or after it.
    · simp
    · split
      · next h => simp [h]
      · simp only [List.map_cons, List.mem_cons, ih]
        grind

/-- The names still ascend after an insertion, so an object is in name order however it was
built. -/
theorem sorted_insert {name : String} {value : α} {members : Members α}
    (h : Sorted members) : Sorted (insert name value members) := by
  induction members with
  | nil => simp [Sorted, names, insert]
  | cons entry rest ih =>
    obtain ⟨first, v⟩ := entry
    -- Induction on the members: the rest is in order, and its names come after the first.
    have hrest : Sorted rest := List.Pairwise.of_cons h
    have hfirst : ∀ other ∈ names rest, first < other := (List.pairwise_cons.mp h).1
    unfold insert
    split
    -- The new name comes before the first one, and so before all others.
    · next hlt =>
      refine List.pairwise_cons.mpr ⟨?_, h⟩
      intro other hmem
      rcases List.mem_cons.mp hmem with rfl | hmem
      · exact hlt
      · exact String.lt_trans hlt (hfirst other hmem)
    · next hlt =>
      split
      · next heq => subst heq; exact List.pairwise_cons.mpr ⟨hfirst, hrest⟩
      · next hne =>
        refine List.pairwise_cons.mpr ⟨?_, ih hrest⟩
        intro other hmem
        -- What was inserted further on comes after the first name, since it is neither less nor
        -- equal.
        rcases mem_names_insert.mp hmem with rfl | hmem
        · exact Std.lt_of_le_of_ne (Std.not_lt.mp hlt) (Ne.symm hne)
        · exact hfirst other hmem

/-- Whatever the order of a list, its members come in the order of their names. -/
theorem sorted_ofList (entries : List (String × α)) : Sorted (ofList entries) := by
  -- The fold inserts into members that are in order already, so the start is any such members.
  suffices ∀ (start : Members α), Sorted start →
      Sorted (entries.foldl (fun members entry => insert entry.1 entry.2 members) start) from
    this [] List.Pairwise.nil
  induction entries with
  | nil => exact fun _ h => h
  | cons entry rest ih => exact fun start h => ih _ (sorted_insert h)

@[simp] theorem get?_insert_self (name : String) (value : α) (members : Members α) :
    get? name (insert name value members) = some value := by
  induction members with
  | nil => simp [insert, get?]
  | cons entry rest ih =>
    unfold insert
    split
    · simp [get?]
    · split
      · simp [get?]
      · next hne => simp [get?, hne, ih]

/-- No other member is touched. -/
theorem get?_insert_of_ne {name other : String} (hne : other ≠ name) (value : α)
    (members : Members α) : get? other (insert name value members) = get? other members := by
  induction members with
  | nil => simp [insert, get?, hne]
  | cons entry rest ih =>
    unfold insert
    split
    · simp [get?, hne]
    · split
      · next heq => subst heq; simp [get?, hne]
      · simp only [get?, ih]

end Members

end TableMarkup
