import Mathlib.Data.List.Induction
import TableMarkup.Ordered

/-!
# Runs of edits

A table is edited by setting names and by taking names out, in any order and any number of times. What
is found under a name afterwards is what its last edit left there, and the names that are left stand in
the order in which they first came since they were last taken out.

* `Ordered.run`: a table after a list of edits.
* `Edit.latest?`: what the last of the edits about a name left there.
* `Edit.standing`: the names of the insertions that no later removal undoes, in order.
* `get?_run`, `names_run`: what a look-up sees after a run, and in which order the names stand.
-/

namespace TableMarkup.Ordered

variable {α : Type}

inductive Edit (α : Type) where
  | insert (name : String) (value : α)
  | erase (name : String)

def edit (t : Ordered α) : Edit α → Ordered α
  | .insert name value => t.insert name value
  | .erase name => t.erase name

/-- The table after some edits, one after the other. -/
def run (t : Ordered α) (edits : List (Edit α)) : Ordered α :=
  edits.foldl edit t

theorem run_append (t : Ordered α) (edits later : List (Edit α)) :
    t.run (edits ++ later) = (t.run edits).run later :=
  List.foldl_append ..

theorem run_concat (t : Ordered α) (edits : List (Edit α)) (e : Edit α) :
    t.run (edits ++ [e]) = (t.run edits).edit e :=
  t.run_append edits [e]

namespace Edit

def name : Edit α → String
  | .insert name _ => name
  | .erase name => name

/-- What is found under the name right after the edit. -/
def value? : Edit α → Option α
  | .insert _ value => some value
  | .erase _ => none

def erases (name : String) : Edit α → Bool
  | .insert _ _ => false
  | .erase other => other = name

/-- What the last of the edits about such a name left there; nothing if there is no such edit. -/
def latest? (about : String → Prop) [DecidablePred about] (edits : List (Edit α)) : Option α :=
  (edits.filter (about ·.name)).getLast?.bind value?

/-- The names of the insertions that no later removal undoes, in order and with repetitions. -/
def standing : List (Edit α) → List String
  | [] => []
  | .insert name _ :: later =>
    if later.any (erases name) then standing later else name :: standing later
  | .erase _ :: later => standing later

/-- A later edit counts if it is about such a name, and else the ones before it do. -/
theorem latest?_concat (about : String → Prop) [DecidablePred about] (edits : List (Edit α))
    (e : Edit α) :
    latest? about (edits ++ [e]) = if about e.name then e.value? else latest? about edits := by
  unfold latest?
  rw [List.filter_append]
  by_cases h : about e.name
  · simp [h]
  · simp [h]

/-- One insertion more stands behind the others, since nothing comes after it. -/
theorem standing_concat_insert (edits : List (Edit α)) (name : String) (value : α) :
    standing (edits ++ [.insert name value]) = standing edits ++ [name] := by
  induction edits with
  | nil => rfl
  | cons e edits ih =>
    cases e with
    | erase other => exact ih
    | insert other v =>
      have hany : (edits ++ [Edit.insert name value]).any (erases other) =
          edits.any (erases other) := by
        simp [erases]
      rw [List.cons_append, standing, standing, hany, ih]
      split <;> rfl

/-- One removal more takes away all insertions of its name. -/
theorem standing_concat_erase (edits : List (Edit α)) (name : String) :
    standing (edits ++ [.erase name]) = (standing edits).filter (· ≠ name) := by
  induction edits with
  | nil => rfl
  | cons e edits ih =>
    cases e with
    | erase other => exact ih
    | insert other v =>
      rw [List.cons_append, standing, standing, List.any_append, ih]
      by_cases hname : other = name
      · -- The last removal undoes this insertion, whether or not an earlier one does.
        subst hname
        simp only [List.any_cons, erases, decide_true, Bool.true_or, Bool.or_true, if_true]
        split
        · rfl
        · rw [List.filter_cons_of_neg (by simp)]
      -- Of another name, it undoes nothing here.
      · have hone : [Edit.erase (α := α) name].any (erases other) = false := by
          simpa [erases] using Ne.symm hname
        rw [hone, Bool.or_false]
        split
        · rfl
        · rw [List.filter_cons_of_pos (by simpa using hname)]

end Edit

/-- To leave elements out, and to keep the first of each that is left, can be done in either order. -/
theorem eraseDups_filter (p : String → Bool) (names : List String) :
    (names.filter p).eraseDups = names.eraseDups.filter p := by
  match names with
  | [] => rfl
  | name :: rest =>
    -- Recursion on the names without the repetitions of the first one, as `eraseDups` goes.
    have hrest := eraseDups_filter p (rest.filter fun other => !other == name)
    rw [List.eraseDups_cons, List.filter_cons, List.filter_cons, ← hrest]
    split
    · rw [List.eraseDups_cons, List.filter_filter, List.filter_filter]
      simp only [Bool.and_comm]
    · next hname =>
      -- The name is left out in any case, so that nothing changes without its repetitions.
      congr 1
      rw [List.filter_filter]
      refine List.filter_congr fun other _ => ?_
      by_cases hsame : other = name
      · simp [hsame, hname]
      · simp [hsame]
termination_by names.length
decreasing_by
  have := List.length_filter_le (fun other => !other == name) rest
  simp only [List.length_cons]
  omega

/-- A look-up sees what the last edit of the name left there. -/
theorem get?_run (edits : List (Edit α)) (name : String) :
    (empty.run edits).get? name = Edit.latest? (· = name) edits := by
  induction edits using List.reverseRecOn with
  | nil => rfl
  | append_singleton edits e ih =>
    rw [run_concat, Edit.latest?_concat]
    by_cases hname : e.name = name
    · rw [if_pos hname]
      subst hname
      cases e with
      | insert name value => exact get?_insert_self ..
      | erase name => exact get?_erase_self ..
    · rw [if_neg hname, ← ih]
      cases e with
      | insert other value => exact get?_insert_of_ne _ (Ne.symm hname) _
      | erase other => exact get?_erase_of_ne _ (Ne.symm hname)

/-- The names stand in the order in which they first came since they were last taken out. -/
theorem names_run (edits : List (Edit α)) :
    (empty.run edits).names = (Edit.standing edits).eraseDups := by
  induction edits using List.reverseRecOn with
  | nil => rfl
  | append_singleton edits e ih =>
    rw [run_concat]
    cases e with
    | insert name value =>
      show ((empty.run edits).insert name value).names = _
      rw [names_insert, Edit.standing_concat_insert, List.eraseDups_append, ih]
      -- A name that stands already keeps its place, as in a table.
      by_cases hmem : name ∈ Edit.standing edits
      · rw [if_pos (List.mem_eraseDups.mpr hmem)]
        simp [List.removeAll, hmem]
      · rw [if_neg (fun h => hmem (List.mem_eraseDups.mp h))]
        simp [List.removeAll, hmem, List.eraseDups_cons]
    | erase name =>
      have hnodup : (empty.run edits).names.Nodup := (empty.run edits).nodup
      show ((empty.run edits).erase name).names = _
      rw [names_erase, Edit.standing_concat_erase, eraseDups_filter, ← ih, hnodup.erase_eq_filter]
      refine List.filter_congr fun other _ => ?_
      rw [Bool.eq_iff_iff]
      simp

end TableMarkup.Ordered
