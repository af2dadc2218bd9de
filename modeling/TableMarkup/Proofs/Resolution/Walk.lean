import Mathlib.Data.List.Basic
import TableMarkup.Resolution.Resolve

/-!
# Walks along paths

A path is cut at its dots into segments. All segments but the last are names: the first of them is
looked up in the scope, and every further one in the value that was reached before. The last segment
says what is done in the end: a member is looked up, or a function is called.

* `PathStep.segments`, `PathStep.callOf?`: the segments of a path, and the call that a last segment
  writes, both told by the positions of separators.
* `Host.walk`, `Host.finish`: the walk over the names, and what is done where it ends.
* `Host.resolvePath_of_segments`: to resolve a path is to walk over its names and to finish with its
  last segment.
* `Host.walk_member`: a walk in a value is a matter of this value, `Value.along`.
-/

namespace TableMarkup

namespace PathStep

/-! ## Separators by their positions -/

/-- The segments of a path. It is cut at its first dot, if something stands before that dot, and what
stands after the dot is cut likewise. -/
def segments (text : List Char) : List (List Char) :=
  let dot := text.idxOf '.'
  if 0 < dot ∧ dot < text.length then text.take dot :: segments (text.drop (dot + 1)) else [text]
termination_by text.length
decreasing_by rw [List.length_drop]; omega

/-- The call that a segment writes: the name before its first opening parenthesis, if there is one
and something stands before it, and the text up to the first closing parenthesis, if there is one.
Nothing stands between the two where the closing one comes first. -/
def callOf? (segment : List Char) : Option (List Char × Option (List Char)) :=
  let opening := segment.idxOf '('
  let closing := segment.idxOf ')'
  if 0 < opening ∧ opening < segment.length then
    some (segment.take opening,
      if closing < segment.length then some ((segment.take closing).drop (opening + 1)) else none)
  else none

/-- The items of the JSON array whose body is written. -/
def itemsOf? (body : List Char) : Option (List Json) :=
  match Json.parse? ('[' :: body ++ [']']) with
  | some (.array items) => some items
  | _ => none

theorem segments_eq (text : List Char) : segments text =
    if 0 < text.idxOf '.' ∧ text.idxOf '.' < text.length then
      text.take (text.idxOf '.') :: segments (text.drop (text.idxOf '.' + 1))
    else [text] := by
  rw [segments]

theorem takeWhile_eq_take_idxOf (mark : Char) (text : List Char) :
    text.takeWhile (· ≠ mark) = text.take (text.idxOf mark) := by
  have hnot : (fun c => !decide (c ≠ mark)) = (· == mark) := by
    funext c
    rw [decide_not, Bool.not_not, beq_eq_decide]
  rw [List.takeWhile_eq_take_findIdx_not, hnot, List.idxOf]

theorem dropWhile_eq_drop_idxOf (mark : Char) (text : List Char) :
    text.dropWhile (· ≠ mark) = text.drop (text.idxOf mark) := by
  have hnot : (fun c => !decide (c ≠ mark)) = (· == mark) := by
    funext c
    rw [decide_not, Bool.not_not, beq_eq_decide]
  rw [List.dropWhile_eq_drop_findIdx_not, hnot, List.idxOf]

/-- A text that holds a mark is parted at the first one. -/
theorem take_append_cons_drop {mark : Char} {text : List Char}
    (h : text.idxOf mark < text.length) :
    text.take (text.idxOf mark) ++ mark :: text.drop (text.idxOf mark + 1) = text := by
  have hdrop : text.drop (text.idxOf mark) = mark :: text.drop (text.idxOf mark + 1) := by
    rw [List.drop_eq_getElem_cons h, List.getElem_idxOf]
  rw [← hdrop, List.take_append_drop]

/-- The first mark, told by its position. -/
theorem cutAt?_eq (mark : Char) (text : List Char) : cutAt? mark text =
    if 0 < text.idxOf mark ∧ text.idxOf mark < text.length then
      some (text.take (text.idxOf mark), text.drop (text.idxOf mark + 1))
    else none := by
  rw [cutAt?, takeWhile_eq_take_idxOf, dropWhile_eq_drop_idxOf]
  -- There is a mark, in front or further behind, or there is none.
  by_cases hlt : text.idxOf mark < text.length
  · have hlength : (text.take (text.idxOf mark)).length = text.idxOf mark := by
      rw [List.length_take]
      omega
    rw [List.drop_eq_getElem_cons hlt]
    -- A mark in front cuts nothing off.
    cases htake : text.take (text.idxOf mark) with
    | nil =>
      rw [htake, List.length_nil] at hlength
      rw [if_neg (by omega)]
    | cons c before =>
      rw [htake, List.length_cons] at hlength
      rw [if_pos ⟨by omega, hlt⟩]
  · rw [List.drop_of_length_le (by omega), if_neg (by omega)]
    cases text.take (text.idxOf mark) <;> rfl

/-- What stands between the first opening and the first closing parenthesis. A closing one that comes
first leaves nothing between the two. -/
theorem take_drop_between (before after : List Char) :
    let text := before ++ '(' :: after
    (if text.idxOf ')' < text.length then
        some ((text.take (text.idxOf ')')).drop (before.length + 1)) else none) =
      if ')' ∈ before then some []
      else if ')' ∈ after then some (after.takeWhile (· ≠ ')')) else none := by
  intro text
  have hlength : text.length = before.length + (after.length + 1) := by
    rw [List.length_append, List.length_cons]
  by_cases hname : ')' ∈ before
  · have hclosing : text.idxOf ')' < before.length := by
      rw [List.idxOf_append_of_mem hname]
      exact List.idxOf_lt_length_iff.mpr hname
    rw [if_pos hname, if_pos (by omega), List.drop_of_length_le]
    rw [List.length_take]
    omega
  · have hclosing : text.idxOf ')' = before.length + (after.idxOf ')' + 1) := by
      rw [List.idxOf_append_of_notMem hname, List.idxOf_cons_ne _ (by decide)]
    rw [if_neg hname]
    by_cases hmem : ')' ∈ after
    · have hlt := List.idxOf_lt_length_iff.mpr hmem
      have hbetween : (text.take (text.idxOf ')')).drop (before.length + 1) =
          after.take (after.idxOf ')') := by
        rw [hclosing, List.take_length_add_append, List.take_succ_cons, List.drop_length_add_append]
        rfl
      rw [if_pos hmem, if_pos (by omega), hbetween, takeWhile_eq_take_idxOf]
    · have hge : after.idxOf ')' = after.length := List.idxOf_eq_length_iff.mpr hmem
      rw [if_neg hmem, if_neg (by omega)]

/-- The arguments of a call are the items written between its parentheses. -/
theorem arguments?_eq (before after : List Char) :
    let text := before ++ '(' :: after
    arguments? before after =
      (if text.idxOf ')' < text.length then
        some ((text.take (text.idxOf ')')).drop (before.length + 1)) else none).bind itemsOf? := by
  intro text
  rw [take_drop_between, arguments?]
  -- Whatever stands between the parentheses is read as the items of an array.
  generalize (if ')' ∈ before then some []
    else if ')' ∈ after then some (after.takeWhile (· ≠ ')')) else none) = body
  cases body <;> rfl

/-- The first step of a path: into its first segment, if there is another, else what the only segment
says. -/
theorem of_eq (path : String) : of path =
    if 0 < path.toList.idxOf '.' ∧ path.toList.idxOf '.' < path.toList.length then
      .member (String.ofList (path.toList.take (path.toList.idxOf '.')))
        (String.ofList (path.toList.drop (path.toList.idxOf '.' + 1)))
    else match callOf? path.toList with
      | some (name, body) => .call (String.ofList name) (body.bind itemsOf?)
      | none => .property path := by
  rw [of, cutAt?_eq]
  -- A dot comes before everything else, also before a parenthesis that opens earlier.
  by_cases hdot : 0 < path.toList.idxOf '.' ∧ path.toList.idxOf '.' < path.toList.length
  · rw [if_pos hdot, if_pos hdot]
  · rw [if_neg hdot, if_neg hdot, cutAt?_eq, callOf?]
    by_cases h : 0 < path.toList.idxOf '(' ∧ path.toList.idxOf '(' < path.toList.length
    -- The text is the name, the parenthesis and the rest, which is how the call is read.
    · have hargs := arguments?_eq (path.toList.take (path.toList.idxOf '('))
        (path.toList.drop (path.toList.idxOf '(' + 1))
      have hlength : (path.toList.take (path.toList.idxOf '(')).length = path.toList.idxOf '(' := by
        rw [List.length_take]
        omega
      rw [take_append_cons_drop h.2, hlength] at hargs
      rw [if_pos h, if_pos h]
      exact congrArg _ hargs
    · rw [if_neg h, if_neg h]

theorem segments_ne_nil (text : List Char) : segments text ≠ [] := by
  rw [segments_eq]
  split <;> exact List.cons_ne_nil _ _

/-- There is always a last segment. -/
theorem exists_segments (text : List Char) : ∃ names last, segments text = names ++ [last] :=
  ⟨_, _, (List.dropLast_concat_getLast (segments_ne_nil text)).symm⟩

/-- A name with a dot behind it is the first segment. -/
theorem segments_of_dot {name rest : List Char} (hname : name ≠ []) (hdot : '.' ∉ name) :
    segments (name ++ '.' :: rest) = name :: segments rest := by
  have hat : (name ++ '.' :: rest).idxOf '.' = name.length := by
    rw [List.idxOf_append_of_notMem hdot, List.idxOf_cons_self, Nat.add_zero]
  have hpos : 0 < name.length := List.length_pos_of_ne_nil hname
  rw [segments_eq, hat, if_pos ⟨hpos, by simp⟩, List.take_left, List.drop_length_add_append]
  rfl

theorem segments_of_not_mem {text : List Char} (h : '.' ∉ text) : segments text = [text] := by
  rw [segments_eq, List.idxOf_eq_length_iff.mpr h, if_neg (by omega)]

end PathStep

/-! ## Walks -/

/-- The values in which members can be looked up. -/
inductive Value.HasMembers : Value → Prop where
  | object (members : List (String × Value)) : HasMembers (.object members)
  | function (f : Callable) (members : List (String × Value)) : HasMembers (.function f members)
  | jsonArray (items : List Json) : HasMembers (.json (.array items))
  | jsonObject (members : List (String × Json)) : HasMembers (.json (.object members))

/-- Members are looked up in objects, in functions, and in the arrays and objects of JSON. -/
theorem Value.isObjectLike_iff {v : Value} : v.isObjectLike ↔ v.HasMembers := by
  constructor
  · intro h
    cases v with
    | object members => exact .object members
    | function f members => exact .function f members
    | json j =>
      cases j with
      | array items => exact .jsonArray items
      | object members => exact .jsonObject members
      | _ => contradiction
    | _ => contradiction
  · intro h
    cases h <;> rfl

instance (v : Value) : Decidable v.HasMembers :=
  decidable_of_iff _ Value.isObjectLike_iff

/-- The value that names lead to from a value: each is the name of a member, and the members have
members themselves. -/
def Value.along : Value → List String → Option Value
  | v, [] => some v
  | v, name :: names =>
    let next := v.member name
    if next.HasMembers then next.along names else none

namespace Host

variable {m : Type → Type} [Monad m]

/-- Looks names up one after the other, the first in a scope and each further one in the value that
was reached before. Nothing is reached where a name leads to a value without members. -/
def walk (host : Host m) : Scope → List (List Char) → m (Option Scope)
  | scope, [] => pure (some scope)
  | scope, name :: names => do
    let next ← host.lookup scope (String.ofList name)
    if next.HasMembers then host.walk (.member next) names else pure none

/-- What the last segment of a path stands for where the walk has ended: the function that it calls is
run on what it was found in, if it is a function and its arguments are written properly; and without
a call it is the member of its name. -/
def finish (host : Host m) (reached : Scope) (last : List Char) : m Value :=
  match PathStep.callOf? last with
  | none => host.lookup reached (String.ofList last)
  | some (name, body) =>
    match body.bind PathStep.itemsOf? with
    | none => pure .undefined
    | some args => do
      match ← host.lookup reached (String.ofList name) with
      | .function f _ =>
        let receiver ← host.receiverIn reached
        host.call f receiver args
      | _ => pure .undefined

/-- One step of a path. -/
theorem resolvePath_eq (host : Host m) (scope : Scope) (path : String) :
    host.resolvePath scope path =
      match PathStep.of path with
      | .member head tail => do
        let next ← host.lookup scope head
        if next.isObjectLike then host.resolvePath (.member next) tail else pure .undefined
      | .call name (some args) => host.callIn scope name args
      | .call _ none => pure .undefined
      | .property name => host.lookup scope name := by
  rw [resolvePath]
  split <;> simp_all

/-- A path of one segment. -/
theorem resolvePath_eq_finish (host : Host m) (scope : Scope) {path : String}
    (h : ¬ (0 < path.toList.idxOf '.' ∧ path.toList.idxOf '.' < path.toList.length)) :
    host.resolvePath scope path = host.finish scope path.toList := by
  rw [resolvePath_eq, PathStep.of_eq, if_neg h, finish]
  cases PathStep.callOf? path.toList with
  | none => rw [String.ofList_toList]
  | some call =>
    obtain ⟨name, body⟩ := call
    dsimp only
    cases body.bind PathStep.itemsOf? <;> rfl

variable [LawfulMonad m]

/-- To resolve a path is to walk along its segments and to finish with the last one. -/
theorem resolvePath_of_segments (host : Host m) (scope : Scope) {path : String}
    {names : List (List Char)} {last : List Char}
    (h : PathStep.segments path.toList = names ++ [last]) :
    host.resolvePath scope path = (do
      match ← host.walk scope names with
      | none => pure .undefined
      | some reached => host.finish reached last) := by
  rw [PathStep.segments_eq] at h
  -- On the names: each of them takes one step of the path, which goes on with a shorter path in the
  -- value found.
  induction names generalizing scope path with
  | nil =>
    split at h
    · -- What stands after a dot has a segment of its own.
      exact absurd (List.cons.inj h).2 (PathStep.segments_ne_nil _)
    · next hdot =>
      obtain ⟨rfl, -⟩ := List.cons.inj h
      rw [walk, pure_bind]
      exact host.resolvePath_eq_finish scope hdot
  | cons name names ih =>
    split at h
    · next hdot =>
      obtain ⟨rfl, hrest⟩ := List.cons.inj h
      rw [resolvePath_eq, PathStep.of_eq, if_pos hdot, walk, bind_assoc]
      refine bind_congr fun next => ?_
      -- What stands after the first dot is a path of its own, in the value that is reached.
      simp only [Value.isObjectLike_iff]
      split
      · refine ih (.member next) ?_
        rw [String.toList_ofList, ← PathStep.segments_eq]
        exact hrest
      · rw [pure_bind]
    · exact absurd (congrArg List.length h) (by simp)

/-- Beyond the first name a walk goes through values, and the host is not asked. -/
theorem walk_member (host : Host m) (v : Value) (names : List (List Char)) :
    host.walk (.member v) names = pure ((v.along (names.map String.ofList)).map .member) := by
  induction names generalizing v with
  | nil => rfl
  | cons name names ih =>
    rw [walk, lookup, pure_bind, List.map_cons, Value.along]
    -- A value without members ends the walk on both sides.
    split
    · exact ih _
    · rfl

end Host

end TableMarkup
