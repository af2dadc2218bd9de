import TableMarkup.Proofs.Json.Finite
import TableMarkup.Proofs.Resolution.HostObjects
import TableMarkup.Proofs.Resolution.IntegerTexts

/-!
# Resolution in a JSON value

The host of a JSON object has no functions and nothing to run, and what is found in a value of JSON is
again a value of JSON. So a text resolves to the literal that it is, or else to what the names of its
path lead to in the object, and a path that ends in a call comes to nothing.

* `Json.child?`, `Json.at?`: what one name leads to in a JSON value, and what several do.
* `Value.member_ofJson`: members are looked up in the value of a JSON value as in the JSON value.
* `Host.walk_finish_at`: a walk along names and its last segment find what these names lead to.
* `Literal.read?`: the JSON value that a text is a literal of, about which no host is asked.
* `Json.found?`, `Host.resolve_ofJson`: what a text stands for in the host of a JSON value.
-/

namespace TableMarkup

/-! ## Inside JSON values -/

namespace Json

/-- What a name leads to: the member of this name in an object, the item of this index in an array. -/
def child? (name : String) : Json → Option Json
  | .object members => Members.get? name members
  | .array items => (Value.index? name).bind (items[·]?)
  | _ => none

/-- What names lead to, one after the other. -/
def at? (j : Json) : List String → Option Json
  | [] => some j
  | name :: names => (j.child? name).bind (at? · names)

theorem Finite.child? {j found : Json} {name : String} (h : j.Finite)
    (hfound : j.child? name = some found) : found.Finite := by
  cases j with
  | object members => exact everyMember_iff.mp h.2 _ (Members.mem_of_get? hfound)
  | array items =>
    obtain ⟨i, -, hitem⟩ := Option.bind_eq_some_iff.mp hfound
    exact everyItem_iff.mp h.2 _ (List.mem_of_getElem? hitem)
  | _ => contradiction

/-- What is found inside a finite value is finite. -/
theorem Finite.at? {j found : Json} {names : List String} (h : j.Finite)
    (hfound : j.at? names = some found) : found.Finite := by
  induction names generalizing j with
  | nil =>
    obtain rfl := Option.some.inj hfound
    exact h
  | cons name names ih =>
    obtain ⟨k, hk, hrest⟩ := Option.bind_eq_some_iff.mp hfound
    exact ih (h.child? hk) hrest

/-- Nothing is found in a value without members. -/
theorem at?_of_not_hasMembers {j : Json} (h : ¬ (Value.ofJson j).HasMembers) (name : String)
    (names : List String) : j.at? (name :: names) = none := by
  cases j with
  | array items => exact absurd (.jsonArray items) h
  | object members => exact absurd (.jsonObject members) h
  | _ => rfl

end Json

namespace Value

/-- Members of a value of JSON are values of JSON. -/
theorem member_ofJson (j : Json) (name : String) :
    (ofJson j).member name = ofOption ((j.child? name).map ofJson) := by
  cases j <;> rfl

theorem ofOption_ofJson_ne_function (found : Option Json) (f : Callable)
    (members : List (String × Value)) : ofOption (found.map ofJson) ≠ .function f members := by
  cases found with
  | none => nofun
  | some j => exact ofJson_ne_function j f members

end Value

/-! ## Paths -/

/-- The names along a path, if it does not end in a call. -/
def PathStep.names? (path : String) : Option (List String) :=
  let segments := segments path.toList
  if (segments.getLast?.bind callOf?).isSome then none else some (segments.map String.ofList)

theorem PathStep.names?_of_segments {path : String} {names : List (List Char)} {last : List Char}
    (h : segments path.toList = names ++ [last]) :
    names? path =
      if (callOf? last).isSome then none else some ((names ++ [last]).map String.ofList) := by
  rw [names?, h, List.getLast?_concat, Option.bind_some]

namespace Host

variable {m : Type → Type} [Monad m] [LawfulMonad m] (host : Host m) {scope : Scope} {j : Json}

/-- What a last segment finds where names are looked up in a JSON value. A call finds no function. -/
theorem finish_at (hscope : ∀ name, host.lookup scope name = pure ((Value.ofJson j).member name))
    (last : List Char) :
    host.finish scope last = pure (.ofOption ((if (PathStep.callOf? last).isSome then none
      else j.at? [String.ofList last]).map .ofJson)) := by
  have hchild (name : String) : j.at? [name] = j.child? name := Option.bind_fun_some _
  rw [finish]
  cases PathStep.callOf? last with
  | none =>
    dsimp only
    rw [hscope, Value.member_ofJson, hchild]
    rfl
  | some call =>
    obtain ⟨name, body⟩ := call
    dsimp only
    rw [hscope, Value.member_ofJson]
    -- The arguments may not be read; otherwise what is found under the name is no function.
    split
    · rfl
    · rw [pure_bind]
      split
      · next f members hfound => exact absurd hfound (Value.ofOption_ofJson_ne_function _ _ _)
      · rfl

/-- Where names are looked up in a JSON value, a walk over names and its last segment find what these
names lead to; and a call finds nothing. -/
theorem walk_finish_at
    (hscope : ∀ name, host.lookup scope name = pure ((Value.ofJson j).member name))
    (names : List (List Char)) (last : List Char) :
    (do
      match ← host.walk scope names with
      | none => pure Value.undefined
      | some reached => host.finish reached last) =
      pure (.ofOption ((if (PathStep.callOf? last).isSome then none
        else j.at? ((names ++ [last]).map String.ofList)).map .ofJson)) := by
  -- On the names, with the JSON value in which the next one is looked up.
  induction names generalizing scope j with
  | nil =>
    rw [walk, pure_bind]
    exact host.finish_at hscope last
  | cons name names ih =>
    rw [walk, hscope, pure_bind, Value.member_ofJson, List.cons_append, List.map_cons, Json.at?]
    cases j.child? (String.ofList name) with
    | none =>
      -- A member that is not there is undefined, and undefined has no members.
      have hnone : ¬ Value.undefined.HasMembers := by
        intro h
        cases h
      rw [Option.map_none, Value.ofOption, Option.getD_none, if_neg hnone, pure_bind,
        Option.bind_none, ite_self]
      rfl
    | some k =>
      rw [Option.bind_some, Option.map_some, Value.ofOption, Option.getD_some]
      by_cases hmembers : (Value.ofJson k).HasMembers
      · have hnext (name : String) :
            host.lookup (.member (.ofJson k)) name = pure ((Value.ofJson k).member name) := rfl
        rw [if_pos hmembers]
        exact ih hnext
      · -- A value without members ends the walk, and nothing is found in it either.
        have hnothing : k.at? ((names ++ [last]).map String.ofList) = none := by
          cases names <;> exact Json.at?_of_not_hasMembers hmembers _ _
        rw [if_neg hmembers, pure_bind, hnothing, ite_self]
        rfl

end Host

/-- What a path leads to from the members of a JSON object. -/
def Json.named? (root : Json) (path : String) : Option Json :=
  match root with
  | .object _ => (PathStep.names? path).bind root.at?
  | _ => none

theorem Json.named?_eq_some_iff {root value : Json} {path : String} :
    root.named? path = some value ↔ ∃ members names, root = .object members ∧
      PathStep.names? path = some names ∧ root.at? names = some value := by
  cases root with
  | object members =>
    rw [named?, Option.bind_eq_some_iff]
    constructor
    · rintro ⟨names, hnames, hat⟩
      exact ⟨members, names, rfl, hnames, hat⟩
    · rintro ⟨_, names, -, hnames, hat⟩
      exact ⟨names, hnames, hat⟩
  | _ =>
    refine iff_of_false (Option.some_ne_none value).symm ?_
    rintro ⟨_, _, hroot, -⟩
    cases hroot

/-- A path of the host of a JSON value leads to what its names lead to in the JSON value. -/
theorem Host.resolvePath_ofJson (root : Json) (path : String) :
    (ofJson root).resolvePath .global path =
      pure (.ofOption ((root.named? path).map .ofJson)) := by
  have hobject (members : List (String × Json)) :
      (ofJson (.object members)).resolvePath .global path =
        pure (.ofOption (((Json.object members).named? path).map .ofJson)) := by
    -- The members of the root are the global names.
    have hglobal (name : String) : (ofJson (.object members)).lookup .global name =
        pure ((Value.ofJson (.object members)).member name) := by
      show pure (Value.ofOption (Members.get? name (globalsOfJson (.object members)))) = _
      rw [globalsOfJson, Members.get?_map]
      rfl
    obtain ⟨names, last, hsegments⟩ := PathStep.exists_segments path.toList
    refine (resolvePath_of_segments _ .global hsegments).trans
      ((walk_finish_at _ hglobal names last).trans ?_)
    rw [Json.named?, PathStep.names?_of_segments hsegments]
    split <;> rfl
  -- A root that is no object has no more members than an empty one.
  have hempty : (Json.object []).named? path = none := by
    obtain ⟨names, last, hsegments⟩ := PathStep.exists_segments path.toList
    rw [Json.named?, PathStep.names?_of_segments hsegments]
    split
    · rfl
    · cases names <;> rfl
  -- An object is the case above; any other root has no global names at all.
  cases root with
  | object members => exact hobject members
  | _ => exact (hobject []).trans (by rw [hempty]; rfl)

/-! ## Literals -/

namespace Literal

/-- The JSON value that a text is a literal of. An integer is read as one before it is read as JSON. -/
def read? (text : String) : Option Json :=
  (boolean? text).map .bool <|> (integer? text.toList).map Number.toJson <|> json? text.toList

/-- A literal about which the host is not asked stands for the value of its JSON value. -/
theorem settled?_eq_read? (text : String) : settled? text = (read? text).map .ofJson := by
  rw [settled?, read?]
  cases boolean? text with
  | some b => rfl
  | none =>
    cases hinteger : integer? text.toList with
    | none => rfl
    | some n =>
      -- An integer becomes JSON and back without loss.
      obtain ⟨w, -, rfl⟩ := integer?_eq_some_iff_exists.mp hinteger
      show some (Value.number (.ofWideInt w)) = some (Value.ofJson (Number.ofWideInt w).toJson)
      rw [Number.toJson_ofWideInt]
      rfl

theorem finite_of_read? {text : String} {j : Json} (h : read? text = some j) : j.Finite := by
  rw [read?] at h
  -- Truth values and integers are no floats, and what JSON reads is finite.
  cases hboolean : boolean? text with
  | some b =>
    rw [hboolean] at h
    cases h
    nofun
  | none =>
    cases hinteger : integer? text.toList with
    | some n =>
      obtain ⟨w, -, rfl⟩ := integer?_eq_some_iff_exists.mp hinteger
      rw [hboolean, hinteger, Option.map_some, Number.toJson_ofWideInt] at h
      cases h
      nofun
    | none =>
      rw [hboolean, hinteger] at h
      exact Json.finite_of_parse? h

end Literal

/-! ## Texts -/

namespace Json

/-- What a text stands for, with the names of a JSON value: the literal inside all its JSON strings, or
else what the path that is written there leads to. -/
def found? (root : Json) (text : String) : Option Json :=
  Literal.read? (Literal.innermost text) <|> root.named? (Literal.innermost text)

theorem found?_eq_some_iff {root value : Json} {text : String} :
    root.found? text = some value ↔
      Literal.read? (Literal.innermost text) = some value ∨
        Literal.read? (Literal.innermost text) = none ∧ ∃ members names, root = .object members ∧
          PathStep.names? (Literal.innermost text) = some names ∧ root.at? names = some value := by
  rw [found?, ← named?_eq_some_iff]
  cases Literal.read? (Literal.innermost text) with
  | some literal => simp
  | none => simp

/-- Every number in it was read, so it is finite. -/
theorem Finite.found? {root value : Json} {text : String} (h : root.Finite)
    (hfound : root.found? text = some value) : value.Finite := by
  obtain hread | ⟨-, members, names, -, -, hat⟩ := found?_eq_some_iff.mp hfound
  · exact Literal.finite_of_read? hread
  · exact h.at? hat

end Json

/-- The host of a JSON value resolves a text to what it stands for, or to nothing. -/
theorem Host.resolve_ofJson (root : Json) (text : String) :
    (ofJson root).resolve (.string text) =
      pure (.ofOption ((root.found? text).map .ofJson)) := by
  show (ofJson root).resolveText text = _
  rw [resolveText_eq_innermost, Literal.settled?_eq_read?, Json.found?]
  -- This host evaluates nothing, so what is no literal is a path.
  cases Literal.read? (Literal.innermost text) with
  | some j => rfl
  | none => exact resolvePath_ofJson root (Literal.innermost text)

end TableMarkup
