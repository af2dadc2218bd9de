import TableMarkup.Proofs.Ordered.Insertions
import TableMarkup.Proofs.Resolution.Interview
import TableMarkup.Proofs.Value.Conversions

/-!
# Host objects in the place of JSON objects

An object that markup names may be one of the host or a JSON object. The two have their members looked
up differently, but nothing is found in the one that is not found in the other: a resolution that goes
through host objects walks side by side with one that goes through JSON objects, and in the end both
have found the same data, or nothing.

* `Value.lift`: a JSON value with host objects in the place of JSON objects, except inside arrays.
* `Value.Alike`: the pairs of values that are reached side by side.
* `Host.Beside`: two hosts whose global names stand for such pairs.
* `Host.walk_alike`, `Host.finish_alike`: one step of a path, and its last one, keep to such pairs.
* `Host.resolve_lift`: a text resolves to the same data in both hosts.
-/

namespace TableMarkup

namespace Value

/-! ## Lifted values -/

mutual
/-- The value of a JSON value with host objects for JSON objects. What is inside an array stays as it
is. -/
def lift : Json → Value
  | .object members => .object (liftMembers members)
  | other => ofJson other

def liftMembers : List (String × Json) → List (String × Value)
  | [] => []
  | (name, j) :: rest => (name, lift j) :: liftMembers rest
end

theorem lift_of_not_object {j : Json} (h : ∀ members, j ≠ .object members) : lift j = ofJson j := by
  cases j with
  | object members => exact absurd rfl (h members)
  | _ =>
    rw [lift]
    exact nofun

/-- Lifting members changes their values and keeps their names. -/
theorem get?_liftMembers (name : String) (members : List (String × Json)) :
    Members.get? name (liftMembers members) = (Members.get? name members).map lift := by
  induction members with
  | nil => rw [liftMembers]; rfl
  | cons entry rest ih =>
    obtain ⟨first, j⟩ := entry
    rw [liftMembers, Members.get?, Members.get?, ih]
    -- The member is the first one or one of the rest.
    split <;> rfl

mutual
/-- A lifted value is the same JSON as before. -/
theorem toJson_lift {j : Json} (h : j.Finite) : toJson (lift j) = j := by
  match j with
  | .object members =>
    rw [lift, toJson, membersToJson_liftMembers h.2]
  | .null | .bool _ | .number _ | .string _ | .array _ =>
    rw [lift_of_not_object]
    · exact toJson_ofJson h.self
    · nofun

theorem membersToJson_liftMembers {members : List (String × Json)}
    (h : Json.EveryMember Json.IsFinite members) : membersToJson (liftMembers members) = members := by
  match members with
  | [] => rw [liftMembers, membersToJson]
  | (name, j) :: rest =>
    rw [liftMembers, membersToJson, toJson_lift h.1, membersToJson_liftMembers h.2]
end

/-! ## Values side by side -/

/-- The pairs of values that two resolutions reach side by side. -/
inductive Alike : Value → Value → Prop
  | undefined : Alike .undefined .undefined
  /-- What was found inside an array, or is no object. -/
  | plain (j : Json) : Alike (ofJson j) (ofJson j)
  | object {members : List (String × Json)} (h : Json.EveryMember Json.IsFinite members) :
    Alike (.json (.object members)) (.object (liftMembers members))

/-- The same data: both are missing or neither is, and they are the same JSON. -/
structure SameData (v w : Value) : Prop where
  isUndefined : v.isUndefined = w.isUndefined
  toJson : v.toJson = w.toJson

theorem SameData.refl (v : Value) : SameData v v :=
  ⟨rfl, rfl⟩

variable {v w : Value}

theorem alike_lift {j : Json} (h : j.Finite) : Alike (ofJson j) (lift j) := by
  cases j with
  | object members =>
    rw [lift]
    exact .object h.2
  | _ =>
    rw [lift_of_not_object]
    · exact .plain _
    · nofun

theorem Alike.sameData (h : Alike v w) : SameData v w := by
  cases h with
  | undefined => exact .refl _
  | plain j => exact .refl _
  | @object members hmembers =>
    refine ⟨rfl, ?_⟩
    rw [toJson, toJson, membersToJson_liftMembers hmembers]

theorem Alike.hasMembers_iff (h : Alike v w) : v.HasMembers ↔ w.HasMembers := by
  cases h with
  | undefined => rfl
  | plain j => rfl
  | object hmembers => exact iff_of_true (.jsonObject _) (.object _)

theorem ofJson_ne_function (j : Json) (f : Callable) (members : List (String × Value)) :
    ofJson j ≠ .function f members := by
  cases j <;> nofun

/-- A function is never reached. -/
theorem Alike.not_function (h : Alike v w) (f : Callable) (members : List (String × Value)) :
    v ≠ .function f members ∧ w ≠ .function f members := by
  -- JSON holds no functions, and a lifted object is an object.
  cases h with
  | undefined => exact ⟨nofun, nofun⟩
  | plain j => exact ⟨ofJson_ne_function j f members, ofJson_ne_function j f members⟩
  | object hmembers => exact ⟨nofun, nofun⟩

/-- What is found under a name in JSON members is found in the lifted ones too. -/
theorem alike_get? {members : List (String × Json)} (h : Json.EveryMember Json.IsFinite members)
    (name : String) :
    Alike (ofOption ((Members.get? name members).map ofJson))
      (ofOption ((Members.get? name members).map lift)) := by
  cases hj : Members.get? name members with
  | none => exact .undefined
  | some j =>
    -- A member of finite data is finite, which is what makes its lifted form the same JSON.
    have hfinite : j.Finite := Json.everyMember_iff.mp h _ (Members.mem_of_get? hj)
    exact alike_lift hfinite

/-- Members of values side by side are side by side. -/
theorem Alike.member (h : Alike v w) (name : String) : Alike (v.member name) (w.member name) := by
  cases h with
  | undefined => exact .undefined
  | object hmembers =>
    rw [Value.member, Value.member, get?_liftMembers]
    exact alike_get? hmembers name
  | plain j =>
    -- Both sides have the same member here, so it matters only that it comes from JSON.
    have hfound (found : Option Json) :
        Alike (ofOption (found.map ofJson)) (ofOption (found.map ofJson)) := by
      cases found with
      | none => exact .undefined
      | some j => exact .plain j
    cases j with
    | array items => exact hfound _
    | object members => exact hfound _
    | _ => exact .undefined

end Value

/-! ## Hosts side by side -/

/-- The pairs of scopes that two resolutions are in side by side. -/
inductive Scope.Alike : Scope → Scope → Prop
  | global : Alike .global .global
  | member {v w : Value} (h : v.Alike w) : Alike (.member v) (.member w)

namespace Host

variable {m n : Type → Type} [Monad m] [Monad n]

/-- Two hosts that cannot evaluate, and whose global names stand for values side by side. -/
structure Beside (a : Host m) (b : Host n) : Prop where
  global (name : String) : ∃ v w, a.global name = pure v ∧ b.global name = pure w ∧ v.Alike w
  unable : a.evaluator = none ∧ b.evaluator = none

variable {a : Host m} {b : Host n} {s t : Scope}

theorem Beside.lookup (h : a.Beside b) (hscope : s.Alike t) (name : String) :
    ∃ v w, a.lookup s name = pure v ∧ b.lookup t name = pure w ∧ v.Alike w := by
  cases hscope with
  | global => exact h.global name
  | member hvalue => exact ⟨_, _, rfl, rfl, hvalue.member name⟩

variable [LawfulMonad m] [LawfulMonad n]

/-- The walks over the names of a path both break off or both end, side by side. -/
theorem walk_alike (h : a.Beside b) (hscope : s.Alike t) (names : List (List Char)) :
    ∃ r r', a.walk s names = pure r ∧ b.walk t names = pure r' ∧ Option.Rel Scope.Alike r r' := by
  -- On the names, with the two scopes side by side after each of them.
  induction names generalizing s t with
  | nil => exact ⟨_, _, rfl, rfl, .some hscope⟩
  | cons name names ih =>
    obtain ⟨v, w, hv, hw, hnext⟩ := h.lookup hscope (String.ofList name)
    rw [walk, walk, hv, hw, pure_bind, pure_bind]
    -- Both values have members or neither does, so both walks go on or both break off.
    by_cases hmembers : v.HasMembers
    · rw [if_pos hmembers, if_pos (hnext.hasMembers_iff.mp hmembers)]
      exact ih (.member hnext)
    · rw [if_neg hmembers, if_neg (hmembers ∘ hnext.hasMembers_iff.mpr)]
      exact ⟨_, _, rfl, rfl, .none⟩

/-- The last segment finds values side by side. A call finds no function, so it comes to nothing in
both. -/
theorem finish_alike (h : a.Beside b) (hscope : s.Alike t) (last : List Char) :
    ∃ v w, a.finish s last = pure v ∧ b.finish t last = pure w ∧ v.Alike w := by
  unfold finish
  cases PathStep.callOf? last with
  | none => exact h.lookup hscope (String.ofList last)
  | some call =>
    obtain ⟨name, body⟩ := call
    obtain ⟨v, w, hv, hw, hfound⟩ := h.lookup hscope (String.ofList name)
    refine ⟨.undefined, .undefined, ?_, ?_, .undefined⟩
    · dsimp only
      rw [hv]
      split
      · rfl
      · rw [pure_bind]
        split
        · next f members => exact absurd rfl (hfound.not_function _ _).1
        · rfl
    · dsimp only
      rw [hw]
      split
      · rfl
      · rw [pure_bind]
        split
        · next f members => exact absurd rfl (hfound.not_function _ _).2
        · rfl

/-- A path finds values side by side in both hosts, or nothing in either, and runs nothing. -/
theorem resolvePath_alike (h : a.Beside b) (hscope : s.Alike t) (path : String) :
    ∃ v w, a.resolvePath s path = pure v ∧ b.resolvePath t path = pure w ∧ v.Alike w := by
  obtain ⟨names, last, hsegments⟩ := PathStep.exists_segments path.toList
  obtain ⟨r, r', hr, hr', hwalk⟩ := walk_alike h hscope names
  rw [a.resolvePath_of_segments s hsegments, b.resolvePath_of_segments t hsegments, hr, hr',
    pure_bind, pure_bind]
  -- Both walks have broken off, or both have ended side by side.
  cases hwalk with
  | none => exact ⟨_, _, rfl, rfl, .undefined⟩
  | some hend => exact finish_alike h hend last

/-- Two hosts beside one another find the same data for every text. -/
theorem resolve_beside (h : a.Beside b) (text : String) :
    ∃ v w, a.resolve (.string text) = pure v ∧ b.resolve (.string text) = pure w ∧
      v.SameData w := by
  obtain ⟨ha, hb⟩ := h.unable
  show ∃ v w, a.resolveText text = pure v ∧ b.resolveText text = pure w ∧ v.SameData w
  rw [resolveText_eq_innermost, resolveText_eq_innermost]
  -- A literal is the same value for both; neither can evaluate, so what is left is the path.
  cases Literal.settled? (Literal.innermost text) with
  | some v => exact ⟨v, v, rfl, rfl, .refl v⟩
  | none =>
    obtain ⟨v, w, hv, hw, halike⟩ := resolvePath_alike h .global (Literal.innermost text)
    refine ⟨v, w, ?_, ?_, halike.sameData⟩
    · simp only [evaluate, ha, pure_bind, hv]
    · simp only [evaluate, hb, pure_bind, hw]

omit [Monad n] [LawfulMonad n] in
theorem configValue_of_resolve {raw v : Value} (h : a.resolve raw = pure v) :
    a.configValue raw = pure (if v.isUndefined then raw else v) := by
  rw [configValue, h, pure_bind]
  cases v <;> rfl

theorem configValue_beside (h : a.Beside b) (text : String) :
    ∃ v w, a.configValue (.string text) = pure v ∧ b.configValue (.string text) = pure w ∧
      v.SameData w := by
  obtain ⟨v, w, hv, hw, hsame⟩ := resolve_beside h text
  rw [configValue_of_resolve hv, configValue_of_resolve hw, ← hsame.isUndefined]
  -- Where nothing is found, the raw text stays for both.
  by_cases hmissing : v.isUndefined
  · rw [if_pos hmissing, if_pos hmissing]
    exact ⟨_, _, rfl, rfl, .refl _⟩
  · rw [if_neg hmissing, if_neg hmissing]
    exact ⟨v, w, rfl, rfl, hsame⟩

/-! ## Lifted global names -/

omit [LawfulMonad n] in
/-- The host of a JSON object is beside the one whose global names are lifted. -/
theorem beside_lift {members : List (String × Json)} (hfinite : (Json.object members).Finite)
    {globals : Members Value}
    (hglobals : ∀ name, Members.get? name globals = (Members.get? name members).map Value.lift)
    (call : Callable → Value → List Json → n Value) :
    (ofJson (.object members)).Beside (ofGlobals globals call none) where
  global name := by
    refine ⟨_, _, rfl, rfl, ?_⟩
    rw [globalsOfJson, Members.get?_map, hglobals]
    exact Value.alike_get? hfinite.2 name
  unable := ⟨rfl, rfl⟩

/-- Host objects and JSON objects are interchangeable as data. Whatever text is resolved, the host of a
JSON object and one that has host objects in its place find something or find nothing alike, and what
they find is the same JSON; and so it is with the reading of an option. The host with host objects
never runs anything for it. -/
theorem resolve_lift {members : List (String × Json)} (hfinite : (Json.object members).Finite)
    {globals : Members Value}
    (hglobals : ∀ name, Members.get? name globals = (Members.get? name members).map Value.lift)
    (call : Callable → Value → List Json → n Value) (text : String) :
    let a := ofJson (.object members)
    let b := ofGlobals globals call none
    (∃ w, b.resolve (.string text) = pure w ∧ (a.resolve (.string text)).run.SameData w) ∧
      ∃ w, b.configValue (.string text) = pure w ∧
        (a.configValue (.string text)).run.SameData w := by
  intro a b
  have hbeside : a.Beside b := beside_lift hfinite hglobals call
  obtain ⟨v, w, hv, hw, hsame⟩ := resolve_beside hbeside text
  obtain ⟨v', w', hv', hw', hsame'⟩ := configValue_beside hbeside text
  refine ⟨⟨w, hw, ?_⟩, w', hw', ?_⟩
  · rw [hv]
    exact hsame
  · rw [hv']
    exact hsame'

/-- A path that ends in an object: it is a host object here and a JSON object there. -/
theorem resolve_lift_page :
    let size : List (String × Json) := [("empty", .object []), ("rows", .array [.ofNat 50])]
    let members : List (String × Json) := [("page", .object [("size", .object size)])]
    let a := ofJson (.object members)
    let b : Host Id := ofGlobals (Value.liftMembers members) (fun _ _ _ => pure .null) none
    (Json.object members).Finite ∧ (a.resolve (.string "page.size")).run = .json (.object size) ∧
      (b.resolve (.string "page.size")).run = .object (Value.liftMembers size) ∧
      (a.resolve (.string "page.size")).run.SameData (b.resolve (.string "page.size")).run := by
  intro size members a b
  have hfinite : (Json.object members).Finite := by
    refine ⟨nofun, ⟨nofun, ⟨nofun, ⟨nofun, trivial⟩, ⟨nofun, ?_, trivial⟩, trivial⟩, trivial⟩, trivial⟩
    nofun
  have hinside : Literal.innermost "page.size" = "page.size" :=
    Literal.innermost_of_no_json (by rfl)
  have hsegments : PathStep.segments "page.size".toList = ["page".toList] ++ ["size".toList] := by
    have hlast : PathStep.segments "size".toList = ["size".toList] :=
      PathStep.segments_of_not_mem (by decide)
    have hpage : "page".toList ≠ [] ∧ '.' ∉ "page".toList := by decide
    rw [List.singleton_append, ← hlast]
    exact PathStep.segments_of_dot hpage.1 hpage.2
  have hresolve (host : Host Id) (h : host.evaluator = none) :
      host.resolve (.string "page.size") = host.errand .global "page.size" >>= host.perform := by
    show host.resolveText "page.size" = _
    rw [resolveText_eq_innermost, hinside, show Literal.settled? "page.size" = none by rfl]
    simp only [evaluate, h, pure_bind, resolvePath_eq_perform]
  have ha : (a.resolve (.string "page.size")).run = .json (.object size) := by
    rw [hresolve a rfl, a.errand_of_segments .global hsegments]
    rfl
  have hb : (b.resolve (.string "page.size")).run = .object (Value.liftMembers size) := by
    rw [hresolve b rfl, b.errand_of_segments .global hsegments]
    rfl
  obtain ⟨⟨w, hw, hsame⟩, -⟩ := resolve_lift (n := Id) hfinite
    (fun name => Value.get?_liftMembers name members) (fun _ _ _ => pure .null) "page.size"
  exact ⟨hfinite, ha, hb, hw ▸ hsame⟩

end Host

end TableMarkup
