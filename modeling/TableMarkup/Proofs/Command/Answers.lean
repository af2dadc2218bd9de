import TableMarkup.Command.Program
import TableMarkup.Proofs.Json.RoundTrip
import TableMarkup.Proofs.Resolution.JsonHosts

/-!
# The answers of the program

The program resolves a text with the names of a JSON text. It answers with the literal that the text
is, or with a part of the JSON value that was read, and shows this value as it is: the numbers in it were
read, so they are finite, and none of them is lost when the answer becomes JSON again.

* `Engine.answer_ofJson`: the answer, whether or not it is strict.
* `Value.kind_ofJson`: the kinds of values that come from JSON.
* `Command.perform_resolve`: what is shown for a text, and where it comes from.
-/

namespace TableMarkup

theorem Value.kind_ofJson (j : Json) :
    (ofJson j).kind ∈ ["null", "bool", "number", "string", "json"] := by
  cases j <;> simp [ofJson, kind]

theorem Value.ofJson_kind_ne_undefined (j : Json) : (ofJson j).kind ≠ "undefined" := by
  cases j <;> simp [ofJson, kind]

namespace Engine

variable (root : Json) (settings : Settings) (text : String)

/-- The answer is what the text stands for. Without it, a strict answer is undefined, and the text is
kept otherwise. -/
theorem answer_ofJson (isStrict : Bool) :
    (⟨Host.ofJson root, settings⟩ : Engine Id).answer text isStrict =
      ((root.found? text).map .ofJson).getD (if isStrict then .undefined else .string text) := by
  -- A strict answer is the resolution itself, and the other one keeps the text where nothing is
  -- found.
  cases isStrict with
  | true => exact Host.resolve_ofJson root text
  | false =>
    refine (Host.configValue_of_resolve (Host.resolve_ofJson root text)).trans ?_
    cases root.found? text with
    | none => rfl
    | some j => cases j <;> rfl

/-- An answer is shown with its kind and its value. -/
theorem showAnswer_eq (engine : Engine Id) (isStrict : Bool) :
    engine.showAnswer text isStrict =
      .object [("kind", .string (engine.answer text isStrict).kind),
        ("value", (engine.answer text isStrict).toJson)] := by
  have hsorted : Members.Sorted [("kind", Json.string (engine.answer text isStrict).kind),
      ("value", (engine.answer text isStrict).toJson)] := by
    simp only [Members.Sorted, Members.names, List.map_cons, List.map_nil]
    decide
  exact congrArg Json.object (Members.ofList_of_sorted hsorted)

end Engine

/-- What `resolve` shows for a text, with the names of any JSON text: the kind and the value of its
answer, which is never a function or an object of the host. A strict answer may be undefined, and then
the text itself is the answer that is not strict. A strict answer that is defined is a JSON value, which
is shown unchanged; and it is the value of the literal inside all JSON strings of the text, or if there
is none, what the names of the path that is written there lead to from the object at the root. -/
theorem Command.perform_resolve {m : Type → Type} [Monad m] (files : Files m) {source : List Char}
    {root : Json} (hread : Json.parse? source = some root) (settings : Settings) (text : String) :
    let engine : Engine Id := ⟨Host.ofJson root, settings⟩
    let inside := Literal.innermost text
    let strict := engine.answer text true
    let lenient := engine.answer text false
    (∀ isStrict, (Command.resolve text isStrict).perform engine files = pure (.object
      [("kind", .string (engine.answer text isStrict).kind),
        ("value", (engine.answer text isStrict).toJson)])) ∧
    strict.kind ∈ ["undefined", "null", "bool", "number", "string", "json"] ∧
    lenient.kind ∈ ["null", "bool", "number", "string", "json"] ∧
    lenient = (if strict.kind = "undefined" then .string text else strict) ∧
    (strict.kind ≠ "undefined" → ∃ value, strict = .ofJson value ∧ strict.toJson = value) ∧
    ∀ value, strict = .ofJson value ↔
      Literal.read? inside = some value ∨
        Literal.read? inside = none ∧ ∃ members names, root = .object members ∧
          PathStep.names? inside = some names ∧ root.at? names = some value := by
  intro engine inside strict lenient
  have hfinite : root.Finite := Json.finite_of_parse? hread
  have hstrict := Engine.answer_ofJson root settings text true
  have hlenient := Engine.answer_ofJson root settings text false
  refine ⟨fun isStrict => congrArg pure (engine.showAnswer_eq text isStrict), ?_⟩
  simp only [← Json.found?_eq_some_iff, inside]
  -- Either nothing is found for the text, or a JSON value is.
  cases hfound : root.found? text with
  | none =>
    rw [hfound] at hstrict hlenient
    replace hstrict : strict = .undefined := hstrict
    replace hlenient : lenient = .string text := hlenient
    rw [hstrict, hlenient]
    refine ⟨?_, ?_, rfl, fun h => absurd rfl h, fun value => iff_of_false ?_ nofun⟩
    · decide
    · exact Value.kind_ofJson (.string text)
    · intro hvalue
      exact Value.ofJson_kind_ne_undefined value (hvalue ▸ rfl)
  | some value =>
    -- Every number in the answer was read, so the answer becomes JSON again without loss.
    have hvalue : value.Finite := hfinite.found? hfound
    rw [hfound] at hstrict hlenient
    replace hstrict : strict = .ofJson value := hstrict
    replace hlenient : lenient = .ofJson value := hlenient
    have hkind := Value.kind_ofJson value
    rw [hstrict, hlenient, if_neg (Value.ofJson_kind_ne_undefined value)]
    refine ⟨List.mem_cons_of_mem _ hkind, hkind, rfl, fun _ => ⟨value, rfl, ?_⟩, fun other => ?_⟩
    · exact Value.toJson_ofJson hvalue.self
    · rw [Value.ofJson_inj, Option.some_inj]

/-- A path between quotes, whose last name is the index of an item. -/
theorem Command.perform_resolve_quotedPath :
    let source := "\x7b\"page\":\x7b\"rows\":[50,\"all\"]\x7d\x7d".toList
    let root : Json := .object [("page", .object [("rows", .array [.ofNat 50, .string "all"])])]
    let engine : Engine Id := ⟨Host.ofJson root, .standard⟩
    let files : Files Id := ⟨fun _ => .error .missing⟩
    Json.parse? source = some root ∧
      engine.answer "'page.rows.1'" true = .string "all" ∧
      (Command.resolve "'page.rows.1'" true).perform engine files =
        pure (.object [("kind", .string "string"), ("value", .string "all")]) := by
  intro source root engine files
  have hread : Json.parse? source = some root := by rfl
  have hinside : Literal.innermost "'page.rows.1'" = "page.rows.1" :=
    (Literal.innermost_of_string (by rfl)).trans (Literal.innermost_of_no_json (by rfl))
  have hnames : PathStep.names? "page.rows.1" = some ["page", "rows", "1"] := by
    have hsegments : PathStep.segments "page.rows.1".toList =
        ["page".toList, "rows".toList] ++ ["1".toList] := by
      have htext : "page.rows.1".toList =
          "page".toList ++ '.' :: ("rows".toList ++ '.' :: "1".toList) := by decide
      rw [htext, PathStep.segments_of_dot (by decide) (by decide),
        PathStep.segments_of_dot (by decide) (by decide), PathStep.segments_of_not_mem (by decide)]
      rfl
    rw [PathStep.names?_of_segments hsegments]
    decide
  obtain ⟨hshown, -, -, -, -, hanswer⟩ :=
    perform_resolve files hread .standard "'page.rows.1'"
  have hstrict : engine.answer "'page.rows.1'" true = .string "all" := by
    refine (hanswer (.string "all")).mpr (.inr ?_)
    rw [hinside]
    exact ⟨by rfl, _, _, rfl, hnames, by rfl⟩
  refine ⟨hread, hstrict, ?_⟩
  rw [hshown true, hstrict]
  rfl

end TableMarkup
