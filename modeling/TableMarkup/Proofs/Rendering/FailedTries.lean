import TableMarkup.Proofs.Rendering.Calls
import TableMarkup.Proofs.Rendering.Recorder
import TableMarkup.Rendering.Dispatch

/-!
# What a failed initialisation leaves behind

An element that is refused leaves the record as it was. An element with a key of its own also stays
as it was itself. An element without one is stamped before the renderer looks for a table that is in
the way, and this stamp stays. Such an element is new to the renderer, so nothing should be in its
way; but the key that is made up for it may be the `id` of another element that was there before.

* `Recording.MadeFor`: every table that is there was made for an element of some call, under the key
  that the element had then. `madeFor_initialise` is one call, `madeFor_serve` a run of them.
* `Recording.exists_own_key`: a table under a key that is made up just now was made for an element
  that brought this key along.
* `Recording.Leaves`: what a failed initialisation leaves behind; `Recording.initialise_of_error`.
-/

namespace TableMarkup.Recording

/-! ## Whom tables were made for -/

/-- Every table that is there was made for the element of one of the calls, when there had been as many
tables as its number says. -/
def MadeFor (calls : List Call) (r : Recording) : Prop :=
  ∀ i ∈ r.instances, i.id < r.created ∧ ∃ call ∈ calls, i.key = keyAt i.id call.element

theorem madeFor_fresh (version : Option Version) : MadeFor [] (fresh version) := nofun

/-- One more call makes one table for its element, or none. -/
theorem madeFor_initialise {calls : List Call} {r : Recording} (h : MadeFor calls r) (call : Call) :
    MadeFor (calls ++ [call]) (r.initialise call.element call.config).renderer := by
  -- The tables that were there before were made for earlier calls, and one more call takes nothing
  -- away.
  have hearlier : MadeFor (calls ++ [call]) r := by
    intro i hi
    obtain ⟨hlt, made, hmade, hkey⟩ := h i hi
    exact ⟨hlt, made, List.mem_append_left _ hmade, hkey⟩
  by_cases hocc : r.Occupied (keyAt r.created call.element) call.config
  · rw [initialise_of_occupied hocc]
    exact hearlier
  · rw [initialise_of_free hocc]
    intro i hi
    show i.id < r.created + 1 ∧ _
    -- Either it was there before and has not given way, or it is the one just made.
    rcases List.mem_append.mp hi with hi | hi
    · obtain ⟨hlt, hmade⟩ := hearlier i (List.mem_of_mem_eraseP hi)
      exact ⟨by omega, hmade⟩
    · rw [List.mem_singleton] at hi
      subst hi
      exact ⟨Nat.lt_succ_self _, call, List.mem_append_right _ List.mem_cons_self, rfl⟩

/-- After any calls, every table that is there was made for the element of one of them. -/
theorem madeFor_serve {before : List Call} {r : Recording} (h : MadeFor before r)
    (calls : List Call) : MadeFor (before ++ calls) (r.serve calls).2 := by
  -- The calls already answered are collected, so that a table can be traced back to any of them.
  induction calls generalizing before r with
  | nil =>
    rw [List.append_nil]
    exact h
  | cons call calls ih =>
    have hlater := ih (madeFor_initialise h call)
    rw [List.append_assoc, List.singleton_append] at hlater
    exact hlater

/-- A table under a key that is made up just now was made for an element with this key as its own,
because keys that were made up earlier have lower numbers. -/
theorem exists_own_key {calls : List Call} {r : Recording} (h : MadeFor calls r) {tag : String}
    (hsome : (r.instance? (numberedKey tag r.created)).isSome) :
    ∃ call ∈ calls, keyOf? call.element = some (numberedKey tag r.created) := by
  obtain ⟨i, hi, hkey⟩ := isSome_instance?_iff.mp hsome
  obtain ⟨hlt, call, hcall, hmade⟩ := h i hi
  refine ⟨call, hcall, ?_⟩
  -- Had this key been made up too, it would carry the number of tables of then, which was lower.
  cases hown : keyOf? call.element with
  | some key =>
    rw [keyAt_of_some hown] at hmade
    rw [← hmade, hkey]
  | none =>
    rw [keyAt_of_none hown, hkey] at hmade
    have hnumber : r.created = i.id := (numberedKey_inj hmade).2
    omega

/-! ## Failed initialisations -/

/-- What a failed initialisation of an element leaves behind, after some calls have led to a record. -/
structure Leaves (calls : List Call) (r : Recording) (e : Element) (attributes : Attributes)
    (after : Recording) : Prop where
  record : after = r
  /-- The element is as it was exactly if it has a key of its own. -/
  unchanged_iff : attributes = e.attributes ↔ (keyOf? e).isSome
  /-- An element without one is left with a key that an element of an earlier call brought along, and
  with nothing else. -/
  stamp : keyOf? e = none →
    attributes = e.attributes.insert keyAttribute (.string (numberedKey e.tag r.created)) ∧
      ∃ call ∈ calls, keyOf? call.element = some (numberedKey e.tag r.created)

theorem leaves_of_occupied {calls : List Call} {r : Recording} (h : MadeFor calls r) {e : Element}
    {config : TableConfig} (hocc : r.Occupied (keyAt r.created e) config) :
    Leaves calls r e (stamped r.created e) r where
  record := rfl
  unchanged_iff := by
    -- Only an element without a key is stamped, and it can be seen to be changed: it had no stamp.
    cases hkey : keyOf? e with
    | some key => exact iff_of_true (stamped_of_some hkey r.created) rfl
    | none =>
      refine iff_of_false (fun hsame => ?_) Bool.false_ne_true
      have htext := (keyOf?_eq_none_iff.mp hkey).2
      rw [← hsame, stamped_of_none hkey, Attributes.text?_insert_string] at htext
      contradiction
  stamp hkey := by
    have hsome := hocc.1
    rw [keyAt_of_none hkey] at hsome
    exact ⟨stamped_of_none hkey r.created, exists_own_key h hsome⟩

/-- A try that fails found its key occupied. -/
theorem leaves_of_error {calls : List Call} {r : Recording} (h : MadeFor calls r) {e : Element}
    {config : TableConfig} {marker : String} {refusal : Refusal}
    (herror : (renderer.attempt marker r e config).outcome = .error refusal) :
    Leaves calls r e (renderer.attempt marker r e config).attributes
      (renderer.attempt marker r e config).renderer := by
  by_cases hocc : r.Occupied (keyAt r.created e) config
  · rw [attempt_of_occupied marker hocc]
    exact leaves_of_occupied h hocc
  -- A free key is never refused.
  · rw [attempt_of_free marker hocc] at herror
    contradiction

/-- What is left behind by an initialisation that fails, whatever calls came before, and whether it was
asked for by itself or by name. The record is as it was. So is the element, if it has a key of its own;
an element without one fails only if the key made up for it is one that another element brought along,
and it keeps that key. -/
theorem initialise_of_error (version : Option Version) (calls : List Call) (engine : Engine Id)
    (e : Element) :
    let r := ((fresh version).serve calls).2
    (∀ refusal, (engine.initialise renderer r e).run.outcome = .error refusal →
      Leaves calls r e (engine.initialise renderer r e).run.attributes
        (engine.initialise renderer r e).run.renderer) ∧
    ∀ invocation failure, invocation.method = .ok .initialise →
      (engine.dispatch renderer invocation r e).run.outcome = .error failure →
      Leaves calls r e (engine.dispatch renderer invocation r e).run.attributes
        (engine.dispatch renderer invocation r e).run.renderer := by
  intro r
  have hmade : MadeFor calls r := madeFor_serve (madeFor_fresh version) calls
  have hinitialise : engine.initialise renderer r e =
      pure (renderer.attempt engine.settings.markerAttribute r e (engine.buildConfig e).run) :=
    engine.initialise_eq_attempt renderer r e
  -- Asked for by name, it is the same try; only the outcome is wrapped.
  refine ⟨fun refusal herror => ?_, fun invocation failure hmethod herror => ?_⟩
  · rw [hinitialise] at herror ⊢
    exact leaves_of_error hmade herror
  · rw [Engine.dispatch, hmethod] at herror ⊢
    dsimp only at herror ⊢
    rw [hinitialise] at herror ⊢
    cases houtcome : (renderer.attempt engine.settings.markerAttribute r e
        (engine.buildConfig e).run).outcome with
    | error refusal => exact leaves_of_error hmade houtcome
    | ok handle =>
      have hanswer : Except.mapError Failure.refused (Except.map Outcome.handle
          (renderer.attempt engine.settings.markerAttribute r e
            (engine.buildConfig e).run).outcome) = .error failure := herror
      rw [houtcome] at hanswer
      contradiction

/-- A table with the `id` "table-1" has been made. -/
def clashingCalls : List Call :=
  [⟨⟨"table", .ofList [("id", .string "table-1")], []⟩, .start⟩]

/-- A table without `id`, for which no other is to give way. -/
def clashingTable : Element :=
  ⟨"table", .ofList [("data-dt_destroy", .string "false")], []⟩

/-- The second table is refused, by itself and by name, and bears the key of the first from then on. -/
theorem initialise_of_error_clashing :
    let r := ((fresh none).serve clashingCalls).2
    let engine : Engine Id := ⟨Host.ofJson .null, .standard⟩
    let attempt := (engine.initialise renderer r clashingTable).run
    let named := (engine.dispatch renderer (.named "initializeDataTable" []) r clashingTable).run
    Leaves clashingCalls r clashingTable attempt.attributes attempt.renderer ∧
      Leaves clashingCalls r clashingTable named.attributes named.renderer ∧
      keyOf? { clashingTable with attributes := attempt.attributes } = some "table-1" := by
  intro r engine attempt named
  obtain ⟨hinitialise, hdispatch⟩ := initialise_of_error none clashingCalls engine clashingTable
  have hrefused : attempt.outcome = .error (.occupied "table-1") := by decide +kernel
  have hfailed : named.outcome.toOption.isNone := by decide +kernel
  have hmethod : (Invocation.named "initializeDataTable" []).method = .ok .initialise := by decide
  refine ⟨hinitialise _ hrefused, ?_, by decide +kernel⟩
  cases houtcome : named.outcome with
  | ok handle =>
    rw [houtcome] at hfailed
    contradiction
  | error failure => exact hdispatch _ failure hmethod houtcome

/-- So a failed initialisation does leave a trace: the second table had no stamp before. -/
theorem initialise_leaves_stamp :
    let r := ((fresh none).serve clashingCalls).2
    let engine : Engine Id := ⟨Host.ofJson .null, .standard⟩
    let attempt := (engine.initialise renderer r clashingTable).run
    attempt.outcome = .error (.occupied "table-1") ∧
      clashingTable.attributes.text? keyAttribute = none ∧
      attempt.attributes.text? keyAttribute = some "table-1" := by
  decide +kernel

end TableMarkup.Recording
