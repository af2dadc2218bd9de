import TableMarkup.Proofs.Rendering.Course
import TableMarkup.Proofs.Rendering.Keys

/-!
# Recorders

A recorder may stand behind a host that turns elements away before they are recorded, for reasons of
its own. Whatever the host does, the record and the elements are those of a recording renderer that
was never asked about the elements turned away.

* `Recording.attempt_of_occupied`, `Recording.attempt_of_free`: a hand-over to the recording renderer
  itself.
* `Renderer.Keeps`: a renderer keeps a record of what it makes.
* `Keeps.attempt_of_ok`, `Keeps.attempt_of_error`: what a hand-over does to the element and to the
  record.
* `Keeps.handles_course`, `Keeps.worn_of_accepted`, `Keeps.worn_of_refused`: the same for all
  hand-overs of a pass.
-/

namespace TableMarkup

open Recording

/-! ## The recording renderer -/

namespace Recording

variable {r : Recording} {e : Element} {config : TableConfig}

/-- Where a table that is to stay has the key, the try fails: the record stays, and the element
keeps the stamp that it got before the renderer looked. -/
theorem attempt_of_occupied (marker : String) (h : r.Occupied (keyAt r.created e) config) :
    renderer.attempt marker r e config =
      ⟨.error (.occupied (keyAt r.created e)), stamped r.created e, r⟩ := by
  simp [Renderer.attempt, renderer, initialise_of_occupied h]

/-- Where nothing is in the way, a table is made, and the element is stamped and loses its
marker. -/
theorem attempt_of_free (marker : String) (h : ¬ r.Occupied (keyAt r.created e) config) :
    renderer.attempt marker r e config =
      ⟨.ok r.created, (stamped r.created e).erase marker,
        r.record (keyAt r.created e) config⟩ := by
  simp [Renderer.attempt, renderer, initialise_of_free h]

end Recording

/-! ## Renderers that keep a record -/

variable {ρ : Type}

/-- The renderer keeps a record of what it makes. At each element it either does as a recording
renderer with this record does, or turns the element away and leaves element and record alone. -/
structure Renderer.Keeps (r : Renderer ρ Nat) (record : ρ → Recording) : Prop where
  initialise (state : ρ) (e : Element) (config : TableConfig) :
    (∃ refusal after, r.initialise state e config = ⟨.error refusal, e.attributes, after⟩ ∧
      record after = record state) ∨
    (∃ after, r.initialise state e config =
        ⟨((record state).initialise e config).outcome, stamped (record state).created e, after⟩ ∧
      record after = ((record state).initialise e config).renderer)

/-- The recording renderer keeps its own state. -/
theorem Recording.keeps_renderer : renderer.Keeps id where
  initialise r e config := by
    refine .inr ⟨(r.initialise e config).renderer, ?_, rfl⟩
    rw [id_eq, ← attributes_initialise r e config]
    rfl

/-- It does so also where a host turns some elements away. -/
theorem Recording.keeps_refusing (reason? : Element → Option String) :
    (renderer.refusing reason?).Keeps id where
  initialise state e config := by
    cases h : reason? e with
    | some reason =>
      exact .inl ⟨.rejected e.tag reason, state, by simp [Renderer.refusing, h], rfl⟩
    | none =>
      have hsame : (renderer.refusing reason?).initialise state e config =
          renderer.initialise state e config := by
        simp only [Renderer.refusing, h]
      rw [hsame]
      exact keeps_renderer.initialise state e config

namespace Renderer.Keeps

variable {r : Renderer ρ Nat} {record : ρ → Recording} {marker : String} {state : ρ} {e : Element}
  {config : TableConfig}

/-- An element that is accepted has been recorded, it is stamped, and its marker is off. -/
theorem attempt_of_ok (hr : r.Keeps record) {handle : Nat}
    (h : (r.attempt marker state e config).outcome = .ok handle) :
    handle = (record state).created ∧
      (r.attempt marker state e config).attributes =
        (stamped (record state).created e).erase marker ∧
      ¬ (record state).Occupied (keyAt (record state).created e) config ∧
      record (r.attempt marker state e config).renderer =
        (record state).record (keyAt (record state).created e) config := by
  -- An element that was turned away was not accepted, and neither was one whose key is taken.
  obtain ⟨refusal, after, htry, -⟩ | ⟨after, htry, hrecord⟩ := hr.initialise state e config
  · simp [attempt, htry] at h
  · by_cases hocc : (record state).Occupied (keyAt (record state).created e) config
    · simp [attempt, htry, initialise_of_occupied hocc] at h
    · rw [initialise_of_free hocc] at htry hrecord
      have hattempt : r.attempt marker state e config =
          ⟨.ok (record state).created, (stamped (record state).created e).erase marker, after⟩ := by
        simp [attempt, htry]
      rw [hattempt] at h ⊢
      exact ⟨(Except.ok.inj h).symm, rfl, hocc, hrecord⟩

/-- An element that is refused may be stamped, and nothing is recorded. -/
theorem attempt_of_error (hr : r.Keeps record) {refusal : Refusal}
    (h : (r.attempt marker state e config).outcome = .error refusal) :
    ((r.attempt marker state e config).attributes = e.attributes ∨
      (r.attempt marker state e config).attributes = stamped (record state).created e) ∧
      record (r.attempt marker state e config).renderer = record state := by
  -- Turned away by the host, the element is as it was; refused by the recorder, it is stamped.
  obtain ⟨cause, after, htry, hrecord⟩ | ⟨after, htry, hrecord⟩ := hr.initialise state e config
  · have hattempt : r.attempt marker state e config = ⟨.error cause, e.attributes, after⟩ := by
      simp [attempt, htry]
    rw [hattempt]
    exact ⟨.inl rfl, hrecord⟩
  · by_cases hocc : (record state).Occupied (keyAt (record state).created e) config
    · rw [initialise_of_occupied hocc] at htry hrecord
      have hattempt : r.attempt marker state e config =
          ⟨.error (.occupied (keyAt (record state).created e)),
            stamped (record state).created e, after⟩ := by
        simp [attempt, htry]
      rw [hattempt]
      exact ⟨.inr rfl, hrecord⟩
    · simp [attempt, htry, initialise_of_free hocc] at h

/-! ## Passes -/

variable {marked : List (List Nat × Element)}

/-- The handles of a pass are numbers in a row. -/
theorem handles_course (hr : r.Keeps record) (c : Course r marker state marked) :
    c.handles = List.range' (record state).created c.handles.length := by
  induction c with
  | finished => rfl
  | refused path e config refusal h => rfl
  | accepted path e config handle h later ih =>
    -- The first handle is the number of the record before, and the record after it counts one more.
    obtain ⟨hhandle, -, -, hrecord⟩ := hr.attempt_of_ok h
    rw [hrecord, created_record] at ih
    rw [Course.handles, List.length_cons, List.range'_succ, hhandle, ← ih]

/-- The attributes with which an element that was accepted is left. -/
theorem worn_of_accepted (hr : r.Keeps record) (c : Course r marker state marked) {i : Nat}
    {path : List Nat} {e : Element} (hi : i < c.handles.length)
    (h : c.handed[i]? = some (path, e)) :
    (path, (stamped ((record state).created + i) e).erase marker) ∈ c.worn := by
  induction c generalizing i with
  | finished => simp [Course.handles] at hi
  | refused path e config refusal hr => simp [Course.handles] at hi
  | accepted path e config handle ha later ih =>
    obtain ⟨-, hworn, -, hrecord⟩ := hr.attempt_of_ok ha
    rw [Course.worn, hworn]
    -- Either it is the first element of the course or one of the rest.
    cases i with
    | zero =>
      rw [Course.handed, List.getElem?_cons_zero, Option.some.injEq, Prod.mk.injEq] at h
      obtain ⟨rfl, rfl⟩ := h
      exact List.mem_cons_self
    | succ i =>
      rw [Course.handles, List.length_cons, Nat.succ_lt_succ_iff] at hi
      rw [Course.handed, List.getElem?_cons_succ] at h
      -- One more table has been made, so the rest counts from there.
      have hlater := ih hi h
      rw [hrecord, created_record, Nat.add_right_comm, Nat.add_assoc] at hlater
      exact List.mem_cons_of_mem _ hlater

/-- The attributes with which the element that was refused is left, and the refusal. -/
theorem worn_of_refused (hr : r.Keeps record) (c : Course r marker state marked)
    {path : List Nat} {e : Element} (h : c.handed[c.handles.length]? = some (path, e)) :
    ∃ a, (path, a) ∈ c.worn ∧
      (a = e.attributes ∨ a = stamped ((record state).created + c.handles.length) e) ∧
      ∃ before config refusal, c.refusal = some refusal ∧
        (r.initialise before e config).outcome = .error refusal := by
  induction c with
  | finished => simp [Course.handed] at h
  | @refused state path' e' rest config refusal hrefused =>
    simp only [Course.handed, Course.handles, List.length_nil, List.getElem?_cons_zero,
      Option.some.injEq, Prod.mk.injEq] at h
    obtain ⟨rfl, rfl⟩ := h
    -- Taking the marker off is for elements accepted, so it does not touch the outcome.
    have hcause : (r.initialise state e' config).outcome = .error refusal := by
      cases hout : (r.initialise state e' config).outcome with
      | ok handle => simp [attempt, hout] at hrefused
      | error cause =>
        simp only [attempt, hout] at hrefused
        exact hrefused
    exact ⟨_, List.mem_singleton_self _, (hr.attempt_of_error hrefused).1, state, config, refusal,
      rfl, hcause⟩
  | accepted path e config handle ha later ih =>
    -- The refused element is behind this one, which counts as one more table.
    rw [Course.handed, Course.handles, List.length_cons, List.getElem?_cons_succ] at h
    obtain ⟨-, -, -, hrecord⟩ := hr.attempt_of_ok ha
    obtain ⟨a, hworn, ha, hrefused⟩ := ih h
    rw [hrecord, created_record, Nat.add_right_comm, Nat.add_assoc] at ha
    exact ⟨a, List.mem_cons_of_mem _ hworn, ha, hrefused⟩

end Renderer.Keeps

end TableMarkup
