import TableMarkup.Proofs.Rendering.History

/-!
# A record and the calls that led to it

The recording renderer may be called again and again, on elements of any kind and with any
configurations, and some of the calls may fail. What it holds then is told by the answers that it
has given: each answer that was no refusal made a table, and of the tables of one key the last one is
there.

* `Recording.serve`: the answers to calls, one after the other, and the record after them.
* `Recording.serve_eq_recordAll`, `Recording.handles_serve`: a run of calls makes the tables of the
  calls that succeed, and numbers them in a row.
* `Recording.Tells`: a record is what a list of answers tells; `Recording.tells_serve` says so of
  every run of calls.
-/

namespace TableMarkup

/-- A call to the recording renderer. The element is given as it stands then, stamped by an earlier
call or not. -/
structure Call where
  element : Element
  config : TableConfig

/-- A call that has been answered, under the key that its element had. -/
structure Answer where
  key : String
  config : TableConfig
  outcome : Except Refusal Nat

namespace Answer

/-- The handle, if the call succeeded. -/
def handle? (a : Answer) : Option Nat :=
  a.outcome.toOption

/-- The table that was made, if the call succeeded. -/
def made? (a : Answer) : Option Made :=
  a.handle?.map fun _ => ⟨a.key, a.config⟩

end Answer

namespace Recording

def answer (r : Recording) (call : Call) : Answer where
  key := (r.keyFor call.element).1
  config := call.config
  outcome := (r.initialise call.element call.config).outcome

/-- The answers to calls, one after the other, and the record after all of them. -/
def serve : Recording → List Call → List Answer × Recording
  | r, [] => ([], r)
  | r, call :: calls =>
    let later := serve (r.initialise call.element call.config).renderer calls
    (r.answer call :: later.1, later.2)

theorem key_answer (r : Recording) (call : Call) :
    (r.answer call).key = keyAt r.created call.element := by
  rw [answer, keyFor_eq]

/-! ## One call -/

/-- A call fails where a table of its key is there that is not to give way. -/
theorem outcome_answer_error_iff (r : Recording) (call : Call) :
    (∃ refusal, (r.answer call).outcome = .error refusal) ↔
      r.Occupied (r.answer call).key call.config := by
  rw [key_answer]
  constructor
  · rintro ⟨refusal, hrefusal⟩
    by_contra hfree
    rw [answer, initialise_of_free hfree] at hrefusal
    contradiction
  · intro hocc
    rw [answer, initialise_of_occupied hocc]
    exact ⟨_, rfl⟩

/-! ## Runs of calls -/

/-- A run of calls makes the tables of the calls that succeed. -/
theorem serve_eq_recordAll (r : Recording) (calls : List Call) :
    (r.serve calls).2 = r.recordAll ((r.serve calls).1.filterMap Answer.made?) := by
  -- The record varies: each call is answered from the one that the calls before it have left.
  induction calls generalizing r with
  | nil => rfl
  | cons call calls ih =>
    rw [serve]
    by_cases hocc : r.Occupied (keyAt r.created call.element) call.config
    -- A call that fails leaves no table and the same record.
    · have hmade : (r.answer call).made? = none := by
        rw [answer, initialise_of_occupied hocc]
        rfl
      rw [List.filterMap_cons_none hmade, initialise_of_occupied hocc]
      exact ih r
    · have hmade : (r.answer call).made? =
          some ⟨keyAt r.created call.element, call.config⟩ := by
        rw [← key_answer, answer, initialise_of_free hocc]
        rfl
      rw [List.filterMap_cons_some hmade, recordAll_cons, initialise_of_free hocc]
      exact ih _

/-- However the renderer is called, no key is there twice. -/
theorem nodup_keys_serve (version : Option Version) (calls : List Call) :
    (((fresh version).serve calls).2.instances.map Instance.key).Nodup := by
  rw [serve_eq_recordAll, recordAll_fresh]
  exact nodup_keys_latest 0 _

/-- The calls that succeed are numbered in a row. -/
theorem handles_serve (r : Recording) (calls : List Call) :
    (r.serve calls).1.filterMap Answer.handle? =
      List.range' r.created ((r.serve calls).1.filterMap Answer.made?).length := by
  induction calls generalizing r with
  | nil => rfl
  | cons call calls ih =>
    rw [serve]
    by_cases hocc : r.Occupied (keyAt r.created call.element) call.config
    · have hhandle : (r.answer call).handle? = none := by
        rw [answer, initialise_of_occupied hocc]
        rfl
      have hmade : (r.answer call).made? = none := by
        rw [Answer.made?, hhandle, Option.map_none]
      rw [List.filterMap_cons_none hhandle, List.filterMap_cons_none hmade,
        initialise_of_occupied hocc]
      exact ih r
    -- The handle is the number of tables so far, from which the rest goes on to count.
    · have hhandle : (r.answer call).handle? = some r.created := by
        rw [answer, initialise_of_free hocc]
        rfl
      have hmade : (r.answer call).made? =
          some ⟨(r.answer call).key, (r.answer call).config⟩ := by
        rw [Answer.made?, hhandle, Option.map_some]
      rw [List.filterMap_cons_some hhandle, List.filterMap_cons_some hmade, List.length_cons,
        List.range'_succ, initialise_of_free hocc, ih]
      rfl

/-! ## The latest tables -/

/-- The numbers of the latest tables ascend, and are those of tables that were made. -/
theorem pairwise_ids_latest (n : Nat) (ts : List Made) :
    (latest n ts).Pairwise (fun i j => i.id < j.id) ∧
      ∀ i ∈ latest n ts, n ≤ i.id ∧ i.id < n + ts.length := by
  induction ts generalizing n with
  | nil => simp [latest]
  | cons t later ih =>
    obtain ⟨hpair, hbounds⟩ := ih (n + 1)
    -- The bounds for the rest are one too narrow for the whole list, and that leaves the first
    -- number free.
    have hlater : ∀ i ∈ latest (n + 1) later, n < i.id ∧ i.id < n + (t :: later).length := by
      intro i hi
      have := hbounds i hi
      rw [List.length_cons]
      omega
    rw [latest]
    split
    · refine ⟨hpair, fun i hi => ?_⟩
      have := hlater i hi
      omega
    · rw [List.pairwise_cons]
      refine ⟨⟨fun i hi => (hlater i hi).1, hpair⟩, fun i hi => ?_⟩
      rcases List.mem_cons.mp hi with rfl | hi
      · simp
      · have := hlater i hi
        omega

/-- The table of a key that was made last, with its number. -/
def lastMade? (ts : List Made) (key : String) : Option Instance :=
  (ts.zipIdx.reverse.find? fun t => t.1.key = key).map fun t => ⟨t.2, t.1.key, t.1.config⟩

/-- Among the latest tables there is, of each key, the one that was made last. -/
theorem find?_latest (ts : List Made) (key : String) :
    (latest 0 ts).find? (·.key = key) = lastMade? ts key := by
  -- From the back: the last table of a key is the first one met in the list turned around.
  induction ts using List.reverseRecOn with
  | nil => rfl
  | append_singleton ts t ih =>
    have hlast : lastMade? (ts ++ [t]) key =
        if t.key = key then some ⟨ts.length, t.key, t.config⟩ else lastMade? ts key := by
      rw [lastMade?, List.zipIdx_append, List.reverse_append]
      by_cases hkey : t.key = key
      · simp [hkey]
      · simp [hkey, lastMade?]
    rw [hlast, latest_append_singleton, List.find?_append, Nat.zero_add]
    by_cases hkey : t.key = key
    · -- The earlier tables of this key are gone.
      have hnone : ((latest 0 ts).filter (·.key ≠ t.key)).find? (·.key = key) = none := by
        rw [List.find?_eq_none]
        intro i hi
        have hne := (List.mem_filter.mp hi).2
        rw [hkey] at hne
        simpa using hne
      rw [if_pos hkey, hnone, Option.none_or]
      simp [hkey]
    -- For another key it makes no difference that those of this key are gone.
    · have hkept : ((latest 0 ts).filter (·.key ≠ t.key)).find? (·.key = key) =
          (latest 0 ts).find? (·.key = key) := by
        rw [List.find?_filter]
        congr 1
        funext i
        by_cases hi : i.key = key
        · have hne : i.key ≠ t.key := fun h => hkey (h ▸ hi)
          simp [hi, Ne.symm hkey]
        · simp [hi]
      rw [if_neg hkey, hkept, ih]
      simp [hkey]

/-! ## What the answers tell -/

/-- A record is what a list of answers tells about it. -/
structure Tells (answers : List Answer) (r : Recording) : Prop where
  /-- As many tables were made as calls succeeded. -/
  created : r.created = (answers.filterMap Answer.made?).length
  /-- The handles are the numbers of the calls that succeeded. -/
  handles : answers.filterMap Answer.handle? = List.range r.created
  /-- The tables that are there are those after which none of their key was made, in the order in
  which they were made. -/
  instances : let made := answers.filterMap Answer.made?
    r.instances =
      ((List.finRange made.length).filter fun i => ∀ k, i < k → made[k].key ≠ made[i].key).map
        fun i => ⟨i, made[i].key, made[i].config⟩
  keys : (r.instances.map Instance.key).Nodup
  ids : (r.instances.map Instance.id).Pairwise (· < ·)
  id_lt (i : Instance) : i ∈ r.instances → i.id < r.created
  /-- Under each key there is the table that was made last. -/
  instance? (key : String) : r.instance? key = lastMade? (answers.filterMap Answer.made?) key
  /-- A further call fails where a table of its key is there, unless its configuration says that this
  table is to give way. -/
  refuses (call : Call) : (∃ refusal, (r.answer call).outcome = .error refusal) ↔
    (∃ i ∈ r.instances, i.key = (r.answer call).key) ∧
      call.config.get? OptionName.destroy ≠ some (.bool true)

/-- After any calls, the record of a fresh renderer is what its answers tell. -/
theorem tells_serve (version : Option Version) (calls : List Call) :
    Tells ((fresh version).serve calls).1 ((fresh version).serve calls).2 := by
  have hrecord := serve_eq_recordAll (fresh version) calls
  have hhandles := handles_serve (fresh version) calls
  -- Answers and record are forgotten but for two facts: the record holds the tables made, and the
  -- handles are numbered in a row.
  generalize ((fresh version).serve calls).1 = answers at hrecord hhandles ⊢
  generalize ((fresh version).serve calls).2 = r at hrecord ⊢
  rw [recordAll_fresh] at hrecord
  subst hrecord
  obtain ⟨hids, hbounds⟩ := pairwise_ids_latest 0 (answers.filterMap Answer.made?)
  constructor
  case created => rfl
  case handles =>
    rw [hhandles, List.range_eq_range']
    rfl
  case instances =>
    intro made
    -- Positions count from the first table, since nothing had been made before.
    have hlatest := latest_ofFn 0 fun i : Fin made.length => made[i]
    rw [show List.ofFn (fun i : Fin made.length => made[i]) = made from List.ofFn_getElem] at hlatest
    simpa only [Nat.zero_add] using hlatest
  case keys => exact nodup_keys_latest 0 _
  case ids => exact List.pairwise_map.mpr hids
  case id_lt =>
    intro i hi
    have hlt := (hbounds i hi).2
    rwa [Nat.zero_add] at hlt
  case instance? => exact find?_latest _
  case refuses =>
    intro call
    rw [outcome_answer_error_iff, Occupied, isSome_instance?_iff, ne_eq,
      ← TableConfig.destroys_iff]

end Recording

end TableMarkup
