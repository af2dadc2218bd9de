import TableMarkup.Proofs.Rendering.Rounds

/-!
# Repeated discovery

Rounds of discovery may overlap, be repeated and fail. Still no element is accepted twice, because an
element that has been accepted is not marked from then on; and once the whole document has been looked
through without a refusal, nothing is left for the rounds that follow.

* `Rounds`: the record of a run of rounds; `Engine.trace_eq_rounds` says that every run has one.
* `Rounds.mem_paths_before_iff`: what is marked before each of the rounds of a run.
* `Rounds.Once`: every element is accepted at most once, and exactly once as soon as a round over the
  whole document has met no refusal; `Engine.rounds_once` says so of all runs.
-/

namespace TableMarkup

variable {ρ η : Type}

/-! ## Runs of rounds -/

/-- The record of a run of rounds, from a session on. -/
inductive Rounds (settings : Settings) : Session ρ → List (Round ρ η) → Type where
  | finished {s : Session ρ} : Rounds settings s []
  | round {s : Session ρ} {next : Round ρ η} {rest : List (Round ρ η)}
      (c : Course next.renderer settings.markerAttribute s.renderer
        (next.marked settings s.document))
      (later : Rounds settings (next.entry s c).after rest) : Rounds settings s (next :: rest)

/-- Takes rounds one after the other. -/
def Engine.rounds {m : Type → Type} [Monad m] (engine : Engine m) :
    (rounds : List (Round ρ η)) → (s : Session ρ) → m (Rounds engine.settings s rounds)
  | [], _ => pure .finished
  | next :: rest, s => do
    let c ← engine.course next.renderer s.renderer (next.marked engine.settings s.document)
    let later ← engine.rounds rest (next.entry s c).after
    pure (.round c later)

namespace Rounds

variable {settings : Settings} {s : Session ρ}

/-- What came of each round. -/
def log {s : Session ρ} {rounds : List (Round ρ η)} :
    Rounds settings s rounds → List (Round.Entry ρ η)
  | .finished => []
  | .round c later => Round.entry _ s c :: later.log

theorem map_round_log {rounds : List (Round ρ η)} (run : Rounds settings s rounds) :
    run.log.map Round.Entry.round = rounds := by
  induction run with
  | finished => rfl
  | round c later ih =>
    rw [log, List.map_cons, ih]
    rfl

end Rounds

/-- Every run of rounds has a record, which tells its trace. -/
theorem Engine.trace_eq_rounds {m : Type → Type} [Monad m] [LawfulMonad m] (engine : Engine m)
    (rounds : List (Round ρ η)) (s : Session ρ) :
    Session.trace engine (rounds.map fun round => (round.renderer, round.step)) s =
      (fun run => run.log.map Round.Entry.toTurn) <$> engine.rounds rounds s := by
  -- Each round takes its course from the session that the rounds before it have left.
  induction rounds generalizing s with
  | nil => simp [Session.trace, rounds, Rounds.log]
  | cons next rest ih =>
    simp only [List.map_cons, Session.trace, rounds, Round.perform_eq_course, bind_map_left, ih,
      map_bind, bind_pure_comp, Functor.map_map]
    rfl

namespace Rounds

variable {settings : Settings} {s : Session ρ}

/-- Once nothing is marked, nothing comes of any round. -/
theorem idle_of_paths_eq_nil {rounds : List (Round ρ η)} (run : Rounds settings s rounds)
    (h : settings.selector.paths s.document = []) :
    ∀ x ∈ run.log, x.Idle ∧ x.before = s := by
  induction run with
  | finished => simp [log]
  | @round s next rest c later ih =>
    have hnone : next.marked settings s.document = [] := by
      rw [List.eq_nil_iff_forall_not_mem]
      intro x hx
      have hmem : x.1 ∈ settings.selector.paths s.document :=
        List.mem_map_of_mem (Round.mem_marked.mp hx).2.1
      rw [h] at hmem
      contradiction
    have hidle := next.idle_entry s hnone c
    -- An idle round leaves the session, so nothing is marked for the next one either.
    have hafter : (next.entry s c).after = s := hidle.after
    have hlater := ih (by rw [hafter, h])
    rw [log, List.forall_mem_cons]
    refine ⟨⟨hidle, rfl⟩, fun x hx => ?_⟩
    obtain ⟨hlaterIdle, hbefore⟩ := hlater x hx
    exact ⟨hlaterIdle, hbefore.trans hafter⟩

/-- After any of its rounds a run goes on from the session that the round has left. -/
theorem exists_rest_of_log {rounds : List (Round ρ η)} (run : Rounds settings s rounds)
    {earlier later : List (Round.Entry ρ η)} {x : Round.Entry ρ η}
    (h : run.log = earlier ++ x :: later) :
    ∃ rest, ∃ run' : Rounds settings x.after rest, run'.log = later := by
  induction run generalizing earlier with
  | finished => simp [log] at h
  | @round s next rest c run ih =>
    rw [log] at h
    -- The round is the first of the run, or one of those behind it.
    cases earlier with
    | nil =>
      obtain ⟨rfl, hlog⟩ := List.cons.inj h
      exact ⟨rest, run, hlog⟩
    | cons y earlier => exact ih (List.cons.inj h).2

variable {record : ρ → Recording} {rounds : List (Round ρ Nat)}

/-- Every round of a run does what a round should. -/
theorem exact_of_mem_log (run : Rounds settings s rounds)
    (hkeeps : ∀ round ∈ rounds, round.renderer.Keeps record) :
    ∀ x ∈ run.log, x.Exact record settings := by
  induction run with
  | finished => simp [log]
  | @round s next rest c later ih =>
    rw [List.forall_mem_cons] at hkeeps
    rw [log, List.forall_mem_cons]
    exact ⟨Round.entry_exact hkeeps.1 s c, ih hkeeps.2⟩

/-- Before a round those elements are marked that were marked at the beginning and have not been
accepted since. -/
theorem mem_paths_before_iff (run : Rounds settings s rounds)
    (hexact : ∀ x ∈ run.log, x.Exact record settings)
    {earlier later : List (Round.Entry ρ Nat)} {x : Round.Entry ρ Nat}
    (h : run.log = earlier ++ x :: later) (p : List Nat) :
    p ∈ settings.selector.paths x.before.document ↔
      p ∈ settings.selector.paths s.document ∧ p ∉ earlier.flatMap (·.accepted) := by
  -- On the run: each round takes out of the marks what it accepts, and adds none.
  induction run generalizing earlier with
  | finished => simp [log] at h
  | @round s next rest c run ih =>
    rw [log] at h hexact
    rw [List.forall_mem_cons] at hexact
    -- Before the first round nothing has been accepted yet.
    cases earlier with
    | nil =>
      obtain ⟨rfl, -⟩ := List.cons.inj h
      exact (and_iff_left List.not_mem_nil).symm
    | cons y earlier =>
      obtain ⟨rfl, hlog⟩ := List.cons.inj h
      rw [ih hexact.2 hlog, hexact.1.mem_after_iff, List.flatMap_cons, List.mem_append, not_or,
        and_assoc]
      rfl

/-- No element is accepted twice, and only such elements are accepted that were marked at the
beginning. -/
theorem nodup_accepted (run : Rounds settings s rounds)
    (hexact : ∀ x ∈ run.log, x.Exact record settings) :
    (run.log.flatMap (·.accepted)).Nodup ∧
      ∀ p ∈ run.log.flatMap (·.accepted), p ∈ settings.selector.paths s.document := by
  -- From the back: what the later rounds accept was marked after the first one.
  induction run with
  | finished => simp [log]
  | @round s next rest c run ih =>
    rw [log] at hexact ⊢
    rw [List.forall_mem_cons] at hexact
    obtain ⟨hnodup, hmarked⟩ := ih hexact.2
    have hlater {p : List Nat} (hp : p ∈ run.log.flatMap (·.accepted)) :=
      (hexact.1.mem_after_iff p).mp (hmarked p hp)
    rw [List.flatMap_cons, List.nodup_append]
    refine ⟨⟨hexact.1.nodup, hnodup, ?_⟩, fun p hp => ?_⟩
    · -- What is accepted later was still marked after the first round.
      rintro p hfirst q hq rfl
      exact (hlater hq).2 hfirst
    · rcases List.mem_append.mp hp with hfirst | hp
      · exact hexact.1.mem_before p hfirst
      · exact (hlater hp).1

/-- Every element is accepted at most once in a run, and exactly once if the whole document is looked
through without a refusal. -/
structure Once (record : ρ → Recording) (run : Rounds settings s rounds) : Prop where
  /-- No element is accepted twice, in whatever rounds. -/
  nodup : (run.log.flatMap (·.accepted)).Nodup
  /-- Only elements are accepted that were marked at the beginning. -/
  marked (p : List Nat) :
    p ∈ run.log.flatMap (·.accepted) → p ∈ settings.selector.paths s.document
  /-- Each round does what it should; those that are not asked to look for tables do nothing. -/
  each (x : Round.Entry ρ Nat) : x ∈ run.log → x.Exact record settings
  /-- Once the whole document has been looked through without a refusal, every element that was marked
  at the beginning has been accepted once, none is marked any more, and nothing comes of the rounds
  that follow. -/
  settled (earlier later : List (Round.Entry ρ Nat)) (x : Round.Entry ρ Nat) (handles : List Nat) :
    run.log = earlier ++ x :: later → x.round.path = [] → x.round.signal.discovers →
      x.report = some (.ok (.handles handles)) →
        (∀ p ∈ settings.selector.paths s.document,
          ((earlier ++ [x]).flatMap (·.accepted)).count p = 1) ∧
        settings.selector.find x.after.document = [] ∧
        ∀ y ∈ later, y.Idle ∧ y.before = x.after

/-- Every run of rounds accepts each element once. -/
theorem once (run : Rounds settings s rounds)
    (hkeeps : ∀ round ∈ rounds, round.renderer.Keeps record) : run.Once record := by
  have hexact := run.exact_of_mem_log hkeeps
  obtain ⟨hnodup, hmarked⟩ := run.nodup_accepted hexact
  constructor
  case nodup => exact hnodup
  case marked => exact hmarked
  case each => exact hexact
  case settled =>
    intro earlier later x handles hlog hpath hdiscovers hreport
    have hx : x.Exact record settings := hexact x (by rw [hlog]; simp)
    have hbefore := run.mem_paths_before_iff hexact hlog
    -- The round went over the whole document, so whatever was marked before it has been accepted by
    -- it.
    have haccepted (p : List Nat) (hp : p ∈ settings.selector.paths x.before.document) :
        p ∈ x.accepted :=
      hx.complete handles p hdiscovers hreport hp (hpath ▸ List.nil_prefix)
    have hnone : settings.selector.paths x.after.document = [] := by
      rw [List.eq_nil_iff_forall_not_mem]
      intro p hp
      obtain ⟨hpending, hnot⟩ := (hx.mem_after_iff p).mp hp
      exact hnot (haccepted p hpending)
    refine ⟨fun p hp => ?_, ?_, ?_⟩
    -- The rounds up to this one are a part of the run, in which no element is accepted twice.
    · have honce : ((earlier ++ [x]).flatMap (·.accepted)).Nodup := by
        rw [hlog, List.append_cons, List.flatMap_append] at hnodup
        exact (List.nodup_append.mp hnodup).1
      refine List.count_eq_one_of_mem honce ?_
      rw [List.flatMap_append, List.flatMap_singleton, List.mem_append]
      -- It was accepted in an earlier round, or was marked still when this one began.
      by_cases hearlier : p ∈ earlier.flatMap (·.accepted)
      · exact .inl hearlier
      · exact .inr (haccepted p ((hbefore p).mpr ⟨hp, hearlier⟩))
    · rw [← Selector.map_snd_located]
      rw [Selector.paths, List.map_eq_nil_iff] at hnone
      rw [hnone, List.map_nil]
    -- What is left of the run begins with a document on which nothing is marked.
    · obtain ⟨rest, run', hrest⟩ := run.exists_rest_of_log hlog
      have hidle := run'.idle_of_paths_eq_nil hnone
      rwa [hrest] at hidle

end Rounds

/-- Every run of rounds has a record that tells its trace, and in every record each element is
accepted at most once, and exactly once if the whole document is looked through without a refusal. -/
theorem Engine.rounds_once {m : Type → Type} [Monad m] [LawfulMonad m] (engine : Engine m)
    {record : ρ → Recording} (rounds : List (Round ρ Nat))
    (hkeeps : ∀ round ∈ rounds, round.renderer.Keeps record) (s : Session ρ) :
    Session.trace engine (rounds.map fun round => (round.renderer, round.step)) s =
        (fun run => run.log.map Round.Entry.toTurn) <$> engine.rounds rounds s ∧
      ∀ run : Rounds engine.settings s rounds,
        run.log.map Round.Entry.round = rounds ∧ run.Once record :=
  ⟨engine.trace_eq_rounds rounds s, fun run => ⟨run.map_round_log, run.once hkeeps⟩⟩

open Recording in
/-- The second table is turned away when the page is ready, which ends that round. An event asks for
it later, and the third table is there for the next round over the whole document. -/
theorem Engine.rounds_once_threeTables :
    let engine : Engine Id := ⟨Host.ofJson .null, .standard⟩
    let picky := renderer.refusing fun e => if e.id? = some "second" then some "no" else none
    let rounds : List (Round Recording Nat) :=
      [⟨picky, [], .ready⟩, ⟨renderer, [1], .event "click"⟩, ⟨renderer, [1], .event "initialize"⟩,
        ⟨picky, [], .ready⟩, ⟨renderer, [1], .ready⟩]
    let run : Rounds engine.settings ⟨threeTables, .fresh none⟩ rounds := engine.rounds rounds _
    (∀ round ∈ rounds, round.renderer.Keeps id) ∧
    run.log.map (·.accepted) = [[[0]], [], [[1, 0]], [[2]], []] ∧
    run.Once id := by
  refine ⟨?keeps, by decide +kernel, ((Engine.rounds_once _ _ ?keeps _).2 _).2⟩
  simp only [List.forall_mem_cons, List.not_mem_nil, false_imp_iff, implies_true, and_true]
  exact ⟨keeps_refusing _, keeps_renderer, keeps_renderer, keeps_refusing _, keeps_renderer⟩

end TableMarkup
