import TableMarkup.Json.Reading

/-!
# Readings in progress

A reading is looked at from any point of a text on, with any brackets open and anyone listening. What
it comes to is split where the text is split, and what is heard is split likewise.

* `Sink.Hears`: a sink takes a list of events, and skips and refuses none of them.
* `Sink.Takes`: it hears them, or nobody does since what is read is skipped.
* `Machine.run`: what reading comes to from any point of a text.
* `Machine.run_cons`, `Machine.run_append`: the machine first reads what comes first.
* `Machine.run_blanks`: blanks between two tokens are read without effect.
-/

namespace TableMarkup.Json

/-! ## Listening -/

/-- The sink takes these events one after the other. Before each of them it cares for the value that
comes next and has room for it. -/
inductive Sink.Hears {σ : Type} (k : Sink σ) : σ → List Event → σ → Prop
  | nil (s : σ) : Hears k s [] s
  | cons {s t u : σ} {e : Event} {es : List Event} (skips : k.skips s = false)
      (room : k.room s = true) (accept : k.accept s e = .ok t) (later : Hears k t es u) :
      Hears k s (e :: es) u

variable {σ : Type} {k : Sink σ}

/-- Events in two parts are heard in two parts, with a state of the sink between them. -/
theorem Sink.hears_append {s u : σ} {es fs : List Event} :
    k.Hears s (es ++ fs) u ↔ ∃ t, k.Hears s es t ∧ k.Hears t fs u := by
  induction es generalizing s with
  | nil =>
    constructor
    -- Induction on the events of the first part.
    · exact fun h => ⟨s, .nil s, h⟩
    · rintro ⟨_, ⟨⟩, h⟩
      exact h
  | cons e es ih =>
    constructor
    · rintro (_ | ⟨hskips, hroom, haccept, hlater⟩)
      obtain ⟨t, hes, hfs⟩ := ih.mp hlater
      exact ⟨t, .cons hskips hroom haccept hes, hfs⟩
    · rintro ⟨t, _ | ⟨hskips, hroom, haccept, hlater⟩, hfs⟩
      exact .cons hskips hroom haccept (ih.mpr ⟨t, hlater, hfs⟩)

/-- A sink that hears anything has had room for it. -/
theorem Sink.Hears.room {s t : σ} {es : List Event} (h : k.Hears s es t) (hne : es ≠ []) :
    k.room s = true := by
  cases h with
  | nil => contradiction
  | cons _ hroom _ _ => exact hroom

/-- What is read has these events, with brackets open around what is skipped if it is skipped. A sink
hears of them, or stays as it is. -/
inductive Sink.Takes (k : Sink σ) : Option Nat → σ → List Event → σ → Prop
  | heard {s t : σ} {es : List Event} (h : k.Hears s es t) : Takes k none s es t
  | unheard (n : Nat) (s : σ) (es : List Event) : Takes k (some n) s es s

/-- A sink is told this event. It need not care for the value that comes next, as it is not asked. -/
inductive Sink.Told (k : Sink σ) : Option Nat → σ → Event → σ → Prop
  | heard {s t : σ} {e : Event} (haccept : k.accept s e = .ok t) : Told k none s e t
  | unheard (n : Nat) (s : σ) (e : Event) : Told k (some n) s e s

namespace Sink

variable {skipped : Option Nat} {s t u : σ} {e : Event} {es fs : List Event}

/-- A single event is taken if the sink cares for it, has room for it and accepts it. -/
theorem takes_one (hskips : k.skips s = false) (hroom : k.room s = true)
    (haccept : k.accept s e = .ok t) : k.Takes none s [e] t :=
  .heard (.cons hskips hroom haccept (.nil t))

/-- What is taken in two parts is heard in both or unheard in both. -/
theorem takes_append :
    k.Takes skipped s (es ++ fs) u ↔ ∃ t, k.Takes skipped s es t ∧ k.Takes skipped t fs u := by
  constructor
  · rintro (h | ⟨n, s⟩)
    · obtain ⟨t, hes, hfs⟩ := hears_append.mp h
      exact ⟨t, .heard hes, .heard hfs⟩
    · exact ⟨s, .unheard n s es, .unheard n s fs⟩
  · rintro ⟨t, hes | ⟨n, s⟩, hfs⟩
    · cases hfs with
      | heard hfs => exact .heard (hears_append.mpr ⟨t, hes, hfs⟩)
    · cases hfs
      exact .unheard n s (es ++ fs)

/-- The first event is taken by itself. -/
theorem takes_cons :
    k.Takes skipped s (e :: es) u ↔ ∃ t, k.Takes skipped s [e] t ∧ k.Takes skipped t es u := by
  rw [← List.singleton_append, takes_append]

/-- To take an event is more than to be told of it, since the sink is asked before. -/
theorem Takes.told (h : k.Takes skipped s [e] t) : k.Told skipped s e t := by
  obtain (_ | ⟨-, -, haccept, ⟨⟩⟩) | ⟨n, s⟩ := h
  · exact .heard haccept
  · exact .unheard n s e

theorem Takes.eq_of_nil (h : k.Takes skipped s [] t) : t = s := by
  obtain ⟨⟨⟩⟩ | ⟨n, s⟩ := h <;> rfl

/-- Before the first event the machine does not begin to skip. -/
theorem Takes.skips (h : k.Takes skipped s (e :: es) t) : (skipped.isNone && k.skips s) = false := by
  obtain (_ | ⟨hskips, -, -, -⟩) | ⟨n, s⟩ := h
  · exact hskips
  · rfl

/-- Before the first event there is room, or nobody asks. -/
theorem Takes.room (h : k.Takes skipped s es t) (hne : es ≠ []) :
    (skipped.isSome || k.room s) = true := by
  obtain h | ⟨n, s⟩ := h
  · exact h.room hne
  · rfl

end Sink

theorem events_ne_nil (j : Json) : events j ≠ [] := by
  cases j <;> rw [events] <;> exact List.cons_ne_nil _ _

/-- The members of an object have their events one after the other. -/
theorem memberEvents_append (before after : List (String × Json)) :
    memberEvents (before ++ after) = memberEvents before ++ memberEvents after := by
  induction before with
  | nil => rfl
  | cons entry before ih =>
    obtain ⟨name, j⟩ := entry
    rw [List.cons_append, memberEvents, ih, memberEvents, ← List.append_assoc, List.cons_append]

/-! ## Running the machine -/

namespace Machine

/-- What reading comes to from here. -/
def run (k : Sink σ) (m : Machine σ) (text : List Char) : Except Fault σ := do
  let m ← text.foldlM (step k) m
  m.finish k

variable {nesting : List Bracket} {s t : σ} {rest : List Char}

theorem run_cons {m m' : Machine σ} {c : Char} (h : m.step k c = .ok m') :
    m.run k (c :: rest) = m'.run k rest := by
  rw [run, List.foldlM_cons, h]
  rfl

theorem run_append {m m' : Machine σ} {text : List Char} (h : text.foldlM (step k) m = .ok m') :
    m.run k (text ++ rest) = m'.run k rest := by
  rw [run, List.foldlM_append, h]
  rfl

/-- To tell an event changes the sink only. -/
theorem tell_of_told {skipped : Option Nat} {mode : Mode} {e : Event} (h : k.Told skipped s e t) :
    tell k ⟨nesting, skipped, mode, s⟩ e = .ok ⟨nesting, skipped, mode, t⟩ := by
  obtain haccept | ⟨n, s, e⟩ := h
  · rw [tell, haccept]
  · rfl

/-- To tell a scalar changes the sink, and completes a value. -/
theorem scalar_of_told {skipped : Option Nat} {mode : Mode} {e : Event} (h : k.Told skipped s e t) :
    scalar k ⟨nesting, skipped, mode, s⟩ e = .ok (completed ⟨nesting, skipped, mode, t⟩) := by
  rw [scalar, tell_of_told h]
  rfl

/-- What is heard is still heard behind a value. So is what is skipped still skipped, as long as a
bracket is open in it. -/
theorem completed_inside {skipped : Option Nat} {mode : Mode}
    (h : ∀ n ∈ skipped, n < nesting.length) :
    completed ⟨nesting, skipped, mode, s⟩ = ⟨nesting, skipped, .between .separator, s⟩ := by
  have hne : skipped ≠ some nesting.length := fun heq => Nat.lt_irrefl _ (h _ heq)
  rw [completed, if_neg hne]

theorem completed_heard {mode : Mode} :
    completed ⟨nesting, none, mode, s⟩ = ⟨nesting, none, .between .separator, s⟩ :=
  completed_inside nofun

/-- Blanks between two tokens leave everything as it is. -/
theorem run_blanks {skipped : Option Nat} {e : Expecting} {blanks : List Char}
    (h : ∀ c ∈ blanks, Text.isJsonBlank c) :
    run k ⟨nesting, skipped, .between e, s⟩ (blanks ++ rest) =
      run k ⟨nesting, skipped, .between e, s⟩ rest := by
  induction blanks with
  | nil => rfl
  | cons c blanks ih =>
    have hc : Text.isJsonBlank c := h c List.mem_cons_self
    -- Induction on the blanks: each of them is passed over in whatever is expected.
    have hstep : step k ⟨nesting, skipped, .between e, s⟩ c =
        .ok ⟨nesting, skipped, .between e, s⟩ := by
      simp [step, stepBetween, hc]
    rw [List.cons_append, run_cons hstep]
    exact ih fun c hc => h c (List.mem_cons_of_mem _ hc)

end Machine

end TableMarkup.Json
