import TableMarkup.Json.Length

/-!
# Texts without quotes

A text that is read as a JSON string holds a quote. As long as none has been met, the reading machine
is not inside a quoted text and has finished no string, which is what `Machine.Bounded 0` says.

* `Machine.bounded_step_of_ne`: a character that is no quote keeps this.
* `quote_mem_of_parse?_string`: so there is a quote in every text that reads as a string.
-/

namespace TableMarkup.Json

namespace Machine

variable {m m' : Machine Assembly} {c : Char}

/-- Without a quote a value is a word, a number or a bracket. -/
theorem bounded_startValue_of_ne (h : m.Bounded 0) (hc : c ≠ '"')
    (hok : m.startValue Assembly.sink c = .ok m') : m'.Bounded 0 := by
  unfold startValue at hok
  dsimp only at hok
  repeat' split at hok
  all_goals first
    | contradiction
    | exact bounded_openBracket ⟨h.1, h.2⟩ hok
    | (cases hok; exact bounded_of_sink h.1 (by simp))

/-- Without a quote a key does not begin either. -/
theorem bounded_stepBetween_of_ne {e : Expecting} (h : m.Bounded 0) (hc : c ≠ '"')
    (hok : m.stepBetween Assembly.sink e c = .ok m') : m'.Bounded 0 := by
  unfold stepBetween at hok
  repeat' split at hok
  -- One alternative for each kind of branch: moving on, a value, a closing bracket, a key.
  all_goals first
    | (cases hok; exact bounded_of_sink h.1 (by simp))
    | exact bounded_startValue_of_ne h hc hok
    | exact bounded_closeBracket h hok
    | (simp [startKey, hc] at hok)

/-- The character that ends a number is looked at as one between two tokens. -/
theorem bounded_stepNumber_of_ne {d : Numeral.Draft} (h : m.Bounded 0) (hc : c ≠ '"')
    (hok : m.stepNumber Assembly.sink d c = .ok m') : m'.Bounded 0 := by
  unfold stepNumber at hok
  split at hok
  · cases hok
    exact bounded_of_sink h.1 (by simp)
  · cases hok
  · obtain ⟨m₁, hdone, hok⟩ := exists_of_bind_ok hok
    exact bounded_stepBetween_of_ne (bounded_numberDone h hdone) hc hok

/-- A word is no string, whatever its last letter tells. -/
theorem bounded_stepWord_of_ne {left : List Char} {means : Word} (h : m.Bounded 0)
    (hok : m.stepWord Assembly.sink left means c = .ok m') : m'.Bounded 0 := by
  unfold stepWord at hok
  repeat' split at hok
  all_goals first
    | exact bounded_scalar h (fun s he => by cases means <;> simp [Word.event] at he) hok
    | (cases hok; exact bounded_of_sink h.1 (by simp))
    | cases hok

/-- Without a quote no quoted text begins, and none was in progress. -/
theorem bounded_step_of_ne (h : m.Bounded 0) (hc : c ≠ '"')
    (hok : m.step Assembly.sink c = .ok m') : m'.Bounded 0 := by
  unfold step at hok
  split at hok
  · exact bounded_stepBetween_of_ne h hc hok
  · exact bounded_stepWord_of_ne h hok
  · exact bounded_stepNumber_of_ne h hc hok
  · next asKey seen place hmode =>
    -- Inside the quotes at least the quote at the beginning would have been read.
    have hlength := h.2 asKey seen place hmode
    contradiction

/-- A text without quotes, by induction on it. -/
theorem bounded_foldlM_of_not_mem {text : List Char} (h : m.Bounded 0) (htext : '"' ∉ text)
    (hok : text.foldlM (step Assembly.sink) m = .ok m') : m'.Bounded 0 := by
  induction text generalizing m with
  | nil =>
    cases hok
    exact h
  | cons c rest ih =>
    rw [List.mem_cons, not_or] at htext
    rw [List.foldlM_cons] at hok
    obtain ⟨m₁, hstep, hok⟩ := exists_of_bind_ok hok
    exact ih (bounded_step_of_ne h (Ne.symm htext.1) hstep) htext.2 hok

end Machine

/-- A text that reads as a JSON string holds a quote. -/
theorem quote_mem_of_parse?_string {text : List Char} {s : String}
    (h : parse? text = some (.string s)) : '"' ∈ text := by
  refine Decidable.byContradiction fun hnone => ?_
  obtain ⟨m, hfold, hfinish⟩ := exists_of_bind_ok (parse?_eq_some_iff.mp h)
  have hstart : Machine.Bounded 0 (Machine.start Assembly.start) :=
    Machine.bounded_of_sink (by simp [Machine.start, Assembly.start]) (by simp [Machine.start])
  have hm := Machine.bounded_foldlM_of_not_mem hstart hnone hfold
  -- A finished string has seen two quotes, and so at least two characters.
  have hlength := Machine.sink_of_finish hm hfinish rfl
  omega

end TableMarkup.Json
