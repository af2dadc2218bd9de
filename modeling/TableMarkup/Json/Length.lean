import TableMarkup.Json.Assembly

/-!
# The length of a quoted text

Every character of a string value is read from at least one character of the text, and its quotes
are two more. So a text that reads as a string is at least two characters longer than the string,
which is why unwrapping strings comes to an end.

* `Machine.Bounded` is what one pass keeps: no more has been collected than was read.
* `length_of_parse?_string` is the result.
-/

namespace TableMarkup.Json

open Machine

/-- Where a bind succeeds, both of its parts do. -/
theorem exists_of_bind_ok {α β ε : Type} {x : Except ε α} {f : α → Except ε β} {b : β}
    (h : (x >>= f) = .ok b) : ∃ a, x = .ok a ∧ f a = .ok b := by
  cases x with
  | error fault => contradiction
  | ok a => exact ⟨a, rfl, h⟩

/-- What a map succeeds with is made of what was mapped. -/
theorem exists_of_map_ok {α β ε : Type} {x : Except ε α} {f : α → β} {b : β}
    (h : x.map f = .ok b) : ∃ a, x = .ok a ∧ f a = b := by
  cases x with
  | error fault => contradiction
  | ok a => exact ⟨a, rfl, Except.ok.inj h⟩

/-- After `n` characters: a quoted text in progress has seen its quote and at most one character for
each it collected, and a finished string has seen both its quotes. -/
def Machine.Bounded (n : Nat) (m : Machine Assembly) : Prop :=
  (∀ s, m.sink = .done (.string s) → s.length + 2 ≤ n) ∧
  (∀ asKey seen place, m.mode = .quoted asKey seen place → seen.length + 1 ≤ n)

/-- The bound stays true as more is read. -/
theorem Machine.Bounded.mono {n k : Nat} {m : Machine Assembly} (h : m.Bounded n) (hle : n ≤ k) :
    m.Bounded k :=
  ⟨fun s hs => by have := h.1 s hs; omega, fun a s p hp => by have := h.2 a s p hp; omega⟩

/-- A value that completes the whole document is that document. -/
theorem Assembly.place_eq_done {j : Json} {frames : List Frame} {s : String}
    (h : Assembly.place j frames = .done (.string s)) : j = .string s := by
  unfold Assembly.place at h
  split at h <;> simp_all

/-- An event finishes a string only if it is that string. -/
theorem Assembly.accept_eq_done {a : Assembly} {e : Event} {s : String}
    (h : a.accept e = .done (.string s)) : a = .done (.string s) ∨ e = .string s := by
  unfold Assembly.accept at h
  split at h <;> first
    | exact .inl h
    | (replace h := Assembly.place_eq_done h; simp_all)
    | simp_all

/-- Telling an event that is not a string keeps the bound, whatever mode follows. -/
theorem Machine.sink_of_tell {m m' : Machine Assembly} {e : Event} {n : Nat} (h : m.Bounded n)
    (htell : m.tell Assembly.sink e = .ok m') (he : ∀ s, e = .string s → s.length + 2 ≤ n) :
    (∀ s, m'.sink = .done (.string s) → s.length + 2 ≤ n) ∧ m'.mode = m.mode ∧
      m'.nesting = m.nesting := by
  unfold Machine.tell at htell
  split at htell
  · cases htell; exact ⟨h.1, rfl, rfl⟩
  · simp only [Assembly.sink] at htell
    cases htell
    refine ⟨fun s hs => ?_, rfl, rfl⟩
    rcases Assembly.accept_eq_done hs with hs | hs
    · exact h.1 s hs
    · exact he s hs

/-- The bound for a machine that is not inside a quoted text depends on its sink only. -/
theorem Machine.bounded_of_sink {n : Nat} {m : Machine Assembly}
    (hsink : ∀ s, m.sink = .done (.string s) → s.length + 2 ≤ n)
    (hmode : ∀ asKey seen place, m.mode ≠ .quoted asKey seen place) : m.Bounded n :=
  ⟨hsink, fun _ _ _ h => absurd h (hmode _ _ _)⟩

/-- A scalar keeps the bound, if it is no string or a string that is short enough. -/
theorem Machine.bounded_scalar {n : Nat} {m m' : Machine Assembly} {e : Event} (h : m.Bounded n)
    (he : ∀ s, e = .string s → s.length + 2 ≤ n) (hok : m.scalar Assembly.sink e = .ok m') :
    m'.Bounded n := by
  obtain ⟨m₁, htell, rfl⟩ := exists_of_map_ok hok
  exact bounded_of_sink (sink_of_tell h htell he).1 (by simp [completed])

/-- An opening bracket is told as an event that is no string. -/
theorem Machine.bounded_openBracket {n : Nat} {m m' : Machine Assembly} {b : Bracket}
    (h : m.Bounded n) (hok : m.openBracket Assembly.sink b = .ok m') : m'.Bounded n := by
  unfold Machine.openBracket at hok
  have hno : ∀ s, b.opening = .string s → s.length + 2 ≤ n := by
    intro s hs; cases b <;> simp [Bracket.opening] at hs
  obtain ⟨m₁, htell, hok⟩ := exists_of_bind_ok hok
  split at hok
  · cases hok
  · cases hok
    exact bounded_of_sink (sink_of_tell h htell hno).1 (by simp)

/-- A closing bracket is told as an event that is no string. -/
theorem Machine.bounded_closeBracket {n : Nat} {m m' : Machine Assembly} {b : Bracket}
    (h : m.Bounded n) (hok : m.closeBracket Assembly.sink b = .ok m') : m'.Bounded n := by
  unfold Machine.closeBracket at hok
  have hno : ∀ s, b.closing = .string s → s.length + 2 ≤ n := by
    intro s hs; cases b <;> simp [Bracket.closing] at hs
  obtain ⟨m₁, htell, hok⟩ := exists_of_bind_ok hok
  cases hok
  exact bounded_of_sink (sink_of_tell h htell hno).1 (by simp [completed])

/-- The quote before a key is one character read with none collected. -/
theorem Machine.bounded_startKey {n : Nat} {m m' : Machine Assembly} {c : Char}
    (h : m.Bounded n) (hok : m.startKey c = .ok m') : m'.Bounded (n + 1) := by
  unfold Machine.startKey at hok
  split at hok
  · cases hok
    exact ⟨(h.mono (Nat.le_succ n)).1, fun _ _ _ hq => by cases hq; simp⟩
  · cases hok

/-- The first character of a value: a quote starts a text with nothing collected, and everything
else is no quoted text. -/
theorem Machine.bounded_startValue {n : Nat} {m m' : Machine Assembly} {c : Char}
    (h : m.Bounded n) (hok : m.startValue Assembly.sink c = .ok m') : m'.Bounded (n + 1) := by
  have hs := (h.mono (Nat.le_succ n)).1
  unfold Machine.startValue at hok
  repeat' split at hok
  -- One alternative for each kind of branch: a quote, a word or number, a bracket, a fault.
  all_goals first
    | (cases hok; exact ⟨hs, fun _ _ _ hq => by cases hq; simp⟩)
    | (cases hok; exact bounded_of_sink hs (by simp))
    | exact bounded_openBracket ⟨hs, (h.mono (Nat.le_succ n)).2⟩ hok
    | cases hok

/-- A step between two tokens. It may start a value or a key, close a bracket, or only move on. -/
theorem Machine.bounded_stepBetween {n : Nat} {m m' : Machine Assembly} {e : Expecting} {c : Char}
    (h : m.Bounded n) (hok : m.stepBetween Assembly.sink e c = .ok m') : m'.Bounded (n + 1) := by
  have hs := h.mono (Nat.le_succ n)
  unfold Machine.stepBetween at hok
  repeat' split at hok
  -- One alternative for each kind of branch: moving on, a value, a key, a bracket, a fault.
  all_goals first
    | (cases hok; exact bounded_of_sink hs.1 (by simp))
    | exact bounded_startValue h hok
    | exact bounded_startKey h hok
    | exact bounded_closeBracket hs hok
    | cases hok

/-- A number that ends tells an event that is no string. -/
theorem Machine.bounded_numberDone {n : Nat} {m m' : Machine Assembly} {d : Numeral.Draft}
    (h : m.Bounded n) (hok : m.numberDone Assembly.sink d = .ok m') : m'.Bounded n := by
  unfold Machine.numberDone at hok
  split at hok
  · cases hok; exact bounded_of_sink h.1 (by simp [completed])
  · exact bounded_scalar h (by simp) hok
  · cases hok

/-- A step inside a number. The character that ends a number is read again, as one between two
tokens. -/
theorem Machine.bounded_stepNumber {n : Nat} {m m' : Machine Assembly} {d : Numeral.Draft}
    {c : Char} (h : m.Bounded n) (hok : m.stepNumber Assembly.sink d c = .ok m') :
    m'.Bounded (n + 1) := by
  unfold Machine.stepNumber at hok
  split at hok
  · cases hok; exact bounded_of_sink (h.mono (Nat.le_succ n)).1 (by simp)
  · cases hok
  · obtain ⟨m₁, hdone, hok⟩ := exists_of_bind_ok hok
    exact bounded_stepBetween (bounded_numberDone h hdone) hok

/-- A step inside `true`, `false` or `null`. -/
theorem Machine.bounded_stepWord {n : Nat} {m m' : Machine Assembly} {left : List Char}
    {means : Word} {c : Char} (h : m.Bounded n)
    (hok : m.stepWord Assembly.sink left means c = .ok m') : m'.Bounded (n + 1) := by
  have hs := h.mono (Nat.le_succ n)
  unfold Machine.stepWord at hok
  repeat' split at hok
  all_goals first
    | exact bounded_scalar hs (fun s he => by cases means <;> simp [Word.event] at he) hok
    | (cases hok; exact bounded_of_sink hs.1 (by simp))
    | cases hok

/-- The quote at the end makes the second of the two: what has been collected becomes a key or a
string. -/
theorem Machine.bounded_quotedDone {n : Nat} {m m' : Machine Assembly} {asKey : Bool}
    {seen : List Char} (h : m.Bounded n) (hseen : seen.length + 2 ≤ n)
    (hok : m.quotedDone Assembly.sink asKey seen = .ok m') : m'.Bounded n := by
  unfold Machine.quotedDone at hok
  dsimp only at hok
  split at hok
  -- A key is told as an event of its own, which is no string.
  · obtain ⟨m₁, htell, rfl⟩ := exists_of_map_ok hok
    exact bounded_of_sink (sink_of_tell h htell (by simp)).1 (by simp)
  · refine bounded_scalar h (fun s hs => ?_) hok
    cases hs
    simpa [← String.length_toList] using hseen

/-- Any mode inside the quotes will do, if little enough has been collected. -/
theorem Machine.bounded_quoted {n : Nat} {m : Machine Assembly} {asKey : Bool} {seen : List Char}
    {place : Inside} (h : m.Bounded n) (hseen : seen.length + 1 ≤ n) :
    Machine.Bounded n { m with mode := .quoted asKey seen place } :=
  ⟨h.1, fun _ _ _ hq => by cases hq; exact hseen⟩

/-- The last hexadecimal digit of an escape collects one character, or none where a second half is
still to come. -/
theorem Machine.bounded_unicodeDone {n : Nat} {m m' : Machine Assembly} {asKey : Bool}
    {seen taken : List Char} {high : Option Nat} (h : m.Bounded (n + 1))
    (hseen : seen.length + 1 ≤ n) (hok : m.unicodeDone asKey seen taken high = .ok m') :
    m'.Bounded (n + 1) := by
  unfold Machine.unicodeDone at hok
  dsimp only at hok
  repeat' split at hok
  all_goals first
    | (cases hok; exact bounded_quoted h (by simp; omega))
    | cases hok

/-- A step inside the quotes reads one character and collects at most one. -/
theorem Machine.bounded_stepQuoted {n : Nat} {m m' : Machine Assembly} {asKey : Bool}
    {seen : List Char} {place : Inside} {c : Char} (h : m.Bounded n)
    (hseen : seen.length + 1 ≤ n)
    (hok : m.stepQuoted Assembly.sink asKey seen place c = .ok m') : m'.Bounded (n + 1) := by
  have hs := h.mono (Nat.le_succ n)
  unfold Machine.stepQuoted at hok
  dsimp only at hok
  repeat' split at hok
  -- One alternative for each kind of branch: the last quote, the end of an escape, one character
  -- more, a fault.
  all_goals first
    | exact bounded_quotedDone hs (by omega) hok
    | exact bounded_unicodeDone hs hseen hok
    | (cases hok; exact bounded_quoted hs (by simp; omega))
    | cases hok

/-- One character more raises the bound by one, in each mode. -/
theorem Machine.bounded_step {n : Nat} {m m' : Machine Assembly} {c : Char} (h : m.Bounded n)
    (hok : m.step Assembly.sink c = .ok m') : m'.Bounded (n + 1) := by
  unfold Machine.step at hok
  split at hok
  · exact bounded_stepBetween h hok
  · exact bounded_stepWord h hok
  · exact bounded_stepNumber h hok
  · next hmode => exact bounded_stepQuoted h (h.2 _ _ _ hmode) hok

/-- A text raises the bound by its length. -/
theorem Machine.bounded_foldlM {n : Nat} {m m' : Machine Assembly} {text : List Char}
    (h : m.Bounded n) (hok : text.foldlM (step Assembly.sink) m = .ok m') :
    m'.Bounded (n + text.length) := by
  induction text generalizing n m with
  | nil => cases hok; exact h
  | cons c rest ih =>
    rw [List.foldlM_cons] at hok
    obtain ⟨m₁, hstep, hok⟩ := exists_of_bind_ok hok
    -- Induction on the text, for any number of characters read before it.
    have := ih (bounded_step h hstep) hok
    rw [List.length_cons, show n + (rest.length + 1) = n + 1 + rest.length by omega]
    exact this

/-- The end of the text may still complete a number, but no string. -/
theorem Machine.sink_of_finish {n : Nat} {m : Machine Assembly} {a : Assembly} {s : String}
    (h : m.Bounded n) (hok : m.finish Assembly.sink = .ok a) (ha : a = .done (.string s)) :
    s.length + 2 ≤ n := by
  unfold Machine.finish at hok
  dsimp only at hok
  split at hok
  · split at hok
    · cases hok; exact h.1 s ha
    · cases hok
  · split at hok
    · obtain ⟨m₁, hdone, hok⟩ := exists_of_bind_ok hok
      split at hok
      · cases hok; exact (bounded_numberDone h hdone).1 s ha
      · cases hok
    · cases hok
  · cases hok

/-- A text that reads as a JSON string is at least two characters longer than the string. -/
theorem length_of_parse?_string {text : List Char} {s : String}
    (h : parse? text = some (.string s)) : s.length + 2 ≤ text.length := by
  obtain ⟨m, hfold, hfinish⟩ := exists_of_bind_ok (parse?_eq_some_iff.mp h)
  -- Nothing has been read at first, so the bound comes to the length of the text.
  have hstart : Machine.Bounded 0 (Machine.start Assembly.start) :=
    Machine.bounded_of_sink (by simp [Machine.start, Assembly.start]) (by simp [Machine.start])
  have hm := Machine.bounded_foldlM hstart hfold
  simpa using Machine.sink_of_finish hm hfinish rfl

end TableMarkup.Json
