import TableMarkup.Json.Length

/-!
# How JSON texts end

A closing parenthesis is never the end of a JSON text. Outside of quoted texts the reading machine
refuses it, and within a quoted text the text has not come to its end.

* `Machine.Spelling`: a word in progress is one of the words of JSON.
* `Machine.quoted_of_step`: after a closing parenthesis the machine is inside a quoted text.
* `Json.parse?_concat_parenthesis`: so a text that ends with one is not JSON.
-/

namespace TableMarkup.Json

variable {σ : Type} {k : Sink σ}

namespace Machine

variable {m m' : Machine σ}

/-! ## Words in progress -/

/-- What is left of a word in progress are letters of the words of JSON. -/
def Spelling (m : Machine σ) : Prop :=
  ∀ left means, m.mode = .word left means → ∀ c ∈ left, c ∈ ['u', 'l', 'r', 'e', 'a', 's']

theorem Spelling.of_between (h : ∃ e, m.mode = .between e) : m.Spelling := by
  obtain ⟨e, h⟩ := h
  intro left means hmode
  rw [h] at hmode
  contradiction

theorem Spelling.of_quoted (h : ∃ asKey seen place, m.mode = .quoted asKey seen place) :
    m.Spelling := by
  obtain ⟨asKey, seen, place, h⟩ := h
  intro left means hmode
  rw [h] at hmode
  contradiction

/-- After a scalar a separator is expected. -/
theorem mode_of_scalar {e : Event} (h : m.scalar k e = .ok m') :
    m'.mode = .between .separator := by
  obtain ⟨told, -, rfl⟩ := exists_of_map_ok h
  rfl

/-- After an opening bracket comes what may stand inside it. -/
theorem mode_of_openBracket {b : Bracket} (h : m.openBracket k b = .ok m') :
    m'.mode = .between b.inside := by
  unfold openBracket at h
  obtain ⟨told, -, h⟩ := exists_of_bind_ok h
  split at h
  · contradiction
  · cases h
    rfl

theorem mode_of_closeBracket {b : Bracket} (h : m.closeBracket k b = .ok m') :
    m'.mode = .between .separator := by
  unfold closeBracket at h
  obtain ⟨told, -, h⟩ := exists_of_bind_ok h
  cases h
  rfl

/-- After the quote at the end the machine is between two tokens, be it behind a key or behind a
string. -/
theorem mode_of_quotedDone {asKey : Bool} {seen : List Char}
    (h : m.quotedDone k asKey seen = .ok m') : ∃ e, m'.mode = .between e := by
  unfold quotedDone at h
  dsimp only at h
  split at h
  · obtain ⟨told, -, rfl⟩ := exists_of_map_ok h
    exact ⟨_, rfl⟩
  · exact ⟨_, mode_of_scalar h⟩

/-- The end of an escape lies inside the quotes. -/
theorem mode_of_unicodeDone {asKey : Bool} {seen taken : List Char} {high : Option Nat}
    (h : m.unicodeDone asKey seen taken high = .ok m') :
    ∃ asKey seen place, m'.mode = .quoted asKey seen place := by
  unfold unicodeDone at h
  dsimp only at h
  repeat' split at h
  all_goals first
    | contradiction
    | (cases h; exact ⟨_, _, _, rfl⟩)

/-- A word begins with what is left of `null`, `true` or `false` after the first letter. -/
theorem spelling_startValue {c : Char} (h : m.startValue k c = .ok m') : m'.Spelling := by
  unfold startValue at h
  dsimp only at h
  repeat' split at h
  -- One alternative for each kind of branch: a fault, a bracket, a word, and what is no word.
  all_goals first
    | contradiction
    | exact .of_between ⟨_, mode_of_openBracket h⟩
    | (cases h; rintro left means ⟨⟩; simp)
    | (cases h; nofun)

/-- From between two tokens a word may begin, and nothing else that is one. -/
theorem spelling_stepBetween {e : Expecting} {c : Char} (h : m.stepBetween k e c = .ok m') :
    m'.Spelling := by
  unfold stepBetween at h
  repeat' split at h
  -- One alternative for each kind of branch: a fault, a value, a closing bracket, moving on, a key.
  all_goals first
    | contradiction
    | exact spelling_startValue h
    | exact .of_between ⟨_, mode_of_closeBracket h⟩
    | (cases h; nofun)
    | (unfold startKey at h; split at h <;> cases h; nofun)

/-- The end of a number is looked at as a step between two tokens, so that a word may begin
there. -/
theorem spelling_stepNumber {d : Numeral.Draft} {c : Char} (h : m.stepNumber k d c = .ok m') :
    m'.Spelling := by
  unfold stepNumber at h
  split at h
  · cases h
    nofun
  · contradiction
  · obtain ⟨done, -, h⟩ := exists_of_bind_ok h
    exact spelling_stepBetween h

/-- Inside the quotes no word begins, nor directly behind them. -/
theorem spelling_stepQuoted {asKey : Bool} {seen : List Char} {place : Inside} {c : Char}
    (h : m.stepQuoted k asKey seen place c = .ok m') : m'.Spelling := by
  unfold stepQuoted at h
  dsimp only at h
  repeat' split at h
  all_goals first
    | contradiction
    | (cases h; nofun)
    | exact .of_between (mode_of_quotedDone h)
    | exact .of_quoted (mode_of_unicodeDone h)

/-- A step keeps what is left of a word among the letters of the words of JSON. -/
theorem Spelling.step {c : Char} (hm : m.Spelling) (h : m.step k c = .ok m') : m'.Spelling := by
  unfold Machine.step at h
  split at h
  · exact spelling_stepBetween h
  · next left means hmode =>
    unfold stepWord at h
    repeat' split at h
    all_goals first
      | contradiction
      | exact .of_between ⟨_, mode_of_scalar h⟩
      | skip
    -- What is left after a letter was left before it.
    cases h
    rintro left' means' ⟨⟩ c hc
    exact hm _ _ hmode c (List.mem_cons_of_mem _ hc)
  · exact spelling_stepNumber h
  · exact spelling_stepQuoted h

/-- Any text keeps it, by induction on the text. -/
theorem Spelling.foldlM {text : List Char} (hm : m.Spelling)
    (h : text.foldlM (Machine.step k) m = .ok m') : m'.Spelling := by
  induction text generalizing m with
  | nil =>
    cases h
    exact hm
  | cons c text ih =>
    rw [List.foldlM_cons] at h
    obtain ⟨next, hstep, hrest⟩ := exists_of_bind_ok h
    exact ih (hm.step hstep) hrest

/-! ## Closing parentheses -/

/-- Between two tokens a closing parenthesis is a fault, whatever is expected and whichever bracket
is open. -/
theorem stepBetween_parenthesis (m : Machine σ) (e : Expecting) :
    m.stepBetween k e ')' = .error .malformed := by
  cases e with
  | separator =>
    simp only [stepBetween]
    cases m.nesting with
    | nil => rfl
    | cons b nesting => cases b <;> rfl
  | _ => rfl

/-- A closing parenthesis does not go on with a number; it can only come after it. -/
theorem push_parenthesis (d : Numeral.Draft) : d.push ')' = .after ∨ d.push ')' = .wrong := by
  have hdigit : Text.digit? ')' = none := by decide
  cases hstage : d.stage <;> simp [Numeral.Draft.push, Numeral.Draft.pushMark, hstage, hdigit]

/-- The machine takes a closing parenthesis only as a part of a quoted text. -/
theorem quoted_of_step (hm : m.Spelling) (h : m.step k ')' = .ok m') :
    ∃ asKey seen place, m'.mode = .quoted asKey seen place := by
  unfold step at h
  split at h
  · rw [stepBetween_parenthesis] at h
    contradiction
  · next left means hmode =>
    unfold stepWord at h
    split at h
    · contradiction
    · next first left =>
      -- The letter that the word goes on with is no parenthesis.
      have hfirst := hm _ _ hmode first List.mem_cons_self
      split at h
      · next heq =>
        rw [← heq] at hfirst
        exact absurd hfirst (by decide)
      · contradiction
  · next d _ =>
    rw [stepNumber] at h
    -- If the number ends here, the parenthesis is read again behind it, where it is a fault.
    rcases push_parenthesis d with hpush | hpush
    · rw [hpush] at h
      obtain ⟨done, -, h⟩ := exists_of_bind_ok h
      rw [stepBetween_parenthesis] at h
      contradiction
    · rw [hpush] at h
      contradiction
  · next asKey seen place hmode =>
    unfold stepQuoted at h
    dsimp only at h
    repeat' split at h
    all_goals first
      | contradiction
      | (cases h; exact ⟨_, _, _, rfl⟩)
      | exact mode_of_unicodeDone h

end Machine

/-- No JSON text ends with a closing parenthesis. -/
theorem parse?_concat_parenthesis (text : List Char) : parse? (text ++ [')']) = none := by
  rw [Option.eq_none_iff_forall_ne_some]
  intro j h
  obtain ⟨m, hfold, hfinish⟩ := exists_of_bind_ok (parse?_eq_some_iff.mp h)
  -- The machine takes the text before the parenthesis first, and then the parenthesis.
  rw [List.foldlM_append] at hfold
  obtain ⟨before, hbefore, hlast⟩ := exists_of_bind_ok hfold
  rw [List.foldlM_cons] at hlast
  obtain ⟨after, hstep, ⟨⟩⟩ := exists_of_bind_ok hlast
  have hstart : (Machine.start Assembly.start).Spelling := .of_between ⟨_, rfl⟩
  obtain ⟨asKey, seen, place, hmode⟩ := Machine.quoted_of_step (hstart.foldlM hbefore) hstep
  -- Inside the quotes a text cannot end.
  rw [Machine.finish, hmode] at hfinish
  contradiction

end TableMarkup.Json
