import TableMarkup.Json.Printer
import TableMarkup.Proofs.Json.Numbers
import TableMarkup.Proofs.Json.Spellings

/-!
# Tokens

What the machine does at the words, numbers, brackets and commas of a text, whatever is open around
them and whoever listens. A token that is skipped is read like one that is heard, but for what the sink
comes to.

* `Machine.run_word`, `Machine.run_integer`: the scalars other than strings.
* `Machine.run_open`, `Machine.run_close`, `Machine.run_comma_array`, `Machine.run_comma_object`: the
  brackets, and the commas between them.
* `Machine.run_skipping`: a value that the sink does not care for is skipped from its beginning on.
-/

namespace TableMarkup.Json.Machine

variable {σ : Type} {k : Sink σ} {nesting : List Bracket} {skipped : Option Nat} {s t : σ}
  {rest : List Char}

/-! ## Words and numbers -/

/-- The words of JSON are read as what they mean. -/
theorem run_word {text : List Char} {first : Char} (means : Word)
    (hword : (first, text, means) ∈ [('n', ['u', 'l', 'l'], Word.null),
      ('t', ['r', 'u', 'e'], .truth true), ('f', ['a', 'l', 's', 'e'], .truth false)])
    (htakes : k.Takes skipped s [means.event] t) :
    run k ⟨nesting, skipped, .between .value, s⟩ (first :: text ++ rest) =
      run k (completed ⟨nesting, skipped, .between .value, t⟩) rest := by
  refine run_append ?_
  simp only [List.mem_cons, Prod.mk.injEq, List.not_mem_nil, or_false] at hword
  rcases hword with ⟨rfl, rfl, rfl⟩ | ⟨rfl, rfl, rfl⟩ | ⟨rfl, rfl, rfl⟩ <;>
  simp [step, stepBetween, startValue, htakes.skips, Text.isJsonBlank, stepWord,
    scalar_of_told htakes.told, completed, bind, Except.bind, pure, Except.pure]

/-- What stands behind a number does not go on with it. -/
def Ends (rest : List Char) : Prop :=
  ∀ c ∈ rest.head?, Text.digit? c = none ∧ c ≠ '.' ∧ c ≠ 'e' ∧ c ≠ 'E'

theorem ends_nil : Ends [] := nofun

/-- A blank does not go on with a number, and without blanks it is what follows that counts. -/
theorem ends_blanks {blanks : List Char} (h : ∀ c ∈ blanks, Text.isJsonBlank c) (hrest : Ends rest) :
    Ends (blanks ++ rest) := by
  cases blanks with
  | nil => exact hrest
  | cons c blanks =>
    rintro _ ⟨⟩
    have hc : Text.isJsonBlank c := h c List.mem_cons_self
    simp only [Text.isJsonBlank, Bool.or_eq_true, beq_iff_eq] at hc
    rcases hc with ((rfl | rfl) | rfl) | rfl <;> decide

/-- A number that is complete is told when something else follows, or when the text ends. -/
theorem run_number {d : Numeral.Draft} {n : Numeral} (hstage : d.stage = .zero ∨ d.stage = .whole)
    (hvalue : d.value? = some n) (htakes : k.Takes skipped s [.number n] t) (hrest : Ends rest) :
    run k ⟨nesting, skipped, .number d, s⟩ rest =
      run k (completed ⟨nesting, skipped, .number d, t⟩) rest := by
  -- Be it told to the sink or skipped, the number completes a value.
  have hdone : numberDone k ⟨nesting, skipped, .number d, s⟩ d =
      .ok (completed ⟨nesting, skipped, .number d, t⟩) := by
    cases skipped with
    | none => simp [numberDone, hvalue, scalar_of_told htakes.told]
    | some n =>
      cases htakes
      rfl
  cases rest with
  | nil =>
    have hcomplete : d.complete = true := by
      rcases hstage with h | h <;> simp [Numeral.Draft.complete, h]
    simp [run, finish, hcomplete, hdone, completed, pure, Except.pure, bind, Except.bind]
  | cons c rest =>
    obtain ⟨hdigit, hpoint, hmark, hcapital⟩ := hrest c rfl
    -- The character behind the number is none of those that a number may go on with.
    have hpush : d.push c = .after := by
      rcases hstage with h | h <;>
        simp [Numeral.Draft.push, Numeral.Draft.pushMark, h, hdigit, hpoint, hmark, hcapital]
    have hstep : step k ⟨nesting, skipped, .number d, s⟩ c =
        step k (completed ⟨nesting, skipped, .number d, t⟩) c := by
      simp [step, stepNumber, hpush, hdone, completed, bind, Except.bind]
    rw [run, run, List.foldlM_cons, List.foldlM_cons, hstep]

/-- The digits of an integer are read as this integer. -/
theorem run_integer {w : WideInt} (htakes : k.Takes skipped s [.number (.integer w)] t)
    (hrest : Ends rest) :
    run k ⟨nesting, skipped, .between .value, s⟩ (Text.integer w.val ++ rest) =
      run k (completed ⟨nesting, skipped, .between .value, t⟩) rest := by
  obtain ⟨negative, d, ds, hrun, hvalue⟩ := Literal.isRun_integer w
  have hstage : (Literal.runDraft negative d ds).stage = .zero ∨
      (Literal.runDraft negative d ds).stage = .whole := by
    rw [Literal.runDraft]
    by_cases hd : d = 0 <;> simp [hd]
  rw [run_append (Literal.foldlM_run htakes.skips hrun), run_number hstage hvalue htakes hrest]
  rfl

/-! ## Brackets and commas -/

/-- A bracket opens if the nesting is not too deep; where it is skipped there is no limit. -/
theorem run_open {b : Bracket} {c : Char} (hc : (b, c) ∈ [(.array, '['), (.object, '\x7b')])
    (htakes : k.Takes skipped s [b.opening] t)
    (hroom : skipped = none → nesting.length < nestingLimit) :
    run k ⟨nesting, skipped, .between .value, s⟩ (c :: rest) =
      run k ⟨b :: nesting, skipped, .between b.inside, t⟩ rest := by
  have hlimit : (skipped.isNone && decide (nestingLimit ≤ nesting.length)) = false := by
    cases skipped with
    | none => simpa using hroom rfl
    | some n => rfl
  have hopen : openBracket k ⟨nesting, skipped, .between .value, s⟩ b =
      .ok ⟨b :: nesting, skipped, .between b.inside, t⟩ := by
    rw [openBracket, tell_of_told htakes.told]
    simp [hlimit, bind, Except.bind]
  refine run_cons ?_
  simp only [List.mem_cons, Prod.mk.injEq, List.not_mem_nil, or_false] at hc
  rcases hc with ⟨rfl, rfl⟩ | ⟨rfl, rfl⟩ <;>
  simp [step, stepBetween, startValue, htakes.skips, Text.isJsonBlank, hopen]

/-- A bracket closes behind an item or a member, or directly behind the one that it closes. -/
theorem run_close {b : Bracket} {e : Expecting} {c : Char}
    (hc : (b, c) ∈ [(.array, ']'), (.object, '\x7d')]) (he : e = .separator ∨ e = b.inside)
    (htold : k.Told skipped s b.closing t) :
    run k ⟨b :: nesting, skipped, .between e, s⟩ (c :: rest) =
      run k (completed ⟨nesting, skipped, .between .value, t⟩) rest := by
  have hclose : closeBracket k ⟨b :: nesting, skipped, .between e, s⟩ b =
      .ok (completed ⟨nesting, skipped, .between .value, t⟩) := by
    rw [closeBracket, tell_of_told htold]
    rfl
  refine run_cons ?_
  simp only [List.mem_cons, Prod.mk.injEq, List.not_mem_nil, or_false] at hc
  rcases hc with ⟨rfl, rfl⟩ | ⟨rfl, rfl⟩ <;> rcases he with rfl | rfl <;>
  simpa [step, stepBetween, Bracket.inside, Text.isJsonBlank] using hclose

/-- Behind a comma another item is read, if the sink has room for it. -/
theorem run_comma_array (hroom : (skipped.isSome || k.room s) = true) :
    run k ⟨.array :: nesting, skipped, .between .separator, s⟩ (',' :: rest) =
      run k ⟨.array :: nesting, skipped, .between .value, s⟩ rest := by
  refine run_cons ?_
  simp [step, stepBetween, Text.isJsonBlank, hroom]

theorem run_comma_object :
    run k ⟨.object :: nesting, skipped, .between .separator, s⟩ (',' :: rest) =
      run k ⟨.object :: nesting, skipped, .between .key, s⟩ rest := by
  refine run_cons ?_
  simp [step, stepBetween, Text.isJsonBlank]

/-! ## Where values begin -/

/-- A value may begin where the first item of an array is expected. -/
theorem run_firstItem_cons {c : Char} (hblank : Text.isJsonBlank c = false) (hne : c ≠ ']') :
    run k ⟨nesting, skipped, .between .firstItem, s⟩ (c :: rest) =
      run k ⟨nesting, skipped, .between .value, s⟩ (c :: rest) := by
  -- What else the machine expected is forgotten as soon as the bracket is open.
  have hopen (skipped : Option Nat) (b : Bracket) :
      openBracket k ⟨nesting, skipped, .between .firstItem, s⟩ b =
        openBracket k ⟨nesting, skipped, .between .value, s⟩ b := by
    rw [openBracket, openBracket, tell, tell]
    cases skipped with
    | some _ => rfl
    | none => cases k.accept s b.opening <;> rfl
  have hstep : step k ⟨nesting, skipped, .between .firstItem, s⟩ c =
      step k ⟨nesting, skipped, .between .value, s⟩ c := by
    simp [step, stepBetween, hblank, hne, startValue, hopen]
  rw [run, run, List.foldlM_cons, List.foldlM_cons, hstep]

/-- A value that the sink does not care for is skipped, with as many brackets open around it as are
open when it begins. -/
theorem run_skipping {c : Char} (hblank : Text.isJsonBlank c = false) (hskips : k.skips s = true) :
    run k ⟨nesting, none, .between .value, s⟩ (c :: rest) =
      run k ⟨nesting, some nesting.length, .between .value, s⟩ (c :: rest) := by
  have hstep : step k ⟨nesting, none, .between .value, s⟩ c =
      step k ⟨nesting, some nesting.length, .between .value, s⟩ c := by
    simp [step, stepBetween, hblank, startValue, hskips]
  rw [run, run, List.foldlM_cons, List.foldlM_cons, hstep]

end TableMarkup.Json.Machine
