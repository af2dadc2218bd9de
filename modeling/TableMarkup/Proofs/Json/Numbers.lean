import TableMarkup.Json.Assembly

/-!
# Integers in JSON texts

An integer is written as a run of digits, with a minus sign in front of it at most. The reading
machine takes such a run digit by digit, whatever is open around it and whoever listens.

* `Json.parse?_of_draft`: the value of a text that the reading machine takes as one number.
* `Literal.IsRun`: a run of digits with its sign; `Literal.foldlM_run` reads it, and
  `Literal.value?_runDraft` is its value.
* `Literal.isRun_integer`: what is written for an integer is a run with its value.
-/

namespace TableMarkup

open Numeral (Draft)

/-! ## Digits -/

namespace Text

/-- The digits are the characters that are written for the numbers below ten. -/
theorem digit?_eq_some_iff {c : Char} {d : Nat} : digit? c = some d ↔ d < 10 ∧ c = digitChar d := by
  constructor
  · intro h
    rw [digit?] at h
    split at h
    · next hrange =>
      -- The range of characters is one of code points, which are 48 to 57.
      have hlow : '0'.toNat ≤ c.toNat := UInt32.le_iff_toNat_le.mp hrange.1
      have hhigh : c.toNat ≤ '9'.toNat := UInt32.le_iff_toNat_le.mp hrange.2
      have hvalue : c.toNat - 48 = d := Option.some.inj h
      have h48 : '0'.toNat = 48 := rfl
      have h57 : '9'.toNat = 57 := rfl
      refine ⟨by omega, ?_⟩
      rw [digitChar, show 48 + d = c.toNat by omega, Char.ofNat_toNat]
    · contradiction
  · rintro ⟨hlt, rfl⟩
    exact digit?_digitChar hlt

/-- Only the empty text has no digit values. -/
theorem eq_nil_of_mapM_digit? {cs : List Char} (h : cs.mapM digit? = some []) : cs = [] := by
  cases cs with
  | nil => rfl
  | cons c cs =>
    rw [List.mapM_cons] at h
    obtain ⟨d, -, hrest⟩ := Option.bind_eq_some_iff.mp h
    obtain ⟨ds, -, hnil⟩ := Option.bind_eq_some_iff.mp hrest
    exact absurd (Option.some.inj hnil) (List.cons_ne_nil d ds)

/-- Every character of a text that reads as digits is a digit. -/
theorem isSome_digit?_of_mem {cs : List Char} {ds : List Nat} (h : cs.mapM digit? = some ds)
    {c : Char} (hc : c ∈ cs) : (digit? c).isSome := by
  induction cs generalizing ds with
  | nil => contradiction
  | cons first cs ih =>
    rw [List.mapM_cons] at h
    obtain ⟨d, hd, hrest⟩ := Option.bind_eq_some_iff.mp h
    obtain ⟨later, hlater, -⟩ := Option.bind_eq_some_iff.mp hrest
    obtain rfl | hc := List.mem_cons.mp hc
    · rw [hd]
      rfl
    · exact ih hlater hc

/-- A number is at least its first digit. -/
theorem le_ofDigitValues (d : Nat) (ds : List Nat) : d ≤ ofDigitValues (d :: ds) := by
  -- Further digits never make a number smaller.
  have hfold (ds : List Nat) (n : Nat) : n ≤ ds.foldl (fun n d => 10 * n + d) n := by
    induction ds generalizing n with
    | nil => exact Nat.le_refl n
    | cons d ds ih =>
      have hnext := ih (10 * n + d)
      rw [List.foldl_cons]
      omega
  have hd := hfold ds (10 * 0 + d)
  rw [ofDigitValues, List.foldl_cons]
  omega

/-- The digits of a number, with no zero in front of others. -/
theorem digits_eq_cons (n : Nat) : ∃ c cs d ds, digits n = c :: cs ∧ digit? c = some d ∧
    cs.mapM digit? = some ds ∧ ofDigitValues (d :: ds) = n ∧ (ds = [] ∨ d ≠ 0) := by
  rw [digits]
  split
  · next hlt =>
    exact ⟨digitChar n, [], n, [], rfl, digit?_digitChar hlt, rfl, by simp [ofDigitValues],
      .inl rfl⟩
  · next hge =>
    obtain ⟨c, cs, d, ds, hdigits, hd, hds, hvalue, hplain⟩ := digits_eq_cons (n / 10)
    have hlast : digit? (digitChar (n % 10)) = some (n % 10) :=
      digit?_digitChar (Nat.mod_lt n (by decide))
    refine ⟨c, cs ++ [digitChar (n % 10)], d, ds ++ [n % 10], by rw [hdigits]; rfl, hd, ?_, ?_, ?_⟩
    · simp [List.mapM_append, hds, hlast]
    · rw [← List.cons_append, ofDigitValues, List.foldl_append]
      rw [ofDigitValues] at hvalue
      rw [hvalue, List.foldl_cons, List.foldl_nil]
      omega
    · -- A single digit of a tenth that is not zero is not zero either.
      right
      rcases hplain with rfl | hne
      · rintro rfl
        rw [show ofDigitValues [0] = 0 from rfl] at hvalue
        omega
      · exact hne
termination_by n

end Text

theorem WideInt.ofInt?_val (w : WideInt) : WideInt.ofInt? w.val = some w := by
  rw [WideInt.ofInt?, dif_pos ⟨w.min_le, w.lt_max⟩]

/-! ## Reading one number -/

namespace Json

/-- The value of a text that is one number for the reading machine. -/
theorem parse?_of_draft {text : List Char} {d : Draft}
    (hread : text.foldlM (Machine.step Assembly.sink) (Machine.start Assembly.start) =
      .ok { Machine.start Assembly.start with mode := .number d })
    (hcomplete : d.complete = true) : parse? text = d.value?.map .number := by
  rw [parse?, parse, read, hread]
  cases hvalue : d.value? <;>
    simp [bind, Except.bind, Except.toOption, Machine.finish, hcomplete, Machine.numberDone, hvalue,
      Machine.start, Machine.scalar, Machine.tell, Assembly.sink, Assembly.start, Assembly.accept,
      Assembly.place, Except.map, Machine.completed]

variable {σ : Type} {k : Sink σ} {nesting : List Bracket} {s : σ}

/-- The first character of a number begins a number, unless the sink skips the value from here on. -/
theorem step_start_number {skipped : Option Nat} (hskips : (skipped.isNone && k.skips s) = false)
    {c : Char} {d : Draft} (h : Draft.start? c = some d) :
    Machine.step k ⟨nesting, skipped, .between .value, s⟩ c =
      .ok ⟨nesting, skipped, .number d, s⟩ := by
  -- A character that begins a number begins nothing else.
  have hne {x : Char} (hx : Draft.start? x = none) : c ≠ x := by
    rintro rfl
    rw [h] at hx
    contradiction
  have hblank : Text.isJsonBlank c = false := by
    simp [Text.isJsonBlank, hne (x := ' ') (by decide), hne (x := '\t') (by decide),
      hne (x := '\n') (by decide), hne (x := '\r') (by decide)]
  simp [Machine.step, Machine.stepBetween, hblank, Machine.startValue, hskips,
    hne (x := 'n') (by decide), hne (x := 't') (by decide), hne (x := 'f') (by decide),
    hne (x := '"') (by decide), hne (x := '[') (by decide), hne (x := '\x7b') (by decide), h]

/-- Digits go on with the whole part of a number. -/
theorem foldlM_step_digits (k : Sink σ) (m : Machine σ) {d : Draft} (hstage : d.stage = .whole)
    {cs : List Char} {ds : List Nat} (hds : cs.mapM Text.digit? = some ds) :
    cs.foldlM (Machine.step k) { m with mode := .number d } =
      .ok { m with mode := .number { d with whole := ds.reverse ++ d.whole } } := by
  induction cs generalizing d ds with
  | nil =>
    rw [List.mapM_nil] at hds
    obtain rfl := Option.some.inj hds
    rfl
  | cons c cs ih =>
    rw [List.mapM_cons] at hds
    obtain ⟨n, hn, hrest⟩ := Option.bind_eq_some_iff.mp hds
    obtain ⟨later, hlater, hcons⟩ := Option.bind_eq_some_iff.mp hrest
    obtain rfl := Option.some.inj hcons
    -- Induction on the digits, for any draft in its whole part: each of them goes in front of the
    -- earlier ones.
    have hpush : d.push c = .more { d with whole := n :: d.whole } := by
      simp [Draft.push, hstage, hn]
    rw [List.foldlM_cons]
    simp only [Machine.step, Machine.stepNumber, hpush, bind, Except.bind]
    have hrun := ih (d := { d with whole := n :: d.whole }) hstage hlater
    rw [List.reverse_cons, List.append_assoc]
    exact hrun

end Json

/-! ## Runs of digits -/

namespace Literal

/-- The text is a run of digits with these values, with a minus sign in front of it if it is
negative, and no zero stands in front of other digits. -/
structure IsRun (text : List Char) (negative : Bool) (d : Nat) (ds : List Nat) : Prop where
  written : ∃ c cs, text = (if negative then '-' :: c :: cs else c :: cs) ∧
    Text.digit? c = some d ∧ cs.mapM Text.digit? = some ds
  plain : ds = [] ∨ d ≠ 0

/-- A run has nothing in it but digits and a minus sign. -/
theorem IsRun.not_mem {text : List Char} {negative : Bool} {d : Nat} {ds : List Nat}
    (h : IsRun text negative d ds) {c : Char} (hdigit : Text.digit? c = none) (hminus : c ≠ '-') :
    c ∉ text := by
  obtain ⟨⟨first, cs, rfl, hfirst, hcs⟩, -⟩ := h
  have hne : c ≠ first := by
    rintro rfl
    rw [hdigit] at hfirst
    contradiction
  have hlater : c ∉ cs := by
    intro hc
    have hsome := Text.isSome_digit?_of_mem hcs hc
    rw [hdigit] at hsome
    contradiction
  cases negative <;> simp [hne, hlater, hminus]

/-- The integer that a run stands for. -/
def runValue (negative : Bool) (d : Nat) (ds : List Nat) : Int :=
  if negative then -(Text.ofDigitValues (d :: ds) : Int) else Text.ofDigitValues (d :: ds)

/-- A run as the reading machine holds it. -/
def runDraft (negative : Bool) (d : Nat) (ds : List Nat) : Draft :=
  ⟨if d = 0 then .zero else .whole, negative, ds.reverse ++ [d], [], false, []⟩

/-- The reading machine takes a run as one number, be it of interest or not. -/
theorem foldlM_run {σ : Type} {k : Json.Sink σ} {nesting : List Json.Bracket} {s : σ}
    {skipped : Option Nat} (hskips : (skipped.isNone && k.skips s) = false) {text : List Char}
    {negative : Bool} {d : Nat} {ds : List Nat} (h : IsRun text negative d ds) :
    text.foldlM (Json.Machine.step k) ⟨nesting, skipped, .between .value, s⟩ =
      .ok ⟨nesting, skipped, .number (runDraft negative d ds), s⟩ := by
  obtain ⟨⟨c, cs, rfl, hc, hcs⟩, hplain⟩ := h
  -- After the first digit more digits follow only if it is not zero.
  have hlater : cs.foldlM (Json.Machine.step k)
      ⟨nesting, skipped,
        .number ⟨if d = 0 then .zero else .whole, negative, [d], [], false, []⟩, s⟩ =
      .ok ⟨nesting, skipped, .number (runDraft negative d ds), s⟩ := by
    by_cases hd : d = 0
    · obtain rfl := hplain.resolve_right fun hne => hne hd
      obtain rfl := Text.eq_nil_of_mapM_digit? hcs
      rfl
    · exact Json.foldlM_step_digits k ⟨nesting, skipped, .between .value, s⟩ (by simp [hd]) hcs
  cases negative with
  -- Behind a minus sign the first digit is read as one that goes on with the number.
  | true =>
    rw [if_pos rfl, List.foldlM_cons, Json.step_start_number hskips (c := '-') rfl]
    show ((Json.Machine.step k _ c).bind _) = _
    have hpush : Draft.push ⟨.sign, true, [], [], false, []⟩ c =
        .more ⟨if d = 0 then .zero else .whole, true, [d], [], false, []⟩ := by
      simp [Draft.push, hc]
    simp only [Json.Machine.step, Json.Machine.stepNumber, hpush, Except.bind]
    exact hlater
  | false =>
    have hstart : Draft.start? c =
        some ⟨if d = 0 then .zero else .whole, false, [d], [], false, []⟩ := by
      have hminus : c ≠ '-' := by
        rintro rfl
        contradiction
      rw [Draft.start?, if_neg hminus, hc]
      rfl
    rw [if_neg (by decide), List.foldlM_cons, Json.step_start_number hskips hstart]
    exact hlater

/-- A run that is in range is an integer in JSON, unless it is minus zero. -/
theorem value?_runDraft {negative : Bool} {d : Nat} {ds : List Nat} {w : WideInt}
    (hw : WideInt.ofInt? (runValue negative d ds) = some w)
    (hzero : negative = false ∨ Text.ofDigitValues (d :: ds) ≠ 0) :
    (runDraft negative d ds).value? = some (.integer w) := by
  have hwhole : (ds.reverse ++ [d]).reverse = d :: ds := by simp
  have hinteger : (runDraft negative d ds).integer? = some w := by
    cases negative with
    | false => simpa [Draft.integer?, runDraft, hwhole, runValue] using hw
    | true =>
      have hne := hzero.resolve_left (by decide)
      -- Both readers end at the least signed integer of 64 bits.
      have hrange : ¬ 0x8000000000000000 < Text.ofDigitValues (d :: ds) := by
        intro hlarge
        rw [runValue, if_pos rfl, WideInt.ofInt?, dif_neg (by omega)] at hw
        contradiction
      simpa [Draft.integer?, runDraft, hwhole, runValue, hne, hrange] using hw
  rw [Draft.value?, hinteger]

/-- What is written for an integer is a run, of which no one is minus zero. -/
theorem isRun_integer (w : WideInt) : ∃ negative d ds, IsRun (Text.integer w.val) negative d ds ∧
    (runDraft negative d ds).value? = some (.integer w) := by
  obtain ⟨c, cs, d, ds, hdigits, hd, hds, hvalue, hplain⟩ := Text.digits_eq_cons w.val.natAbs
  rw [Text.integer, hdigits]
  -- The sign is written apart from the digits, so the cases are those of the sign.
  split
  · next hneg =>
    refine ⟨true, d, ds, ⟨⟨c, cs, rfl, hd, hds⟩, hplain⟩, value?_runDraft ?_ (.inr ?_)⟩
    · rw [runValue, if_pos rfl, hvalue, show -(w.val.natAbs : Int) = w.val by omega,
        WideInt.ofInt?_val]
    · omega
  · next hnonneg =>
    refine ⟨false, d, ds, ⟨⟨c, cs, rfl, hd, hds⟩, hplain⟩, value?_runDraft ?_ (.inl rfl)⟩
    rw [runValue, if_neg Bool.false_ne_true, hvalue, show (w.val.natAbs : Int) = w.val by omega,
      WideInt.ofInt?_val]

end Literal

end TableMarkup
