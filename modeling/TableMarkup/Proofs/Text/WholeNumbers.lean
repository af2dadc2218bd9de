import Mathlib.Data.Nat.Digits.Defs
import TableMarkup.Proofs.Json.Numbers

/-!
# Texts of whole numbers

What a run of ASCII digits stands for is said here by the places of the digits, apart from any reader;
the readers of numbers are measured against it. Numbers in versions may carry a plus sign and zeros in
front, and integers in markup neither.

* `Text.IsDigit`, `Text.placeValue`: the digits, and the number that a run of them stands for.
* `Text.ofDigits?_eq_some_iff`: reading a run of digits gives this number, and nothing else is read.
* `Text.UnsignedText`: digits after at most one plus sign; `Text.unsigned?_eq_some_iff` reads them.
* `Text.IntegerText`: the canonical texts of integers; `Text.integerText_integer` is the one that is
  written.
-/

namespace TableMarkup.Text

/-! ## Digits and their places -/

def IsDigit (c : Char) : Prop :=
  '0' ≤ c ∧ c ≤ '9'

instance (c : Char) : Decidable (IsDigit c) :=
  inferInstanceAs (Decidable ('0' ≤ c ∧ c ≤ '9'))

/-- The number that a run of digits stands for. The last digit counts ones, and each one in front of it
ten times as much as the one behind it. -/
def placeValue (cs : List Char) : Nat :=
  Nat.ofDigits 10 (cs.reverse.map fun c => c.toNat - '0'.toNat)

/-- A digit is read as its distance from zero. -/
theorem digit?_eq_some_iff_isDigit {c : Char} {d : Nat} :
    digit? c = some d ↔ IsDigit c ∧ c.toNat - '0'.toNat = d := by
  rw [digit?]
  by_cases h : '0' ≤ c ∧ c ≤ '9'
  · rw [if_pos h, Option.some.injEq]
    exact (and_iff_right h).symm
  · rw [if_neg h]
    exact iff_of_false (Option.some_ne_none d).symm fun hdigit => h hdigit.1

/-- The digits are the characters that are read as one. -/
theorem isDigit_iff_exists {c : Char} : IsDigit c ↔ ∃ d, digit? c = some d := by
  simp only [digit?_eq_some_iff_isDigit]
  exact ⟨fun h => ⟨_, h, rfl⟩, fun ⟨_, h, _⟩ => h⟩

/-- A run is read digit by digit, and only a run of digits is. -/
theorem mapM_digit?_eq_some_iff {cs : List Char} {ds : List Nat} :
    cs.mapM digit? = some ds ↔
      (∀ c ∈ cs, IsDigit c) ∧ cs.map (fun c => c.toNat - '0'.toNat) = ds := by
  induction cs generalizing ds with
  | nil => simp [eq_comm]
  | cons c cs ih =>
    rw [List.mapM_cons, List.forall_mem_cons, List.map_cons]
    constructor
    · intro h
      obtain ⟨d, hd, hrest⟩ := Option.bind_eq_some_iff.mp h
      obtain ⟨later, hlater, hcons⟩ := Option.bind_eq_some_iff.mp hrest
      obtain rfl := Option.some.inj hcons
      obtain ⟨hdigit, rfl⟩ := digit?_eq_some_iff_isDigit.mp hd
      obtain ⟨hdigits, rfl⟩ := ih.mp hlater
      exact ⟨⟨hdigit, hdigits⟩, rfl⟩
    · rintro ⟨⟨hdigit, hdigits⟩, rfl⟩
      rw [digit?_eq_some_iff_isDigit.mpr ⟨hdigit, rfl⟩, ih.mpr ⟨hdigits, rfl⟩]
      rfl

/-- To gather digits from the first one on is to add them up by their places. -/
theorem ofDigitValues_eq_ofDigits (ds : List Nat) :
    ofDigitValues ds = Nat.ofDigits 10 ds.reverse := by
  rw [Nat.ofDigits_eq_foldr, List.foldr_reverse, ofDigitValues]
  simp [Nat.add_comm]

/-- Reading a run of digits gives the number that it stands for, and nothing else is read. -/
theorem ofDigits?_eq_some_iff {cs : List Char} {n : Nat} :
    ofDigits? cs = some n ↔ cs ≠ [] ∧ (∀ c ∈ cs, IsDigit c) ∧ placeValue cs = n := by
  -- The reader gathers the digits from the left, and their places count from the right.
  have hvalue : ofDigitValues (cs.map fun c => c.toNat - '0'.toNat) = placeValue cs := by
    rw [ofDigitValues_eq_ofDigits, ← List.map_reverse, placeValue]
  cases cs with
  | nil => exact iff_of_false nofun fun h => h.1 rfl
  | cons c cs =>
    rw [ofDigits?, List.isEmpty_cons, if_neg Bool.false_ne_true, Option.map_eq_some_iff]
    simp only [mapM_digit?_eq_some_iff]
    constructor
    · rintro ⟨ds, ⟨hdigits, rfl⟩, rfl⟩
      exact ⟨List.cons_ne_nil c cs, hdigits, hvalue.symm⟩
    · rintro ⟨-, hdigits, rfl⟩
      exact ⟨_, ⟨hdigits, rfl⟩, hvalue⟩

theorem isDigit_of_mem_digits {n : Nat} {c : Char} (h : c ∈ digits n) : IsDigit c :=
  (ofDigits?_eq_some_iff.mp (ofDigits?_digits n)).2.1 c h

theorem placeValue_digits (n : Nat) : placeValue (digits n) = n :=
  (ofDigits?_eq_some_iff.mp (ofDigits?_digits n)).2.2

/-! ## Unsigned numbers -/

/-- The texts of an unsigned number: one or more digits after at most one plus sign. -/
inductive UnsignedText : List Char → Nat → Prop
  | bare {cs : List Char} (hne : cs ≠ []) (hdigits : ∀ c ∈ cs, IsDigit c) :
    UnsignedText cs (placeValue cs)
  | plus {cs : List Char} (hne : cs ≠ []) (hdigits : ∀ c ∈ cs, IsDigit c) :
    UnsignedText ('+' :: cs) (placeValue cs)

theorem unsignedText_digits (n : Nat) : UnsignedText (digits n) n := by
  have hbare := UnsignedText.bare (digits_ne_nil n) fun c hc => isDigit_of_mem_digits hc
  rwa [placeValue_digits] at hbare

theorem UnsignedText.mem {cs : List Char} {n : Nat} (h : UnsignedText cs n) {c : Char}
    (hc : c ∈ cs) : c = '+' ∨ IsDigit c := by
  cases h with
  | bare hne hdigits => exact .inr (hdigits c hc)
  | plus hne hdigits => exact (List.mem_cons.mp hc).imp id (hdigits c)

theorem UnsignedText.ne_nil {cs : List Char} {n : Nat} (h : UnsignedText cs n) : cs ≠ [] := by
  cases h with
  | bare hne hdigits => exact hne
  | plus hne hdigits => exact List.cons_ne_nil _ _

/-- A number is read from its texts and from no others, if it is in range. -/
theorem unsigned?_eq_some_iff {bound : Nat} {cs : List Char} {n : Nat} :
    unsigned? bound cs = some n ↔ UnsignedText cs n ∧ n < bound := by
  -- What comes behind the sign is read alike with and without it.
  have hread (body : List Char) : (ofDigits? body).filter (· < bound) = some n ↔
      (body ≠ [] ∧ (∀ c ∈ body, IsDigit c) ∧ placeValue body = n) ∧ n < bound := by
    rw [Option.filter_eq_some_iff, decide_eq_true_iff, ofDigits?_eq_some_iff]
  by_cases hplus : ∃ rest, cs = '+' :: rest
  · obtain ⟨rest, rfl⟩ := hplus
    refine (hread rest).trans (and_congr_left fun _ => ?_)
    constructor
    · rintro ⟨hne, hdigits, rfl⟩
      exact .plus hne hdigits
    · rintro (⟨-, hdigits⟩ | ⟨hne, hdigits⟩)
      -- A run of digits does not begin with a plus sign.
      · exact absurd (hdigits '+' List.mem_cons_self) (by decide)
      · exact ⟨hne, hdigits, rfl⟩
  · have hbody : unsigned? bound cs = (ofDigits? cs).filter (· < bound) := by
      rw [unsigned?]
      exact fun rest hrest => hplus ⟨rest, hrest⟩
    refine (iff_of_eq (congrArg (· = some n) hbody)).trans ((hread cs).trans ?_)
    refine and_congr_left fun _ => ?_
    constructor
    · rintro ⟨hne, hdigits, rfl⟩
      exact .bare hne hdigits
    · rintro (⟨hne, hdigits⟩ | ⟨-, -⟩)
      · exact ⟨hne, hdigits, rfl⟩
      · exact absurd ⟨_, rfl⟩ hplus

/-! ## Integers -/

/-- A zero alone, or digits of which the first is not zero. -/
inductive CanonicalDigits : List Char → Prop
  | zero : CanonicalDigits ['0']
  | leading {first : Char} {later : List Char} (hfirst : IsDigit first) (hne : first ≠ '0')
      (hlater : ∀ c ∈ later, IsDigit c) : CanonicalDigits (first :: later)

/-- The canonical texts of an integer: an optional minus sign and canonical digits. -/
inductive IntegerText : List Char → Int → Prop
  | unsigned {cs : List Char} (h : CanonicalDigits cs) : IntegerText cs (placeValue cs)
  | minus {cs : List Char} (h : CanonicalDigits cs) : IntegerText ('-' :: cs) (-placeValue cs)

/-- Canonical digits by their first one: it is zero only if it stands alone. -/
theorem CanonicalDigits.eq_cons {cs : List Char} (h : CanonicalDigits cs) :
    ∃ first later, cs = first :: later ∧ IsDigit first ∧ (∀ c ∈ later, IsDigit c) ∧
      (later = [] ∨ first ≠ '0') := by
  cases h with
  | zero => exact ⟨'0', [], rfl, by decide, List.forall_mem_nil _, .inl rfl⟩
  | @leading first later hfirst hne hlater => exact ⟨first, later, rfl, hfirst, hlater, .inr hne⟩

/-- Digits are canonical if the first one is not zero or stands alone. -/
theorem canonicalDigits_cons {first : Char} {later : List Char} (hfirst : IsDigit first)
    (hlater : ∀ c ∈ later, IsDigit c) (hplain : later = [] ∨ first ≠ '0') :
    CanonicalDigits (first :: later) := by
  by_cases hzero : first = '0'
  · obtain rfl := hplain.resolve_right fun hne => hne hzero
    rw [hzero]
    exact .zero
  · exact .leading hfirst hzero hlater

/-- What is written for a number is canonical. -/
theorem canonicalDigits_digits (n : Nat) : CanonicalDigits (digits n) := by
  obtain ⟨c, cs, d, ds, hdigits, hd, hds, -, hplain⟩ := digits_eq_cons n
  rw [hdigits]
  refine canonicalDigits_cons (isDigit_iff_exists.mpr ⟨d, hd⟩) (mapM_digit?_eq_some_iff.mp hds).1 ?_
  refine hplain.imp (fun hnil => ?_) fun hne => ?_
  · exact eq_nil_of_mapM_digit? (hnil ▸ hds)
  · rintro rfl
    exact hne (Option.some.inj (hd.symm.trans (by decide)))

/-- What is written for an integer is a canonical text of it. -/
theorem integerText_integer (n : Int) : IntegerText (integer n) n := by
  have hcanonical := canonicalDigits_digits n.natAbs
  rw [integer]
  split
  · next hneg =>
    have hminus := IntegerText.minus hcanonical
    rwa [placeValue_digits, show -(n.natAbs : Int) = n by omega] at hminus
  · next hnonneg =>
    have hunsigned := IntegerText.unsigned hcanonical
    rwa [placeValue_digits, show (n.natAbs : Int) = n by omega] at hunsigned

/-- Every text of an integer has a digit in it. -/
theorem IntegerText.exists_digit {cs : List Char} {n : Int} (h : IntegerText cs n) :
    ∃ c ∈ cs, IsDigit c := by
  cases h with
  | unsigned h =>
    obtain ⟨first, later, rfl, hfirst, -⟩ := h.eq_cons
    exact ⟨first, List.mem_cons_self, hfirst⟩
  | minus h =>
    obtain ⟨first, later, rfl, hfirst, -⟩ := h.eq_cons
    exact ⟨first, List.mem_cons_of_mem _ List.mem_cons_self, hfirst⟩

end TableMarkup.Text
