import TableMarkup.Proofs.Resolution.IntegerForm
import TableMarkup.Proofs.Text.WholeNumbers

/-!
# What the integer form reads

The form of integers takes the canonical texts of the integers that 64 bits can hold with or without a
sign, and no others. It is tried before every form that asks the host, so the text of such an integer
is this integer under any host.

* `Number.Denotes`: the integer that a number is, signed where it can be.
* `Literal.integer?_eq_some_iff`: the texts that are read, and what they are read as.
* `Host.resolve_integerText`: such a text resolves to its integer.
-/

namespace TableMarkup

/-! ## Numbers that are integers -/

/-- The number is this integer. An unsigned number is too large to be signed. -/
inductive Number.Denotes : Number → Int → Prop
  | signed (n : Int64) : Denotes (.signed n) n.toInt
  | unsigned (n : UInt64) (hlarge : 2 ^ 63 ≤ n.toNat) : Denotes (.unsigned n) n.toNat

theorem Number.denotes_ofWideInt (w : WideInt) : (ofWideInt w).Denotes w.val := by
  have hmin := w.min_le
  have hmax := w.lt_max
  unfold ofWideInt
  -- Whatever fits into a signed number is one.
  split
  · have hsigned := Denotes.signed (Int64.ofInt w.val)
    rwa [Int64.toInt_ofInt_of_le (by omega) (by omega)] at hsigned
  · have hvalue : (UInt64.ofNat w.val.toNat).toNat = w.val.toNat := by
      rw [UInt64.toNat_ofNat']
      omega
    have hunsigned := Denotes.unsigned (UInt64.ofNat w.val.toNat) (by omega)
    rwa [hvalue, Int.toNat_of_nonneg (by omega)] at hunsigned

/-- An integer is denoted by one number. -/
theorem Number.Denotes.unique {m n : Number} {i : Int} (hm : m.Denotes i) (hn : n.Denotes i) :
    m = n := by
  -- The two kinds do not overlap, and of one kind the value tells the number.
  cases hm with
  | signed k =>
    generalize hi : k.toInt = i at hn
    cases hn with
    | signed l => rw [Int64.toInt_inj.mp hi]
    | unsigned l hlarge =>
      have hlt := k.toInt_lt
      omega
  | unsigned k hlarge =>
    generalize hi : (k.toNat : Int) = i at hn
    cases hn with
    | signed l =>
      have hlt := l.toInt_lt
      omega
    | unsigned l hlarge' => rw [UInt64.toNat_inj.mp (Int.ofNat_inj.mp hi)]

theorem WideInt.ofInt?_eq_some_iff {i : Int} {w : WideInt} : ofInt? i = some w ↔ w.val = i := by
  rw [ofInt?]
  split
  · next h =>
    rw [Option.some.injEq]
    constructor <;> rintro rfl <;> rfl
  · next h =>
    refine iff_of_false (Option.some_ne_none w).symm ?_
    rintro rfl
    exact h ⟨w.min_le, w.lt_max⟩

/-! ## The form of integers -/

namespace Literal

/-- Behind a sign or without one, the form reads canonical digits and nothing else. -/
theorem magnitude_eq_some_iff {body : List Char} {k : Nat} :
    ¬ (1 < body.length ∧ body.head? = some '0') ∧ Text.ofDigits? body = some k ↔
      Text.CanonicalDigits body ∧ Text.placeValue body = k := by
  rw [Text.ofDigits?_eq_some_iff]
  constructor
  · rintro ⟨hplain, hne, hdigits, hvalue⟩
    refine ⟨?_, hvalue⟩
    cases body with
    | nil => contradiction
    | cons first later =>
      obtain ⟨hfirst, hlater⟩ := List.forall_mem_cons.mp hdigits
      refine Text.canonicalDigits_cons hfirst hlater ?_
      -- A zero in front is allowed only where nothing follows.
      by_cases hnil : later = []
      · exact .inl hnil
      · right
        rintro rfl
        exact hplain ⟨by simpa [List.length_pos_iff] using hnil, rfl⟩
  · rintro ⟨hcanonical, hvalue⟩
    obtain ⟨first, later, rfl, hfirst, hlater, hplain⟩ := hcanonical.eq_cons
    refine ⟨?_, List.cons_ne_nil _ _, List.forall_mem_cons.mpr ⟨hfirst, hlater⟩, hvalue⟩
    rintro ⟨hlong, hzero⟩
    rcases hplain with rfl | hne
    · exact absurd hlong (by simp)
    · exact hne (Option.some.inj hzero)

/-- The integer form on a text without its sign. -/
def integerOf? (negative : Bool) (body : List Char) : Option Number :=
  if 1 < body.length ∧ body.head? = some '0' then none
  else do
    let magnitude ← Text.ofDigits? body
    let n ← WideInt.ofInt? (if negative then -magnitude else magnitude)
    return .ofWideInt n

theorem integer?_minus (body : List Char) : integer? ('-' :: body) = integerOf? true body := rfl

theorem integer?_of_ne {text : List Char} (h : ∀ body, text ≠ '-' :: body) :
    integer? text = integerOf? false text := by
  rw [integer?]
  · rfl
  · exact h

/-- What the form reads behind a sign: canonical digits of an integer in range. -/
theorem integerOf?_eq_some_iff {negative : Bool} {body : List Char} {n : Number} :
    integerOf? negative body = some n ↔ Text.CanonicalDigits body ∧ ∃ w : WideInt,
      w.val = (if negative then -(Text.placeValue body : Int) else Text.placeValue body) ∧
        n = .ofWideInt w := by
  rw [integerOf?]
  constructor
  · intro h
    split at h
    · contradiction
    · next hplain =>
      obtain ⟨k, hk, hrest⟩ := Option.bind_eq_some_iff.mp h
      obtain ⟨w, hw, hn⟩ := Option.bind_eq_some_iff.mp hrest
      obtain rfl := Option.some.inj hn
      obtain ⟨hcanonical, rfl⟩ := magnitude_eq_some_iff.mp ⟨hplain, hk⟩
      exact ⟨hcanonical, w, WideInt.ofInt?_eq_some_iff.mp hw, rfl⟩
  · rintro ⟨hcanonical, w, hw, rfl⟩
    obtain ⟨hplain, hk⟩ := magnitude_eq_some_iff.mpr ⟨hcanonical, rfl⟩
    rw [if_neg hplain, hk]
    show (WideInt.ofInt? _).bind _ = _
    rw [WideInt.ofInt?_eq_some_iff.mpr hw]
    rfl

/-- The form reads the canonical texts of integers that 64 bits can hold. -/
theorem integer?_eq_some_iff_exists {text : List Char} {n : Number} :
    integer? text = some n ↔
      ∃ w : WideInt, Text.IntegerText text w.val ∧ n = .ofWideInt w := by
  -- With a minus sign the digits behind it are those of a negative integer or of minus zero.
  by_cases hminus : ∃ body, text = '-' :: body
  · obtain ⟨body, rfl⟩ := hminus
    rw [integer?_minus, integerOf?_eq_some_iff, if_pos rfl]
    constructor
    · rintro ⟨hcanonical, w, hw, rfl⟩
      exact ⟨w, hw ▸ .minus hcanonical, rfl⟩
    · rintro ⟨w, htext, rfl⟩
      generalize hw : w.val = i at htext
      obtain hcanonical | hcanonical := htext
      · -- A minus sign is no digit.
        obtain ⟨first, later, hcons, hfirst, -⟩ := hcanonical.eq_cons
        obtain ⟨rfl, -⟩ := List.cons.inj hcons
        exact absurd hfirst (by decide)
      · exact ⟨hcanonical, w, hw, rfl⟩
  · rw [integer?_of_ne fun body h => hminus ⟨body, h⟩, integerOf?_eq_some_iff,
      if_neg Bool.false_ne_true]
    constructor
    · rintro ⟨hcanonical, w, hw, rfl⟩
      exact ⟨w, hw ▸ .unsigned hcanonical, rfl⟩
    · rintro ⟨w, htext, rfl⟩
      generalize hw : w.val = i at htext
      obtain hcanonical | hcanonical := htext
      · exact ⟨hcanonical, w, hw, rfl⟩
      · exact absurd ⟨_, rfl⟩ hminus

/-- The form reads the canonical texts of the integers in range, each as this integer. -/
theorem integer?_eq_some_iff {text : List Char} {n : Number} :
    integer? text = some n ↔
      ∃ i, Text.IntegerText text i ∧ -2 ^ 63 ≤ i ∧ i < 2 ^ 64 ∧ n.Denotes i := by
  rw [integer?_eq_some_iff_exists]
  constructor
  · rintro ⟨w, htext, rfl⟩
    exact ⟨w.val, htext, w.min_le, w.lt_max, Number.denotes_ofWideInt w⟩
  · rintro ⟨i, htext, hmin, hmax, hn⟩
    exact ⟨⟨i, hmin, hmax⟩, htext, hn.unique (Number.denotes_ofWideInt ⟨i, hmin, hmax⟩)⟩

/-- A text with a digit in it is no truth value. -/
theorem boolean?_of_mem {text : String} {c : Char} (hc : c ∈ text.toList) (hdigit : Text.IsDigit c) :
    boolean? text = none := by
  obtain ⟨d, hd⟩ := Text.isDigit_iff_exists.mp hdigit
  obtain ⟨hlt, rfl⟩ := Text.digit?_eq_some_iff.mp hd
  -- No digit is a letter of either word.
  have hletters : ∀ d < 10, (Text.digitChar d).toLower ∉
      ['t', 'r', 'u', 'e'] ++ ['f', 'a', 'l', 's', 'e'] := by decide
  cases hboolean : boolean? text with
  | none => rfl
  | some b => exact absurd (toLower_mem_of_boolean? hboolean hc) (hletters d hlt)

end Literal

/-! ## Resolution -/

namespace Host

variable {m : Type → Type} [Monad m] (host : Host m)

theorem resolve_of_integer? {text : String} {i : Int} {n : Number}
    (htext : Text.IntegerText text.toList i) (h : Literal.integer? text.toList = some n) :
    host.resolve (.string text) = pure (.number n) := by
  -- There is a digit in the text, so it is no truth value, and the integer form comes next.
  obtain ⟨c, hc, hdigit⟩ := htext.exists_digit
  show host.resolveText text = _
  rw [resolveText_eq, Literal.boolean?_of_mem hc hdigit, h]

/-- The form of integers reads the canonical texts of the integers from `-2 ^ 63` to below `2 ^ 64`, and
reads each as this integer: as a signed number below `2 ^ 63`, and as an unsigned one from there on.
So each such text resolves to its integer whatever the host is like, among them the text that is
written for the integer. -/
theorem resolve_integerText :
    (∀ (text : List Char) (n : Number), Literal.integer? text = some n ↔
      ∃ i, Text.IntegerText text i ∧ -2 ^ 63 ≤ i ∧ i < 2 ^ 64 ∧ n.Denotes i) ∧
    (∀ i, Text.IntegerText (Text.integer i) i) ∧
    ∀ (text : String) (i : Int), Text.IntegerText text.toList i → -2 ^ 63 ≤ i → i < 2 ^ 64 →
      ∃ n : Number, n.Denotes i ∧ Literal.integer? text.toList = some n ∧
        host.resolve (.string text) = pure (.number n) := by
  refine ⟨fun text n => Literal.integer?_eq_some_iff, Text.integerText_integer, ?_⟩
  intro text i htext hmin hmax
  have hn := Number.denotes_ofWideInt ⟨i, hmin, hmax⟩
  have hread := Literal.integer?_eq_some_iff.mpr ⟨i, htext, hmin, hmax, hn⟩
  exact ⟨_, hn, hread, host.resolve_of_integer? htext hread⟩

/-- The least and the greatest of these integers, with a host that would evaluate anything. -/
theorem resolve_integerText_ends :
    let host : Host (StateM Nat) := .ofGlobals [] (fun _ _ _ => pure .undefined)
      (some fun _ => do modify (· + 1); pure none)
    Text.IntegerText "-9223372036854775808".toList (-2 ^ 63) ∧
      host.resolve (.string "-9223372036854775808") = pure (.number (.signed (-0x8000000000000000))) ∧
      Text.IntegerText "18446744073709551615".toList (2 ^ 64 - 1) ∧
      host.resolve (.string "18446744073709551615") =
        pure (.number (.unsigned 0xFFFFFFFFFFFFFFFF)) := by
  intro host
  obtain ⟨-, -, hresolve⟩ := resolve_integerText host
  have hdigits (later : List Char) (h : later.all fun c => decide (Text.IsDigit c)) :
      ∀ c ∈ later, Text.IsDigit c := by
    simpa only [List.all_eq_true, decide_eq_true_eq] using h
  have hleast : Text.IntegerText "-9223372036854775808".toList (-2 ^ 63) :=
    .minus (Text.canonicalDigits_cons (by decide : Text.IsDigit '9') (hdigits _ rfl)
      (.inr (by decide)))
  have hgreatest : Text.IntegerText "18446744073709551615".toList (2 ^ 64 - 1) :=
    .unsigned (Text.canonicalDigits_cons (by decide : Text.IsDigit '1') (hdigits _ rfl)
      (.inr (by decide)))
  refine ⟨hleast, ?_, hgreatest, ?_⟩
  · obtain ⟨n, hn, -, htext⟩ := hresolve _ _ hleast (by decide) (by decide)
    rw [htext, hn.unique (.signed (-0x8000000000000000))]
  · obtain ⟨n, hn, -, htext⟩ := hresolve _ _ hgreatest (by decide) (by decide)
    rw [htext, hn.unique (.unsigned 0xFFFFFFFFFFFFFFFF (by decide))]

end Host

end TableMarkup
