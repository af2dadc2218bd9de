import TableMarkup.Proofs.Json.Numbers
import TableMarkup.Proofs.Json.Quotes
import TableMarkup.Proofs.Resolution.Forms
import TableMarkup.Proofs.Value.Conversions

/-!
# The integer form and JSON

What the integer form reads is a run of digits with a minus sign in front of it at most. JSON reads
such a run as an integer too, with one exception: for the integer form minus zero is zero, and for
JSON it is a float.

* `Literal.run_of_integer?`: the integer form reads runs of digits (`Literal.IsRun`).
* `Literal.json?_of_integer?`: JSON reads the same integer, but for minus zero.
* `Host.resolve_without_integer`: so resolution does not need the integer form, but for minus zero.
-/

namespace TableMarkup

open Numeral (Draft)

/-! ## Runs of digits -/

namespace Literal

/-- The integer form reads runs of digits, as far as they are in range. -/
theorem run_of_integer? {text : List Char} {n : Number} (h : integer? text = some n) :
    ∃ negative d ds w, IsRun text negative d ds ∧
      WideInt.ofInt? (runValue negative d ds) = some w ∧ n = .ofWideInt w := by
  -- What comes behind the sign is read alike with and without it.
  have hbody (negative : Bool) {body : List Char}
      (htext : text = if negative then '-' :: body else body)
      (hread : (if 1 < body.length ∧ body.head? = some '0' then none
        else do
          let magnitude ← Text.ofDigits? body
          let n ← WideInt.ofInt? (if negative then -(magnitude : Int) else magnitude)
          return Number.ofWideInt n) = some n) :
      ∃ negative d ds w, IsRun text negative d ds ∧
        WideInt.ofInt? (runValue negative d ds) = some w ∧ n = .ofWideInt w := by
    split at hread
    · contradiction
    · next hplain =>
      obtain ⟨magnitude, hmagnitude, hrest⟩ := Option.bind_eq_some_iff.mp hread
      obtain ⟨w, hw, hn⟩ := Option.bind_eq_some_iff.mp hrest
      obtain rfl := Option.some.inj hn
      cases body with
      | nil => contradiction
      | cons c cs =>
        rw [Text.ofDigits?, List.isEmpty_cons, if_neg (by decide), Option.map_eq_some_iff,
          List.mapM_cons] at hmagnitude
        obtain ⟨values, hvalues, rfl⟩ := hmagnitude
        obtain ⟨d, hd, hcs⟩ := Option.bind_eq_some_iff.mp hvalues
        obtain ⟨ds, hds, hcons⟩ := Option.bind_eq_some_iff.mp hcs
        obtain rfl := Option.some.inj hcons
        refine ⟨negative, d, ds, w, ⟨⟨c, cs, htext, hd, hds⟩, ?_⟩, hw, rfl⟩
        cases cs with
        | nil => exact .inl (Option.some.inj hds).symm
        | cons c' cs =>
          -- With more digits behind it, a zero in front is what the form turns away.
          right
          rintro rfl
          exact hplain ⟨by simp, by rw [(Text.digit?_eq_some_iff.mp hd).2]; rfl⟩
  -- The body is the text without its sign, or the text itself.
  by_cases hminus : ∃ rest, text = '-' :: rest
  · obtain ⟨rest, rfl⟩ := hminus
    exact hbody true rfl h
  · rw [integer?] at h
    · exact hbody false rfl h
    · exact fun rest hrest => hminus ⟨rest, hrest⟩

theorem value?_minusZero : ∀ w, (runDraft true 0 []).value? ≠ some (.integer w) := by
  intro w
  have hinteger : (runDraft true 0 []).integer? = none := rfl
  rw [Draft.value?, hinteger]
  cases (runDraft true 0 []).float? <;> simp

theorem withDoubleQuotes_of_not_mem {text : List Char} (h : '\'' ∉ text) :
    withDoubleQuotes text = text := by
  refine (List.map_congr_left fun c hc => ?_).trans (List.map_id text)
  have hne : c ≠ '\'' := fun heq => h (heq ▸ hc)
  exact if_neg hne

/-! ## The integer form against JSON -/

/-- JSON reads a run as a number, if it is in range for JSON. -/
theorem json?_of_run {text : List Char} {negative : Bool} {d : Nat} {ds : List Nat}
    (h : IsRun text negative d ds) :
    json? text = (runDraft negative d ds).value?.map .number := by
  -- After the last digit the number may end, whether it is a lone zero or not.
  have hcomplete : (runDraft negative d ds).complete = true := by
    by_cases hd : d = 0 <;> simp [runDraft, Draft.complete, hd]
  rw [json?, withDoubleQuotes_of_not_mem (h.not_mem (by decide) (by decide)),
    Json.parse?_of_draft (foldlM_run rfl h) hcomplete]

/-- What the integer form reads JSON reads as the same integer, but for minus zero. -/
theorem json?_of_integer? {text : String} {n : Number} (h : integer? text.toList = some n) :
    (json? text.toList).map Value.ofJson = some (.number n) ↔ text ≠ "-0" := by
  obtain ⟨negative, d, ds, w, hrun, hw, rfl⟩ := run_of_integer? h
  have hjson := json?_of_run hrun
  -- Only for minus zero do the two forms disagree, and it has one text.
  by_cases hzero : negative = true ∧ Text.ofDigitValues (d :: ds) = 0
  · obtain ⟨rfl, hvalue⟩ := hzero
    -- A run of value zero is a zero alone.
    have hd : d = 0 := Nat.le_zero.mp (hvalue ▸ Text.le_ofDigitValues d ds)
    subst hd
    obtain ⟨⟨c, cs, htext, hc, hcs⟩, hplain⟩ := hrun
    obtain rfl := hplain.resolve_right fun hne => hne rfl
    have hminus : text = "-0" := by
      rw [Text.eq_nil_of_mapM_digit? hcs, (Text.digit?_eq_some_iff.mp hc).2] at htext
      exact String.toList_inj.mp htext
    refine iff_of_false ?_ (not_not_intro hminus)
    rw [hjson]
    cases hfloat : (runDraft true 0 []).value? with
    | none => simp
    | some numeral =>
      cases numeral with
      | integer w => exact absurd hfloat (value?_minusZero w)
      | float x => simp [Value.ofJson, Number.ofNumeral, Number.float_ne_ofWideInt]
  -- Any other integer is not negative or not zero.
  · have hunsigned : negative = false ∨ Text.ofDigitValues (d :: ds) ≠ 0 := by
      cases negative with
      | false => exact .inl rfl
      | true => exact .inr fun hvalue => hzero ⟨rfl, hvalue⟩
    refine iff_of_true ?_ ?_
    · rw [hjson, value?_runDraft hw hunsigned]
      rfl
    · rintro rfl
      obtain ⟨⟨c, cs, htext, hc, hcs⟩, -⟩ := hrun
      rw [show "-0".toList = ['-', '0'] from rfl] at htext
      -- Read as a run, this text is the negative one of value zero.
      cases negative with
      | false =>
        obtain ⟨rfl, -⟩ := List.cons.inj htext
        rw [show Text.digit? '-' = none by decide] at hc
        cases hc
      | true =>
        obtain ⟨-, hrest⟩ := List.cons.inj htext
        obtain ⟨rfl, rfl⟩ := List.cons.inj hrest
        rw [show Text.digit? '0' = some 0 by decide, Option.some.injEq] at hc
        rw [List.mapM_nil] at hcs
        obtain rfl := hc
        obtain rfl := Option.some.inj hcs
        exact hzero ⟨rfl, rfl⟩

/-! ## Literals that are no strings -/

/-- A text without quotes of either kind is no JSON string. -/
theorem json?_ne_string_of_forall {text : List Char} (h : ∀ c ∈ text, c ≠ '"' ∧ c ≠ '\'')
    (s : String) : json? text ≠ some (.string s) := by
  intro hstring
  obtain ⟨c, hc, hquote⟩ := List.mem_map.mp (Json.quote_mem_of_parse?_string hstring)
  split at hquote
  · next hsingle => exact (h c hc).2 hsingle
  · exact (h c hc).1 hquote

/-- A truth value is written in its own letters. -/
theorem toLower_mem_of_boolean? {text : String} {b : Bool} (h : boolean? text = some b) {c : Char}
    (hc : c ∈ text.toList) : c.toLower ∈ ['t', 'r', 'u', 'e'] ++ ['f', 'a', 'l', 's', 'e'] := by
  have hletters {word : String} (hlower : Text.lower word = word)
      (hsame : Text.SameLetters text word) : c.toLower ∈ word.toList := by
    rw [← hlower, ← show Text.lower text = Text.lower word from hsame, Text.toList_lower]
    exact List.mem_map_of_mem hc
  -- The word is one or the other, in any case of its letters.
  rw [boolean?] at h
  split at h
  · next htrue => exact List.mem_append_left _ (hletters (by decide) htrue)
  · split at h
    · next hfalse => exact List.mem_append_right _ (hletters (by decide) hfalse)
    · contradiction

theorem json?_ne_string_of_boolean? {text : String} {b : Bool} (h : boolean? text = some b)
    (s : String) : json? text.toList ≠ some (.string s) := by
  refine json?_ne_string_of_forall (fun c hc => ⟨?_, ?_⟩) s
  all_goals
    rintro rfl
    exact absurd (toLower_mem_of_boolean? h hc) (by decide)

theorem json?_ne_string_of_integer? {text : String} {n : Number}
    (h : integer? text.toList = some n) (s : String) : json? text.toList ≠ some (.string s) := by
  obtain ⟨negative, d, ds, w, hrun, -, -⟩ := run_of_integer? h
  rw [json?_of_run hrun]
  cases (runDraft negative d ds).value? <;> simp

theorem boolean?_of_string {text s : String} (h : json? text.toList = some (.string s)) :
    boolean? text = none := by
  cases hboolean : boolean? text with
  | none => rfl
  | some b => exact absurd h (json?_ne_string_of_boolean? hboolean s)

theorem integer?_of_string {text s : String} (h : json? text.toList = some (.string s)) :
    integer? text.toList = none := by
  cases hinteger : integer? text.toList with
  | none => rfl
  | some n => exact absurd h (json?_ne_string_of_integer? hinteger s)

/-- For JSON minus zero is a float. -/
theorem json?_minusZero : ∃ x, json? "-0".toList = some (.number (.float x)) := by
  have hrun : IsRun "-0".toList true 0 [] := ⟨⟨'0', [], rfl, by decide, rfl⟩, .inl rfl⟩
  have hsome : (runDraft true 0 []).float?.isSome := by decide +kernel
  obtain ⟨x, hx⟩ := Option.isSome_iff_exists.mp hsome
  have hinteger : (runDraft true 0 []).integer? = none := rfl
  exact ⟨x, by rw [json?_of_run hrun, Draft.value?, hinteger, hx]; rfl⟩

end Literal

/-! ## Resolution -/

namespace Host

variable {m : Type → Type} [Monad m] (host : Host m)

theorem resolveBy_erase_integer (text : String) :
    host.resolveBy (Literal.order.erase .integer) text =
      host.tryForms (Literal.order.erase .integer) [.boolean, .json, .function] text := rfl

variable [LawfulMonad m]

/-- Where no minus zero is inside, JSON reads what the integer form reads. -/
theorem resolveBy_erase_integer_of_ne {text : String} (h : Literal.innermost text ≠ "-0") :
    host.resolveBy (Literal.order.erase .integer) text = host.resolveText text := by
  -- On the unwrapping: what is inside is no minus zero, and stays so.
  induction text using Literal.innermost_induction with
  | inner text hinner =>
    rw [Literal.innermost_of_not_string hinner] at h
    rw [resolveBy_erase_integer, tryForms_boolean, tryForms_json, tryForms_function, tryForms,
      resolveText_eq]
    -- What the integer form would have read, JSON reads to the same value now.
    cases hinteger : Literal.integer? text.toList with
    | some n =>
      obtain ⟨j, hj, hn⟩ := Option.map_eq_some_iff.mp ((Literal.json?_of_integer? hinteger).mpr h)
      rw [hj]
      dsimp only
      rw [← hn]
      cases j with
      | string s => exact absurd hj (hinner s)
      | _ => rfl
    | none =>
      cases hj : Literal.json? text.toList with
      | none => rfl
      | some j =>
        cases j with
        | string s => exact absurd hj (hinner s)
        | _ => rfl
  | wrapped text s hs ih =>
    rw [Literal.innermost_of_string hs] at h
    rw [resolveBy_erase_integer, tryForms_boolean, tryForms_json, resolveText_eq,
      Literal.integer?_of_string hs, hs]
    dsimp only
    rw [ih h]

/-- Minus zero inside is an integer with the integer form, and a float without it. -/
theorem resolve_of_innermost_minusZero {text : String} (h : Literal.innermost text = "-0") :
    host.resolveText text = pure (.number (.signed 0)) ∧
      ∃ x, host.resolveBy (Literal.order.erase .integer) text = pure (.number (.float x)) := by
  -- The strings around it are unwrapped alike with and without the form.
  induction text using Literal.innermost_induction with
  | inner text hinner =>
    rw [Literal.innermost_of_not_string hinner] at h
    subst h
    obtain ⟨x, hx⟩ := Literal.json?_minusZero
    have hboolean : Literal.boolean? "-0" = none := by decide
    have hinteger : Literal.integer? "-0".toList = some (.signed 0) := rfl
    refine ⟨?_, x, ?_⟩
    · rw [resolveText_eq, hboolean, hinteger]
    · rw [resolveBy_erase_integer, tryForms_boolean, hboolean, tryForms_json, hx]
      rfl
  | wrapped text s hs ih =>
    rw [Literal.innermost_of_string hs] at h
    have hboolean := Literal.boolean?_of_string hs
    rw [resolveText_eq, hboolean, Literal.integer?_of_string hs, hs, resolveBy_erase_integer,
      tryForms_boolean, hboolean, tryForms_json, hs]
    exact ih h

/-- The integer form is a shortcut for JSON, but for minus zero: elsewhere JSON reads the same number
where the integer form reads one, and resolution without the integer form comes to the same. Minus
zero is an integer for the one and a float for the other. -/
theorem resolve_without_integer (text : String) :
    (∀ n, Literal.integer? text.toList = some n →
      ((Literal.json? text.toList).map Value.ofJson = some (.number n) ↔ text ≠ "-0")) ∧
    host.resolve (.string text) = host.resolveBy Literal.order text ∧
    (Literal.innermost text ≠ "-0" →
      host.resolveBy (Literal.order.erase .integer) text = host.resolve (.string text)) ∧
    (Literal.innermost text = "-0" →
      host.resolve (.string text) = pure (.number (.signed 0)) ∧
        ∃ x, host.resolveBy (Literal.order.erase .integer) text = pure (.number (.float x))) :=
  ⟨fun _ h => Literal.json?_of_integer? h, host.resolveText_eq_resolveBy text,
    host.resolveBy_erase_integer_of_ne, host.resolve_of_innermost_minusZero⟩

/-- Without the integer form seven stays what it is, and a quoted minus zero does not. -/
theorem resolve_without_integer_ofNull :
    let host : Host Id := Host.ofJson .null
    host.resolveBy (Literal.order.erase .integer) "7" = host.resolve (.string "7") ∧
    host.resolve (.string "'-0'") = pure (.number (.signed 0)) ∧
      ∃ x, host.resolveBy (Literal.order.erase .integer) "'-0'" = pure (.number (.float x)) := by
  intro host
  have hbare {text : String} {n : Number} (h : Literal.integer? text.toList = some n) :
      Literal.innermost text = text :=
    Literal.innermost_of_not_string (Literal.json?_ne_string_of_integer? h)
  have hseven : Literal.innermost "7" = "7" := hbare (n := .signed 7) rfl
  have hquoted : Literal.json? "'-0'".toList = some (.string "-0") := by rfl
  have hminus : Literal.innermost "'-0'" = "-0" := by
    rw [Literal.innermost_of_string hquoted]
    exact hbare (n := .signed 0) rfl
  constructor
  · exact (resolve_without_integer host "7").2.2.1 (by rw [hseven]; decide)
  · exact (resolve_without_integer host "'-0'").2.2.2 hminus

/-- The integer form reads minus zero as zero, and JSON does not. -/
theorem integer?_minusZero :
    Literal.integer? "-0".toList = some (.signed 0) ∧
      (Literal.json? "-0".toList).map Value.ofJson ≠ some (.number (.signed 0)) := by
  refine ⟨rfl, ?_⟩
  obtain ⟨x, hx⟩ := Literal.json?_minusZero
  rw [hx]
  simp [Value.ofJson, Number.ofNumeral]

end Host

end TableMarkup
