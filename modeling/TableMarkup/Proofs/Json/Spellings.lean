import TableMarkup.Json.Assembly
import TableMarkup.Json.Quoted
import TableMarkup.Proofs.Json.Running

/-!
# Spellings of quoted texts

JSON leaves it to the writer how a character is spelled between quotes: as it is, by a short escape, or
by its code units in UTF-16, of four hexadecimal digits each. The reading machine does not remember
which way was chosen, so that a string has many texts and each of them is read as this string.

* `Spells`, `SpellsAll`: the spellings of a character and of a text; `spells_escape` is the one that
  is written.
* `Machine.run_spelling`: a spelling is read as its character.
* `Machine.run_spelled`, `Machine.run_key`: a text between quotes is read as the string or the name that
  it spells.
* `StringText`: the texts of a string, with blanks around them; `read_stringText` reads them all.
-/

namespace TableMarkup.Json

/-! ## Spellings -/

/-- Four hexadecimal digits and the number that they stand for. -/
inductive CodeUnit : List Char → Nat → Prop
  | digits {a b c d : Char} {u v w x : Nat} (ha : Text.hexValue? a = some u)
      (hb : Text.hexValue? b = some v) (hc : Text.hexValue? c = some w)
      (hd : Text.hexValue? d = some x) :
      CodeUnit [a, b, c, d] (16 * (16 * (16 * u + v) + w) + x)

/-- The ways in which a character may be written between quotes. -/
inductive Spells (c : Char) : List Char → Prop
  | itself (hquote : c ≠ '"') (hslash : c ≠ '\\') (hlow : ¬ c.toNat < 0x20) : Spells c [c]
  | short (mark : Char) (hmark : unescape? mark = some c) : Spells c ['\\', mark]
  | unit {digits : List Char} (hunit : CodeUnit digits c.toNat) : Spells c ('\\' :: 'u' :: digits)
  /-- A character beyond U+FFFF has two code units, of which neither stands alone. -/
  | pair {high low : List Char} {u v : Nat} (hhigh : CodeUnit high u) (hlow : CodeUnit low v)
      (hu : 0xD800 ≤ u ∧ u ≤ 0xDBFF) (hv : 0xDC00 ≤ v ∧ v ≤ 0xDFFF)
      (hc : c.toNat = (u - 0xD800) * 0x400 + (v - 0xDC00) + 0x10000) :
      Spells c ('\\' :: 'u' :: (high ++ '\\' :: 'u' :: low))

/-- A text is spelled character by character. -/
inductive SpellsAll : List Char → List Char → Prop
  | nil : SpellsAll [] []
  | cons {c : Char} {cs piece spelled : List Char} (first : Spells c piece)
      (later : SpellsAll cs spelled) : SpellsAll (c :: cs) (piece ++ spelled)

/-- What is written for a character is one of its spellings. -/
theorem spells_escape (c : Char) : Spells c (escape c) := by
  unfold escape
  split
  · next h => exact .short '"' (by rw [h]; rfl)
  split
  · next h => exact .short '\\' (by rw [h]; rfl)
  split
  · next h => exact .short 'n' (by rw [h]; rfl)
  split
  · next h => exact .short 'r' (by rw [h]; rfl)
  split
  · next h => exact .short 't' (by rw [h]; rfl)
  split
  · next h => exact .short 'b' (by rw [h]; rfl)
  split
  · next h => exact .short 'f' (by rw [h]; rfl)
  split
  · next h =>
    -- Characters below U+0020 without a short escape are written with two zeros and two more
    -- digits.
    have hzero : Text.hexValue? '0' = some 0 := by decide
    have hhigh := Text.hexValue?_hexDigit (show c.toNat / 16 < 16 by omega)
    have hlow := Text.hexValue?_hexDigit (show c.toNat % 16 < 16 by omega)
    have hunit := CodeUnit.digits hzero hzero hhigh hlow
    rw [show 16 * (16 * (16 * 0 + 0) + c.toNat / 16) + c.toNat % 16 = c.toNat by omega] at hunit
    exact .unit hunit
  · next hquote hslash _ _ _ _ _ hlow => exact .itself hquote hslash hlow

theorem spellsAll_escape (cs : List Char) : SpellsAll cs (cs.flatMap escape) := by
  induction cs with
  | nil => exact .nil
  | cons c cs ih =>
    rw [List.flatMap_cons]
    exact .cons (spells_escape c) ih

/-- No code unit of a pair is a character. -/
theorem toNat_not_surrogate (c : Char) : c.toNat < 0xD800 ∨ 0xDFFF < c.toNat := by
  have hvalid := c.valid
  unfold UInt32.isValidChar Nat.isValidChar at hvalid
  show c.val.toNat < 0xD800 ∨ 0xDFFF < c.val.toNat
  omega

/-- A hexadecimal digit takes one byte, so that four of them are four bytes. -/
theorem utf8Size_of_hexValue? {c : Char} {v : Nat} (h : Text.hexValue? c = some v) :
    c.utf8Size = 1 := by
  have hle : c ≤ 'f' := by
    unfold Text.hexValue? at h
    split at h
    · next hrange => exact Char.le_trans hrange.2 (by decide)
    split at h
    · next hrange => exact hrange.2
    split at h
    · next hrange => exact Char.le_trans hrange.2 (by decide)
    · contradiction
  have hbyte : c.val ≤ 0x7F := UInt32.le_trans hle (by decide)
  exact if_pos hbyte

/-! ## Reading them -/

namespace Machine

variable {σ : Type} {k : Sink σ} {nesting : List Bracket} {s t : σ} {rest : List Char}
  {asKey : Bool} {seen : List Char}

/-- What the machine does behind the last of four hexadecimal digits. -/
theorem run_codeUnit {skipped : Option Nat} {digits : List Char} {n : Nat} {high : Option Nat}
    {m : Machine σ} (h : CodeUnit digits n)
    (hdone : ∀ mode, unicodeDone ⟨nesting, skipped, mode, s⟩ asKey seen digits.reverse high = .ok m) :
    run k ⟨nesting, skipped, .quoted asKey seen (.unicode [] high), s⟩ (digits ++ rest) =
      run k m rest := by
  obtain ⟨ha, hb, hc, hd⟩ := h
  have hdone (mode : Mode) :
      unicodeDone ⟨nesting, skipped, mode, s⟩ asKey seen [_, _, _, _] high = .ok m := hdone mode
  refine run_append ?_
  simp [step, stepQuoted, utf8Size_of_hexValue? ha, utf8Size_of_hexValue? hb,
    utf8Size_of_hexValue? hc, utf8Size_of_hexValue? hd, hdone, bind, Except.bind, pure, Except.pure]

/-- The digits of a code unit are read as its number. -/
theorem unicodeDone_of_codeUnit {mode : Mode} {digits : List Char} {n : Nat} {high : Option Nat}
    (h : CodeUnit digits n) :
    unicodeDone ⟨nesting, none, mode, s⟩ asKey seen digits.reverse high =
      match high with
      | none =>
        if 0xD800 ≤ n && n ≤ 0xDBFF then
          .ok ⟨nesting, none, .quoted asKey seen (.afterHigh n), s⟩
        else if 0xDC00 ≤ n && n ≤ 0xDFFF then .error .malformed
        else .ok ⟨nesting, none, .quoted asKey (Char.ofNat n :: seen) .plain, s⟩
      | some high =>
        if 0xDC00 ≤ n && n ≤ 0xDFFF then
          let c := Char.ofNat ((high - 0xD800) * 0x400 + (n - 0xDC00) + 0x10000)
          .ok ⟨nesting, none, .quoted asKey (c :: seen) .plain, s⟩
        else .error .malformed := by
  obtain ⟨ha, hb, hc, hd⟩ := h
  cases high <;> simp [unicodeDone, ha, hb, hc, hd]

/-- Nobody reads a skipped text, so that its code units need not be characters. -/
theorem unicodeDone_unheard {n unit : Nat} {mode : Mode} {digits : List Char} {high : Option Nat}
    (h : CodeUnit digits unit) :
    unicodeDone ⟨nesting, some n, mode, s⟩ asKey seen digits.reverse high =
      .ok ⟨nesting, some n, .quoted asKey seen .plain, s⟩ := by
  obtain ⟨ha, hb, hc, hd⟩ := h
  simp [unicodeDone, ha, hb, hc, hd]

variable {skipped : Option Nat}

/-- A spelling is read as its character. In a skipped text some characters are forgotten. -/
theorem run_spelling {c : Char} {piece : List Char} (h : Spells c piece) :
    ∃ seen', (skipped = none → seen' = c :: seen) ∧
      run k ⟨nesting, skipped, .quoted asKey seen .plain, s⟩ (piece ++ rest) =
        run k ⟨nesting, skipped, .quoted asKey seen' .plain, s⟩ rest := by
  have hslash : step k ⟨nesting, skipped, .quoted asKey seen .plain, s⟩ '\\' =
      .ok ⟨nesting, skipped, .quoted asKey seen .escape, s⟩ := by
    simp [step, stepQuoted]
  have hu : step k ⟨nesting, skipped, .quoted asKey seen .escape, s⟩ 'u' =
      .ok ⟨nesting, skipped, .quoted asKey seen (.unicode [] none), s⟩ := by
    simp [step, stepQuoted]
  -- The cases are the kinds of spellings. In each of them the machine comes back to plain text.
  cases h with
  | itself hquote hslash hlow =>
    refine ⟨c :: seen, fun _ => rfl, run_cons ?_⟩
    simp [step, stepQuoted, hquote, hslash, hlow]
  | short mark hmark =>
    have hne : mark ≠ 'u' := by
      rintro rfl
      contradiction
    refine ⟨c :: seen, fun _ => rfl, (run_cons hslash).trans (run_cons ?_)⟩
    simp [step, stepQuoted, hne, hmark]
  | unit hunit =>
    rw [List.cons_append, List.cons_append, run_cons hslash, run_cons hu]
    cases skipped with
    | some n =>
      exact ⟨seen, fun h => absurd h (Option.some_ne_none n),
        run_codeUnit hunit fun _ => unicodeDone_unheard hunit⟩
    | none =>
      refine ⟨c :: seen, fun _ => rfl, run_codeUnit hunit fun mode => ?_⟩
      have hsurrogate := toNat_not_surrogate c
      rw [unicodeDone_of_codeUnit hunit]
      simp [show ¬ (0xD800 ≤ c.toNat ∧ c.toNat ≤ 0xDBFF) by omega,
        show ¬ (0xDC00 ≤ c.toNat ∧ c.toNat ≤ 0xDFFF) by omega]
  | @pair high low u v hhigh hlow hu' hv hc =>
    rw [List.cons_append, List.cons_append, List.append_assoc, run_cons hslash, run_cons hu]
    cases skipped with
    | some n =>
      -- What follows the first code unit is read like the first one.
      rw [run_codeUnit hhigh fun _ => unicodeDone_unheard hhigh, List.cons_append,
        List.cons_append, run_cons hslash, run_cons hu]
      exact ⟨seen, fun h => absurd h (Option.some_ne_none n),
        run_codeUnit hlow fun _ => unicodeDone_unheard hlow⟩
    | none =>
      have hafter : step k ⟨nesting, none, .quoted asKey seen (.afterHigh u), s⟩ '\\' =
          .ok ⟨nesting, none, .quoted asKey seen (.afterHighEscape u), s⟩ := by
        simp [step, stepQuoted]
      have hagain : step k ⟨nesting, none, .quoted asKey seen (.afterHighEscape u), s⟩ 'u' =
          .ok ⟨nesting, none, .quoted asKey seen (.unicode [] (some u)), s⟩ := by
        simp [step, stepQuoted]
      refine ⟨c :: seen, fun _ => rfl, ?_⟩
      rw [run_codeUnit (m := ⟨nesting, none, .quoted asKey seen (.afterHigh u), s⟩) hhigh,
        List.cons_append, List.cons_append, run_cons hafter, run_cons hagain]
      · refine run_codeUnit hlow fun mode => ?_
        rw [unicodeDone_of_codeUnit hlow]
        simp [hv, ← hc]
      · intro mode
        rw [unicodeDone_of_codeUnit hhigh]
        simp [hu']

/-- A spelling of a text is read as this text, which is gathered in reverse. -/
theorem run_spellings {cs spelled : List Char} (h : SpellsAll cs spelled) :
    ∃ seen', (skipped = none → seen' = cs.reverse ++ seen) ∧
      run k ⟨nesting, skipped, .quoted asKey seen .plain, s⟩ (spelled ++ rest) =
        run k ⟨nesting, skipped, .quoted asKey seen' .plain, s⟩ rest := by
  induction h generalizing seen with
  | nil => exact ⟨seen, fun _ => rfl, rfl⟩
  | @cons c cs piece spelled first later ih =>
    -- Induction on the spelling, with anything seen before it.
    obtain ⟨seen₁, hfirst, hrun⟩ := run_spelling first
    obtain ⟨seen₂, hlater, hrun'⟩ := ih
    refine ⟨seen₂, fun hheard => ?_, by rw [List.append_assoc, hrun, hrun']⟩
    rw [hlater hheard, hfirst hheard, List.reverse_cons, List.append_assoc]
    rfl

/-- A sink that is told a text hears of what has been read of it, unless it is skipped. -/
theorem told_seen {x : String} {tells : String → Event} (h : k.Told skipped s (tells x) t)
    (hseen : skipped = none → seen = x.toList.reverse ++ []) :
    k.Told skipped s (tells (String.ofList seen.reverse)) t := by
  cases skipped with
  | none => simpa [hseen rfl] using h
  | some n =>
    cases h
    exact .unheard n s _

/-- A text between quotes is read as the string that it spells. -/
theorem run_spelled {x : String} {spelled : List Char} (h : SpellsAll x.toList spelled)
    (htakes : k.Takes skipped s [.string x] t) :
    run k ⟨nesting, skipped, .between .value, s⟩ ('"' :: (spelled ++ '"' :: rest)) =
      run k (completed ⟨nesting, skipped, .between .value, t⟩) rest := by
  have hopen : step k ⟨nesting, skipped, .between .value, s⟩ '"' =
      .ok ⟨nesting, skipped, .quoted false [] .plain, s⟩ := by
    simp [step, stepBetween, startValue, htakes.skips, Text.isJsonBlank]
  obtain ⟨seen, hseen, hrun⟩ := run_spellings h
  -- The quote at the end is told as a scalar, with what has been gathered.
  have hclose : step k ⟨nesting, skipped, .quoted false seen .plain, s⟩ '"' =
      .ok (completed ⟨nesting, skipped, .quoted false seen .plain, t⟩) :=
    scalar_of_told (told_seen htakes.told hseen)
  rw [run_cons hopen, hrun, run_cons hclose]
  rfl

/-- A name between quotes is read as such where a name is expected, with its colon. -/
theorem run_key {name : String} {spelled blanks : List Char} {e : Expecting}
    (h : SpellsAll name.toList spelled) (hblanks : ∀ c ∈ blanks, Text.isJsonBlank c)
    (he : e = .firstKey ∨ e = .key) (htold : k.Told skipped s (.key name) t) :
    run k ⟨nesting, skipped, .between e, s⟩ ('"' :: (spelled ++ '"' :: (blanks ++ ':' :: rest))) =
      run k ⟨nesting, skipped, .between .value, t⟩ rest := by
  have hopen : step k ⟨nesting, skipped, .between e, s⟩ '"' =
      .ok ⟨nesting, skipped, .quoted true [] .plain, s⟩ := by
    rcases he with rfl | rfl <;> simp [step, stepBetween, startKey, Text.isJsonBlank]
  obtain ⟨seen, hseen, hrun⟩ := run_spellings h
  have hclose : step k ⟨nesting, skipped, .quoted true seen .plain, s⟩ '"' =
      .ok ⟨nesting, skipped, .between .colon, t⟩ := by
    simp [step, stepQuoted, quotedDone, tell_of_told (told_seen htold hseen), Except.map]
  have hcolon : step k ⟨nesting, skipped, .between .colon, t⟩ ':' =
      .ok ⟨nesting, skipped, .between .value, t⟩ := by
    simp [step, stepBetween, Text.isJsonBlank]
  rw [run_cons hopen, hrun, run_cons hclose, run_blanks hblanks, run_cons hcolon]

end Machine

/-! ## Texts of a string -/

/-- The texts of a string between two marks, which are double quotes in JSON, with blanks around
them. -/
inductive StringText (mark : Char) (x : String) : List Char → Prop
  | between (before spelled after : List Char) (hbefore : ∀ c ∈ before, Text.isJsonBlank c)
      (hspelled : SpellsAll x.toList spelled) (hafter : ∀ c ∈ after, Text.isJsonBlank c) :
      StringText mark x (before ++ mark :: (spelled ++ mark :: after))

theorem stringText_quoted (x : String) : StringText '"' x (quoted x) :=
  .between [] _ [] nofun (spellsAll_escape x.toList) nofun

/-- Every text of a string is read as this string. -/
theorem read_stringText {σ : Type} {k : Sink σ} {s t : σ} {x : String} {text : List Char}
    (h : StringText '"' x text) (htakes : k.Takes none s [.string x] t) : read k s text = .ok t := by
  obtain ⟨before, spelled, after, hbefore, hspelled, hafter⟩ := h
  show Machine.run k _ _ = _
  rw [Machine.start, Machine.run_blanks hbefore, Machine.run_spelled hspelled htakes,
    Machine.completed_heard, ← List.append_nil after, Machine.run_blanks hafter]
  rfl

theorem parse?_stringText {x : String} {text : List Char} (h : StringText '"' x text) :
    parse? text = some (.string x) :=
  parse?_eq_some_iff.mpr (read_stringText h (Sink.takes_one rfl rfl rfl))

end TableMarkup.Json
