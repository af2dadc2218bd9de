import Mathlib.Data.List.TakeWhile
import TableMarkup.Text.Blank

/-!
# Texts without their blanks

What is left of a text when the blanks at both ends are gone is told by where the blanks are, without
the function that takes them away.

* `Text.Trimmed`: a text is a middle with blanks around it, and the middle has none at its ends.
* `Text.trim_of_trimmed`, `Text.trimmed_trim`: the middle is what `trim` leaves, and nothing else is.
-/

namespace TableMarkup.Text

/-- The text is this middle with blanks around it, and the middle neither begins nor ends with one. -/
structure Trimmed (cs middle : List Char) : Prop where
  around : ∃ before after, cs = before ++ (middle ++ after) ∧ (∀ c ∈ before, isBlank c) ∧
    ∀ c ∈ after, isBlank c
  first : ∀ c ∈ middle.head?, ¬ isBlank c
  last : ∀ c ∈ middle.getLast?, ¬ isBlank c

theorem dropWhile_of_head? {p : Char → Bool} {cs : List Char} (h : ∀ c ∈ cs.head?, ¬ p c) :
    cs.dropWhile p = cs := by
  cases cs with
  | nil => rfl
  | cons c cs => exact List.dropWhile_cons_of_neg (h c rfl)

/-- What is left begins with a character that may stay, if anything is left. -/
theorem head?_dropWhile {p : Char → Bool} (cs : List Char) :
    ∀ c ∈ (cs.dropWhile p).head?, ¬ p c := by
  intro c hc
  have hnot := List.head?_dropWhile_not p cs
  rw [Option.mem_def.mp hc] at hnot
  simp [hnot]

/-- From a text that is blanks and then a middle, the blanks are dropped. -/
theorem dropWhile_append_of_blank {before rest : List Char} (hbefore : ∀ c ∈ before, isBlank c)
    (hrest : ∀ c ∈ rest.head?, ¬ isBlank c) : (before ++ rest).dropWhile isBlank = rest := by
  rw [List.dropWhile_append_of_pos hbefore, dropWhile_of_head? hrest]

/-- The middle of a text is what `trim` leaves of it. -/
theorem trim_of_trimmed {cs middle : List Char} (h : Trimmed cs middle) : trim cs = middle := by
  obtain ⟨⟨before, after, rfl, hbefore, hafter⟩, hfirst, hlast⟩ := h
  have hbehind : ∀ c ∈ after.reverse, isBlank c := fun c hc => hafter c (List.mem_reverse.mp hc)
  rw [trim]
  cases middle with
  | nil =>
    -- Blanks alone are dropped as far as they go.
    rw [List.nil_append, List.dropWhile_append_of_pos hbefore, List.dropWhile_eq_nil_iff.mpr hafter]
    rfl
  | cons c middle =>
    -- The middle is not empty, so its first and last characters stop the dropping from either end.
    have hfront : ∀ x ∈ (c :: middle ++ after).head?, ¬ isBlank x := hfirst
    have hback : ∀ x ∈ (c :: middle).reverse.head?, ¬ isBlank x := by
      rw [List.head?_reverse]
      exact hlast
    rw [dropWhile_append_of_blank hbefore hfront, List.reverse_append,
      dropWhile_append_of_blank hbehind hback, List.reverse_reverse]

/-- What `trim` leaves is the middle of the text, with blanks on both sides. -/
theorem trimmed_trim (cs : List Char) : Trimmed cs (trim cs) := by
  refine ⟨⟨cs.takeWhile isBlank, ((cs.dropWhile isBlank).reverse.takeWhile isBlank).reverse, ?_,
    fun c hc => List.mem_takeWhile_imp hc, fun c hc => ?_⟩, fun c hc => ?_, fun c hc => ?_⟩
  · rw [trim, ← List.reverse_append, List.takeWhile_append_dropWhile, List.reverse_reverse,
      List.takeWhile_append_dropWhile]
  · exact List.mem_takeWhile_imp (List.mem_reverse.mp hc)
  · -- What is left begins as it did before blanks were taken from its end.
    have hrest : trim cs ++ ((cs.dropWhile isBlank).reverse.takeWhile isBlank).reverse =
        cs.dropWhile isBlank := by
      rw [trim, ← List.reverse_append, List.takeWhile_append_dropWhile, List.reverse_reverse]
    refine head?_dropWhile cs c ?_
    rw [← hrest, List.head?_append, Option.mem_def.mp hc]
    rfl
  · rw [trim, List.getLast?_reverse] at hc
    exact head?_dropWhile _ c hc

theorem trim_of_no_blank {cs : List Char} (h : ∀ c ∈ cs, ¬ isBlank c) : trim cs = cs :=
  trim_of_trimmed ⟨⟨[], [], (List.append_nil cs).symm, List.forall_mem_nil _,
    List.forall_mem_nil _⟩,
    fun c hc => h c (List.mem_of_mem_head? hc), fun c hc => h c (List.mem_of_mem_getLast? hc)⟩

end TableMarkup.Text
