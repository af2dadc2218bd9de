import TableMarkup.Resolution.Resolve

/-!
# Resolution by a list of forms

Resolution tries the forms of literals in their order. Here the order is a parameter, so that a form
can be left out or moved, and the resolution of the program is the one with the program's own order.

* `Host.tryForms`, `Host.resolveBy`: resolution with an order of forms.
* `Host.resolveText_eq_resolveBy`: the order of the program.
* `Literal.innermost`: what is left of a text when all JSON strings around it are unwrapped;
  `innermost_induction` is induction on the unwrapping.
-/

namespace TableMarkup

variable {m : Type → Type} [Monad m]

/-! ## Resolution with an order of forms -/

namespace Host

/-- Tries forms on a text, and the path at last. The content of a JSON string is tried with the whole
order from the start. -/
def tryForms (host : Host m) (order : List Literal) : List Literal → String → m Value
  | [], text => host.resolvePath .global text
  | .json :: forms, text =>
    match _h : Literal.json? text.toList with
    | some (.string s) => host.tryForms order order s
    | some j => pure (.ofJson j)
    | none => host.tryForms order forms text
  | form :: forms, text => do
    match ← form.attempt host text with
    | some v => pure v
    | none => host.tryForms order forms text
termination_by forms text => (text.length, forms.length)
decreasing_by
  · have := Literal.length_of_json?_string _h
    exact Prod.Lex.left _ _ (by omega)
  · exact Prod.Lex.right _ (by simp)
  · exact Prod.Lex.right _ (by simp)

/-- What a text stands for in the global scope, with an order of forms. -/
def resolveBy (host : Host m) (order : List Literal) (text : String) : m Value :=
  host.tryForms order order text

variable (host : Host m) (order forms : List Literal) (text : String)

/-- The form of JSON gives its value, but goes back to the top with the content of a string. -/
theorem tryForms_json : host.tryForms order (.json :: forms) text =
    match Literal.json? text.toList with
    | some (.string s) => host.resolveBy order s
    | some j => pure (.ofJson j)
    | none => host.tryForms order forms text := by
  rw [tryForms]
  split <;> simp_all [resolveBy]

theorem tryForms_function : host.tryForms order (.function :: forms) text = (do
    match ← Literal.function? host text with
    | some f => pure f
    | none => host.tryForms order forms text) := by
  rw [tryForms]
  · rfl
  · simp

variable [LawfulMonad m]

/-- The form of truth values gives its value, or leaves the text to the other forms. -/
theorem tryForms_boolean : host.tryForms order (.boolean :: forms) text =
    match Literal.boolean? text with
    | some b => pure (.bool b)
    | none => host.tryForms order forms text := by
  rw [tryForms, Literal.attempt, pure_bind]
  · cases Literal.boolean? text <;> rfl
  · simp

theorem tryForms_integer : host.tryForms order (.integer :: forms) text =
    match Literal.integer? text.toList with
    | some n => pure (.number n)
    | none => host.tryForms order forms text := by
  rw [tryForms, Literal.attempt, pure_bind]
  · cases Literal.integer? text.toList <;> rfl
  · simp

end Host

/-! ## Unwrapping -/

/-- The text inside all JSON strings. -/
def Literal.innermost (text : String) : String :=
  match _h : Literal.json? text.toList with
  | some (.string s) => innermost s
  | _ => text
termination_by text.length
decreasing_by have := Literal.length_of_json?_string _h; omega

/-- What is inside a JSON string is what is inside its content. -/
theorem Literal.innermost_of_string {text s : String}
    (h : Literal.json? text.toList = some (.string s)) : innermost text = innermost s := by
  rw [innermost]
  split
  · next s' h' =>
    rw [h] at h'
    cases h'
    rfl
  · next hnone => exact absurd h (hnone s)

theorem Literal.innermost_of_not_string {text : String}
    (h : ∀ s, Literal.json? text.toList ≠ some (.string s)) : innermost text = text := by
  rw [innermost]
  split
  · next s h' => exact absurd h' (h s)
  · rfl

/-- There is nothing inside a text that is no JSON at all. -/
theorem Literal.innermost_of_no_json {text : String} (h : Literal.json? text.toList = none) :
    innermost text = text := by
  apply innermost_of_not_string
  intro s hs
  rw [h] at hs
  contradiction

/-- What holds of every text that is no JSON string, and of every JSON string of whose content it
holds, holds of all texts. -/
theorem Literal.innermost_induction {P : String → Prop}
    (inner : ∀ text, (∀ s, Literal.json? text.toList ≠ some (.string s)) → P text)
    (wrapped : ∀ text s, Literal.json? text.toList = some (.string s) → P s → P text)
    (text : String) : P text := by
  -- The content of a JSON string is shorter than the text, which is what the recursion goes by.
  by_cases h : ∃ s, Literal.json? text.toList = some (.string s)
  · obtain ⟨s, hs⟩ := h
    have hlength := Literal.length_of_json?_string hs
    exact wrapped text s hs (innermost_induction inner wrapped s)
  · exact inner text (not_exists.mp h)
termination_by text.length
decreasing_by omega

/-! ## The order of the program -/

namespace Host

variable (host : Host m)

/-- One round of the program's resolution. -/
theorem resolveText_eq (text : String) : host.resolveText text =
    match Literal.boolean? text with
    | some b => pure (.bool b)
    | none =>
      match Literal.integer? text.toList with
      | some n => pure (.number n)
      | none =>
        match Literal.json? text.toList with
        | some (.string s) => host.resolveText s
        | some j => pure (.ofJson j)
        | none => (do
          match ← Literal.function? host text with
          | some f => pure f
          | none => host.resolvePath .global text) := by
  rw [resolveText]
  cases Literal.boolean? text with
  | some b => rfl
  | none =>
    cases Literal.integer? text.toList with
    | some n => rfl
    | none =>
      dsimp only
      split
      · next s hs => rw [hs]
      · next j hj hsome => simp_all
      · next hnone =>
        rewrite [hnone]
        rfl

variable [LawfulMonad m]

/-- The program resolves with the order of the forms. -/
theorem resolveText_eq_resolveBy (text : String) :
    host.resolveText text = host.resolveBy Literal.order text := by
  have horder (text : String) : host.resolveBy Literal.order text =
      host.tryForms Literal.order [.boolean, .integer, .json, .function] text := rfl
  -- On the unwrapping: only the content of a JSON string is resolved from the top again.
  induction text using Literal.innermost_induction with
  | inner text h =>
    rw [resolveText_eq, horder, tryForms_boolean, tryForms_integer, tryForms_json,
      tryForms_function, tryForms]
    cases hj : Literal.json? text.toList with
    | none => rfl
    | some j =>
      cases j with
      | string s => exact absurd hj (h s)
      | _ => rfl
  | wrapped text s h ih =>
    rw [resolveText_eq, horder, tryForms_boolean, tryForms_integer, tryForms_json, h]
    dsimp only
    rw [ih]

end Host

end TableMarkup
