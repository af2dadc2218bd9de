import TableMarkup.Proofs.Json.Spellings
import TableMarkup.Proofs.Resolution.Interview

/-!
# Quotes around a text

A text in quotes is a JSON string, and a JSON string stands for what its content stands for. So quotes
around a text change nothing, neither the value that it resolves to nor what the host is asked on the
way, however its characters are spelled and whatever the text is: a truth value, a number, JSON, a call
or the source of a function. Single quotes are read as double ones first, which is why there may be
none inside.

* `Json.StringText.not_mem_apostrophe`: quoting a text brings no single quotes into it.
* `Literal.json?_stringText`: a text in quotes of either kind is a JSON string.
* `Literal.Layers`: texts with any number of quotes around them.
* `Host.resolve_quoted`: they all resolve alike.
-/

namespace TableMarkup

/-! ## Single quotes -/

namespace Json

theorem CodeUnit.not_mem_apostrophe {digits : List Char} {n : Nat} (h : CodeUnit digits n) :
    '\'' ∉ digits := by
  -- A hexadecimal digit is no quote.
  have hne {c : Char} {v : Nat} (hc : Text.hexValue? c = some v) : '\'' ≠ c := by
    rintro rfl
    contradiction
  obtain ⟨ha, hb, hc, hd⟩ := h
  simp [hne ha, hne hb, hne hc, hne hd]

theorem Spells.not_mem_apostrophe {c : Char} {piece : List Char} (h : Spells c piece)
    (hc : c ≠ '\'') : '\'' ∉ piece := by
  -- Four ways to write a character; only the plain one shows the character itself.
  cases h with
  | itself => simpa using hc.symm
  | short mark hmark =>
    have hne : '\'' ≠ mark := by
      rintro rfl
      contradiction
    simpa using hne
  | unit hunit => simpa using hunit.not_mem_apostrophe
  | pair hhigh hlow => simp [hhigh.not_mem_apostrophe, hlow.not_mem_apostrophe]

theorem SpellsAll.not_mem_apostrophe {cs spelled : List Char} (h : SpellsAll cs spelled)
    (hcs : '\'' ∉ cs) : '\'' ∉ spelled := by
  induction h with
  | nil => exact hcs
  | cons first later ih =>
    rw [List.mem_cons, not_or] at hcs
    rw [List.mem_append, not_or]
    exact ⟨first.not_mem_apostrophe (Ne.symm hcs.1), ih hcs.2⟩

theorem not_mem_apostrophe_of_blank {blanks : List Char}
    (h : ∀ c ∈ blanks, Text.isJsonBlank c) : '\'' ∉ blanks :=
  fun hmem => absurd (h '\'' hmem) (by decide)

/-- The text of a string in double quotes holds a single quote only if the string does. -/
theorem StringText.not_mem_apostrophe {x : String} {text : List Char} (h : StringText '"' x text)
    (hx : '\'' ∉ x.toList) : '\'' ∉ text := by
  obtain ⟨before, spelled, after, hbefore, hspelled, hafter⟩ := h
  simp [not_mem_apostrophe_of_blank hbefore, hspelled.not_mem_apostrophe hx,
    not_mem_apostrophe_of_blank hafter]

end Json

namespace Literal

/-- A text in quotes of either kind is a JSON string, if there is no single quote inside. -/
theorem json?_stringText {mark : Char} (hmark : mark = '"' ∨ mark = '\'') {x : String}
    {text : List Char} (h : Json.StringText mark x text) (hx : '\'' ∉ x.toList) :
    json? text = some (.string x) := by
  obtain ⟨before, spelled, after, hbefore, hspelled, hafter⟩ := h
  have hinside := withDoubleQuotes_of_not_mem (hspelled.not_mem_apostrophe hx)
  have hfront := withDoubleQuotes_of_not_mem (Json.not_mem_apostrophe_of_blank hbefore)
  have hback := withDoubleQuotes_of_not_mem (Json.not_mem_apostrophe_of_blank hafter)
  -- Single quotes around the text become double ones, and there are none inside.
  have hdouble : withDoubleQuotes (before ++ mark :: (spelled ++ mark :: after)) =
      before ++ '"' :: (spelled ++ '"' :: after) := by
    unfold withDoubleQuotes at hinside hfront hback ⊢
    rw [List.map_append, List.map_cons, List.map_append, List.map_cons, hinside, hfront, hback]
    rcases hmark with rfl | rfl <;> rfl
  -- Now it is a string between double quotes, as JSON reads it.
  rw [json?, hdouble]
  exact Json.parse?_stringText (.between before spelled after hbefore hspelled hafter)

/-! ## Layers -/

/-- A text with so many layers of double quotes around it, and blanks around each of them. -/
inductive Layers : Nat → String → String → Prop
  | bare (text : String) : Layers 0 text text
  | quoted {n : Nat} {text inner outer : String} (inside : Layers n text inner)
      (around : Json.StringText '"' inner outer.toList) : Layers (n + 1) text outer

theorem Layers.not_mem_apostrophe {n : Nat} {text outer : String} (h : Layers n text outer)
    (htext : '\'' ∉ text.toList) : '\'' ∉ outer.toList := by
  induction h with
  | bare text => exact htext
  | quoted inside around ih => exact around.not_mem_apostrophe (ih htext)

end Literal

namespace Host

variable {m : Type → Type} [Monad m] {text outer : String}

theorem resolve_stringText (host : Host m) {mark : Char} (hmark : mark = '"' ∨ mark = '\'')
    (htext : '\'' ∉ text.toList) (h : Json.StringText mark text outer.toList) :
    host.resolve (.string outer) = host.resolve (.string text) :=
  host.resolveText_of_string (Literal.json?_stringText hmark h htext)

theorem resolve_layers (host : Host m) {n : Nat} (htext : '\'' ∉ text.toList)
    (h : Literal.Layers n text outer) :
    host.resolve (.string outer) = host.resolve (.string text) := by
  -- On the layers, from the outermost inwards.
  induction h with
  | bare text => rfl
  | quoted inside around ih =>
    -- What is inside the outermost quotes holds no single quote either.
    have hinner := inside.not_mem_apostrophe htext
    rw [host.resolve_stringText (.inl rfl) hinner around, ih htext]

/-- Quotes around a text change nothing. A text without single quotes that is put between quotes of
either kind, as JSON writes it or in any other spelling and with any blanks around it, resolves to what
the text itself resolves to, and the host is asked the same in the same order; and so it is with any
number of layers of double quotes. -/
theorem resolve_quoted (host : Host m) (htext : '\'' ∉ text.toList) :
    (∀ mark, mark = '"' ∨ mark = '\'' →
      (∀ before after : List Char, (∀ c ∈ before, Text.isJsonBlank c) →
        (∀ c ∈ after, Text.isJsonBlank c) →
        Json.StringText mark text
          (before ++ mark :: (text.toList.flatMap Json.escape ++ mark :: after))) ∧
      ∀ outer : String, Json.StringText mark text outer.toList →
        host.resolve (.string outer) = host.resolve (.string text) ∧
        host.traced.resolve (.string outer) = host.traced.resolve (.string text)) ∧
    ∀ n outer, Literal.Layers n text outer →
      host.resolve (.string outer) = host.resolve (.string text) ∧
      host.traced.resolve (.string outer) = host.traced.resolve (.string text) := by
  refine ⟨fun mark hmark => ⟨fun before after hbefore hafter => ?_, fun outer h => ?_⟩,
    fun n outer h => ?_⟩
  · exact .between before _ after hbefore (Json.spellsAll_escape text.toList) hafter
  -- The traced host is a host like any other, so the requests agree as well.
  · exact ⟨host.resolve_stringText hmark htext h, host.traced.resolve_stringText hmark htext h⟩
  · exact ⟨host.resolve_layers htext h, host.traced.resolve_layers htext h⟩

/-- A call between single quotes with blanks around them, and in two layers of double quotes with one
of its letters spelled by its code unit: both times the host evaluates the call, looks its name up and
then runs it. -/
theorem resolve_quoted_call :
    let globals : Members Value := [("add", .function ⟨0, "add"⟩ [])]
    let host : Host (StateM Nat) := .ofGlobals globals
      (fun _ _ args => do modify (· + 1); pure (.json (.array args)))
      (some fun _ => do modify (· + 10); pure none)
    let single := " 'add(\\\"x\\\")'\n"
    let double := "\"\\\"\\\\u0061dd(\\\\\\\"x\\\\\\\")\\\"\""
    let outcome := ((Value.json (.array [.string "x"]),
      [Request.evaluate "(add(\"x\"))", .lookUp "add",
        .call "add" (.object globals) [.string "x"]]), 11)
    '\'' ∉ "add(\"x\")".toList ∧
      ((host.traced.resolve (.string single)).run []).run 0 = outcome ∧
      ((host.traced.resolve (.string double)).run []).run 0 = outcome := by
  intro globals host single double outcome
  have htext : '\'' ∉ "add(\"x\")".toList := by decide
  have hplain : ((host.traced.resolve (.string "add(\"x\")")).run []).run 0 = outcome := by
    have hinside : Literal.innermost "add(\"x\")" = "add(\"x\")" :=
      Literal.innermost_of_no_json (by rfl)
    have hsettled : Literal.settled? "add(\"x\")" = none := by rfl
    have hsegments : PathStep.segments "add(\"x\")".toList = [] ++ ["add(\"x\")".toList] :=
      PathStep.segments_of_not_mem (by decide)
    have herrand : host.errand .global "add(\"x\")" =
        pure (.call ⟨0, "add"⟩ (.object globals) [.string "x"]) := by
      rw [host.errand_of_segments .global hsegments]
      rfl
    rw [resolve, resolveIn, run_resolveText_traced, hinside, interview, hsettled, herrand,
      PathStep.globalName?_single hsegments]
    rfl
  obtain ⟨hquoted, hlayers⟩ := resolve_quoted host htext
  refine ⟨htext, ?_, ?_⟩
  · obtain ⟨hstring, hresolve⟩ := hquoted '\'' (.inr rfl)
    have hblank : Text.isJsonBlank ' ' ∧ Text.isJsonBlank '\n' := by decide
    have hsingle := hstring [' '] ['\n'] (by simpa using hblank.1) (by simpa using hblank.2)
    rw [show [' '] ++ '\'' :: ("add(\"x\")".toList.flatMap Json.escape ++ ['\'', '\n']) =
      single.toList by decide] at hsingle
    rw [(hresolve single hsingle).2, hplain]
  · have hunit : Json.CodeUnit ['0', '0', '6', '1'] 'a'.toNat :=
      .digits (u := 0) (v := 0) (w := 6) (x := 1) (by decide) (by decide) (by decide) (by decide)
    have hnothing : ∀ c ∈ [], Text.isJsonBlank c := List.forall_mem_nil _
    have hspelled := Json.SpellsAll.cons (.unit hunit) (Json.spellsAll_escape "dd(\"x\")".toList)
    rw [show 'a' :: "dd(\"x\")".toList = "add(\"x\")".toList by decide] at hspelled
    have hinner : Json.StringText '"' "add(\"x\")" "\"\\u0061dd(\\\"x\\\")\"".toList :=
      .between [] _ [] hnothing hspelled hnothing
    have houter := Json.stringText_quoted "\"\\u0061dd(\\\"x\\\")\""
    rw [show Json.quoted "\"\\u0061dd(\\\"x\\\")\"" = double.toList by decide] at houter
    rw [(hlayers 2 double (.quoted (.quoted (.bare _) hinner) houter)).2, hplain]

end Host

end TableMarkup
