import TableMarkup.Proofs.Json.RoundTrip
import TableMarkup.Proofs.Resolution.Interview

/-!
# JSON in attributes

The text of a JSON value resolves to this value, as it is written and with single quotes for the
double ones, whatever the host is like. For this the forms of literals must not get into each other's
way: where a form that is tried before JSON reads the text, it reads the same value.

* `Literal.withSingleQuotes`: the text of a value as it is put into an attribute that is itself
  in double quotes.
* `Literal.json?_written`: JSON reads back both texts of a value.
* `Literal.settled?_of_json?`: what the form of integers reads is what JSON reads.
* `Host.resolve_written`: resolution comes to the value without asking the host.
-/

namespace TableMarkup

namespace Literal

/-! ## Quotes of either kind -/

/-- The text with single quotes for double ones. -/
def withSingleQuotes (text : List Char) : List Char :=
  text.map fun c => if c = '"' then '\'' else c

/-- Single quotes put in for double ones come back as double ones, if there were none before. -/
theorem withDoubleQuotes_withSingleQuotes {text : List Char} (h : '\'' ∉ text) :
    withDoubleQuotes (withSingleQuotes text) = text := by
  rw [withDoubleQuotes, withSingleQuotes, List.map_map]
  refine (List.map_congr_left fun c hc => ?_).trans (List.map_id text)
  have hne : c ≠ '\'' := fun heq => h (heq ▸ hc)
  by_cases hquote : c = '"' <;> simp [hquote, hne]

theorem mem_withSingleQuotes {text : List Char} {c : Char} (hc : c ∈ text) (hquote : c ≠ '"') :
    c ∈ withSingleQuotes text :=
  List.mem_map.mpr ⟨c, hc, if_neg hquote⟩

/-- JSON reads the text of a value with quotes of either kind. -/
theorem json?_written {j : Json} (hfloats : j.FloatFree) (horder : j.InOrder)
    (hdepth : j.depth ≤ Json.nestingLimit) (hquote : '\'' ∉ j.compact) {text : List Char}
    (htext : text = j.compact ∨ text = withSingleQuotes j.compact) : json? text = some j := by
  -- With either kind of quotes the text is the same once they are double.
  have hdouble : withDoubleQuotes text = j.compact := by
    rcases htext with rfl | rfl
    · exact withDoubleQuotes_of_not_mem hquote
    · exact withDoubleQuotes_withSingleQuotes hquote
  rw [json?, hdouble]
  exact Json.parse?_compact hfloats horder hdepth

/-! ## Literals of other forms -/

/-- What JSON reads is the value of a literal, if the form of truth values does not read anything else.
The form of integers does not: minus zero, on which the two differ, is a float for JSON. -/
theorem settled?_of_json? {text : String} {j : Json} (hjson : json? text.toList = some j)
    (hfloat : j.IsNoFloat) (hboolean : ∀ b, boolean? text = some b → j = .bool b) :
    settled? text = some (.ofJson j) := by
  rw [settled?]
  -- A form that is tried earlier reads the same value, or does not read the text.
  cases hb : boolean? text with
  | some b =>
    rw [hboolean b hb]
    rfl
  | none =>
    cases hn : integer? text.toList with
    | none => rw [hjson]; rfl
    | some n =>
      -- The two forms would differ on minus zero only.
      have hzero : text ≠ "-0" := by
        rintro rfl
        obtain ⟨x, hx⟩ := json?_minusZero
        rw [hjson] at hx
        exact hfloat x (Option.some.inj hx)
      have hsame := (json?_of_integer? hn).mpr hzero
      rw [hjson, Option.map_some, Option.some.injEq] at hsame
      rw [hsame]

/-- The text of a value that is no string shows by one of its characters that it is no truth value,
unless it is one. -/
theorem exists_mem_compact {j : Json} (hfloats : j.FloatFree) (hbool : ∀ b, j ≠ .bool b)
    (hstring : ∀ s, j ≠ .string s) :
    ∃ c ∈ j.compact, c ≠ '"' ∧
      c.toLower ∉ ['t', 'r', 'u', 'e'] ++ ['f', 'a', 'l', 's', 'e'] := by
  -- One character for each kind of value: a letter of its word, its bracket, or a digit.
  cases j with
  | null => exact ⟨'n', by rw [Json.compact]; decide, by decide, by decide⟩
  | bool b => exact absurd rfl (hbool b)
  | string s => exact absurd rfl (hstring s)
  | array items =>
    refine ⟨'[', ?_, by decide, by decide⟩
    cases items <;> rw [Json.compact] <;> simp
  | object members =>
    refine ⟨'\x7b', ?_, by decide, by decide⟩
    rcases members with _ | ⟨⟨name, j⟩, ms⟩ <;> rw [Json.compact] <;> simp
  | number n =>
    cases n with
    | float x => exact absurd rfl (hfloats.self x)
    | integer w =>
      obtain ⟨negative, d, ds, ⟨⟨c, cs, htext, hd, -⟩, -⟩, -⟩ := isRun_integer w
      obtain ⟨hlt, rfl⟩ := Text.digit?_eq_some_iff.mp hd
      have hdigit : ∀ d < 10, Text.digitChar d ≠ '"' ∧
          (Text.digitChar d).toLower ∉ ['t', 'r', 'u', 'e'] ++ ['f', 'a', 'l', 's', 'e'] := by decide
      refine ⟨Text.digitChar d, ?_, hdigit d hlt⟩
      rw [Json.compact, Numeral.render, htext]
      cases negative <;> simp

/-- The text of a value that is no string is a literal with this value, with quotes of either kind. -/
theorem settled?_written {j : Json} (hfloats : j.FloatFree) (horder : j.InOrder)
    (hdepth : j.depth ≤ Json.nestingLimit) (hstring : ∀ s, j ≠ .string s)
    (hquote : '\'' ∉ j.compact) {text : String}
    (htext : text.toList = j.compact ∨ text.toList = withSingleQuotes j.compact) :
    settled? text = some (.ofJson j) := by
  have hjson := json?_written hfloats horder hdepth hquote htext
  refine settled?_of_json? hjson hfloats.self fun b hb => ?_
  -- The text of a truth value is read as this truth value; the others are none.
  by_cases hbool : ∃ b', j = .bool b'
  · obtain ⟨b', rfl⟩ := hbool
    have hword : text = if b' then "true" else "false" := by
      rw [← String.toList_inj]
      cases b' <;> rcases htext with htext | htext <;> rw [htext] <;> rfl
    have hread : boolean? text = some b' := by
      rw [hword]
      cases b' <;> decide
    rw [hread] at hb
    rw [Option.some.inj hb]
  · obtain ⟨c, hc, hdouble, hletter⟩ :=
      exists_mem_compact hfloats (fun b' heq => hbool ⟨b', heq⟩) hstring
    have hmem : c ∈ text.toList := by
      rcases htext with htext | htext
      · rwa [htext]
      · rw [htext]
        exact mem_withSingleQuotes hc hdouble
    exact absurd (toLower_mem_of_boolean? hb hmem) hletter

end Literal

/-! ## Resolution -/

/-- A value that is no string is what its text resolves to, written with quotes of either kind, if it
has no floats, nests no deeper than JSON is read, and has no single quotes in its text. It is settled as
a literal, before a name is looked up: so the value is the same for every host, and no host is asked
anything. -/
theorem Host.resolve_written {m : Type → Type} [Monad m] [LawfulMonad m] (host : Host m) {j : Json}
    (hfloats : j.FloatFree) (horder : j.InOrder) (hdepth : j.depth ≤ 127)
    (hstring : ∀ s, j ≠ .string s) (hquote : '\'' ∉ j.compact) {text : String}
    (htext : text = j.text ∨ text = String.ofList (Literal.withSingleQuotes j.compact)) :
    Literal.settled? text = some (.ofJson j) ∧
      host.resolve (.string text) = pure (.ofJson j) ∧
      ∀ log, (host.traced.resolve (.string text)).run log = pure (.ofJson j, log) := by
  have hlist : text.toList = j.compact ∨ text.toList = Literal.withSingleQuotes j.compact := by
    rcases htext with rfl | rfl
    · exact .inl String.toList_ofList
    · exact .inr String.toList_ofList
  have hsettled := Literal.settled?_written hfloats horder hdepth hstring hquote hlist
  -- A value that is no string is not unwrapped.
  have hinside : Literal.innermost text = text := by
    refine Literal.innermost_of_not_string fun s hs => ?_
    rw [Literal.json?_written hfloats horder hdepth hquote hlist] at hs
    exact hstring s (Option.some.inj hs)
  refine ⟨hsettled, ?_, fun log => ?_⟩
  · rw [resolve, resolveIn, resolveText_eq_innermost, hinside, hsettled]
  · rw [resolve, resolveIn, run_resolveText_traced, hinside, interview, hsettled, map_pure]
    simp [Asked.requests]

/-- An object with a quote in one of its strings, written in single quotes: the host counts what it is
asked to evaluate and to run, and is not asked. -/
theorem Host.resolve_written_singleQuoted :
    let j : Json := .object [("a", .array [.number (.integer ⟨7, by decide, by decide⟩),
      .string "x\"y"]), ("b", .null)]
    let host : Host (StateM Nat) := .ofGlobals []
      (fun _ _ _ => do modify (· + 1); pure .null)
      (some fun _ => do modify (· + 10); pure none)
    j.FloatFree ∧ j.InOrder ∧ j.depth ≤ 127 ∧ '\'' ∉ j.compact ∧
      ((host.traced.resolve (.string "\x7b'a':[7,'x\\'y'],'b':null\x7d")).run []).run 0 =
        ((.json j, []), 0) := by
  intro j host
  have hcompact : j.compact = "\x7b\"a\":[7,\"x\\\"y\"],\"b\":null\x7d".toList := by
    have hseven : Text.integer 7 = ['7'] := by
      rw [Text.integer, Text.digits]
      rfl
    simp only [j, Json.compact, Json.compactItems, Json.compactMembers, Numeral.render, hseven]
    rfl
  have hfloats : j.FloatFree := by
    simp [j, Json.FloatFree, Json.Everywhere, Json.EveryMember, Json.EveryItem, Json.IsNoFloat]
  have horder : j.InOrder := by
    have hsorted : ["a", "b"].Pairwise (· < ·) := by decide
    simp only [j, Json.InOrder, Json.Everywhere, Json.EveryMember, Json.EveryItem, Json.IsInOrder,
      Json.object.injEq, forall_eq', reduceCtorEq, false_implies, implies_true, and_true]
    exact hsorted
  have hdepth : j.depth ≤ 127 := by decide
  have hquote : '\'' ∉ j.compact := by
    rw [hcompact]
    decide
  have htext : "\x7b'a':[7,'x\\'y'],'b':null\x7d" =
      String.ofList (Literal.withSingleQuotes j.compact) := by
    rw [hcompact]
    rfl
  have hstring : ∀ s, j ≠ .string s := by
    intro s hs
    contradiction
  obtain ⟨-, -, htraced⟩ :=
    resolve_written host hfloats horder hdepth hstring hquote (.inr htext)
  refine ⟨hfloats, horder, hdepth, hquote, ?_⟩
  rw [htraced]
  rfl

end TableMarkup
