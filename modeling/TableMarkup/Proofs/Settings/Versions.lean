import Mathlib.Data.List.Forall2
import Mathlib.Data.Prod.Lex
import TableMarkup.Proofs.Json.Spellings
import TableMarkup.Proofs.Text.Trimming
import TableMarkup.Proofs.Text.WholeNumbers
import TableMarkup.Rendering.Renderer

/-!
# Versions as texts and as numbers

A version is read from one to three numbers with dots between them, with any blanks around them all.
Plus signs, zeros in front and missing numbers leave each version with many texts, of which one is
written.

* `Version.Written`: the texts of a version without blanks around them.
* `Version.parse?_eq_some_iff`: a version is read from its texts and from no others.
* `Version.parse_render`, `Version.ofJsonText_serialized`: what is written is read back.
* `Version.numbers`: the three numbers, compared one after the other; `Version.compare_eq_lt_iff` says that
  versions are compared so.
* `Incompatibility.of_eq_some_iff`: when a renderer's version is complained about.
-/

namespace TableMarkup

namespace Version

/-! ## Texts of versions -/

/-- The texts of a version: one to three numbers of 64 bits with dots between them. Numbers that are left
out are zero. -/
inductive Written : List Char → Version → Prop
  | one {a : List Char} {x : UInt64} (ha : Text.UnsignedText a x.toNat) : Written a ⟨x, 0, 0⟩
  | two {a b : List Char} {x y : UInt64} (ha : Text.UnsignedText a x.toNat)
      (hb : Text.UnsignedText b y.toNat) : Written (a ++ '.' :: b) ⟨x, y, 0⟩
  | three {a b c : List Char} {x y z : UInt64} (ha : Text.UnsignedText a x.toNat)
      (hb : Text.UnsignedText b y.toNat) (hc : Text.UnsignedText c z.toNat) :
      Written (a ++ '.' :: (b ++ '.' :: c)) ⟨x, y, z⟩

/-- A part of a version is read as a number of 64 bits from the texts of that number. -/
theorem number?_eq_some_iff {part : List Char} {n : UInt64} :
    number? part = some n ↔ Text.UnsignedText part n.toNat := by
  rw [number?, Option.map_eq_some_iff]
  simp only [Text.unsigned?_eq_some_iff]
  constructor
  · rintro ⟨k, ⟨hk, hlt⟩, rfl⟩
    rwa [UInt64.toNat_ofNat_of_lt' hlt]
  · exact fun h => ⟨n.toNat, ⟨h, n.toNat_lt⟩, UInt64.ofNat_toNat⟩

/-- Parts are read one by one, each as its number. -/
theorem mapM_number?_eq_some_iff {ps : List (List Char)} {ns : List UInt64} :
    ps.mapM number? = some ns ↔
      List.Forall₂ (fun part n => Text.UnsignedText part n.toNat) ps ns := by
  induction ps generalizing ns with
  | nil =>
    rw [List.mapM_nil, List.forall₂_nil_left_iff]
    exact Option.some_inj.trans eq_comm
  | cons part ps ih =>
    rw [List.mapM_cons]
    constructor
    · intro h
      obtain ⟨n, hn, hrest⟩ := Option.bind_eq_some_iff.mp h
      obtain ⟨later, hlater, hcons⟩ := Option.bind_eq_some_iff.mp hrest
      obtain rfl := Option.some.inj hcons
      exact .cons (number?_eq_some_iff.mp hn) (ih.mp hlater)
    · rintro (_ | ⟨hn, hlater⟩)
      rw [number?_eq_some_iff.mpr hn, ih.mpr hlater]
      rfl

/-- There is no dot in a number, so that dots stand between numbers only. -/
theorem dot_not_mem {part : List Char} {n : Nat} (h : Text.UnsignedText part n) : '.' ∉ part :=
  fun hdot => absurd (h.mem hdot) (by decide)

/-- The numbers between dots are read one by one. -/
theorem mapM_splitOn {ps : List (List Char)} {ns : List UInt64} (hne : ps ≠ [])
    (h : List.Forall₂ (fun part n => Text.UnsignedText part n.toNat) ps ns) :
    ((['.'].intercalate ps).splitOn '.').mapM number? = some ns := by
  -- Induction on the parts with their numbers: in none of them is a dot.
  have hdots : ∀ part ∈ ps, '.' ∉ part := by
    clear hne
    induction h with
    | nil => exact nofun
    | cons hn _ ih => exact List.forall_mem_cons.mpr ⟨dot_not_mem hn, ih⟩
  rw [List.splitOn_intercalate '.' hdots hne, mapM_number?_eq_some_iff.mpr h]

/-- What is read from a text when the blanks around it are gone. -/
theorem parse?_eq_some_iff {text : String} {v : Version} :
    parse? text = some v ↔ Written (Text.trim text.toList) v := by
  rw [parse?]
  generalize Text.trim text.toList = middle
  constructor
  · intro h
    have hwhole : ['.'].intercalate (middle.splitOn '.') = middle := List.intercalate_splitOn '.'
    generalize middle.splitOn '.' = ps at h hwhole
    -- As many numbers are read as there are parts, and what is read is told by their count.
    split at h
    · next x hread =>
      obtain rfl := Option.some.inj h
      obtain _ | ⟨ha, ⟨⟩⟩ := mapM_number?_eq_some_iff.mp hread
      rw [List.intercalate_singleton] at hwhole
      exact hwhole ▸ .one ha
    · next x y hread =>
      obtain rfl := Option.some.inj h
      obtain _ | ⟨ha, _ | ⟨hb, ⟨⟩⟩⟩ := mapM_number?_eq_some_iff.mp hread
      simp only [List.intercalate_cons_cons, List.intercalate_singleton, List.append_assoc] at hwhole
      exact hwhole ▸ .two ha hb
    · next x y z hread =>
      obtain rfl := Option.some.inj h
      obtain _ | ⟨ha, _ | ⟨hb, _ | ⟨hc, ⟨⟩⟩⟩⟩ := mapM_number?_eq_some_iff.mp hread
      simp only [List.intercalate_cons_cons, List.intercalate_singleton, List.append_assoc] at hwhole
      exact hwhole ▸ .three ha hb hc
    · contradiction
  · rintro (ha | ⟨ha, hb⟩ | ⟨ha, hb, hc⟩)
    · have hread := mapM_splitOn (List.cons_ne_nil _ _) (.cons ha .nil)
      rw [List.intercalate_singleton] at hread
      rw [hread]
    · have hread := mapM_splitOn (List.cons_ne_nil _ _) (.cons ha (.cons hb .nil))
      simp only [List.intercalate_cons_cons, List.intercalate_singleton, List.append_assoc,
        List.singleton_append] at hread
      rw [hread]
    · have hread := mapM_splitOn (List.cons_ne_nil _ _) (.cons ha (.cons hb (.cons hc .nil)))
      simp only [List.intercalate_cons_cons, List.intercalate_singleton, List.append_assoc,
        List.singleton_append] at hread
      rw [hread]

theorem parse_eq_ok_iff_parse? {text : String} {v : Version} :
    parse text = .ok v ↔ parse? text = some v := by
  rw [parse]
  cases parse? text <;> simp

/-- The complaint is about the whole text, and comes where the text is that of no version. -/
theorem parse_eq_error_iff {text complained : String} :
    parse text = .error complained ↔
      (∀ v, ¬ Written (Text.trim text.toList) v) ∧ complained = complaint text := by
  simp only [← parse?_eq_some_iff]
  rw [parse]
  cases parse? text with
  | some v => exact iff_of_false nofun fun h => h.1 v rfl
  | none => simp [eq_comm]

/-! ## Reading what was written -/

theorem written_render (v : Version) : Written v.render.toList v := by
  have hnumber (n : UInt64) := Text.unsignedText_digits n.toNat
  have hwritten := Written.three (hnumber v.major) (hnumber v.minor) (hnumber v.patch)
  rw [render, String.toList_ofList, List.append_assoc]
  exact hwritten

theorem isBlank_of_isDigit {c : Char} (h : Text.IsDigit c) : ¬ Text.isBlank c := by
  obtain ⟨d, hd⟩ := Text.isDigit_iff_exists.mp h
  obtain ⟨hlt, rfl⟩ := Text.digit?_eq_some_iff.mp hd
  have hdigits : ∀ d < 10, ¬ Text.isBlank (Text.digitChar d) := by decide
  exact hdigits d hlt

/-- There is no blank in what is written for a version. -/
theorem not_isBlank_of_mem_render {v : Version} {c : Char} (hc : c ∈ v.render.toList) :
    ¬ Text.isBlank c := by
  have hnumber (n : Nat) (hc : c ∈ Text.digits n) : ¬ Text.isBlank c :=
    isBlank_of_isDigit (Text.isDigit_of_mem_digits hc)
  have hdot : ¬ Text.isBlank '.' := by decide
  rw [render, String.toList_ofList, List.append_assoc] at hc
  simp only [List.mem_append, List.cons_append, List.mem_cons] at hc
  rcases hc with hc | rfl | hc | rfl | hc
  · exact hnumber _ hc
  · exact hdot
  · exact hnumber _ hc
  · exact hdot
  · exact hnumber _ hc

theorem parse_render (v : Version) : parse v.render = .ok v := by
  rw [parse_eq_ok_iff_parse?, parse?_eq_some_iff,
    Text.trim_of_no_blank fun c hc => not_isBlank_of_mem_render hc]
  exact written_render v

/-- The JSON text of a version is read back. -/
theorem ofJsonText_serialized (v : Version) : ofJsonText v.serialized = .ok v := by
  have haccept : sink.accept none (.string v.render) = .ok (some v) := by
    show (parse v.render).map some = _
    rw [parse_render]
    rfl
  have hread : Json.read sink none v.serialized = .ok (some v) :=
    Json.read_stringText (Json.stringText_quoted v.render) (Json.Sink.takes_one rfl rfl haccept)
  rw [ofJsonText, hread]
  rfl

/-! ## Order -/

/-- The three numbers of a version, the first one first. -/
def numbers (v : Version) : ℕ ×ₗ ℕ ×ₗ ℕ :=
  toLex (v.major.toNat, toLex (v.minor.toNat, v.patch.toNat))

/-- Versions are compared part by part, the next part where the ones before are equal. -/
theorem compare_eq_then (a b : Version) : compare a b =
    (compare a.major b.major).then ((compare a.minor b.minor).then (compare a.patch b.patch)) := rfl

/-- Two numbers of 64 bits compare as equal just where their values are. -/
theorem compare_word_eq_eq_iff {x y : UInt64} : compare x y = .eq ↔ x.toNat = y.toNat :=
  Std.compare_eq_iff_eq.trans UInt64.toNat_inj.symm

/-- A version is below another one if its numbers are, the first one first. -/
theorem compare_eq_lt_iff {a b : Version} : compare a b = .lt ↔ a.numbers < b.numbers := by
  have hword {x y : UInt64} : compare x y = .lt ↔ x.toNat < y.toNat :=
    Std.compare_eq_lt.trans UInt64.lt_iff_toNat_lt
  rw [numbers, numbers, Prod.Lex.toLex_lt_toLex, Prod.Lex.toLex_lt_toLex, compare_eq_then]
  simp only [Ordering.then_eq_lt, hword, compare_word_eq_eq_iff]

/-- A version is above another one if its numbers are. -/
theorem compare_eq_gt_iff {a b : Version} : compare a b = .gt ↔ b.numbers < a.numbers := by
  have hword {x y : UInt64} : compare x y = .gt ↔ y.toNat < x.toNat :=
    Std.compare_eq_gt.trans UInt64.lt_iff_toNat_lt
  have hsame {x y : UInt64} : compare x y = .eq ↔ y.toNat = x.toNat :=
    compare_word_eq_eq_iff.trans eq_comm
  rw [numbers, numbers, Prod.Lex.toLex_lt_toLex, Prod.Lex.toLex_lt_toLex, compare_eq_then]
  simp only [Ordering.then_eq_gt, hword, hsame]

theorem compare_eq_eq_iff {a b : Version} : compare a b = .eq ↔ a = b := by
  rw [compare_eq_then]
  simp only [Ordering.then_eq_eq, Std.compare_eq_iff_eq]
  cases a
  cases b
  rw [mk.injEq]

/-- To be before a version is to be strictly below it. -/
theorem isBefore_iff {a b : Version} : a.isBefore b ↔ a.numbers < b.numbers := by
  rw [isBefore, decide_eq_true_iff, compare_eq_lt_iff]

end Version

namespace Incompatibility

/-- A renderer is complained about if it has no version, or one below the required one. -/
theorem of_eq_some_iff {required : Version} {found? : Option Version} {w : Incompatibility} :
    of required found? = some w ↔ (found? = none ∧ w = .missing required) ∨
      ∃ found, found? = some found ∧ found.numbers < required.numbers ∧
        w = .outdated found required := by
  cases found? with
  | none => simp [of, eq_comm]
  | some found =>
    simp only [of, Version.isBefore_iff]
    split <;> simp_all [eq_comm]

end Incompatibility

/-! ## Versions read, written and compared -/

/-- A version is read from one to three numbers of 64 bits with dots between them, when the blanks around
them are gone; of any other text the complaint shows the whole, blanks included. What is written for a
version is read back, by itself and as JSON. Versions are compared as their numbers are, the first one
first, and a renderer is complained about if it has no version, or one strictly below the required one. -/
theorem Version.read_written_compared :
    (∀ text : String, ∃ middle, Text.Trimmed text.toList middle ∧
      (∀ v, Version.parse text = .ok v ↔ Written middle v) ∧
      ∀ complained, Version.parse text = .error complained ↔
        (∀ v, ¬ Written middle v) ∧ complained =
          "invalid version '" ++ text ++ "': expected up to three dot-separated numbers") ∧
    (∀ v, Version.parse v.render = .ok v ∧ ofJsonText v.serialized = .ok v) ∧
    (∀ a b : Version, (compare a b = .lt ↔ a.numbers < b.numbers) ∧ (compare a b = .eq ↔ a = b) ∧
      (compare a b = .gt ↔ b.numbers < a.numbers)) ∧
    ∀ required found? w, Incompatibility.of required found? = some w ↔
      (found? = none ∧ w = .missing required) ∨
        ∃ found, found? = some found ∧ found.numbers < required.numbers ∧
          w = .outdated found required := by
  refine ⟨fun text => ⟨_, Text.trimmed_trim text.toList, fun v => ?_, fun _ => parse_eq_error_iff⟩,
    fun v => ⟨parse_render v, ofJsonText_serialized v⟩,
    fun a b => ⟨compare_eq_lt_iff, compare_eq_eq_iff, compare_eq_gt_iff⟩,
    fun _ _ _ => Incompatibility.of_eq_some_iff⟩
  exact parse_eq_ok_iff_parse?.trans parse?_eq_some_iff

end TableMarkup
