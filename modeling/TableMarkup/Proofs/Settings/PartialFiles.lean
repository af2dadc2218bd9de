import TableMarkup.Proofs.Json.Picking
import TableMarkup.Proofs.Settings.Versions
import TableMarkup.Settings.Reading

/-!
# Settings that are told in part

A settings file tells some of the fields, in any order, and may have members of other names, which the
reader skips. It says nothing else: a field that is told has its value, and one that is not told has
its standard value.

* `Settings.Tells`: members that agree with some settings, and members of other names.
* `Settings.partlyFrom`: the settings that only some fields are told of.
* `Reading.Holds`: what has been read behind some members; `Reading.Holds.picks` goes on with others.
* `ofJsonText_told`: every text of such members is read as these settings, and the text that is written
  for settings as the settings themselves.
-/

namespace TableMarkup.Settings

/-! ## Fields and their names -/

theorem ofName?_name (f : Field) : Field.ofName? f.name = some f := by
  cases f <;> decide

theorem name_inj {f g : Field} : f.name = g.name ↔ f = g := by
  refine ⟨fun h => ?_, congrArg Field.name⟩
  rw [← Option.some_inj, ← ofName?_name f, h, ofName?_name]

/-- Another name is that of no field. -/
theorem ofName?_of_ne {name : String} (h : ∀ f : Field, f.name ≠ name) :
    Field.ofName? name = none := by
  rw [Field.ofName?, List.find?_eq_none]
  intro f _
  simp [h f]

/-! ## What members tell -/

/-- A member that agrees with the settings: a field with its text, be it any text of the version, or a
member of another name. -/
inductive Tells (s : Settings) : String × Json → Prop
  | text {f : Field} (hf : f ≠ .minRendererVersion) : Tells s (f.name, .string (s.text f))
  | version {x : String} (hx : Version.parse x = .ok s.minRendererVersion) :
      Tells s (Field.minRendererVersion.name, .string x)
  | other {name : String} (j : Json) (hname : ∀ f : Field, f.name ≠ name) : Tells s (name, j)

/-- The settings if only the fields of these names are told. -/
def partlyFrom (s : Settings) (names : List String) : Settings :=
  let told {α : Type} (f : Field) (of : Settings → α) : α :=
    if f.name ∈ names then of s else of standard
  { dataPrefix := told .dataPrefix dataPrefix
    optionPrefix := told .optionPrefix optionPrefix
    tableTag := told .tableTag tableTag
    markerAttribute := told .markerAttribute markerAttribute
    markerValue := told .markerValue markerValue
    minRendererVersion := told .minRendererVersion minRendererVersion }

variable {s : Settings} {names : List String}

theorem partlyFrom_nil : s.partlyFrom [] = standard := by
  simp [partlyFrom]

theorem partlyFrom_of_all (h : ∀ f : Field, f.name ∈ names) : s.partlyFrom names = s := by
  simp [partlyFrom, h]

/-- A name that is that of no field tells nothing. -/
theorem partlyFrom_of_ne {name : String} (h : ∀ f : Field, f.name ≠ name) :
    s.partlyFrom (names ++ [name]) = s.partlyFrom names := by
  simp [partlyFrom, h]

/-- A member is a field with a text or one of no field's name. -/
theorem Tells.field_or_other {name : String} {j : Json} (h : s.Tells (name, j)) :
    (∃ (f : Field) (x : String), name = f.name ∧ j = .string x) ∨ ∀ f : Field, f.name ≠ name := by
  cases h with
  | text _ => exact .inl ⟨_, _, rfl, rfl⟩
  | version _ => exact .inl ⟨_, _, rfl, rfl⟩
  | other j hname => exact .inr hname

/-- The text of a field that is told adds this field to those that were told before. -/
theorem withText_of_tells {f : Field} {x : String} (h : s.Tells (f.name, .string x)) :
    (s.partlyFrom names).withText f x = .ok (s.partlyFrom (names ++ [f.name])) := by
  -- Whether another field has been told does not depend on this one.
  have hother {g : Field} (hne : g ≠ f) : g.name ∈ names ++ [f.name] ↔ g.name ∈ names := by
    simp [name_inj, hne]
  generalize hentry : (f.name, Json.string x) = entry at h
  cases h with
  | @text g hg =>
    obtain ⟨hname, hvalue⟩ := Prod.mk.inj hentry
    obtain rfl := name_inj.mp hname
    obtain rfl := Json.string.inj hvalue
    cases f <;> simp [withText, partlyFrom, hother, text] at hg ⊢
  | @version y hy =>
    obtain ⟨hname, hvalue⟩ := Prod.mk.inj hentry
    obtain rfl := name_inj.mp hname
    obtain rfl := Json.string.inj hvalue
    simp [withText, partlyFrom, hother, hy, Except.map]
  | other j hname =>
    exact absurd (Prod.mk.inj hentry).1 (hname f)

namespace Reading

/-- The members of these names have been read, and no value is due. -/
structure Holds (s : Settings) (names : List String) (r : Reading) : Prop where
  settings : r.settings = s.partlyFrom names
  seen (f : Field) : f ∈ r.seen ↔ f.name ∈ names
  next : r.next = .name ∨ r.next = .other

variable {r : Reading}

theorem holds_start : Holds s [] ⟨standard, [], .name⟩ :=
  ⟨partlyFrom_nil.symm, by simp, .inl rfl⟩

/-- Where no value is due, a name is taken as such. -/
theorem Holds.accept_key (h : Holds s names r) (name : String) :
    r.accept (.key name) = r.named name := by
  rcases h.next with hnext | hnext <;> simp [accept, hnext]

/-- Where no value is due, the object may end, and then the settings are read. -/
theorem Holds.accept_close (h : Holds s names r) :
    ∃ t, r.accept .closeObject = .ok t ∧ t.settings = s.partlyFrom names := by
  refine ⟨{ r with next := .done }, ?_, h.settings⟩
  rcases h.next with hnext | hnext <;> simp [accept, hnext]

/-- A field that has not been told before is heard with its text. -/
theorem Holds.field (h : Holds s names r) {f : Field} {x : String}
    (htells : s.Tells (f.name, .string x)) (hnew : f.name ∉ names) :
    ∃ t u, r.accept (.key f.name) = .ok t ∧ sink.Hears t [.string x] u ∧
      Holds s (names ++ [f.name]) u := by
  -- The reader refuses a field that it has seen, and this one it has not.
  have hname : r.accept (.key f.name) = .ok { r with next := .field false f } := by
    rw [h.accept_key, named, ofName?_name]
    exact if_neg (mt (h.seen f).mp hnew)
  have hvalue : accept { r with next := .field false f } (.string x) =
      .ok ⟨s.partlyFrom (names ++ [f.name]), f :: r.seen, .name⟩ := by
    show valued _ false f x = _
    rw [valued, h.settings, withText_of_tells htells]
    rfl
  refine ⟨_, _, hname, .cons rfl rfl hvalue (.nil _), rfl, fun g => ?_, .inl rfl⟩
  simp [h.seen g, name_inj, or_comm]

/-- The value of any other member is skipped. -/
theorem Holds.other (h : Holds s names r) {name : String} (hname : ∀ f : Field, f.name ≠ name) :
    ∃ t, r.accept (.key name) = .ok t ∧ sink.skips t = true ∧ Holds s (names ++ [name]) t := by
  refine ⟨{ r with next := .other }, ?_, rfl, ?_, fun f => ?_, .inr rfl⟩
  · rw [h.accept_key, named, ofName?_of_ne hname]
  · rw [partlyFrom_of_ne hname]
    exact h.settings
  · simp [h.seen f, hname f]

/-- Members that agree with the settings are read one after the other, if no field is told twice. -/
theorem Holds.picks {members : List (String × Json)} (h : Holds s names r)
    (htells : ∀ entry ∈ members, s.Tells entry)
    (honce : ∀ f : Field, (names ++ members.map Prod.fst).count f.name ≤ 1) :
    ∃ t, sink.Picks r members t ∧ Holds s (names ++ members.map Prod.fst) t := by
  induction members generalizing names r with
  | nil => exact ⟨r, .nil r, by rwa [List.map_nil, List.append_nil]⟩
  | cons entry members ih =>
    obtain ⟨name, j⟩ := entry
    rw [List.map_cons, List.append_cons] at honce ⊢
    have htold := htells (name, j) List.mem_cons_self
    have hlater := fun entry hentry => htells entry (List.mem_cons_of_mem _ hentry)
    -- Induction on the members, for any names that came before them.
    obtain ⟨f, x, rfl, rfl⟩ | hname := htold.field_or_other
    -- The field is counted once among all names, so it is not among the earlier ones.
    · have hnew : f.name ∉ names := by
        have hcount := honce f
        rw [List.count_append, List.count_append, List.count_singleton_self] at hcount
        exact List.count_eq_zero.mp (by omega)
      obtain ⟨t, u, hkey, hvalue, hu⟩ := h.field htold hnew
      obtain ⟨v, hpicks, hv⟩ := ih hu hlater honce
      have hflat : Json.depth (.string x) < Json.nestingLimit := by
        simp [Json.depth, Json.nestingLimit]
      exact ⟨v, .heard hkey hflat hvalue hpicks, hv⟩
    · obtain ⟨t, hkey, hskips, ht⟩ := h.other hname
      obtain ⟨v, hpicks, hv⟩ := ih ht hlater honce
      exact ⟨v, .unheard hkey hskips hpicks, hv⟩

end Reading

/-! ## Files -/

/-- The members that are written for settings. -/
def members (s : Settings) : List (String × Json) :=
  Field.all.map fun f => (f.name, .string (s.text f))

theorem mem_all (f : Field) : f ∈ Field.all := by
  cases f <;> decide

/-- What is written for settings agrees with them. -/
theorem tells_of_mem_members {entry : String × Json} (h : entry ∈ s.members) : s.Tells entry := by
  obtain ⟨f, -, rfl⟩ := List.mem_map.mp h
  by_cases hf : f = .minRendererVersion
  · subst hf
    exact .version (Version.parse_render s.minRendererVersion)
  · exact .text hf

/-- The text that is written for settings is one of the texts of their members. -/
theorem elementText_serialized (s : Settings) :
    Json.ElementText (.object s.members) s.serialized := by
  have hwritten : s.serialized = Json.braced (s.members.map fun entry =>
      Json.namedMember entry.1 (Json.compact entry.2)) := by
    rw [serialized, members, List.map_map]
    refine congrArg _ (List.map_congr_left fun f _ => ?_)
    rw [Function.comp_apply, Json.compact]
  rw [hwritten]
  refine Json.elementText_of_valueText (Json.valueText_braced fun entry hentry => ?_)
  obtain ⟨f, -, rfl⟩ := List.mem_map.mp hentry
  exact Json.memberText_namedMember (Json.valueText_compact nofun)

/-- Any text of such members is read as the settings with the fields that it tells. -/
theorem ofJsonText_eq_partlyFrom {text : List Char} {members : List (String × Json)}
    (htext : Json.ElementText (.object members) text) (htells : ∀ entry ∈ members, s.Tells entry)
    (honce : ∀ f : Field, (members.map Prod.fst).count f.name ≤ 1) :
    ofJsonText text = .ok (s.partlyFrom (members.map Prod.fst)) := by
  have hopen : Reading.sink.Takes none .start [.openObject] ⟨standard, [], .name⟩ :=
    Json.Sink.takes_one rfl rfl rfl
  obtain ⟨t, hpicks, ht⟩ := Reading.holds_start.picks htells honce
  obtain ⟨u, hclose, hu⟩ := ht.accept_close
  rw [ofJsonText, Json.read_picked htext hopen hpicks hclose]
  exact congrArg Except.ok hu

/-- A JSON object with some of the fields as they are in `s`, each at most once, in any order and among
members of other names, is read as the settings with these fields as they are in `s` and the others as
they are in `standard`. With all of the fields that is `s`, as it is for the text written for `s`. -/
theorem ofJsonText_told (s : Settings) :
    (∀ (members : List (String × Json)) (text : List Char),
      Json.ElementText (.object members) text → (∀ entry ∈ members, s.Tells entry) →
      (∀ f : Field, (members.map Prod.fst).count f.name ≤ 1) →
      ofJsonText text = .ok (s.partlyFrom (members.map Prod.fst)) ∧
        ((∀ f : Field, f.name ∈ members.map Prod.fst) → ofJsonText text = .ok s)) ∧
      ofJsonText s.serialized = .ok s := by
  have hall {members : List (String × Json)} {text : List Char}
      (htext : Json.ElementText (.object members) text)
      (htells : ∀ entry ∈ members, s.Tells entry)
      (honce : ∀ f : Field, (members.map Prod.fst).count f.name ≤ 1)
      (hall : ∀ f : Field, f.name ∈ members.map Prod.fst) : ofJsonText text = .ok s := by
    rw [ofJsonText_eq_partlyFrom htext htells honce, partlyFrom_of_all hall]
  refine ⟨fun members text htext htells honce =>
    ⟨ofJsonText_eq_partlyFrom htext htells honce, hall htext htells honce⟩, ?_⟩
  have hnames : s.members.map Prod.fst = Field.all.map Field.name := by
    rw [members, List.map_map]
    rfl
  refine hall (elementText_serialized s) (fun _ => tells_of_mem_members) (fun f => ?_) fun f => ?_
  · rw [hnames]
    cases f <;> decide
  · rw [hnames]
    exact List.mem_map_of_mem (mem_all f)

/-- A version without its last number, a spelled-out letter and a member of another name. -/
theorem ofJsonText_told_reordered :
    let s : Settings := { standard with optionPrefix := "tbl_", minRendererVersion := ⟨1, 12, 0⟩ }
    let text := "\x7b \"x\" : [ true , \x7b\x7d ],\n \"min_renderer_version\":\"1.12\"," ++
      "\"option_prefix\" :\"t\\u0062l_\"\x7d"
    ofJsonText text.toList = .ok s := by
  intro s text
  let other : Json := .array [.bool true, .object []]
  have hnone : ∀ c ∈ [], Text.isJsonBlank c := List.forall_mem_nil _
  have hspace : ∀ c ∈ [' '], Text.isJsonBlank c := List.all_eq_true.mp rfl
  have hline : ∀ c ∈ ['\n', ' '], Text.isJsonBlank c := List.all_eq_true.mp rfl
  -- The member of no interest: an array of `true` and of an empty object, with blanks between them.
  have hitems : Json.ValueText other ('[' :: ([' '] ++ (['t', 'r', 'u', 'e'] ++ [' ']) ++ ',' ::
      ([' '] ++ ('\x7b' :: ([] ++ ['\x7d']) ++ [' '])) ++ [']'])) :=
    .array (.cons (.around hspace .yes hspace)
      (.last (.around hspace (.emptyObject hnone) hspace)))
  have hother : Json.MemberText ("x", other) ([' '] ++ '"' :: (['x'] ++ '"' ::
      ([' '] ++ ':' :: ([' '] ++ (_ ++ []))))) :=
    .named hspace (Json.spellsAll_escape ['x']) hspace (.around hspace hitems hnone)
  -- The version is told without its last number.
  have hversion : Json.MemberText (Field.minRendererVersion.name, .string "1.12")
      (['\n', ' '] ++ '"' :: (_ ++ '"' :: ([] ++ ':' :: ([] ++ ('"' :: (_ ++ ['"']) ++ []))))) :=
    .named hline (Json.spellsAll_escape "min_renderer_version".toList) hnone
      (.around hnone (.string (Json.spellsAll_escape "1.12".toList)) hnone)
  -- One letter of the prefix is spelled as a code unit.
  have hletter : Json.Spells 'b' ('\\' :: 'u' :: ['0', '0', '6', '2']) :=
    .unit (.digits (u := 0) (v := 0) (w := 6) (x := 2) rfl rfl rfl rfl)
  have hspelled : Json.SpellsAll "tbl_".toList (['t'] ++ (_ ++ ("l_".toList.flatMap Json.escape))) :=
    .cons (.itself (by decide) (by decide) (by decide))
      (.cons hletter (Json.spellsAll_escape "l_".toList))
  have hprefix : Json.MemberText (Field.optionPrefix.name, .string "tbl_")
      ([] ++ '"' :: (_ ++ '"' :: ([' '] ++ ':' :: ([] ++ ('"' :: (_ ++ ['"']) ++ []))))) :=
    .named hnone (Json.spellsAll_escape "option_prefix".toList) hspace
      (.around hnone (.string hspelled) hnone)
  have htext : Json.ElementText (.object [("x", other), (_, .string "1.12"), (_, .string "tbl_")])
      ([] ++ ('\x7b' :: (_ ++ ['\x7d']) ++ [])) :=
    .around hnone (.object (.cons hother (.cons hversion (.last hprefix)))) hnone
  have htells : ∀ entry ∈ [("x", other), (Field.minRendererVersion.name, .string "1.12"),
      (Field.optionPrefix.name, .string "tbl_")], s.Tells entry := by
    simp only [List.forall_mem_cons, List.not_mem_nil, false_imp_iff, implies_true, and_true]
    exact ⟨.other other fun f => by cases f <;> decide, .version (by decide),
      .text (f := .optionPrefix) (by decide)⟩
  have hread := ((ofJsonText_told s).1 _ _ htext htells fun f => by cases f <;> decide).1
  refine (congrArg ofJsonText ?_).trans (hread.trans (congrArg Except.ok ?_))
  · decide +kernel
  · decide +kernel

end TableMarkup.Settings
