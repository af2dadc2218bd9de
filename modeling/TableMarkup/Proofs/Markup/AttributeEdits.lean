import TableMarkup.Markup.Reading
import TableMarkup.Proofs.Json.Meaning
import TableMarkup.Proofs.Markup.AttributeLaws
import TableMarkup.Proofs.Ordered.Edits
import TableMarkup.Proofs.Ordered.Insertions

/-!
# Attributes that are edited

Attributes are a table of values under names without letter case. They come of a list of names and
values or of the members of a JSON object, and are then set and removed in any order and any number of
times. What is seen of them depends on this history only, and their order is that in which the names
first came since they were last removed.

* `Ordered.Edit.lowered`: an edit with its name in lower case.
* `Attributes.run`: the attributes after a list of edits; `get?_run`, `names_run`.
* `get?_eq_find?`, `entries_erase_eq`, `filter_insert_eq`: a look-up, a removal and a setting in terms of
  the names that have the same letters.
* `Attributes.written`: the names and values of the members of an object, in the order of the text.
* `Attributes.parse_eq_ok_iff`: the attributes that a text is read as.
* `Attributes.run_ofList_says`: all that is seen of attributes with a history.
-/

namespace TableMarkup

open Ordered (Edit)
open Json (Sink Assembly StandsFor)

/-! ## Edits in lower case -/

namespace Ordered.Edit

variable {α : Type}

/-- The edit with its name in lower case. -/
def lowered : Edit α → Edit α
  | .insert name value => .insert (Text.lower name) value
  | .erase name => .erase (Text.lower name)

theorem name_lowered (e : Edit α) : e.lowered.name = Text.lower e.name := by
  cases e <;> rfl

theorem value?_lowered (e : Edit α) : e.lowered.value? = e.value? := by
  cases e <;> rfl

/-- What the last edit of a name in lower case left there, the last edit of a name with the same
letters left there. -/
theorem latest?_lowered (edits : List (Edit α)) (name : String) :
    latest? (· = Text.lower name) (edits.map lowered) =
      latest? (Text.SameLetters · name) edits := by
  induction edits using List.reverseRecOn with
  | nil => rfl
  | append_singleton edits e ih =>
    rw [List.map_append, List.map_singleton, latest?_concat, latest?_concat, ih, name_lowered,
      value?_lowered]
    rfl

end Ordered.Edit

namespace Attributes

def edit (a : Attributes) : Edit Value → Attributes
  | .insert name value => a.insert name value
  | .erase name => a.erase name

/-- The attributes after some edits, one after the other. -/
def run (a : Attributes) (edits : List (Edit Value)) : Attributes :=
  edits.foldl edit a

theorem run_append (a : Attributes) (edits later : List (Edit Value)) :
    a.run (edits ++ later) = (a.run edits).run later :=
  List.foldl_append ..

/-- To set one attribute after the other is a list of edits. -/
theorem run_insertions (pairs : List (String × Value)) :
    empty.run (pairs.map fun entry => .insert entry.1 entry.2) = ofList pairs := by
  rw [run, List.foldl_map]
  rfl

/-- The table is edited in lower case. -/
theorem table_run (a : Attributes) (edits : List (Edit Value)) :
    (a.run edits).table = a.table.run (edits.map Edit.lowered) := by
  induction edits generalizing a with
  | nil => rfl
  | cons e edits ih =>
    -- Induction on the edits, for any attributes that they begin with.
    have hfirst : (a.edit e).table = a.table.edit e.lowered := by
      cases e <;> rfl
    show ((a.edit e).run edits).table = (a.table.edit e.lowered).run (edits.map Edit.lowered)
    rw [ih, hfirst]

/-- A look-up sees what the last edit of the name left there, whatever the letter case of either. -/
theorem get?_run (edits : List (Edit Value)) (name : String) :
    (empty.run edits).get? name = Edit.latest? (Text.SameLetters · name) edits := by
  rw [get?, table_run, ← Edit.latest?_lowered]
  exact Ordered.get?_run ..

/-- The names stand in the order in which they first came since they were last removed. -/
theorem names_run (edits : List (Edit Value)) :
    Members.names (empty.run edits).entries =
      (Edit.standing (edits.map Edit.lowered)).eraseDups := by
  show (empty.run edits).table.names = _
  rw [table_run]
  exact Ordered.names_run _

/-! ## Names with the same letters -/

theorem map_lower_names (a : Attributes) :
    (Members.names a.entries).map Text.lower = Members.names a.entries :=
  (List.map_congr_left a.lower_names).trans (List.map_id _)

/-- Among the attributes, a name has the same letters as another if it is the other in lower case. -/
theorem sameLetters_iff {a : Attributes} {entry : String × Value} (h : entry ∈ a.entries)
    (name : String) : Text.SameLetters entry.1 name ↔ entry.1 = Text.lower name := by
  have hlower : Text.lower entry.1 = entry.1 := a.lower_names _ (List.mem_map_of_mem h)
  show Text.lower entry.1 = Text.lower name ↔ _
  rw [hlower]

/-- A look-up finds the first attribute whose name has the same letters. -/
theorem get?_eq_find? (a : Attributes) (name : String) :
    a.get? name = (a.entries.find? fun entry => Text.SameLetters entry.1 name).map Prod.snd := by
  -- Induction on the entries, of which only the names in lower case are used.
  have hfind (entries : List (String × Value)) (h : ∀ entry ∈ entries, entry ∈ a.entries) :
      Members.get? (Text.lower name) entries =
        (entries.find? fun entry => Text.SameLetters entry.1 name).map Prod.snd := by
    induction entries with
    | nil => rfl
    | cons entry rest ih =>
      obtain ⟨hentry, hrest⟩ := List.forall_mem_cons.mp h
      rw [Members.get?, List.find?_cons, ih hrest]
      simp only [sameLetters_iff hentry, eq_comm (a := Text.lower name)]
      by_cases hname : entry.1 = Text.lower name
      · simp [hname]
      · simp [hname]
  exact hfind a.entries fun _ h => h

/-- A removal takes the attribute whose name has the same letters, and leaves all the others. -/
theorem entries_erase_eq (a : Attributes) (name : String) :
    (a.erase name).entries = a.entries.filter fun entry => ¬ Text.SameLetters entry.1 name := by
  rw [entries_erase]
  refine List.filter_congr fun entry hentry => ?_
  simp only [sameLetters_iff hentry, ne_eq]

/-- To set an attribute leaves all whose names have other letters. -/
theorem filter_insert_eq (a : Attributes) (name : String) (value : Value) :
    (a.insert name value).entries.filter (fun entry => ¬ Text.SameLetters entry.1 name) =
      a.entries.filter fun entry => ¬ Text.SameLetters entry.1 name := by
  rw [← entries_erase_eq, ← entries_erase_eq, entries_erase, entries_erase, filter_entries_insert]

/-- A name that is there keeps its place, and a new one is put last. -/
theorem names_insert (a : Attributes) (name : String) (value : Value) :
    Members.names (a.insert name value).entries =
      if (a.get? name).isSome then Members.names a.entries
      else Members.names a.entries ++ [Text.lower name] := by
  -- A name is there just if a look-up finds a value under it.
  have hmem : (a.get? name).isSome ↔ Text.lower name ∈ Members.names a.entries := by
    rw [← not_iff_not, Option.not_isSome_iff_eq_none]
    exact Members.get?_eq_none_iff
  show (a.table.insert (Text.lower name) value).names = _
  rw [Ordered.names_insert]
  simp only [hmem]
  rfl

/-! ## Attributes that are read -/

/-- The names and values of the members of an object, in the order of the text and with repetitions. -/
def written (members : List (String × Json)) : List (String × Value) :=
  members.map fun (name, j) => (name, .ofJson j.inOrder)

/-- Where the reading is while the value of an attribute is put together, and when it is complete. -/
def Reading.within (read : Attributes) (name : String) : Assembly → Reading
  | .building frames => .value read name (.building frames)
  | .done j => .open (read.insert name (.ofJson j))

/-- The value of an attribute is put together like any other value. -/
theorem builds_value (read : Attributes) (name : String) :
    Assembly.Builds Reading.sink (Reading.within read name) where
  skips _ := rfl
  room _ := rfl
  accept frames e := by
    show Reading.accept (.value read name (.building frames)) e = _
    rw [Reading.accept]
    cases (Assembly.building frames).accept e <;> rfl

/-- The members of an object are set one after the other. -/
theorem hears_members (read : Attributes) (members : List (String × Json)) :
    Reading.sink.Hears (.open read) (Json.memberEvents members)
      (.open ((written members).foldl (fun a entry => a.insert entry.1 entry.2) read)) := by
  induction members generalizing read with
  | nil => exact .nil _
  | cons entry rest ih =>
    obtain ⟨name, j⟩ := entry
    -- The value is put together to its end, and then set under the name.
    have hvalue := (builds_value read name).hears_events j []
    exact .cons rfl rfl rfl (Sink.hears_append.mpr ⟨_, hvalue, ih _⟩)

/-- What the events of a value come to: nothing, if it is not an object. -/
theorem listen_events_eq_some_iff {j : Json} {a : Attributes} :
    Reading.sink.listen .start j.events = some (.done a) ↔
      ∃ members, j = .object members ∧ a = ofList (written members) := by
  cases j with
  | object members =>
    have hclose : Reading.sink.Hears (.open (ofList (written members))) [.closeObject]
        (.done (ofList (written members))) :=
      .cons rfl rfl rfl (.nil _)
    have hears : Reading.sink.Hears .start (Json.events (.object members))
        (.done (ofList (written members))) :=
      .cons rfl rfl rfl (Sink.hears_append.mpr ⟨_, hears_members .empty members, hclose⟩)
    rw [hears.listen]
    simp [eq_comm]
  | null | bool _ | number _ | string _ | array _ =>
    refine iff_of_false (fun h => ?_) (fun ⟨_, hj, _⟩ => nomatch hj)
    have hrefused : (none : Option Reading) = some (.done a) := h
    contradiction

/-- A text is read as attributes if it stands for an object, and its members are set one after the
other, in the order of the text. -/
theorem parse_eq_ok_iff {text : List Char} {a : Attributes} :
    parse text = .ok a ↔
      ∃ members, StandsFor text (.object members) ∧ a = ofList (written members) := by
  have hcalm : Reading.sink.Calm := ⟨fun _ => rfl, fun _ => rfl⟩
  -- The reader gives attributes only where its object has been closed.
  have hdone : parse text = .ok a ↔ Json.read Reading.sink .start text = .ok (.done a) := by
    rw [parse]
    cases Json.read Reading.sink .start text with
    | error f => exact iff_of_false nofun nofun
    | ok reading =>
      cases reading with
      | done read =>
        show Except.ok read = .ok a ↔ _
        simp
      | _ => exact iff_of_false nofun nofun
  rw [hdone, Json.read_eq_ok_iff hcalm]
  constructor
  · rintro ⟨j, hj, hlisten⟩
    obtain ⟨members, rfl, ha⟩ := listen_events_eq_some_iff.mp hlisten
    exact ⟨members, hj, ha⟩
  · rintro ⟨members, hj, ha⟩
    exact ⟨.object members, hj, listen_events_eq_some_iff.mpr ⟨members, rfl, ha⟩⟩

/-! ## Attributes with a history -/

/-- Attributes come of a list of names and values, be it given or written as the members of a JSON
object, and are edited then. It is all one history: to set one name after the other makes the same
attributes, and a text is read as attributes just if it stands for an object.

* Names are in lower case, and no name is there twice. They stand in the order in which they were
  first set, in whatever letter case, since they were last removed.
* A look-up in any letter case sees what the last edit of the name left there. It finds the attribute
  whose name has the same letters; so do a setting and a removal, which give back what a look-up sees,
  and leave the others as they are. A name that is set anew keeps its place.
* Behind a prefix are the attributes whose names begin with it, in their order. -/
theorem run_ofList_says (pairs : List (String × Value)) (edits : List (Edit Value)) :
    let history := pairs.map (fun entry => .insert entry.1 entry.2) ++ edits
    let a := (ofList pairs).run edits
    a = empty.run history ∧
    (∀ text b, parse text = .ok b ↔
      ∃ members, StandsFor text (.object members) ∧ b = ofList (written members)) ∧
    (Members.names a.entries).map Text.lower = Members.names a.entries ∧
    (Members.names a.entries).Nodup ∧
    Members.names a.entries = (Edit.standing (history.map Edit.lowered)).eraseDups ∧
    (∀ name, a.get? name = Edit.latest? (Text.SameLetters · name) history ∧
      a.get? name = (a.entries.find? (Text.SameLetters ·.1 name)).map Prod.snd ∧
      (a.remove name).1 = a.get? name ∧
      (a.remove name).2.entries = a.entries.filter (¬ Text.SameLetters ·.1 name)) ∧
    (∀ name value, (a.set name value).1 = a.get? name ∧
      (a.set name value).2.get? name = some value ∧
      (a.set name value).2.entries.filter (¬ Text.SameLetters ·.1 name) =
        a.entries.filter (¬ Text.SameLetters ·.1 name) ∧
      Members.names (a.set name value).2.entries =
        if (a.get? name).isSome then Members.names a.entries
        else Members.names a.entries ++ [Text.lower name]) ∧
    ∀ start, (a.afterPrefix start).map (fun (rest, value) => (start ++ rest, value)) =
      a.entries.filter (start.toList <+: ·.1.toList) := by
  intro history a
  -- To set the pairs is a list of edits too, so that everything is about one history.
  have hrun : a = empty.run history := by
    rw [run_append, run_insertions]
  refine ⟨hrun, fun text b => parse_eq_ok_iff, map_lower_names a, a.table.nodup, ?_, ?_, ?_, ?_⟩
  · rw [hrun, names_run]
  · intro name
    have hget : a.get? name = Edit.latest? (Text.SameLetters · name) history := by
      rw [hrun, get?_run]
    exact ⟨hget, get?_eq_find? a name, remove_fst a name, entries_erase_eq a name⟩
  · intro name value
    exact ⟨set_fst a name value, get?_insert_self a name value, filter_insert_eq a name value,
      names_insert a name value⟩
  · exact map_afterPrefix a

/-- A name that is set again in another letter case keeps its place, and loses it when it is
removed. -/
example : Members.names ((ofList [("ID", .string "a"), ("Class", .string "b"), ("id", .null)]).run
    [.insert "CLASS" .undefined]).entries = ["id", "class"] ∧
    Members.names ((ofList [("ID", .string "a"), ("Class", .string "b")]).run
      [.erase "Id", .insert "id" .undefined]).entries = ["class", "id"] := by
  decide

end Attributes

end TableMarkup
