import TableMarkup.Markup.Reading
import TableMarkup.Proofs.Json.RoundTrip
import TableMarkup.Proofs.Markup.AttributeLaws
import TableMarkup.Proofs.Value.Conversions

/-!
# Documents that are written and read

An element is written as a JSON object, without the fields that would be empty, and read back event by
event. What is read while one element is open depends on this element only, so every statement here is
about an element among any others that are still open around it.

* `Element.toJson`: the JSON object that an element is written as; `Element.serialized_eq_compact`.
* `Value.IsPlain`: values that came out of JSON without floats.
* `Element.hears_attributes`: the attributes of an element are read one after the other, and set anew.
* `Element.hears_events`: an element is read with everything inside it, and goes to its place.
* `Element.parse_serialized`: a document that was written is read as the same document.
-/

namespace TableMarkup

open Json (Event Sink Assembly)

/-! ## Documents as JSON -/

def Attributes.toJson (a : Attributes) : Json :=
  .object (a.entries.map fun (name, value) => (name, value.toJson))

/-- To write attributes is to write their JSON. -/
theorem Attributes.serialized_eq_compact (a : Attributes) : a.serialized = a.toJson.compact := by
  rw [serialized, toJson, Json.compact_object, List.map_map]
  congr 1
  refine List.map_congr_left fun (name, value) _ => ?_
  show Json.namedMember name value.serialized = Json.namedMember name value.toJson.compact
  rw [value.serialized_eq_compact]

namespace Element

mutual
/-- The element as a JSON object; what is empty is left out. -/
def toJson : Element → Json
  | ⟨tag, attributes, children⟩ => .object (
    ("tag", .string tag) ::
      (if attributes.isEmpty then [] else [("attributes", attributes.toJson)]) ++
      (if children.isEmpty then [] else [("children", .array (toJsonAll children))]))

def toJsonAll : List Element → List Json
  | [] => []
  | e :: es => toJson e :: toJsonAll es
end

mutual
/-- To write an element is to write its JSON. -/
theorem serialized_eq_compact (e : Element) : e.serialized = e.toJson.compact := by
  match e with
  | ⟨tag, attributes, children⟩ =>
    rw [serialized, toJson, Json.compact_object, serializedAll_eq_compact children,
      ← Json.compact_array, attributes.serialized_eq_compact, ← Json.compact]
    congr 1
    -- Either of the two fields may be missing.
    cases attributes.isEmpty <;> cases children.isEmpty <;> rfl

/-- The same of elements in a row. -/
theorem serializedAll_eq_compact (es : List Element) :
    serializedAll es = (toJsonAll es).map Json.compact := by
  match es with
  | [] => rw [serializedAll, toJsonAll, List.map_nil]
  | e :: es =>
    rw [serializedAll, toJsonAll, List.map_cons, serialized_eq_compact e,
      serializedAll_eq_compact es]
end

end Element

/-! ## Plain values -/

/-- The value came out of JSON without floats, in which the members of objects are in order. -/
def Value.IsPlain (v : Value) : Prop :=
  ∃ j : Json, v = .ofJson j ∧ j.FloatFree ∧ j.InOrder

/-- A number that is no float is neither an infinity nor a NaN. -/
theorem Json.IsNoFloat.isFinite {j : Json} (h : j.IsNoFloat) : j.IsFinite :=
  fun x hx => absurd hx (h x)

/-- The JSON of a plain value is what the value came from. -/
theorem Value.IsPlain.toJson {v : Value} (h : v.IsPlain) :
    v = .ofJson v.toJson ∧ v.toJson.FloatFree ∧ v.toJson.InOrder := by
  obtain ⟨j, rfl, hfloats, horder⟩ := h
  rw [toJson_ofJson hfloats.self.isFinite]
  exact ⟨rfl, hfloats, horder⟩

namespace Attributes

def ArePlain (a : Attributes) : Prop :=
  ∀ entry ∈ a.entries, entry.2.IsPlain

theorem floatFree_toJson {a : Attributes} (h : a.ArePlain) : a.toJson.FloatFree := by
  refine ⟨nofun, Json.everyMember_iff.mpr fun entry hentry => ?_⟩
  obtain ⟨named, hnamed, rfl⟩ := List.mem_map.mp hentry
  exact (h named hnamed).toJson.2.1

end Attributes

namespace Element

mutual
theorem floatFree_toJson {e : Element} (h : ∀ d ∈ e.walk, d.attributes.ArePlain) :
    e.toJson.FloatFree := by
  match e with
  | ⟨tag, attributes, children⟩ =>
    rw [walk, List.forall_mem_cons] at h
    obtain ⟨hattributes, hchildren⟩ := h
    have htag : (Json.string tag).FloatFree := nofun
    have hattributes : attributes.toJson.FloatFree := Attributes.floatFree_toJson hattributes
    have hchildren : (Json.array (toJsonAll children)).FloatFree :=
      ⟨nofun, everyItem_toJsonAll hchildren⟩
    rw [toJson]
    refine ⟨nofun, Json.everyMember_iff.mpr ?_⟩
    cases attributes.isEmpty <;> cases children.isEmpty <;> simp [htag, hattributes, hchildren]

/-- The same of elements in a row. -/
theorem everyItem_toJsonAll {es : List Element} (h : ∀ d ∈ walkAll es, d.attributes.ArePlain) :
    Json.EveryItem Json.IsNoFloat (toJsonAll es) := by
  match es with
  | [] => rw [toJsonAll]; trivial
  | e :: es =>
    rw [walkAll, List.forall_mem_append] at h
    rw [toJsonAll]
    exact ⟨floatFree_toJson h.1, everyItem_toJsonAll h.2⟩
end

/-! ## Reading attributes -/

variable (outer : Outer) (d : Draft)

/-- Where the reading is while the value of an attribute is put together, and when it is complete. -/
def attributeReading (read : Attributes) (name : String) :
    Assembly → Reading
  | .building frames => .attributes outer d (.value read name (.building frames))
  | .done j => .attributes outer d (.open (read.insert name (.ofJson j)))

/-- The value of an attribute is put together like any other value. -/
theorem builds_attribute (read : Attributes) (name : String) :
    Assembly.Builds Reading.sink (attributeReading outer d read name) where
  skips _ := rfl
  room _ := rfl
  accept frames e := by
    show Reading.accept (.attributes outer d (.value read name (.building frames))) e = _
    rw [Reading.accept, Attributes.Reading.accept]
    cases (Assembly.building frames).accept e <;> rfl

/-- An attribute with a plain value is read and set. -/
theorem hears_attribute (read : Attributes) (name : String) {value : Value} (h : value.IsPlain) :
    Reading.sink.Hears (.attributes outer d (.open read)) (.key name :: value.toJson.events)
      (.attributes outer d (.open (read.insert name value))) := by
  obtain ⟨hvalue, -, horder⟩ := h.toJson
  have hevents := (builds_attribute outer d read name).hears_events value.toJson []
  rw [Json.inOrder_eq_self horder] at hevents
  -- What is put together is the JSON of the value, which becomes the value again.
  have hdone : attributeReading outer d read name (Assembly.place value.toJson []) =
      .attributes outer d (.open (read.insert name value)) := by
    show Reading.attributes outer d (.open (read.insert name (.ofJson value.toJson))) = _
    rw [← hvalue]
  rw [hdone] at hevents
  exact .cons rfl rfl rfl hevents

/-- Attributes are read one after the other, and each of them is set behind those before it. -/
theorem hears_entries (read : Attributes) {entries : List (String × Value)}
    (h : ∀ entry ∈ entries, entry.2.IsPlain) :
    Reading.sink.Hears (.attributes outer d (.open read))
      (Json.memberEvents (entries.map fun (name, value) => (name, value.toJson)))
      (.attributes outer d
        (.open (entries.foldl (fun a entry => a.insert entry.1 entry.2) read))) := by
  induction entries generalizing read with
  | nil => exact .nil _
  | cons entry rest ih =>
    obtain ⟨name, value⟩ := entry
    obtain ⟨hvalue, hrest⟩ := List.forall_mem_cons.mp h
    rw [List.map_cons, Json.memberEvents]
    exact Sink.hears_append.mpr ⟨_, hears_attribute outer d read name hvalue, ih _ hrest⟩

/-- Attributes are read as the same attributes. -/
theorem hears_attributes {a : Attributes} (h : a.ArePlain) :
    Reading.sink.Hears (.inside outer d (.field .attributes)) a.toJson.events
      (.inside outer { d with attributes := some a } (d.after .attributes)) := by
  have hentries := hears_entries outer d .empty h
  -- They are set in their order, which makes the same attributes again.
  have hsame : a.entries.foldl (fun a entry => a.insert entry.1 entry.2) .empty = a :=
    a.ofList_entries
  rw [hsame] at hentries
  have hclose : Reading.sink.Hears (.attributes outer d (.open a)) [.closeObject]
      (.inside outer { d with attributes := some a } (d.after .attributes)) :=
    .cons rfl rfl rfl (.nil _)
  rw [Attributes.toJson, Json.events]
  exact .cons rfl rfl rfl (Sink.hears_append.mpr ⟨_, hentries, hclose⟩)

/-! ## Reading elements -/

/-- Where the reading is behind an element: at the end of the document, or behind one more child. -/
def behind (e : Element) : Outer → Reading
  | [] => .done e
  | (parent, siblings) :: outer => .element ((parent, e :: siblings) :: outer)

/-- The element is complete when its bracket closes. -/
theorem hears_closeObject (tag : String) (a : Option Attributes) (es : Option (List Element)) :
    Reading.sink.Hears (.inside outer ⟨false, some tag, a, es⟩ .name) [.closeObject]
      (behind ⟨tag, a.getD .empty, es.getD []⟩ outer) := by
  refine .cons rfl rfl ?_ (.nil _)
  cases outer <;> rfl

theorem getD_attributes (a : Attributes) :
    (if a.isEmpty then none else some a).getD .empty = a := by
  cases hempty : a.isEmpty with
  | true => exact (Attributes.ext (Ordered.ext (List.isEmpty_iff.mp hempty))).symm
  | false => rfl

theorem getD_children (es : List Element) :
    (if es.isEmpty then none else some es).getD [] = es := by
  cases es <;> rfl

/-- The field of the attributes is read if it is there. -/
theorem hears_attributesField {a : Attributes} (h : a.ArePlain) (tag : String) :
    Reading.sink.Hears (.inside outer ⟨false, some tag, none, none⟩ .name)
      (Json.memberEvents (if a.isEmpty then [] else [("attributes", a.toJson)]))
      (.inside outer ⟨false, some tag, if a.isEmpty then none else some a, none⟩ .name) := by
  cases a.isEmpty with
  | true => exact .nil _
  | false =>
    have hattributes := hears_attributes outer ⟨false, some tag, none, none⟩ h
    show Reading.sink.Hears _ (.key "attributes" :: a.toJson.events ++ []) _
    rw [List.append_nil]
    exact .cons rfl rfl rfl hattributes

/-- The field of the children is read if it is there, and they are read one after the other. -/
theorem hears_childrenField {es : List Element} (tag : String) (a : Option Attributes)
    (h : Reading.sink.Hears (.element ((⟨false, some tag, a, none⟩, []) :: outer))
      (Json.itemEvents (toJsonAll es))
      (.element ((⟨false, some tag, a, none⟩, es.reverse) :: outer))) :
    Reading.sink.Hears (.inside outer ⟨false, some tag, a, none⟩ .name)
      (Json.memberEvents (if es.isEmpty then [] else [("children", .array (toJsonAll es))]))
      (.inside outer ⟨false, some tag, a, if es.isEmpty then none else some es⟩ .name) := by
  cases hempty : es.isEmpty with
  | true => exact .nil _
  | false =>
    -- The children are gathered in reverse, and the closing bracket turns them round.
    have hclose : Reading.sink.Hears
        (.element ((⟨false, some tag, a, none⟩, es.reverse) :: outer)) [.closeArray]
        (.inside outer ⟨false, some tag, a, some es⟩ .name) := by
      refine .cons rfl rfl ?_ (.nil _)
      show Except.ok (Reading.inside outer ⟨false, some tag, a, some es.reverse.reverse⟩ .name) = _
      rw [List.reverse_reverse]
    have hitems := Sink.hears_append.mpr ⟨_, h, hclose⟩
    show Reading.sink.Hears _
      (.key "children" :: (.openArray :: Json.itemEvents (toJsonAll es) ++ [.closeArray]) ++ []) _
    rw [List.append_nil]
    exact .cons rfl rfl rfl (.cons rfl rfl rfl hitems)

mutual
/-- An element is read with everything inside it, and goes to its place. -/
theorem hears_events (outer : Outer) {e : Element} (h : ∀ d ∈ e.walk, d.attributes.ArePlain) :
    Reading.sink.Hears (.element outer) e.toJson.events (behind e outer) := by
  match e with
  | ⟨tag, attributes, children⟩ =>
    rw [walk, List.forall_mem_cons] at h
    have hattributes := hears_attributesField outer h.1 tag
    have hitems := hears_itemEvents outer
      ⟨false, some tag, if attributes.isEmpty then none else some attributes, none⟩ h.2 []
    rw [List.append_nil] at hitems
    have hchildren := hears_childrenField outer tag _ hitems
    have hclose := hears_closeObject outer tag
      (if attributes.isEmpty then none else some attributes)
      (if children.isEmpty then none else some children)
    rw [getD_attributes, getD_children] at hclose
    have hevents : (toJson ⟨tag, attributes, children⟩).events =
        .openObject :: .key "tag" :: .string tag ::
          (Json.memberEvents
              (if attributes.isEmpty then [] else [("attributes", attributes.toJson)]) ++
            (Json.memberEvents
                (if children.isEmpty then [] else [("children", .array (toJsonAll children))]) ++
              [.closeObject])) := by
      rw [toJson, Json.events, Json.memberEvents_append, List.cons_append, List.append_assoc]
      rfl
    rw [hevents]
    -- The bracket and the tag are heard first, then the two fields that may be missing.
    refine .cons rfl rfl rfl (.cons rfl rfl rfl (.cons rfl rfl rfl ?_))
    exact Sink.hears_append.mpr ⟨_, hattributes, Sink.hears_append.mpr ⟨_, hchildren, hclose⟩⟩

/-- Elements in a row are read one after the other, and become children of the element around
them. -/
theorem hears_itemEvents (outer : Outer) (d : Draft) {es : List Element}
    (h : ∀ d ∈ walkAll es, d.attributes.ArePlain) (siblings : List Element) :
    Reading.sink.Hears (.element ((d, siblings) :: outer)) (Json.itemEvents (toJsonAll es))
      (.element ((d, es.reverse ++ siblings) :: outer)) := by
  match es with
  | [] => rw [toJsonAll]; exact .nil _
  | e :: es =>
    rw [walkAll, List.forall_mem_append] at h
    have hfirst := hears_events ((d, siblings) :: outer) h.1
    have hlater := hears_itemEvents outer d h.2 (e :: siblings)
    rw [toJsonAll, Json.itemEvents, List.reverse_cons, List.append_assoc]
    exact Sink.hears_append.mpr ⟨_, hfirst, hlater⟩
end

/-! ## Documents -/

/-- A document that was written is read as the same document: the same tags, the same attributes in the
same order with the same values, the same children. Its attributes have to be plain values, and it must
not nest deeper than a reader goes along with. The text is that of a JSON object, and so it is for each
element inside; the tag is always there, attributes and children only if there are any. -/
theorem parse_serialized {e : Element}
    (hplain : ∀ d ∈ e.walk, ∀ entry ∈ d.attributes.entries, entry.2.IsPlain)
    (hdepth : e.toJson.depth ≤ 127) :
    Element.parse e.serialized = .ok e ∧ e.serialized = e.toJson.compact ∧
      ∀ d ∈ e.walk, ∃ fields, d.serialized = Json.compact (.object fields) ∧
        Members.names fields = "tag" ::
          (if d.attributes.entries = [] then [] else ["attributes"]) ++
          (if d.children = [] then [] else ["children"]) := by
  -- The whole document is an element with nothing open around it.
  have hears : Reading.sink.Hears .start e.toJson.events (.done e) := hears_events [] hplain
  have hlimit : ([] : List Json.Bracket).length + e.toJson.depth ≤ Json.nestingLimit := by
    rw [List.length_nil, Nat.zero_add]
    exact hdepth
  have hread : Json.read Reading.sink .start e.serialized = .ok (.done e) := by
    rw [serialized_eq_compact]
    show Json.Machine.run Reading.sink _ (Json.compact e.toJson) = _
    rw [← List.append_nil (Json.compact e.toJson), Json.Machine.start,
      Json.Machine.run_compact (floatFree_toJson hplain) hlimit Json.Machine.ends_nil hears]
    rfl
  refine ⟨?_, serialized_eq_compact e, fun d _ => ?_⟩
  · rw [Element.parse, hread]
    rfl
  · obtain ⟨tag, attributes, children⟩ := d
    refine ⟨_, by rw [serialized_eq_compact, toJson], ?_⟩
    have hempty : attributes.isEmpty = true ↔ attributes.entries = [] := List.isEmpty_iff
    simp only [hempty, List.isEmpty_iff]
    split <;> split <;> rfl

/-- A table whose columns are given in an attribute, with an empty cell. -/
theorem parse_serialized_table :
    let columns : Json := .array [.object [("t", .string "\""), ("v", .bool true)]]
    let e : Element := ⟨"Table", .ofList [("data-x", .ofJson columns), ("id", .null)],
      [⟨"td", .empty, []⟩]⟩
    let text := "\x7b\"tag\":\"Table\",\"attributes\":\x7b" ++
      "\"data-x\":[\x7b\"t\":\"\\\"\",\"v\":true\x7d],\"id\":null\x7d," ++
      "\"children\":[\x7b\"tag\":\"td\"\x7d]\x7d"
    (∀ d ∈ e.walk, ∀ entry ∈ d.attributes.entries, entry.2.IsPlain) ∧ e.toJson.depth = 4 ∧
      e.serialized = text.toList ∧ Element.parse text.toList = .ok e := by
  intro columns e text
  have hfloats : columns.FloatFree := ⟨nofun, ⟨nofun, nofun, nofun, trivial⟩, trivial⟩
  have horder : columns.InOrder := by
    have hsorted : ["t", "v"].Pairwise (· < ·) := by decide
    refine ⟨nofun, ⟨?_, nofun, nofun, trivial⟩, trivial⟩
    rintro members ⟨⟩
    exact hsorted
  have hplain : ∀ d ∈ e.walk, ∀ entry ∈ d.attributes.entries, entry.2.IsPlain := by
    -- The names of the attributes are in lower case and different, so they are kept as they are
    -- written.
    have hentries : e.attributes.entries = [("data-x", .ofJson columns), ("id", .null)] :=
      Attributes.entries_foldl_insert .empty (by decide) (by decide)
    have hnull : Value.null.IsPlain := ⟨.null, rfl, nofun, nofun⟩
    have htable : ∀ entry ∈ e.attributes.entries, entry.2.IsPlain := by
      rw [hentries]
      simp only [List.forall_mem_cons]
      exact ⟨⟨columns, rfl, hfloats, horder⟩, hnull, nofun⟩
    show ∀ d ∈ [e, ⟨"td", .empty, []⟩], _
    simp only [List.forall_mem_cons]
    exact ⟨htable, nofun, nofun⟩
  have hdepth : e.toJson.depth = 4 := by decide
  have htext : e.serialized = text.toList := by decide
  exact ⟨hplain, hdepth, htext, htext ▸ (parse_serialized hplain (by omega)).1⟩

end Element

end TableMarkup
