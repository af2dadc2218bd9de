import TableMarkup.Json.Braces
import TableMarkup.Markup.Selector
import TableMarkup.Version

/-!
# Settings

Settings say how tables are marked and how their options are written:

```text
<table data-role="datatable" data-dt_paging="false">
       marker attribute      data prefix, option prefix, option
```

* `Settings.standard` are the settings that hold where nothing is said.
* `Settings.selector` picks the marked tables; `picks_selector` says which those are.
-/

namespace TableMarkup

/-- How markup is read. -/
structure Settings where
  /-- The prefix of the attributes that carry data. -/
  dataPrefix : String
  /-- The prefix of the options among them. -/
  optionPrefix : String
  tableTag : String
  /-- The attribute that marks them, until they are initialised. -/
  markerAttribute : String
  /-- The text that the marker has to hold. -/
  markerValue : String
  /-- The oldest version that a renderer should have. -/
  minRendererVersion : Version
deriving DecidableEq, Inhabited

namespace Settings

/-- The settings that hold where nothing else is said. -/
def standard : Settings :=
  { dataPrefix := "data-"
    optionPrefix := "dt_"
    tableTag := "table"
    markerAttribute := "data-role"
    markerValue := "datatable"
    minRendererVersion := ⟨1, 10, 0⟩ }

def selector (s : Settings) : Selector :=
  (Selector.ofTag s.tableTag).withAttribute s.markerAttribute s.markerValue

/-- What picks the marked tables: their tag and their marker. -/
theorem picks_selector {s : Settings} {e : Element} :
    s.selector.picks e ↔
      e.hasTag s.tableTag ∧ e.attributes.text? s.markerAttribute = some s.markerValue := by
  rw [selector, Selector.picks, Selector.withAttribute, Bool.and_eq_true]
  simp [Selector.ofTag]

inductive Field where
  | dataPrefix
  | optionPrefix
  | tableTag
  | markerAttribute
  | markerValue
  | minRendererVersion
deriving DecidableEq

def Field.all : List Field :=
  [.dataPrefix, .optionPrefix, .tableTag, .markerAttribute, .markerValue, .minRendererVersion]

def Field.name : Field → String
  | .dataPrefix => "data_prefix"
  | .optionPrefix => "option_prefix"
  | .tableTag => "table_tag"
  | .markerAttribute => "marker_attribute"
  | .markerValue => "marker_value"
  | .minRendererVersion => "min_renderer_version"

def Field.ofName? (name : String) : Option Field :=
  Field.all.find? (·.name = name)

def Field.next? : Field → Option Field
  | .dataPrefix => some .optionPrefix
  | .optionPrefix => some .tableTag
  | .tableTag => some .markerAttribute
  | .markerAttribute => some .markerValue
  | .markerValue => some .minRendererVersion
  | .minRendererVersion => none

def text (s : Settings) : Field → String
  | .dataPrefix => s.dataPrefix
  | .optionPrefix => s.optionPrefix
  | .tableTag => s.tableTag
  | .markerAttribute => s.markerAttribute
  | .markerValue => s.markerValue
  | .minRendererVersion => s.minRendererVersion.render

/-- The settings with a field set from a text. The complaint is about a text that is no version. -/
def withText (s : Settings) (f : Field) (text : String) : Except String Settings :=
  match f with
  | .dataPrefix => .ok { s with dataPrefix := text }
  | .optionPrefix => .ok { s with optionPrefix := text }
  | .tableTag => .ok { s with tableTag := text }
  | .markerAttribute => .ok { s with markerAttribute := text }
  | .markerValue => .ok { s with markerValue := text }
  | .minRendererVersion => (Version.parse text).map fun v => { s with minRendererVersion := v }

def serialized (s : Settings) : List Char :=
  Json.braced (Field.all.map fun f => Json.namedMember f.name (Json.quoted (s.text f)))

end Settings

end TableMarkup
