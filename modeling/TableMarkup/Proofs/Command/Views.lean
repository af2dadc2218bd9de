import TableMarkup.Command.Program
import TableMarkup.Proofs.Rendering.Admission

/-!
# The two views of a document

The view of `config` lists the marked tables of a document with their configurations. The view of
`init` shows what a record holds once these tables have been handed over, if all of them are
accepted. Both go through the document in the same order, so the second view follows from the first.

* `Engine.listed`: the tables that would be made, in the order of the first view.
* `Engine.record_eq`: handing over the marked tables is making these tables, and it fails where one
  of them is not admitted.
* `Engine.showInit_error_iff`, `Engine.member?_instances_showInit`: when there is no second view, and
  what it shows.
* `Engine.showInit_of_showTables`: the second view in terms of the first.
-/

namespace TableMarkup

open Recording

/-! ## Parts of a view -/

def Json.member? (name : String) : Json → Option Json
  | .object members => Members.get? name members
  | _ => none

def Json.item? (i : Nat) : Json → Option Json
  | .array items => items[i]?
  | _ => none

theorem Json.member?_ofMembers_last (entries : List (String × Json)) (name : String) (j : Json) :
    (Json.ofMembers (entries ++ [(name, j)])).member? name = some j := by
  rw [ofMembers, member?, Members.ofList, List.foldl_append]
  exact Members.get?_insert_self ..

/-! ## The record of a pass -/

namespace Engine

/-- The tables that `init` would make, in the order in which `config` lists them. -/
def listed (engine : Engine Id) (document : Element) : List Made :=
  making engine.buildConfig 0 (engine.settings.selector.find document)

/-- The record after all marked tables have been handed over, and whether that succeeds. -/
theorem record_eq (engine : Engine Id) (document : Element) (version : Version) :
    ((fresh (some version)).Admits (engine.listed document) →
      engine.record document version =
        .ok ((fresh (some version)).recordAll (engine.listed document))) ∧
    (¬ (fresh (some version)).Admits (engine.listed document) →
      ∃ refusal, engine.record document version = .error refusal) := by
  -- The pass of the command is the course over all marked elements, from an empty record.
  let c : Course renderer engine.settings.markerAttribute (fresh (some version))
      (engine.settings.selector.located document) := engine.course renderer _ _
  have hswept : engine.initialiseAll renderer (fresh (some version)) document =
      (document.wearing c.attributesOf, c.pass) :=
    engine.initialiseMatching_eq_course renderer _ _ document
  have hrefusal := refusal_eq_none_iff c (engine.configs_course renderer _ _)
  have hcourse := (course_renderer c (engine.configs_course renderer _ _)).2.2
  rw [Selector.map_snd_located] at hrefusal hcourse
  have hrecord : engine.record document version = c.pass.outcome.map fun _ => c.final := by
    rw [record, hswept]
    rfl
  rw [hrecord, Pass.outcome, Course.pass]
  constructor
  · intro hadmits
    -- If all are admitted, the record holds the tables that are listed.
    have hfinal : c.final = (fresh (some version)).recordAll (engine.listed document) :=
      hcourse.trans (congrArg (recordAll _) (admits_iff.mp hadmits))
    rw [hrefusal.mpr hadmits, hfinal]
    rfl
  · intro hadmits
    obtain ⟨refusal, hsome⟩ := Option.ne_none_iff_exists'.mp (hrefusal.not.mpr hadmits)
    rw [hsome]
    exact ⟨refusal, rfl⟩

/-! ## The views -/

/-- The first view lists the marked tables, each with its configuration. -/
theorem item?_showTables (engine : Engine Id) (document : Element)
    (i : Fin (engine.settings.selector.find document).length) :
    ((engine.showTables document).item? i).bind (Json.member? "config") =
      some (engine.buildConfig (engine.settings.selector.find document)[i]).toJson := by
  -- The item names the table and shows its configuration last.
  have hitem : (engine.showTables document).item? i =
      some (Json.ofMembers ([("table", .string
        ((engine.settings.selector.find document)[i].id?.getD (String.ofList (Text.digits i))))] ++
          [("config",
            (engine.buildConfig (engine.settings.selector.find document)[i]).toJson)])) := by
    simp [showTables, Json.item?, tables, TableEntry.toJson]
  rw [hitem, Option.bind_some, Json.member?_ofMembers_last]

/-- With a version that can be read, the second view shows the record of the pass or its refusal. -/
theorem showInit_eq (engine : Engine Id) (document : Element) {versionText : String}
    {version : Version} (hversion : Version.parse? versionText = some version) :
    engine.showInit document versionText =
      ((engine.record document version).mapError .refused).map fun r =>
        Json.ofMembers
          ([("warning", (engine.incompatibility renderer (fresh (some version))).elim .null
              fun w => .string w.message)] ++
            [("instances", .array (r.instances.map Instance.toJson))]) := by
  simp only [showInit, hversion, showRecord]
  cases engine.record document version <;> rfl

/-- There is no second view where the listed tables are not admitted. -/
theorem showInit_error_iff (engine : Engine Id) (document : Element) {versionText : String}
    {version : Version} (hversion : Version.parse? versionText = some version) :
    (∃ failure, engine.showInit document versionText = .error failure) ↔
      ¬ (fresh (some version)).Admits (engine.listed document) := by
  obtain ⟨hmade, hfailed⟩ := engine.record_eq document version
  rw [engine.showInit_eq document hversion]
  -- A refusal is the only way to fail, once the version has been read.
  constructor
  · rintro ⟨failure, hfailure⟩ hadmits
    rw [hmade hadmits] at hfailure
    contradiction
  · intro hadmits
    obtain ⟨refusal, hrefusal⟩ := hfailed hadmits
    rw [hrefusal]
    exact ⟨_, rfl⟩

/-- The second view shows the latest of the listed tables. -/
theorem member?_instances_showInit (engine : Engine Id) (document : Element) {versionText : String}
    {version : Version} (hversion : Version.parse? versionText = some version) {shown : Json}
    (hok : engine.showInit document versionText = .ok shown) :
    shown.member? "instances" =
      some (.array ((latest 0 (engine.listed document)).map Instance.toJson)) := by
  -- Had the listed tables not been admitted, there would be no second view.
  have hadmits : (fresh (some version)).Admits (engine.listed document) := by
    by_contra hnot
    obtain ⟨failure, hfailure⟩ := (engine.showInit_error_iff document hversion).mpr hnot
    rw [hfailure] at hok
    contradiction
  rw [engine.showInit_eq document hversion, (engine.record_eq document version).1 hadmits] at hok
  obtain rfl := Except.ok.inj hok
  rw [Json.member?_ofMembers_last, recordAll_fresh]

/-- What `init` shows in terms of what `config` lists. It fails exactly where a table comes to the
key of an earlier one without leave to take its place. Else it shows, with the configurations that
`config` shows, the tables after which there is none of their key. -/
theorem showInit_of_showTables (engine : Engine Id) (document : Element) {versionText : String}
    {version : Version} (hversion : Version.parse? versionText = some version) :
    let found := engine.settings.selector.find document
    let key (i : Fin found.length) : String := keyAt i found[i]
    let config (i : Fin found.length) : TableConfig := engine.buildConfig found[i]
    (∃ items, engine.showTables document = .array items ∧ items.length = found.length) ∧
    (∀ i : Fin found.length, ((engine.showTables document).item? i).bind (Json.member? "config") =
      some (config i).toJson) ∧
    ((∃ failure, engine.showInit document versionText = .error failure) ↔
      ∃ j i, j < i ∧ key j = key i ∧ (config i).get? OptionName.destroy ≠ some (.bool true)) ∧
    ∀ shown, engine.showInit document versionText = .ok shown →
      shown.member? "instances" = some (.array
        (((List.finRange found.length).filter fun i => ∀ k, i < k → key k ≠ key i).map
          fun i : Fin found.length => Json.ofMembers [("id", .ofNat i), ("key", .string (key i)),
            ("config", (config i).toJson)])) := by
  intro found key config
  have hlisted : engine.listed document = List.ofFn fun i => ⟨key i, config i⟩ :=
    making_eq_ofFn engine.buildConfig found
  -- In terms of positions: a table comes to the key of an earlier one only to take its place.
  have hadmits : (fresh (some version)).Admits (engine.listed document) ↔
      ∀ j i, j < i → key j = key i → (config i).get? OptionName.destroy = some (.bool true) := by
    rw [admits_fresh_iff, hlisted, List.pairwise_ofFn]
    simp only [TableConfig.destroys_iff]
  refine ⟨⟨_, rfl, by simp [tables, found]⟩, engine.item?_showTables document, ?_, ?_⟩
  · rw [engine.showInit_error_iff document hversion, hadmits]
    push Not
    rfl
  · intro shown hok
    -- The numbers count from zero, so they are the positions.
    have hinstance : (Instance.toJson ∘ fun i : Fin found.length => ⟨0 + i, key i, config i⟩) =
        fun i : Fin found.length => Json.ofMembers [("id", .ofNat i), ("key", .string (key i)),
          ("config", (config i).toJson)] := by
      funext i
      rw [Function.comp_apply, Instance.toJson, Nat.zero_add]
    rw [engine.member?_instances_showInit document hversion hok, hlisted, latest_ofFn,
      List.map_map, hinstance]

/-- The engine of the standard settings, with no global names. -/
def bare : Engine Id := ⟨Host.ofJson .null, .standard⟩

/-- A marked table with an `id`. -/
def tableNamed (id : String) : Element :=
  ⟨"table", .ofList [("data-role", .string "datatable"), ("id", .string id)], []⟩

/-- Three marked tables in a row, of which the first and the last have one `id`. -/
def sameIds : Element :=
  ⟨"body", .empty, [tableNamed "a", tableNamed "b", tableNamed "a"]⟩

/-- No table of `sameIds` is kept from taking the place of an earlier one, so `init` succeeds, and of
the two tables of one `id` it shows the last. -/
theorem showInit_of_showTables_sameId :
    Version.parse? "1.10.0" = some ⟨1, 10, 0⟩ ∧
    ∃ shown, bare.showInit sameIds "1.10.0" = .ok shown ∧
      shown.member? "instances" = some (.array [
        .ofMembers [("id", .ofNat 1), ("key", .string "b"),
          ("config", (bare.buildConfig (tableNamed "b")).toJson)],
        .ofMembers [("id", .ofNat 2), ("key", .string "a"),
          ("config", (bare.buildConfig (tableNamed "a")).toJson)]]) := by
  have hversion : Version.parse? "1.10.0" = some ⟨1, 10, 0⟩ := by rfl
  have hdestroys : ∀ e ∈ bare.settings.selector.find sameIds, (bare.buildConfig e).destroys := by
    decide +kernel
  obtain ⟨-, -, hfails, hshown⟩ := showInit_of_showTables bare sameIds hversion
  refine ⟨hversion, ?_⟩
  cases hinit : bare.showInit sameIds "1.10.0" with
  | error failure =>
    obtain ⟨j, i, -, -, hstays⟩ := hfails.mp ⟨failure, hinit⟩
    exact absurd (TableConfig.destroys_iff.mp (hdestroys _ (List.getElem_mem i.isLt))) hstays
  | ok shown =>
    refine ⟨shown, rfl, ?_⟩
    rw [hshown shown hinit]
    rfl

end Engine

end TableMarkup
