import TableMarkup.Proofs.Rendering.Calls
import TableMarkup.Proofs.Rendering.Recorder
import TableMarkup.Proofs.Table.OptionAttributes
import TableMarkup.Rendering.Session

/-!
# Initialisation again and again

The first initialisation of an element changes what later ones read: the marker goes, and an element
without a key is stamped. Neither of these states an option, and neither takes the key away. So a
table that may give way gives way to itself, however often it is initialised.

* `Settings.optionOf?_keyAttribute`: the stamp is no option, whatever the prefixes are.
* `Engine.Settled`: an element whose key, attributes and configuration another initialisation leaves
  as they are; `Engine.settled_accepted` says that the first one makes it so.
* `Recording.recordAll_replicate`: one table made over and over.
* `Session.run_settled`: initialising a settled element a number of times.
* `Session.run_reinitialisation`: the same for any element whose table may give way.
-/

namespace TableMarkup

open Recording

/-! ## Attributes that are no options -/

/-- The name of the stamp ends like no option. -/
theorem Settings.optionOf?_keyAttribute (s : Settings) : s.optionOf? keyAttribute = none := by
  rw [optionOf?, List.find?_eq_none]
  intro c hc
  -- Whatever is put in front of the name of an option, the name ends the same, and the stamp does
  -- not.
  have hends : ∀ c ∈ OptionName.names,
      ¬ c.toList.map Char.toLower <:+ keyAttribute.toList := by
    decide +kernel
  rw [decide_eq_true_iff, lower_attributeOf]
  intro hname
  refine hends c hc ⟨(Text.lower s.dataPrefix ++ Text.lower s.optionPrefix).toList, ?_⟩
  rw [← Text.toList_lower, ← String.toList_append, hname]

namespace Engine

variable {m : Type → Type} [Monad m]

/-- Attributes that state no option may come and go. -/
theorem buildConfig_wear (engine : Engine m) {name : String}
    (h : engine.settings.optionOf? name = none) {a : Attributes} {e : Element}
    (hothers : a.entries.filter (·.1 ≠ name) = e.attributes.entries.filter (·.1 ≠ name)) :
    engine.buildConfig (e.wear a) = engine.buildConfig e := by
  -- Attributes are no part of the header cells.
  have hcells : (e.wear a).headerCells = e.headerCells := by
    cases e
    rfl
  exact buildConfig_congr rfl (engine.settings.optionsOf_eq_of_others h hothers) (by rw [hcells])

/-- A stamp on an element does not change its configuration. -/
theorem buildConfig_insert_keyAttribute (engine : Engine m) (e : Element) (value : Value) :
    engine.buildConfig (e.wear (e.attributes.insert keyAttribute value)) =
      engine.buildConfig e := by
  have hothers := e.attributes.filter_entries_insert keyAttribute value
  rw [lower_keyAttribute] at hothers
  exact engine.buildConfig_wear engine.settings.optionOf?_keyAttribute hothers

theorem buildConfig_erase (engine : Engine m) {name : String}
    (h : engine.settings.optionOf? (Text.lower name) = none) (e : Element) :
    engine.buildConfig (e.wear (e.attributes.erase name)) = engine.buildConfig e := by
  refine engine.buildConfig_wear h ?_
  rw [Attributes.entries_erase, List.filter_filter]
  simp only [Bool.and_self]

theorem buildConfig_stamped (engine : Engine m) (n : Nat) (e : Element) :
    engine.buildConfig (e.wear (stamped n e)) = engine.buildConfig e := by
  cases hkey : keyOf? e with
  | none => rw [stamped_of_none hkey, buildConfig_insert_keyAttribute]
  | some key => rw [stamped_of_some hkey, Element.wear_attributes]

end Engine

theorem Attributes.erase_erase (a : Attributes) (name : String) :
    (a.erase name).erase name = a.erase name := by
  refine ext (Ordered.ext ?_)
  show ((a.erase name).erase name).entries = (a.erase name).entries
  rw [entries_erase, entries_erase, List.filter_filter]
  simp only [Bool.and_self]

/-! ## Settled elements -/

/-- Another initialisation finds the element as the one before found it. -/
structure Engine.Settled (engine : Engine Id) (key : String) (config : TableConfig)
    (e : Element) : Prop where
  /-- The element has the key, and needs no stamp. -/
  key : keyOf? e = some key
  /-- There is no marker to be taken off. -/
  unmarked : e.attributes.erase engine.settings.markerAttribute = e.attributes
  config : engine.buildConfig e = config

/-- An element that has been accepted is settled. -/
theorem Engine.settled_accepted (engine : Engine Id)
    (hid : Text.lower engine.settings.markerAttribute ≠ "id")
    (hstamp : Text.lower engine.settings.markerAttribute ≠ keyAttribute)
    (hoption : engine.settings.optionOf? (Text.lower engine.settings.markerAttribute) = none)
    (n : Nat) (e : Element) :
    engine.Settled (keyAt n e) (engine.buildConfig e)
      (e.wear ((stamped n e).erase engine.settings.markerAttribute)) where
  key := by
    rw [Element.wear, keyOf?_wear_erase hid hstamp, keyOf?_wear_stamped]
  unmarked := (stamped n e).erase_erase _
  config := by
    -- Neither the stamp nor the marker states an option, so the configuration is what it was before
    -- both.
    have herase := engine.buildConfig_erase hoption (e.wear (stamped n e))
    rw [engine.buildConfig_stamped] at herase
    exact herase

/-! ## Tables made again -/

namespace Recording

theorem not_occupied_of_destroys {config : TableConfig} (h : config.destroys) (r : Recording)
    (key : String) : ¬ r.Occupied key config :=
  fun hocc => hocc.2 h

/-- Of one table made several times in a row, the last is there. -/
theorem latest_replicate (n k : Nat) (t : Made) :
    latest n (List.replicate (k + 1) t) = [⟨n + k, t.key, t.config⟩] := by
  induction k generalizing n with
  | zero => simp [latest]
  | succ k ih =>
    -- The same key comes again, so the first one is not the last.
    have hlater : t.key ∈ (List.replicate (k + 1) t).map Made.key := by simp
    rw [List.replicate_succ, latest, if_pos hlater, ih, Nat.add_assoc, Nat.add_comm 1]

/-- Of one table that is made over and over the last is there, behind those under other keys. -/
theorem recordAll_replicate {r : Recording} (h : (r.instances.map Instance.key).Nodup)
    (key : String) (config : TableConfig) (n : Nat) :
    r.recordAll (List.replicate (n + 1) ⟨key, config⟩) =
      { r with
        instances := r.instances.filter (·.key ≠ key) ++ [⟨r.created + n, key, config⟩]
        created := r.created + (n + 1) } := by
  have hothers : (r.instances.filter
      (·.key ∉ (List.replicate (n + 1) (⟨key, config⟩ : Made)).map Made.key)) =
        r.instances.filter (·.key ≠ key) := by
    refine List.filter_congr fun i _ => ?_
    simp
  rw [recordAll_eq h, hothers, latest_replicate, List.length_replicate]

end Recording

/-! ## Runs -/

namespace Session

variable {engine : Engine Id} {document e : Element} {path : List Nat} {r : Recording}

/-- What is reported of an initialisation that succeeds. -/
def made (handle : Nat) : Option (Except Failure (Report Nat)) :=
  some (.ok (.outcome (.handle handle)))

/-- One initialisation of a table for which others give way: it succeeds, and the element is stamped
and loses its marker. -/
theorem perform_initialise_of_destroys (he : document.at? path = some e)
    (hdestroys : (engine.buildConfig e).destroys) :
    perform engine Recording.renderer ⟨path, .initialise⟩ ⟨document, r⟩ =
      (made r.created,
        ⟨document.update
            (fun _ => e.wear ((stamped r.created e).erase engine.settings.markerAttribute)) path,
          r.record (keyAt r.created e) (engine.buildConfig e)⟩) := by
  have hfree := not_occupied_of_destroys hdestroys r (keyAt r.created e)
  have hattempt : engine.initialise Recording.renderer r e =
      ⟨.ok r.created, (stamped r.created e).erase engine.settings.markerAttribute,
        r.record (keyAt r.created e) (engine.buildConfig e)⟩ := by
    rw [engine.initialise_eq_attempt, ← attempt_of_free engine.settings.markerAttribute hfree]
    rfl
  -- What a step makes of an attempt, by a name of its own; the attempt is then put in.
  let effect (attempt : Attempt Refusal Recording Nat) :
      Option (Except Failure (Report Nat)) × Session Recording :=
    (some (Effect.ofInitialisation e attempt).report,
      ⟨document.update (fun _ => (Effect.ofInitialisation e attempt).element) path,
        attempt.renderer⟩)
  have hperform : perform engine Recording.renderer ⟨path, .initialise⟩ ⟨document, r⟩ =
      effect (engine.initialise Recording.renderer r e) := by
    rw [perform, show (⟨document, r⟩ : Session Recording).document.at? path = some e from he]
    rfl
  rw [hperform, hattempt]
  rfl

/-- To initialise a settled element a number of times is to make its table that often. -/
theorem run_settled {key : String} {config : TableConfig} (he : document.at? path = some e)
    (hsettled : engine.Settled key config e) (hdestroys : config.destroys) (n : Nat) :
    run engine Recording.renderer (List.replicate n ⟨path, .initialise⟩) ⟨document, r⟩ =
      ((List.range' r.created n).map made,
        ⟨document, r.recordAll (List.replicate n ⟨key, config⟩)⟩) := by
  -- The document stays the same from step to step; only the record moves on.
  induction n generalizing r with
  | zero => rfl
  | succ n ih =>
    have hstep := perform_initialise_of_destroys (r := r) he (hsettled.config ▸ hdestroys)
    -- An element that is settled has nothing to be stamped with or taken off.
    rw [stamped_of_some hsettled.key, hsettled.unmarked, Element.wear_attributes,
      Element.update_of_at? he, keyAt_of_some hsettled.key, hsettled.config] at hstep
    have hlater := ih (r := r.record key config)
    rw [List.replicate_succ, run_cons, hstep, hlater]
    rfl

/-- A table that may give way is initialised as often as one likes. Each time succeeds; only the first
one changes the element; and one table is there under the key of the element, the last one, with the
configuration that the element had at the beginning. For no engine is the stamp an option. -/
theorem run_reinitialisation (engine : Engine Id)
    (hid : Text.lower engine.settings.markerAttribute ≠ "id")
    (hstamp : Text.lower engine.settings.markerAttribute ≠ keyAttribute)
    (hoption : ∀ c ∈ OptionName.names,
      Text.lower engine.settings.markerAttribute ≠ Text.lower (engine.settings.attributeOf c))
    (version : Option Version) (calls : List Call) {document e : Element} {path : List Nat}
    (he : document.at? path = some e)
    (hdestroy : (engine.buildConfig e).get? OptionName.destroy = some (.bool true)) {n : Nat}
    (hn : 0 < n) :
    let r := ((fresh version).serve calls).2
    let key := (r.keyFor e).1
    let after (k : Nat) :=
      run engine Recording.renderer (List.replicate k ⟨path, .initialise⟩) ⟨document, r⟩
    (after n).1 = (List.range' r.created n).map made ∧
      (after n).2.renderer =
        { r with
          instances := r.instances.filter (·.key ≠ key) ++
            [⟨r.created + (n - 1), key, engine.buildConfig e⟩]
          created := r.created + n } ∧
      (after n).2.document = (after 1).2.document ∧
      ((after n).2.document.at? path).bind keyOf? = some key ∧
      ∀ (m : Type → Type) [Monad m] (other : Engine m) (x : Element) (value : Value),
        other.buildConfig (x.wear (x.attributes.insert keyAttribute value)) =
          other.buildConfig x := by
  intro r key after
  have hkey : key = keyAt r.created e := congrArg Prod.fst (r.keyFor_eq e)
  have hdestroys : (engine.buildConfig e).destroys := TableConfig.destroys_iff.mpr hdestroy
  have hnodup : (r.instances.map Instance.key).Nodup := nodup_keys_serve version calls
  -- The marker is no option, which is what lets it go without a trace in the configuration.
  have hnone : engine.settings.optionOf? (Text.lower engine.settings.markerAttribute) = none := by
    rw [Settings.optionOf?, List.find?_eq_none]
    intro c hc
    simpa using Ne.symm (hoption c hc)
  let accepted := e.wear ((stamped r.created e).erase engine.settings.markerAttribute)
  let page := document.update (fun _ => accepted) path
  have hpage : page.at? path = some accepted := by
    rw [Element.at?_update_self, he, Option.map_some]
  have hsettled : engine.Settled key (engine.buildConfig e) accepted :=
    hkey ▸ engine.settled_accepted hid hstamp hnone r.created e
  have hfirst := perform_initialise_of_destroys (r := r) he hdestroys
  rw [← hkey] at hfirst
  -- The first call settles the element, and the others find it settled.
  have hafter (k : Nat) : after (k + 1) =
      ((List.range' r.created (k + 1)).map made,
        ⟨page, r.recordAll (List.replicate (k + 1) ⟨key, engine.buildConfig e⟩)⟩) := by
    have hlater := run_settled (r := r.record key (engine.buildConfig e)) hpage hsettled hdestroys k
    show run engine Recording.renderer (List.replicate (k + 1) ⟨path, .initialise⟩) _ = _
    rw [List.replicate_succ, run_cons, hfirst, hlater]
    rfl
  obtain ⟨k, rfl⟩ : ∃ k, n = k + 1 := ⟨n - 1, by omega⟩
  rw [hafter k, hafter 0, recordAll_replicate hnodup]
  refine ⟨rfl, rfl, rfl, ?_, fun m _ other x value => other.buildConfig_insert_keyAttribute x value⟩
  show (page.at? path).bind keyOf? = some key
  rw [hpage, Option.bind_some, hsettled.key]

/-- A marked table without an `id`, which states an option, is initialised three times on a page that
has had one table: the option is there each time, and in the last table made. -/
theorem run_reinitialisation_anonymous :
    let engine : Engine Id := ⟨Host.ofJson .null, .standard⟩
    let table : Element := ⟨"table", .ofList [("data-role", .string "datatable"),
      ("data-dt_paging", .string "FALSE")], []⟩
    let calls : List Call := [⟨⟨"table", .ofList [("id", .string "first")], []⟩, .start⟩]
    let r := ((fresh none).serve calls).2
    let s := (run engine Recording.renderer (List.replicate 3 ⟨[], .initialise⟩) ⟨table, r⟩).2
    (engine.buildConfig table).get? OptionName.destroy = some (.bool true) ∧
      (engine.buildConfig s.document).keys = ["destroy", "paging"] ∧
      s.renderer.instances.map (fun i => (i.id, i.key, (i.config.get? "paging").bind Value.bool?)) =
        [(0, "first", none), (3, "table-1", some false)] ∧
      s.document.attributes.text? "data-role" = none ∧
      s.document.attributes.text? keyAttribute = some "table-1" := by
  intro engine table calls r s
  have hdestroy : (engine.buildConfig table).get? OptionName.destroy = some (.bool true) :=
    TableConfig.destroys_iff.mp (by decide +kernel)
  obtain ⟨-, hrenderer, hdocument, -⟩ := run_reinitialisation engine (by decide) (by decide)
    (by decide +kernel) none calls (show table.at? [] = some table from rfl) hdestroy
    (show 0 < 3 by decide)
  have hinstances : s.renderer = _ := hrenderer
  have hfirst : s.document = _ := hdocument
  rw [hinstances, hfirst]
  refine ⟨hdestroy, ?_⟩
  decide +kernel

end Session

end TableMarkup
