import TableMarkup.Proofs.Rendering.Recorder

/-!
# A pass of a recorder over a document

A pass over the marked tables numbers the tables it makes in order, stamps elements without a key,
and takes the marker off those that were accepted. All else on the page stays.

* `Attributes.without`: the attributes that nobody stamps or takes off.
* `Course.Exact`: what a pass comes to, on the page and in its outcome; `Course.exact` says that
  every course over marked elements comes to that.
* `Engine.initialiseAll_exact`: every pass of a recorder comes to exactly that.
-/

namespace TableMarkup

open Recording

/-! ## What others see of a stamp -/

/-- The attributes but for some names, in order. -/
def Attributes.without (a : Attributes) (names : List String) : List (String × Value) :=
  a.entries.filter (·.1 ∉ names)

theorem Attributes.without_cons (a : Attributes) (name : String) (names : List String) :
    a.without (name :: names) = (a.without names).filter (·.1 ≠ name) := by
  rw [without, without, List.filter_filter]
  congr 1
  funext entry
  simp [not_or]

theorem Attributes.without_erase (a : Attributes) (name : String) (names : List String) :
    (a.erase name).without (Text.lower name :: names) = a.without (Text.lower name :: names) := by
  rw [without_cons, without_cons, without, without, entries_erase, List.filter_filter,
    List.filter_filter, List.filter_filter]
  congr 1
  -- Entry by entry: the erased name is among the names left out anyhow.
  funext entry
  grind

/-- A stamp leaves all other attributes in their order. -/
theorem Recording.without_stamped (n : Nat) (e : Element) :
    (stamped n e).without [keyAttribute] = e.attributes.without [keyAttribute] := by
  -- There is a stamp to leave out only where there was no key.
  cases hkey : keyOf? e with
  | none =>
    have hfilter := e.attributes.filter_entries_insert keyAttribute
      (.string (numberedKey e.tag n))
    rw [lower_keyAttribute] at hfilter
    rw [stamped_of_none hkey]
    simpa [Attributes.without] using hfilter
  | some key => rw [stamped_of_some hkey]

/-- An element is stamped only where it has no stamp, so a text that it holds stays. -/
theorem Recording.text?_stamped_of_some {name text : String} {e : Element} (n : Nat)
    (h : e.attributes.text? name = some text) : (stamped n e).text? name = some text := by
  -- A text under the name of the stamp is a key, and then there is no new stamp.
  by_cases hname : Text.lower name = keyAttribute
  · have hstamp : e.attributes.text? keyAttribute = some text := by
      rw [← h]
      exact e.attributes.text?_congr (by rw [hname, lower_keyAttribute])
    have hkey : (keyOf? e).isSome := by simp [keyOf?, hstamp]
    obtain ⟨key, hkey⟩ := Option.isSome_iff_exists.mp hkey
    rw [stamped_of_some hkey, h]
  · rw [text?_stamped_of_ne hname, h]

/-! ## The whole effect -/

variable {ρ : Type}

/-- What a pass over a document has come to, on the page and in its outcome. The course tells the
elements that were handed over and the tree after it; the record says how many tables there were
before. -/
structure Course.Exact {r : Renderer ρ Nat} {marker : String} {state : ρ}
    {marked : List (List Nat × Element)} (record : ρ → Recording) (markerValue : String)
    (root : Element) (c : Course r marker state marked) (page : Element) : Prop where
  /-- The elements are handed over in order. -/
  handed : c.handed <+: marked
  /-- If none is refused, all are handed over, and their handles are the numbers of new tables. -/
  finished : c.refusal = none →
    c.handed = marked ∧
      c.pass.outcome = .ok (List.range' (record state).created marked.length)
  /-- If one is refused, it is the last that is handed over, and the outcome is its refusal. -/
  ended (refusal : Refusal) : c.refusal = some refusal →
    c.pass.outcome = .error refusal ∧ c.handed.length = c.handles.length + 1 ∧
      ∃ path e before config, c.handed[c.handles.length]? = some (path, e) ∧
        (r.initialise before e config).outcome = .error refusal
  /-- An element that is accepted is stamped, if it has no key, and then loses its marker. -/
  accepted (i : Nat) (path : List Nat) (e : Element) : i < c.handles.length →
    c.handed[i]? = some (path, e) →
      page.label? path = some (e.tag, (stamped ((record state).created + i) e).erase marker) ∧
        ((stamped ((record state).created + i) e).erase marker).without
            [Text.lower marker, keyAttribute] =
          e.attributes.without [Text.lower marker, keyAttribute]
  /-- The element that is refused keeps its marker; it may be stamped and is not changed else. -/
  refused (path : List Nat) (e : Element) : c.handed[c.handles.length]? = some (path, e) →
    ∃ a, page.label? path = some (e.tag, a) ∧
      (a = e.attributes ∨ a = stamped ((record state).created + c.handles.length) e) ∧
      a.text? marker = some markerValue ∧
      a.without [keyAttribute] = e.attributes.without [keyAttribute]
  /-- Every other element stands where it stood, with its tag and its attributes. -/
  others (path : List Nat) : path ∉ c.handed.map Prod.fst → page.label? path = root.label? path

namespace Course

variable {r : Renderer ρ Nat} {marker : String} {state : ρ} {marked : List (List Nat × Element)}
  {record : ρ → Recording} {root : Element}

/-- The page shows an element that was handed over with what it was left with. -/
theorem label?_of_mem_worn (c : Course r marker state marked) (hnodup : (marked.map Prod.fst).Nodup)
    {path : List Nat} {e : Element} {a : Attributes} (he : root.at? path = some e)
    (hworn : (path, a) ∈ c.worn) :
    (root.wearing c.attributesOf).label? path = some (e.tag, a) := by
  rw [c.label?_wearing_attributesOf, Element.label?_of_at? he, c.lookup_worn_of_mem hnodup hworn]
  rfl

/-- Where nothing was handed over, the page shows what it showed before. -/
theorem label?_of_not_mem_handed (c : Course r marker state marked) {path : List Nat}
    (h : path ∉ c.handed.map Prod.fst) :
    (root.wearing c.attributesOf).label? path = root.label? path := by
  -- Nothing was left there, so the page has what it had.
  have hworn : c.worn.lookup path = none := by
    rw [List.lookup_eq_none_iff]
    intro x hx
    rw [bne_iff_ne]
    rintro rfl
    rw [← c.paths_worn] at h
    exact h (List.mem_map_of_mem hx)
  rw [c.label?_wearing_attributesOf, hworn]
  simp

/-- If one is refused, the outcome is its refusal, and it is the last one that was handed over. -/
theorem outcome_of_refusal (hr : r.Keeps record) (c : Course r marker state marked)
    {refusal : Refusal} (h : c.refusal = some refusal) :
    c.pass.outcome = .error refusal ∧ c.handed.length = c.handles.length + 1 ∧
      ∃ path e before config, c.handed[c.handles.length]? = some (path, e) ∧
        (r.initialise before e config).outcome = .error refusal := by
  have hlength := c.length_handed
  rw [h, Option.isSome_some, if_pos rfl] at hlength
  -- The refused element is the one behind those that have handles.
  obtain ⟨⟨path, e⟩, hlast⟩ : ∃ x, c.handed[c.handles.length]? = some x :=
    ⟨_, List.getElem?_eq_getElem (by omega)⟩
  obtain ⟨-, -, -, before, config, cause, hcause, hout⟩ := hr.worn_of_refused c hlast
  rw [h, Option.some.injEq] at hcause
  subst hcause
  refine ⟨?_, hlength, path, e, before, config, hlast, hout⟩
  rw [Pass.outcome, Course.pass, h]

/-- If none is refused, all are handed over, and their handles are numbers in a row. -/
theorem outcome_of_no_refusal (hr : r.Keeps record) (c : Course r marker state marked)
    (h : c.refusal = none) :
    c.handed = marked ∧
      c.pass.outcome = .ok (List.range' (record state).created marked.length) := by
  have hall := c.handed_of_refusal_eq_none h
  -- Without a refusal there are as many handles as elements.
  have hlength := c.length_handed
  rw [hall, h, Option.isSome_none, if_neg (by decide), Nat.add_zero] at hlength
  refine ⟨hall, ?_⟩
  rw [Pass.outcome, Course.pass, h, hlength, ← hr.handles_course c]

/-- A course over marked elements of a document comes to exactly what it should. -/
theorem exact (hr : r.Keeps record) (c : Course r marker state marked) {markerValue : String}
    (hnodup : (marked.map Prod.fst).Nodup)
    (hmarked : ∀ x ∈ marked,
      root.at? x.1 = some x.2 ∧ x.2.attributes.text? marker = some markerValue) :
    c.Exact record markerValue root (root.wearing c.attributesOf) := by
  -- What is handed over is among the marked elements, so it stands on the page and has the marker.
  have hhanded {i : Nat} {path : List Nat} {e : Element} (h : c.handed[i]? = some (path, e)) :
      root.at? path = some e ∧ e.attributes.text? marker = some markerValue :=
    hmarked (path, e) (c.handed_prefix.subset (List.mem_of_getElem? h))
  constructor
  case handed => exact c.handed_prefix
  case finished => exact c.outcome_of_no_refusal hr
  case ended =>
    intro refusal h
    exact c.outcome_of_refusal hr h
  case accepted =>
    intro i path e hi h
    -- The stamp and the marker are the two attributes that a pass touches, and both are left out
    -- here.
    refine ⟨c.label?_of_mem_worn hnodup (hhanded h).1 (hr.worn_of_accepted c hi h), ?_⟩
    rw [Attributes.without_erase, Attributes.without_cons, without_stamped,
      ← Attributes.without_cons]
  case refused =>
    intro path e h
    obtain ⟨a, hworn, ha, -⟩ := hr.worn_of_refused c h
    refine ⟨a, c.label?_of_mem_worn hnodup (hhanded h).1 hworn, ha, ?_⟩
    -- Whether it is stamped or not, the marker was a text before and is one still.
    obtain rfl | rfl := ha
    · exact ⟨(hhanded h).2, rfl⟩
    · exact ⟨text?_stamped_of_some _ (hhanded h).2, without_stamped _ e⟩
  case others =>
    intro path h
    exact c.label?_of_not_mem_handed h

end Course

/-- Whatever a selector with a text condition picks meets the condition. -/
theorem Settings.text?_of_mem_located {s : Settings} {root e : Element} {path : List Nat}
    (h : (path, e) ∈ s.selector.located root) :
    root.at? path = some e ∧ e.attributes.text? s.markerAttribute = some s.markerValue := by
  obtain ⟨hat, hpicks⟩ := Selector.mem_located.mp h
  exact ⟨hat, (Settings.picks_selector.mp hpicks).2⟩

/-- To initialise all marked tables is to take a course over the elements that are marked before the
pass, in document order: configurations are built for those handed over and for no other. The page
after it is the page before, but for what every course does to the elements handed over. -/
theorem Engine.initialiseAll_exact {m : Type → Type} [Monad m] [LawfulMonad m] (engine : Engine m)
    {r : Renderer ρ Nat} {record : ρ → Recording} (hr : r.Keeps record) (state : ρ)
    (root : Element) :
    let marked := engine.settings.selector.located root
    marked.map Prod.snd = engine.settings.selector.find root ∧
    (∀ x ∈ marked, root.at? x.1 = some x.2) ∧
    (marked.map Prod.fst).Nodup ∧
    engine.initialiseAll r state root =
      (fun c => (root.wearing c.attributesOf, c.pass)) <$> engine.course r state marked ∧
    ∀ c : Course r engine.settings.markerAttribute state marked,
      c.Exact record engine.settings.markerValue root (root.wearing c.attributesOf) := by
  intro marked
  have hnodup := Course.nodup_paths (engine.settings.selector.pairwise_located root)
  refine ⟨Selector.map_snd_located _ root, fun x hx => (Selector.mem_located.mp hx).1, hnodup,
    engine.initialiseMatching_eq_course r _ state root, fun c => ?_⟩
  exact c.exact hr hnodup fun x hx => Settings.text?_of_mem_located hx

def markedTable (id : String) : Element :=
  ⟨"table", .ofList [("id", .string id), ("data-role", .string "datatable")], []⟩

/-- A page of three marked tables, of which the second stands deeper than the others. -/
def threeTables : Element :=
  ⟨"body", .empty, [markedTable "first", ⟨"div", .empty, [markedTable "second"]⟩,
    markedTable "third"]⟩

/-- A recorder that is kept from seeing the second table makes the first one, which has no `id` and is
stamped with a key of its own, and the pass ends. The marker is gone from the first table only. -/
theorem Engine.initialiseAll_exact_threeTables :
    let engine : Engine Id := ⟨Host.ofJson .null, .standard⟩
    let recorder := renderer.refusing fun e => if e.id? = some "second" then some "no" else none
    let nameless : Element := ⟨"table", .ofList [("data-role", .string "datatable")], []⟩
    let page : Element := ⟨"body", .empty, [nameless, ⟨"div", .empty, [markedTable "second"]⟩,
      markedTable "third"]⟩
    let marked := engine.settings.selector.located page
    let after := engine.initialiseAll recorder (.fresh none) page
    let read (name : String) (path : List Nat) :=
      (after.1.at? path).bind (·.attributes.text? name)
    recorder.Keeps id ∧ marked.map Prod.fst = [[0], [1, 0], [2]] ∧
    after.2.outcome = .error (.rejected "table" "no") ∧ after.2.handles = [0] ∧
    after.2.renderer.instances.map Instance.key = ["table-0"] ∧
    [[0], [1, 0], [2]].map (read keyAttribute) = [some "table-0", none, none] ∧
    [[0], [1, 0], [2]].map (read "data-role") = [none, some "datatable", some "datatable"] ∧
    ∀ c : Course recorder engine.settings.markerAttribute (.fresh none) marked,
      c.Exact id engine.settings.markerValue page (page.wearing c.attributesOf) := by
  intro engine recorder nameless page marked after read
  refine ⟨keeps_refusing _, by decide, by decide +kernel, by decide +kernel, by decide +kernel,
    by decide +kernel, by decide +kernel, ?_⟩
  exact (Engine.initialiseAll_exact engine (keeps_refusing _) (.fresh none) page).2.2.2.2

end TableMarkup
