import TableMarkup.Proofs.Rendering.Journal
import TableMarkup.Proofs.Rendering.Recorder

/-!
# Keys given in a session

Every hand-over to the recording renderer gives its element a key, whether a table is made or not.
A key that an element has of its own is given again; to an element without one, a key is given that
is made up of its tag and the number of tables made so far, and the element bears it from then on.

* `Grant`, `Session.grants`: the keys given by hand-overs, one after the other.
* `Element.ownKey?`: the key that an element of a document has of its own.
* `Granting`: what one hand-over does to own keys and to the record; `Session.granting` says that
  hand-overs do so, as long as the marker is neither `id` nor the stamp.
-/

namespace TableMarkup

open Recording

/-! ## Own keys -/

/-- The key that the element at a path has of its own. -/
def Element.ownKey? (root : Element) (path : List Nat) : Option String :=
  (root.at? path).bind keyOf?

theorem Element.ownKey?_of_at? {root e : Element} {path : List Nat} (h : root.at? path = some e) :
    root.ownKey? path = keyOf? e := by
  rw [ownKey?, h, Option.bind_some]

/-- The key is told by the attributes. -/
theorem Element.ownKey?_eq_label? (root : Element) (path : List Nat) :
    root.ownKey? path = (root.label? path).bind fun x => keyOf? ⟨x.1, x.2, []⟩ := by
  rw [ownKey?, label?, Option.bind_map]
  rfl

/-- A change of attributes changes the key of no other element. -/
theorem Element.ownKey?_update_wear_of_ne {root : Element} {p path : List Nat} (h : p ≠ path)
    (a : Attributes) : (root.update (Element.wear a) path).ownKey? p = root.ownKey? p := by
  rw [ownKey?_eq_label?, ownKey?_eq_label?, label?_update_of_ne h]

/-! ## Grants -/

/-- A key that is given to an element as it is handed over. -/
structure Grant where
  path : List Nat
  key : String
  /-- Whether the key is made up, because the element has none. -/
  numbered : Bool
  /-- How many tables have been made before. -/
  number : Nat
  accepted : Bool

namespace Session

def grantTo (s : Session Recording) (h : HandOver) (e : Element) : Grant where
  path := h.path
  key := (s.renderer.keyFor e).1
  numbered := (keyOf? e).isNone
  number := s.renderer.created
  accepted := (s.renderer.initialise e h.config).outcome.isOk

/-- The key given by a hand-over, unless its path leads nowhere. -/
def grant? (s : Session Recording) (h : HandOver) : Option Grant :=
  (s.document.at? h.path).map (s.grantTo h)

def grants (marker : String) : Session Recording → List HandOver → List Grant
  | _, [] => []
  | s, h :: hs => (s.grant? h).toList ++ grants marker (s.handOver Recording.renderer marker h) hs

theorem grants_append (marker : String) (s : Session Recording) (hs ks : List HandOver) :
    s.grants marker (hs ++ ks) =
      s.grants marker hs ++ (s.replay Recording.renderer marker hs).grants marker ks := by
  -- Each key is given in the session that the hand-overs before it have left.
  induction hs generalizing s with
  | nil => rfl
  | cons h hs ih => rw [List.cons_append, grants, grants, ih, replay_cons, List.append_assoc]

end Session

/-! ## What a hand-over does -/

/-- What it is for a session to give a key and to become another session. -/
structure Granting (s : Session Recording) (g : Grant) (s' : Session Recording) : Prop where
  /-- The element has the key from then on, and all others keep what they have. -/
  ownKey (p : List Nat) :
    s'.document.ownKey? p = if p = g.path then some g.key else s.document.ownKey? p
  /-- Either the element has the key already, or it has none and the key is made up. -/
  source : (s.document.ownKey? g.path = some g.key ∧ g.numbered = false) ∨
    (s.document.ownKey? g.path = none ∧ g.numbered = true ∧
      ∃ tag, g.key = numberedKey tag g.number)
  number : g.number = s.renderer.created
  /-- Either a table is made under the key, or a table of that key is there and stays. -/
  outcome : (g.accepted = true ∧ ∃ config, s'.renderer = s.renderer.record g.key config) ∨
    (g.accepted = false ∧ s'.renderer = s.renderer ∧ ∃ i ∈ s.renderer.instances, i.key = g.key)

namespace Session

variable {marker : String}

/-- After a try the element has the key that it was tried with, whether it was accepted or not. -/
theorem keyOf?_wear_attempt (hid : Text.lower marker ≠ "id")
    (hstamp : Text.lower marker ≠ keyAttribute) (r : Recording) (e : Element)
    (config : TableConfig) :
    keyOf? (e.wear (Recording.renderer.attempt marker r e config).attributes) =
      some (keyAt r.created e) := by
  -- If it is accepted, the marker goes too, and the marker is not what holds the key.
  by_cases hocc : r.Occupied (keyAt r.created e) config
  · rw [attempt_of_occupied marker hocc, Element.wear]
    exact keyOf?_wear_stamped e.tag e.children r.created e
  · rw [attempt_of_free marker hocc, Element.wear, keyOf?_wear_erase hid hstamp]
    exact keyOf?_wear_stamped e.tag e.children r.created e

/-- A hand-over gives its key. -/
theorem granting (hid : Text.lower marker ≠ "id") (hstamp : Text.lower marker ≠ keyAttribute)
    {s : Session Recording} {h : HandOver} {e : Element} (he : s.document.at? h.path = some e) :
    Granting s (s.grantTo h e) (s.handOver Recording.renderer marker h) := by
  have hkey : (s.grantTo h e).key = keyAt s.renderer.created e := by
    rw [grantTo, keyFor_eq]
  rw [handOver_of_at? Recording.renderer marker he]
  constructor
  case ownKey =>
    intro p
    rw [hkey]
    split
    -- At the path the element has been changed by the try, which left its key on it.
    · next hp =>
      have hat := Element.at?_update_self
        (Element.wear (Recording.renderer.attempt marker s.renderer e h.config).attributes) p
        s.document
      rw [show p = h.path from hp, he, Option.map_some] at hat
      rw [show p = h.path from hp, Element.ownKey?_of_at? hat]
      exact keyOf?_wear_attempt hid hstamp s.renderer e h.config
    · next hp => exact Element.ownKey?_update_wear_of_ne hp _
  case source =>
    rw [hkey, show (s.grantTo h e).path = h.path from rfl, Element.ownKey?_of_at? he]
    -- The key that was given is the own key, or it was made up since there is none.
    cases hown : keyOf? e with
    | some key => exact .inl ⟨by rw [keyAt_of_some hown], by simp [grantTo, hown]⟩
    | none =>
      exact .inr ⟨rfl, by simp [grantTo, hown], e.tag, keyAt_of_none hown s.renderer.created⟩
  case number => rfl
  case outcome =>
    rw [hkey]
    -- A refusal names a table that is there; otherwise a table is made under the key.
    by_cases hocc : s.renderer.Occupied (keyAt s.renderer.created e) h.config
    · right
      obtain ⟨i, hi⟩ := Option.isSome_iff_exists.mp hocc.1
      refine ⟨?_, ?_, i, List.mem_of_find?_eq_some hi, by simpa using List.find?_some hi⟩
      · simp [grantTo, initialise_of_occupied hocc, Except.isOk, Except.toBool]
      · rw [attempt_of_occupied marker hocc]
    · left
      refine ⟨?_, h.config, ?_⟩
      · simp [grantTo, initialise_of_free hocc, Except.isOk, Except.toBool]
      · rw [attempt_of_free marker hocc]

end Session

end TableMarkup
