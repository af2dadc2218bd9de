import TableMarkup.Json.Assembly
import TableMarkup.Proofs.Json.Written

/-!
# Values that are written and read

A value that is written comes back when its text is read, as far as texts can tell: its numbers are
integers, the members of its objects stand in the order of their names, and it does not nest deeper
than a reader goes along with.

* `Json.InOrder`: values as they come out of texts, with the members of objects in order;
  `Json.inOrder` puts the members of any value in order.
* `Assembly.Builds`: sinks that build a value, alone or as a part of what they read.
* `Assembly.Builds.hears_events`: in such a sink the events of a value build this value, with its
  members put in order.
* `Json.parse?_compact`: a text that was written for a value is read as this value.
-/

namespace TableMarkup

/-- A name behind all others is put last. -/
theorem Members.insert_last {α : Type} {name : String} {value : α} {before : Members α}
    (h : ∀ other ∈ names before, other < name) :
    insert name value before = before ++ [(name, value)] := by
  induction before with
  | nil => rfl
  | cons entry rest ih =>
    obtain ⟨first, v⟩ := entry
    have hfirst : first < name := h first List.mem_cons_self
    have hrest := ih fun other hmem => h other (List.mem_cons_of_mem first hmem)
    -- The search for the place goes past the first member, and further by induction.
    rw [insert, if_neg (String.lt_asymm hfirst), if_neg (Std.ne_of_lt hfirst).symm, hrest]
    rfl

/-- Members that are in order are put in the same order. -/
theorem Members.ofList_of_sorted {α : Type} {members : Members α} (h : Sorted members) :
    ofList members = members := by
  -- The fold adds the members behind those that it has already, so these are any that fit before
  -- them.
  suffices ∀ before : Members α, Sorted (before ++ members) →
      members.foldl (fun members entry => insert entry.1 entry.2 members) before =
        before ++ members from this [] h
  clear h
  induction members with
  | nil => exact fun before _ => (List.append_nil before).symm
  | cons entry rest ih =>
    intro before hsorted
    have hlast : insert entry.1 entry.2 before = before ++ [entry] := by
      refine insert_last fun other hother => ?_
      rw [Sorted, names, List.map_append, List.pairwise_append] at hsorted
      exact hsorted.2.2 other hother entry.1 List.mem_cons_self
    rw [List.append_cons] at hsorted ⊢
    rw [List.foldl_cons, hlast]
    exact ih _ hsorted

namespace Json

def IsInOrder (j : Json) : Prop :=
  ∀ members, j = .object members → Members.Sorted members

/-- The members of every object in the value stand in the order of their names. -/
abbrev InOrder : Json → Prop :=
  Everywhere IsInOrder

mutual
/-- The value with the members of every object put in order, of which the last of each name counts. -/
def inOrder : Json → Json
  | .null => .null
  | .bool b => .bool b
  | .number n => .number n
  | .string s => .string s
  | .array items => .array (inOrderItems items)
  | .object members => .object (Members.ofList (inOrderMembers members))

def inOrderItems : List Json → List Json
  | [] => []
  | j :: js => inOrder j :: inOrderItems js

def inOrderMembers : List (String × Json) → List (String × Json)
  | [] => []
  | (name, j) :: ms => (name, inOrder j) :: inOrderMembers ms
end

mutual
/-- A value whose objects are in order is not changed by putting them in order. -/
theorem inOrder_eq_self {j : Json} (h : InOrder j) : inOrder j = j := by
  match j with
  | .null | .bool _ | .number _ | .string _ => rfl
  | .array items => rw [inOrder, inOrderItems_eq_self h.2]
  | .object members =>
    rw [inOrder, inOrderMembers_eq_self h.2, Members.ofList_of_sorted (h.1 members rfl)]

/-- The same of items. -/
theorem inOrderItems_eq_self {js : List Json} (h : EveryItem IsInOrder js) :
    inOrderItems js = js := by
  match js with
  | [] => rfl
  | j :: js => rw [inOrderItems, inOrder_eq_self h.1, inOrderItems_eq_self h.2]

/-- The same of the values of members, with their names. -/
theorem inOrderMembers_eq_self {ms : List (String × Json)} (h : EveryMember IsInOrder ms) :
    inOrderMembers ms = ms := by
  match ms with
  | [] => rfl
  | (name, j) :: ms =>
    rw [inOrderMembers, inOrder_eq_self h.1, inOrderMembers_eq_self h.2]
end

namespace Assembly

variable {σ : Type} {k : Sink σ} {inside : Assembly → σ}

/-- A sink that builds a value, and meanwhile is where `inside` says. What it does once the value is
complete does not matter. -/
structure Builds (k : Sink σ) (inside : Assembly → σ) : Prop where
  skips (frames : List Frame) : k.skips (inside (.building frames)) = false
  room (frames : List Frame) : k.room (inside (.building frames)) = true
  accept (frames : List Frame) (e : Event) :
    k.accept (inside (.building frames)) e = .ok (inside ((building frames).accept e))

theorem builds_sink : Builds sink id :=
  ⟨fun _ => rfl, fun _ => rfl, fun _ _ => rfl⟩

namespace Builds

theorem hears_cons (h : Builds k inside) {frames : List Frame} {e : Event} {es : List Event} {t : σ}
    (later : k.Hears (inside ((building frames).accept e)) es t) :
    k.Hears (inside (.building frames)) (e :: es) t :=
  .cons (h.skips frames) (h.room frames) (h.accept frames e) later

theorem hears_one (h : Builds k inside) (frames : List Frame) (e : Event) :
    k.Hears (inside (.building frames)) [e] (inside ((building frames).accept e)) :=
  h.hears_cons (.nil _)

mutual
/-- The events of a value build this value, whatever it goes into. -/
theorem hears_events (h : Builds k inside) (j : Json) (frames : List Frame) :
    k.Hears (inside (.building frames)) (events j) (inside (place (inOrder j) frames)) := by
  match j with
  | .null => exact h.hears_one frames .null
  | .bool b => exact h.hears_one frames (.bool b)
  | .number n => exact h.hears_one frames (.number n)
  | .string s => exact h.hears_one frames (.string s)
  | .array items =>
    -- The items are gathered in reverse, and the closing bracket turns them round.
    have hclose := h.hears_one (.items (inOrderItems items).reverse :: frames) .closeArray
    rw [Assembly.accept, List.reverse_reverse] at hclose
    have hall := h.hears_itemEvents items [] frames
    rw [List.append_nil] at hall
    exact h.hears_cons (Sink.hears_append.mpr ⟨_, hall, hclose⟩)
  | .object members =>
    -- The name that came last is kept beside the members, and is of no account at the closing
    -- brace.
    obtain ⟨last, hall⟩ := h.hears_memberEvents members [] "" frames
    have hclose := h.hears_one
      (.members (Members.ofList (inOrderMembers members)) last :: frames) .closeObject
    exact h.hears_cons (Sink.hears_append.mpr ⟨_, hall, hclose⟩)

/-- The events of items put these items behind those that are there already. -/
theorem hears_itemEvents (h : Builds k inside) (js : List Json) (before : List Json)
    (frames : List Frame) :
    k.Hears (inside (.building (.items before :: frames))) (itemEvents js)
      (inside (.building (.items ((inOrderItems js).reverse ++ before) :: frames))) := by
  match js with
  | [] => exact .nil _
  | j :: js =>
    have hfirst := h.hears_events j (.items before :: frames)
    have hlater := h.hears_itemEvents js (inOrder j :: before) frames
    rw [itemEvents, inOrderItems, List.reverse_cons, List.append_assoc]
    exact Sink.hears_append.mpr ⟨_, hfirst, hlater⟩

/-- The events of members insert these members one after the other. -/
theorem hears_memberEvents (h : Builds k inside) (ms : List (String × Json))
    (before : Members Json) (name : String) (frames : List Frame) :
    ∃ last, k.Hears (inside (.building (.members before name :: frames))) (memberEvents ms)
      (inside (.building (.members ((inOrderMembers ms).foldl
        (fun members entry => Members.insert entry.1 entry.2 members) before) last :: frames))) := by
  match ms with
  | [] => exact ⟨name, .nil _⟩
  | (key, j) :: ms =>
    have hfirst := h.hears_events j (.members before key :: frames)
    obtain ⟨last, hlater⟩ := h.hears_memberEvents ms (before.insert key (inOrder j)) key frames
    exact ⟨last, h.hears_cons (Sink.hears_append.mpr ⟨_, hfirst, hlater⟩)⟩
end

end Builds

end Assembly

/-- A text that was written for a value is read as this value. -/
theorem parse?_compact {j : Json} (hfloats : FloatFree j) (horder : InOrder j)
    (hdepth : depth j ≤ nestingLimit) : parse? (compact j) = some j := by
  have hears : Assembly.sink.Hears Assembly.start (events j) (.done (inOrder j)) :=
    Assembly.builds_sink.hears_events j []
  -- Objects that are in order come out as they went in.
  rw [inOrder_eq_self horder] at hears
  have hread : read Assembly.sink Assembly.start (compact j) = .ok (.done j) := by
    show Machine.run Assembly.sink _ (compact j) = _
    rw [← List.append_nil (compact j), Machine.start,
      Machine.run_compact hfloats (by rwa [List.length_nil, Nat.zero_add]) Machine.ends_nil hears]
    rfl
  exact parse?_eq_some_iff.mpr hread

end Json

end TableMarkup
