import TableMarkup.Json.Length
import TableMarkup.Proofs.Json.Listening
import TableMarkup.Proofs.Json.RoundTrip

/-!
# What a text stands for

The events of a text come in the order in which a value is written: a value where one is due, a key in
front of each member, and brackets that close in the reverse order of their opening. So a text that is
read to its end stands for one value, as it is written: with the members of its objects in the order of
the text, repeated ones included.

* `Due`, `Whole`: the events of a value up to a point where another value is due, or where none is.
* `Machine.InCourse`: what is written down fits to what the machine expects next; there is a lemma about
  this for each part of a step.
* `StandsFor`: the text is read as the events of this value.
* `read_eq_ok_iff`: what a sink makes of a text is what it makes of the value that the text stands for.
-/

namespace TableMarkup.Json

/-! ## Events in their order -/

theorem itemEvents_append (before after : List Json) :
    itemEvents (before ++ after) = itemEvents before ++ itemEvents after := by
  induction before with
  | nil => rfl
  | cons j before ih => rw [List.cons_append, itemEvents, ih, itemEvents, List.append_assoc]

/-- With these brackets open, these are the events in front of a value: of an item behind the items
that are complete, or of the member that was named last. -/
inductive Due : List Bracket → List Event → Prop
  | start : Due [] []
  | item {nesting : List Bracket} {es : List Event} (h : Due nesting es) (items : List Json) :
      Due (.array :: nesting) (es ++ .openArray :: itemEvents items)
  | member {nesting : List Bracket} {es : List Event} (h : Due nesting es)
      (members : List (String × Json)) (name : String) :
      Due (.object :: nesting) (es ++ .openObject :: memberEvents members ++ [.key name])

/-- With these brackets open, these are the events up to where no value has begun: the whole value, or
some items or members that are complete. -/
inductive Whole : List Bracket → List Event → Prop
  | done (j : Json) : Whole [] (events j)
  | items {nesting : List Bracket} {es : List Event} (h : Due nesting es) (items : List Json) :
      Whole (.array :: nesting) (es ++ .openArray :: itemEvents items)
  | members {nesting : List Bracket} {es : List Event} (h : Due nesting es)
      (members : List (String × Json)) :
      Whole (.object :: nesting) (es ++ .openObject :: memberEvents members)

variable {nesting : List Bracket} {es : List Event}

/-- A value that was due is complete behind its events. -/
theorem Due.value (h : Due nesting es) (j : Json) : Whole nesting (es ++ events j) := by
  cases h with
  | start => exact .done j
  | item h items =>
    -- One item more is the same as the events of the item behind those of the others.
    have hitems := Whole.items h (items ++ [j])
    rw [itemEvents_append, itemEvents, itemEvents, List.append_nil] at hitems
    rw [List.append_assoc, List.cons_append]
    exact hitems
  | member h members name =>
    have hmembers := Whole.members h (members ++ [(name, j)])
    rw [memberEvents_append, memberEvents, memberEvents, List.append_nil] at hmembers
    rw [List.append_assoc, List.append_assoc, List.singleton_append, List.cons_append]
    exact hmembers

/-- A bracket may open where a value is due, with nothing in it yet. -/
theorem Due.opened (h : Due nesting es) (b : Bracket) : Whole (b :: nesting) (es ++ [b.opening]) := by
  cases b with
  | array => exact .items h []
  | object => exact .members h []

/-- A bracket that closes behind complete items or members makes a value of them. -/
theorem Whole.closed {b : Bracket} (h : Whole (b :: nesting) es) :
    Whole nesting (es ++ [b.closing]) := by
  cases h with
  -- In either case the events add up to those of the array or the object, which was due before its
  -- bracket.
  | items h items =>
    rw [List.append_assoc]
    exact h.value (.array items)
  | members h members =>
    rw [List.append_assoc]
    exact h.value (.object members)

theorem Whole.item (h : Whole (.array :: nesting) es) : Due (.array :: nesting) es := by
  cases h with
  | items h items => exact .item h items

/-- Behind its name the value of a member is due. -/
theorem Whole.keyed (h : Whole (.object :: nesting) es) (name : String) :
    Due (.object :: nesting) (es ++ [.key name]) := by
  cases h with
  | members h members => exact .member h members name

/-! ## The machine keeps the order -/

/-- What the events so far have to be where the machine expects this. -/
def Expecting.Fits : Expecting → List Bracket → List Event → Prop
  | .value, nesting, es => Due nesting es
  | .colon, nesting, es => Due nesting es
  | .separator, nesting, es => Whole nesting es
  | .firstItem, nesting, es => nesting.head? = some .array ∧ Whole nesting es
  | .firstKey, nesting, es => nesting.head? = some .object ∧ Whole nesting es
  | .key, nesting, es => nesting.head? = some .object ∧ Whole nesting es

/-- What is being read: a value or a key that has begun is still expected. -/
def Mode.expecting : Mode → Expecting
  | .between e => e
  | .word _ _ => .value
  | .number _ => .value
  | .quoted false _ _ => .value
  | .quoted true _ _ => .key

namespace Machine

/-- Nothing is skipped, and what is written down fits to what the machine expects. -/
structure InCourse (m : Machine (List Event)) : Prop where
  hears : m.skipped = none
  fits : m.mode.expecting.Fits m.nesting m.sink

variable {mode : Mode} {m : Machine (List Event)}

/-- A scalar is a whole value, behind which a separator is expected. -/
theorem inCourse_scalar {e : Event} (h : Whole nesting (es ++ [e]))
    (hok : scalar recorder ⟨nesting, none, mode, es⟩ e = .ok m) : m.InCourse := by
  cases hok
  exact ⟨rfl, h⟩

/-- An opening bracket is one where a value is due. -/
theorem inCourse_openBracket {b : Bracket} (h : Due nesting es)
    (hok : openBracket recorder ⟨nesting, none, mode, es⟩ b = .ok m) : m.InCourse := by
  have hopened : Whole (b :: nesting) (es ++ [b.opening]) := h.opened b
  obtain ⟨_, htell, hok⟩ := exists_of_bind_ok hok
  cases htell
  split at hok
  · cases hok
  · cases hok
    -- What is expected inside a bracket fits to this bracket, which is the innermost one now.
    refine ⟨rfl, ?_⟩
    cases b with
    | array => exact ⟨rfl, hopened⟩
    | object => exact ⟨rfl, hopened⟩

/-- A bracket is closed only by its own counterpart, since it is the innermost one that is open. -/
theorem inCourse_closeBracket {b : Bracket} (hhead : nesting.head? = some b) (h : Whole nesting es)
    (hok : closeBracket recorder ⟨nesting, none, mode, es⟩ b = .ok m) : m.InCourse := by
  obtain ⟨nesting, rfl⟩ := List.head?_eq_some_iff.mp hhead
  cases hok
  exact ⟨rfl, h.closed⟩

/-- A value begins where one is due. It is written down once it is complete, or once its bracket
opens. -/
theorem inCourse_startValue {c : Char} (h : Due nesting es)
    (hok : startValue recorder ⟨nesting, none, mode, es⟩ c = .ok m) : m.InCourse := by
  unfold startValue at hok
  simp only [recorder, Bool.and_false, Bool.false_eq_true, if_false] at hok
  repeat' split at hok
  -- One alternative for each kind of branch: a value in progress, a bracket, a fault.
  all_goals first
    | (cases hok; exact ⟨rfl, h⟩)
    | exact inCourse_openBracket h hok
    | cases hok

/-- A key begins where one is expected, and is written down once it is complete. -/
theorem inCourse_startKey {c : Char} (hhead : nesting.head? = some .object) (h : Whole nesting es)
    (hok : startKey ⟨nesting, none, mode, es⟩ c = .ok m) : m.InCourse := by
  unfold startKey at hok
  split at hok
  · cases hok
    exact ⟨rfl, hhead, h⟩
  · cases hok

/-- A step between two tokens, by what is expected there. -/
theorem inCourse_stepBetween {e : Expecting} {c : Char} (h : e.Fits nesting es)
    (hok : stepBetween recorder ⟨nesting, none, mode, es⟩ e c = .ok m) : m.InCourse := by
  unfold stepBetween at hok
  split at hok
  · cases hok
    exact ⟨rfl, h⟩
  · cases e with
    | value => exact inCourse_startValue h hok
    | firstItem =>
      dsimp only at hok
      split at hok
      · exact inCourse_closeBracket h.1 h.2 hok
      -- The first item is due in an array without items.
      · obtain ⟨nesting, rfl⟩ := List.head?_eq_some_iff.mp h.1
        exact inCourse_startValue h.2.item hok
    | firstKey =>
      dsimp only at hok
      split at hok
      · exact inCourse_closeBracket h.1 h.2 hok
      · exact inCourse_startKey h.1 h.2 hok
    | key => exact inCourse_startKey h.1 h.2 hok
    | colon =>
      dsimp only at hok
      split at hok
      · cases hok
        exact ⟨rfl, h⟩
      · cases hok
    | separator =>
      dsimp only at hok
      -- Behind a complete value the innermost bracket decides what may come.
      match nesting with
      | [] => cases hok
      | .array :: nesting =>
        dsimp only at hok
        split at hok
        · exact inCourse_closeBracket rfl h hok
        · split at hok
          · cases hok
            exact ⟨rfl, h.item⟩
          · cases hok
      | .object :: nesting =>
        dsimp only at hok
        split at hok
        · exact inCourse_closeBracket rfl h hok
        · split at hok
          · cases hok
            exact ⟨rfl, rfl, h⟩
          · cases hok

/-- A number that ends is a whole value. -/
theorem inCourse_numberDone {d : Numeral.Draft} (h : Due nesting es)
    (hok : numberDone recorder ⟨nesting, none, mode, es⟩ d = .ok m) :
    m.InCourse ∧ m.mode = .between .separator := by
  unfold numberDone at hok
  dsimp only at hok
  cases hvalue : d.value? with
  | none => rw [hvalue] at hok; cases hok
  | some n =>
    rw [hvalue] at hok
    cases hok
    exact ⟨⟨rfl, h.value (.number n)⟩, rfl⟩

/-- The character that ends a number is read again behind the value. -/
theorem inCourse_stepNumber {d : Numeral.Draft} {c : Char} (h : Due nesting es)
    (hok : stepNumber recorder ⟨nesting, none, mode, es⟩ d c = .ok m) : m.InCourse := by
  unfold stepNumber at hok
  split at hok
  · cases hok
    exact ⟨rfl, h⟩
  · cases hok
  · obtain ⟨⟨nesting, skipped, mode, es⟩, hdone, hok⟩ := exists_of_bind_ok hok
    obtain ⟨⟨rfl, hwhole⟩, rfl⟩ := inCourse_numberDone h hdone
    exact inCourse_stepBetween hwhole hok

/-- The last letter of a word tells a whole value. -/
theorem inCourse_stepWord {left : List Char} {means : Word} {c : Char} (h : Due nesting es)
    (hok : stepWord recorder ⟨nesting, none, .word left means, es⟩ left means c = .ok m) :
    m.InCourse := by
  have hwhole : Whole nesting (es ++ [means.event]) := by
    cases means with
    | null => exact h.value .null
    | truth b => exact h.value (.bool b)
  unfold stepWord at hok
  repeat' split at hok
  all_goals first
    | exact inCourse_scalar hwhole hok
    | (cases hok; exact ⟨rfl, h⟩)
    | cases hok

/-- What is expected while a text in quotes is read. -/
theorem expecting_quoted (asKey : Bool) (seen seen' : List Char) (place place' : Inside) :
    (Mode.quoted asKey seen place).expecting = (Mode.quoted asKey seen' place').expecting := by
  cases asKey <;> rfl

/-- The quote at the end tells a string, which is a whole value, or a key, behind which a value is
due. -/
theorem inCourse_quotedDone {asKey : Bool} {seen : List Char} {place : Inside}
    (h : (Mode.quoted asKey seen place).expecting.Fits nesting es)
    (hok : quotedDone recorder ⟨nesting, none, mode, es⟩ asKey seen = .ok m) : m.InCourse := by
  cases asKey with
  | false => exact inCourse_scalar (h.value (.string _)) hok
  | true =>
    obtain ⟨hhead, h⟩ := h
    obtain ⟨nesting, rfl⟩ := List.head?_eq_some_iff.mp hhead
    cases hok
    exact ⟨rfl, h.keyed _⟩

/-- The end of an escape leaves what is expected as it is. -/
theorem inCourse_unicodeDone {asKey : Bool} {seen taken : List Char} {high : Option Nat}
    (h : ∀ seen place, (Mode.quoted asKey seen place).expecting.Fits nesting es)
    (hok : unicodeDone ⟨nesting, none, mode, es⟩ asKey seen taken high = .ok m) : m.InCourse := by
  unfold unicodeDone at hok
  dsimp only at hok
  repeat' split at hok
  all_goals first
    | (cases hok; exact ⟨rfl, h _ _⟩)
    | cases hok

/-- A step inside the quotes, where what is expected does not depend on what has been read of the
text. -/
theorem inCourse_stepQuoted {asKey : Bool} {seen : List Char} {place : Inside} {c : Char}
    (h : (Mode.quoted asKey seen place).expecting.Fits nesting es)
    (hok : stepQuoted recorder ⟨nesting, none, mode, es⟩ asKey seen place c = .ok m) :
    m.InCourse := by
  have hinside (seen' : List Char) (place' : Inside) :
      (Mode.quoted asKey seen' place').expecting.Fits nesting es := by
    rw [expecting_quoted asKey seen' seen place' place]
    exact h
  unfold stepQuoted at hok
  dsimp only at hok
  repeat' split at hok
  all_goals first
    | exact inCourse_quotedDone h hok
    | exact inCourse_unicodeDone hinside hok
    | (cases hok; exact ⟨rfl, hinside _ _⟩)
    | cases hok

/-- One character of the text keeps the order of the events. -/
theorem InCourse.step {m m' : Machine (List Event)} {c : Char} (h : m.InCourse)
    (hok : m.step recorder c = .ok m') : m'.InCourse := by
  obtain ⟨nesting, skipped, mode, es⟩ := m
  obtain ⟨hears, hfits⟩ := h
  obtain rfl : skipped = none := hears
  -- What has to fit depends on the mode only through what is expected in it.
  cases mode with
  | between e => exact inCourse_stepBetween hfits hok
  | word left means => exact inCourse_stepWord hfits hok
  | number d => exact inCourse_stepNumber hfits hok
  | quoted asKey seen place => exact inCourse_stepQuoted hfits hok

/-- All characters of the text do. -/
theorem InCourse.foldlM {m m' : Machine (List Event)} {text : List Char} (h : m.InCourse)
    (hok : text.foldlM (Machine.step recorder) m = .ok m') : m'.InCourse := by
  induction text generalizing m with
  | nil =>
    cases hok
    exact h
  | cons c text ih =>
    rw [List.foldlM_cons] at hok
    obtain ⟨m₁, hstep, hok⟩ := exists_of_bind_ok hok
    exact ih (h.step hstep) hok

theorem inCourse_start : (start []).InCourse :=
  ⟨rfl, .start⟩

/-- Where nothing is open, the events are those of a value. -/
theorem InCourse.events_of_closed {m : Machine (List Event)} (h : m.InCourse)
    (hmode : m.mode = .between .separator) {es : List Event}
    (hok : (if m.nesting.isEmpty then .ok m.sink else .error .ended : Except Fault _) = .ok es) :
    ∃ j, es = events j := by
  obtain ⟨nesting, skipped, mode, es⟩ := m
  obtain rfl : mode = .between .separator := hmode
  split at hok
  · next hnesting =>
    obtain rfl : nesting = [] := List.isEmpty_iff.mp hnesting
    cases hok
    cases h.fits with
    | done j => exact ⟨j, rfl⟩
  · cases hok

/-- At the end of the text the events are those of a value. -/
theorem InCourse.finish {m : Machine (List Event)} (h : m.InCourse) {es : List Event}
    (hok : m.finish recorder = .ok es) : ∃ j, es = events j := by
  obtain ⟨nesting, skipped, mode, heard⟩ := m
  obtain rfl : skipped = none := h.hears
  unfold Machine.finish at hok
  dsimp only at hok
  -- A text ends behind a value or with a number in progress, and in no other mode.
  split at hok
  · exact h.events_of_closed rfl hok
  · split at hok
    · obtain ⟨m₁, hdone, hok⟩ := exists_of_bind_ok hok
      obtain ⟨h₁, hmode⟩ := inCourse_numberDone h.fits hdone
      exact h₁.events_of_closed hmode hok
    · cases hok
  · cases hok

end Machine

/-! ## Texts and values -/

/-- The text is read as the events of this value. The members of an object are those of the text, in
their order and with their repetitions. -/
def StandsFor (text : List Char) (j : Json) : Prop :=
  read recorder [] text = .ok (events j)

theorem toOption_eq_some_iff {α ε : Type} {x : Except ε α} {a : α} :
    x.toOption = some a ↔ x = .ok a := by
  cases x <;> simp [Except.toOption]

/-- Whatever is written down of a text that is read to its end, are the events of a value. -/
theorem exists_standsFor_of_recorded {text : List Char} {es : List Event}
    (h : read recorder [] text = .ok es) : ∃ j, StandsFor text j ∧ es = events j := by
  obtain ⟨m, hfold, hfinish⟩ := exists_of_bind_ok h
  obtain ⟨j, hes⟩ := (Machine.inCourse_start.foldlM hfold).finish hfinish
  exact ⟨j, by rw [StandsFor, h, hes], hes⟩

/-- What a sink makes of a text, if it takes whatever comes, is what it makes of the value that the
text stands for. -/
theorem read_eq_ok_iff {σ : Type} {k : Sink σ} (hk : k.Calm) {s t : σ} {text : List Char} :
    read k s text = .ok t ↔ ∃ j, StandsFor text j ∧ k.listen s (events j) = some t := by
  -- Reading is listening to the recorded events, and these are the events of a value.
  rw [← toOption_eq_some_iff, read_eq_listen hk, Option.bind_eq_some_iff]
  constructor
  · rintro ⟨es, hes, hlisten⟩
    obtain ⟨j, hj, rfl⟩ := exists_standsFor_of_recorded (toOption_eq_some_iff.mp hes)
    exact ⟨j, hj, hlisten⟩
  · rintro ⟨j, hj, hlisten⟩
    exact ⟨events j, toOption_eq_some_iff.mpr hj, hlisten⟩

end TableMarkup.Json
