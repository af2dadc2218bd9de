import TableMarkup.Json.Length
import TableMarkup.Proofs.Decimal.Finite
import TableMarkup.Proofs.Value.Conversions

/-!
# Values that are read are finite

A sink is told a number only when one has been read, and a number that is read is finite. So a
property that a sink keeps, as long as the numbers it hears are finite, holds of what it makes of a
text; and the value that is put together from a text has no infinity and no NaN in it.

* `Event.IsFinite`, `Sink.Keeps`: the property is kept with every event whose number is finite.
* `Machine.keeps_step`: it is kept with every character; there is a lemma for each part of a step.
* `read_keeps`: it holds of the outcome.
* `finite_of_parse?`: a value that is read is finite.
-/

namespace TableMarkup.Json

/-! ## What a sink keeps -/

/-- An event that is no float, or a finite one. -/
def Event.IsFinite (e : Event) : Prop :=
  ∀ x, e = .number (.float x) → Decimal.isFinite x = true

variable {σ : Type} {k : Sink σ} {P : σ → Prop}

/-- The sink keeps a property with every event that it accepts, as long as these are finite. -/
def Sink.Keeps (k : Sink σ) (P : σ → Prop) : Prop :=
  ∀ s t e, P s → e.IsFinite → k.accept s e = .ok t → P t

namespace Machine

variable {m m' : Machine σ} {c : Char}

/-- The sink is told an event, or nobody is since what is read is skipped. -/
theorem keeps_tell (hk : k.Keeps P) (h : P m.sink) {e : Event} (he : e.IsFinite)
    (hok : m.tell k e = .ok m') : P m'.sink := by
  unfold tell at hok
  split at hok
  · cases hok
    exact h
  · split at hok
    · next t haccept =>
      cases hok
      exact hk m.sink t e h he haccept
    · cases hok

theorem keeps_scalar (hk : k.Keeps P) (h : P m.sink) {e : Event} (he : e.IsFinite)
    (hok : m.scalar k e = .ok m') : P m'.sink := by
  obtain ⟨m₁, htell, rfl⟩ := exists_of_map_ok hok
  have h₁ : P m₁.sink := keeps_tell hk h he htell
  exact h₁

/-- A bracket is no number, so that nothing has to be known of it. -/
theorem keeps_openBracket (hk : k.Keeps P) (h : P m.sink) {b : Bracket}
    (hok : m.openBracket k b = .ok m') : P m'.sink := by
  obtain ⟨m₁, htell, hok⟩ := exists_of_bind_ok hok
  have h₁ : P m₁.sink := keeps_tell hk h (by cases b <;> nofun) htell
  split at hok
  · cases hok
  · cases hok
    exact h₁

/-- A bracket is no number here either. -/
theorem keeps_closeBracket (hk : k.Keeps P) (h : P m.sink) {b : Bracket}
    (hok : m.closeBracket k b = .ok m') : P m'.sink := by
  obtain ⟨m₁, htell, hok⟩ := exists_of_bind_ok hok
  have h₁ : P m₁.sink := keeps_tell hk h (by cases b <;> nofun) htell
  cases hok
  exact h₁

/-- The first character of a value tells a bracket or nothing. -/
theorem keeps_startValue (hk : k.Keeps P) (h : P m.sink) (hok : m.startValue k c = .ok m') :
    P m'.sink := by
  unfold startValue at hok
  repeat' split at hok
  all_goals first
    | (cases hok; exact h)
    | exact keeps_openBracket hk h hok
    | cases hok

theorem keeps_startKey (h : P m.sink) (hok : m.startKey c = .ok m') : P m'.sink := by
  unfold startKey at hok
  split at hok
  · cases hok
    exact h
  · cases hok

/-- A step between two tokens. -/
theorem keeps_stepBetween (hk : k.Keeps P) (h : P m.sink) {e : Expecting}
    (hok : m.stepBetween k e c = .ok m') : P m'.sink := by
  unfold stepBetween at hok
  repeat' split at hok
  -- One alternative for each kind of branch: moving on, a value, a key, a closing bracket, a fault.
  all_goals first
    | (cases hok; exact h)
    | exact keeps_startValue hk h hok
    | exact keeps_startKey h hok
    | exact keeps_closeBracket hk h hok
    | cases hok

/-- A number is told only as it was read. -/
theorem keeps_numberDone (hk : k.Keeps P) (h : P m.sink) {d : Numeral.Draft}
    (hok : m.numberDone k d = .ok m') : P m'.sink := by
  unfold numberDone at hok
  split at hok
  · cases hok
    exact h
  -- This is the one event that may be a float, and its value has been read from digits.
  · next n _ hvalue =>
    refine keeps_scalar hk h (fun x hx => ?_) hok
    cases hx
    exact Numeral.Draft.isFinite_of_value? hvalue
  · cases hok

/-- A step inside a number, or the end of the number and a step behind it. -/
theorem keeps_stepNumber (hk : k.Keeps P) (h : P m.sink) {d : Numeral.Draft}
    (hok : m.stepNumber k d c = .ok m') : P m'.sink := by
  unfold stepNumber at hok
  split at hok
  · cases hok
    exact h
  · cases hok
  · obtain ⟨m₁, hdone, hok⟩ := exists_of_bind_ok hok
    exact keeps_stepBetween hk (keeps_numberDone hk h hdone) hok

/-- The last letter of a word tells a scalar that is no number. -/
theorem keeps_stepWord (hk : k.Keeps P) (h : P m.sink) {left : List Char} {means : Word}
    (hok : m.stepWord k left means c = .ok m') : P m'.sink := by
  have hword : means.event.IsFinite := by
    cases means <;> nofun
  unfold stepWord at hok
  repeat' split at hok
  all_goals first
    | exact keeps_scalar hk h hword hok
    | (cases hok; exact h)
    | cases hok

/-- The quote at the end tells a key or a string. -/
theorem keeps_quotedDone (hk : k.Keeps P) (h : P m.sink) {asKey : Bool} {seen : List Char}
    (hok : m.quotedDone k asKey seen = .ok m') : P m'.sink := by
  have hkey (s : String) : (Event.key s).IsFinite := nofun
  have hstring (s : String) : (Event.string s).IsFinite := nofun
  unfold quotedDone at hok
  dsimp only at hok
  split at hok
  · obtain ⟨m₁, htell, rfl⟩ := exists_of_map_ok hok
    have h₁ : P m₁.sink := keeps_tell hk h (hkey _) htell
    exact h₁
  · exact keeps_scalar hk h (hstring _) hok

/-- The end of an escape tells nothing. -/
theorem keeps_unicodeDone (h : P m.sink) {asKey : Bool} {seen taken : List Char}
    {high : Option Nat} (hok : m.unicodeDone asKey seen taken high = .ok m') : P m'.sink := by
  unfold unicodeDone at hok
  dsimp only at hok
  repeat' split at hok
  all_goals first
    | (cases hok; exact h)
    | cases hok

/-- A step inside the quotes. -/
theorem keeps_stepQuoted (hk : k.Keeps P) (h : P m.sink) {asKey : Bool} {seen : List Char}
    {place : Inside} (hok : m.stepQuoted k asKey seen place c = .ok m') : P m'.sink := by
  unfold stepQuoted at hok
  dsimp only at hok
  repeat' split at hok
  all_goals first
    | exact keeps_quotedDone hk h hok
    | exact keeps_unicodeDone h hok
    | (cases hok; exact h)
    | cases hok

/-- One character of the text keeps what the sink keeps. -/
theorem keeps_step (hk : k.Keeps P) (h : P m.sink) (hok : m.step k c = .ok m') : P m'.sink := by
  unfold step at hok
  split at hok
  · exact keeps_stepBetween hk h hok
  · exact keeps_stepWord hk h hok
  · exact keeps_stepNumber hk h hok
  · exact keeps_stepQuoted hk h hok

/-- All characters of the text do, by induction on it. -/
theorem keeps_foldlM (hk : k.Keeps P) (h : P m.sink) {text : List Char}
    (hok : text.foldlM (step k) m = .ok m') : P m'.sink := by
  induction text generalizing m with
  | nil =>
    cases hok
    exact h
  | cons c text ih =>
    rw [List.foldlM_cons] at hok
    obtain ⟨m₁, hstep, hok⟩ := exists_of_bind_ok hok
    exact ih (keeps_step hk h hstep) hok

/-- At the end of the text a number may be told, and nothing else. -/
theorem keeps_finish (hk : k.Keeps P) (h : P m.sink) {t : σ} (hok : m.finish k = .ok t) : P t := by
  have hclosed {m : Machine σ} (h : P m.sink)
      (hok : (if m.nesting.isEmpty then .ok m.sink else .error .ended : Except Fault σ) = .ok t) :
      P t := by
    split at hok
    · cases hok
      exact h
    · cases hok
  unfold finish at hok
  dsimp only at hok
  split at hok
  · exact hclosed h hok
  · split at hok
    · obtain ⟨m₁, hdone, hok⟩ := exists_of_bind_ok hok
      exact hclosed (keeps_numberDone hk h hdone) hok
    · cases hok
  · cases hok

end Machine

/-- What a sink keeps holds of what it makes of a text. -/
theorem read_keeps (hk : k.Keeps P) {s t : σ} (h : P s) {text : List Char}
    (hok : read k s text = .ok t) : P t := by
  obtain ⟨m, hfold, hfinish⟩ := exists_of_bind_ok hok
  exact Machine.keeps_finish hk (Machine.keeps_foldlM hk h hfold) hfinish

/-! ## Values that are put together -/

/-- One more member of a kind among members of this kind. -/
theorem everyMember_insert {P : Json → Prop} {name : String} {j : Json} {members : Members Json}
    (hj : Everywhere P j) (h : EveryMember P members) :
    EveryMember P (members.insert name j) := by
  induction members with
  | nil => exact ⟨hj, trivial⟩
  | cons entry rest ih =>
    obtain ⟨first, j₁⟩ := entry
    unfold Members.insert
    split
    · exact ⟨hj, h⟩
    · split
      · exact ⟨hj, h.2⟩
      · exact ⟨h.1, ih h.2⟩

def Frame.Finite : Frame → Prop
  | .items before => EveryItem IsFinite before
  | .members before _ => EveryMember IsFinite before

/-- All values in what is being put together are finite. -/
def Assembly.Finite : Assembly → Prop
  | .building frames => ∀ f ∈ frames, f.Finite
  | .done j => j.Finite

/-- A finite value goes into what is being put together, and this stays finite. -/
theorem Assembly.finite_place {j : Json} {frames : List Frame} (hj : j.Finite)
    (h : (building frames).Finite) : (place j frames).Finite := by
  -- The innermost frame takes the value; without frames the value is complete.
  match frames with
  | [] => exact hj
  | .items before :: frames =>
    obtain ⟨hbefore, hframes⟩ := List.forall_mem_cons.mp h
    exact List.forall_mem_cons.mpr ⟨⟨hj, hbefore⟩, hframes⟩
  | .members before name :: frames =>
    obtain ⟨hbefore, hframes⟩ := List.forall_mem_cons.mp h
    exact List.forall_mem_cons.mpr ⟨everyMember_insert hj hbefore, hframes⟩

/-- Every event leaves what is being put together finite, if the number it may tell is. -/
theorem Assembly.finite_accept {a : Assembly} {e : Event} (h : a.Finite) (he : e.IsFinite) :
    (a.accept e).Finite := by
  cases a with
  | done j => exact h
  | building frames =>
    -- An event is a scalar, a bracket that opens a frame, one that closes it, or a key.
    cases e with
    | null => exact finite_place nofun h
    | bool b => exact finite_place nofun h
    | string s => exact finite_place nofun h
    | number n =>
      refine finite_place (fun x hx => ?_) h
      cases hx
      exact he x rfl
    | openArray => exact List.forall_mem_cons.mpr ⟨trivial, h⟩
    | openObject => exact List.forall_mem_cons.mpr ⟨trivial, h⟩
    | closeArray =>
      match frames with
      | [] => exact h
      | .members before name :: frames => exact h
      | .items before :: frames =>
        obtain ⟨hbefore, hframes⟩ := List.forall_mem_cons.mp h
        -- The items were gathered in reverse, and are the same ones when they are turned round.
        refine finite_place ⟨nofun, everyItem_iff.mpr fun j hj => ?_⟩ hframes
        exact everyItem_iff.mp hbefore j (List.mem_reverse.mp hj)
    | key name =>
      match frames with
      | [] => exact h
      | .items before :: frames => exact h
      | .members before last :: frames =>
        obtain ⟨hbefore, hframes⟩ := List.forall_mem_cons.mp h
        exact List.forall_mem_cons.mpr ⟨hbefore, hframes⟩
    | closeObject =>
      match frames with
      | [] => exact h
      | .items before :: frames => exact h
      | .members before last :: frames =>
        obtain ⟨hbefore, hframes⟩ := List.forall_mem_cons.mp h
        exact finite_place ⟨nofun, hbefore⟩ hframes

/-- A value that is read from a text has no infinity and no NaN in it. -/
theorem finite_of_parse? {text : List Char} {j : Json} (h : parse? text = some j) : j.Finite := by
  -- The sink that builds a value accepts every event, so it keeps what `accept` keeps.
  have hkeeps : Assembly.sink.Keeps Assembly.Finite := by
    intro a b e ha he haccept
    cases haccept
    exact Assembly.finite_accept ha he
  exact read_keeps hkeeps (s := Assembly.start) nofun (parse?_eq_some_iff.mp h)

end TableMarkup.Json
