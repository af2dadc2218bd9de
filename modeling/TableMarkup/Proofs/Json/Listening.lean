import TableMarkup.Proofs.Json.Running

/-!
# Reading is listening

A sink that takes whatever comes has no influence on how a text is read. The machine can then read
for a sink that only writes the events down, and what any other sink makes of the text is what it
makes of these events, be they told to it while the text is read or afterwards.

* `Sink.Calm`: sinks that take whatever comes; `Sink.listen` tells them events without a text.
* `recorder`: the sink that writes down what it hears.
* `Machine.Relays`: where the recorder comes to, and where a sink comes to that has heard the same, are
  the same place; there is a lemma about this for each part of a step.
* `read_eq_listen`: to read a text is to listen to its events.
-/

namespace TableMarkup.Json

/-! ## Sinks that take whatever comes -/

namespace Sink

variable {σ : Type}

/-- The sink skips no value, and has room for every item. -/
structure Calm (k : Sink σ) : Prop where
  skips (s : σ) : k.skips s = false
  room (s : σ) : k.room s = true

/-- Where a sink comes to that is told some events; nothing if it refuses one of them. -/
def listen (k : Sink σ) (s : σ) (es : List Event) : Option σ :=
  es.foldlM (fun s e => (k.accept s e).toOption) s

theorem listen_append (k : Sink σ) (s : σ) (es fs : List Event) :
    k.listen s (es ++ fs) = (k.listen s es).bind fun t => k.listen t fs :=
  List.foldlM_append

theorem listen_cons (k : Sink σ) (s : σ) (e : Event) (es : List Event) :
    k.listen s (e :: es) = (k.accept s e).toOption.bind fun t => k.listen t es :=
  List.foldlM_cons

theorem listen_singleton (k : Sink σ) (s : σ) (e : Event) :
    k.listen s [e] = (k.accept s e).toOption := by
  rw [listen_cons]
  exact Option.bind_fun_some _

/-- A sink that hears events comes to where it goes when it is told them. -/
theorem Hears.listen {k : Sink σ} {s t : σ} {es : List Event} (h : k.Hears s es t) :
    k.listen s es = some t := by
  induction h with
  | nil s => rfl
  | cons _ _ haccept _ ih =>
    rw [listen_cons, haccept]
    exact ih

end Sink

/-- The sink that writes down what it hears. -/
def recorder : Sink (List Event) where
  accept es e := .ok (es ++ [e])
  skips _ := false
  room _ := true

/-! ## Telling what is written down -/

namespace Machine

variable {σ α β : Type} {k : Sink σ} {s : σ} {es : List Event} {nesting : List Bracket}
  {skipped : Option Nat} {mode : Mode}

/-- The machine whose sink has been told what this one has written down. -/
def told (k : Sink σ) (s : σ) (m : Machine (List Event)) : Option (Machine σ) :=
  (k.listen s m.sink).map fun t => ⟨m.nesting, m.skipped, m.mode, t⟩

/-- After the events `es`, the recorder comes to `recorded` and a sink that has come to `t` goes on to
`heard t`. To tell this sink what is then written down leads to the same place. -/
def Relays (tell : α → Option β) (k : Sink σ) (s : σ) (es : List Event)
    (recorded : Except Fault α) (heard : σ → Except Fault β) : Prop :=
  recorded.toOption.bind tell = (k.listen s es).bind fun t => (heard t).toOption

/-- Where neither machine does anything with its sink, the sinks stay as far apart as they were. -/
theorem relays_ok :
    Relays (told k s) k s es (.ok ⟨nesting, skipped, mode, es⟩) fun t =>
      .ok ⟨nesting, skipped, mode, t⟩ := by
  show (k.listen s es).map _ = _
  rw [Option.map_eq_bind]
  rfl

theorem relays_error {tell : α → Option β} {f : Fault} :
    Relays tell k s es (.error f) fun _ => .error f :=
  (Option.bind_fun_none _).symm

/-- What is done in two parts is told in two parts. -/
theorem relays_bind {tell : α → Option β} {recorded : Except Fault (Machine (List Event))}
    {heard : σ → Except Fault (Machine σ)} {further : Machine (List Event) → Except Fault α}
    {further' : Machine σ → Except Fault β} (h : Relays (told k s) k s es recorded heard)
    (hfurther : ∀ m, Relays tell k s m.sink (further m) fun t =>
      further' ⟨m.nesting, m.skipped, m.mode, t⟩) :
    Relays tell k s es (recorded.bind further) fun t => (heard t).bind further' := by
  -- As options, both sides are a bind of the first part and the second, so the two equations can be
  -- put together.
  have hrecorded : (recorded.bind further).toOption =
      recorded.toOption.bind fun m => (further m).toOption := by
    cases recorded <;> rfl
  have hheard (t : σ) : ((heard t).bind further').toOption =
      (heard t).toOption.bind fun m => (further' m).toOption := by
    cases heard t <;> rfl
  unfold Relays at h hfurther ⊢
  simp only [hrecorded, hheard, Option.bind_assoc, hfurther]
  -- The first part brings the sink to where the recorder's events bring it.
  rw [← Option.bind_assoc, ← h, Option.bind_assoc]
  refine congrArg _ (funext fun m => ?_)
  rw [told, Option.map_eq_bind, Option.bind_assoc]
  rfl

/-- What is only changed afterwards is told as before; a special case of two parts. -/
theorem relays_map {recorded : Except Fault (Machine (List Event))}
    {heard : σ → Except Fault (Machine σ)} {change : Machine (List Event) → Machine (List Event)}
    {change' : Machine σ → Machine σ} (h : Relays (told k s) k s es recorded heard)
    (hchange : ∀ m, Relays (told k s) k s m.sink (.ok (change m)) fun t =>
      .ok (change' ⟨m.nesting, m.skipped, m.mode, t⟩)) :
    Relays (told k s) k s es (recorded.map change) fun t => (heard t).map change' := by
  have hrecorded : recorded.map change = recorded.bind fun m => .ok (change m) := by
    cases recorded <;> rfl
  have hheard (t : σ) : (heard t).map change' = (heard t).bind fun m => .ok (change' m) := by
    cases heard t <;> rfl
  simp only [hrecorded, hheard]
  exact relays_bind h hchange

/-! ## Steps -/

/-- The one place where a sink is called: the recorder adds the event to its list, and the other
sink hears the list and then the event. -/
theorem relays_tell (e : Event) :
    Relays (told k s) k s es (tell recorder ⟨nesting, skipped, mode, es⟩ e) fun t =>
      tell k ⟨nesting, skipped, mode, t⟩ e := by
  cases skipped with
  -- What is skipped is told to neither of them.
  | some _ => exact relays_ok
  | none =>
    show ((k.listen s (es ++ [e])).map _) = _
    rw [Sink.listen_append, Option.map_bind]
    refine congrArg _ (funext fun t => ?_)
    show (k.listen t [e]).map _ = (tell k ⟨nesting, none, mode, t⟩ e).toOption
    rw [Sink.listen_singleton, tell]
    cases k.accept t e <;> rfl

theorem relays_scalar (e : Event) :
    Relays (told k s) k s es (scalar recorder ⟨nesting, skipped, mode, es⟩ e) fun t =>
      scalar k ⟨nesting, skipped, mode, t⟩ e :=
  relays_map (relays_tell e) fun _ => relays_ok

/-- Whether the nesting is too deep is for the machine to say, not for the sink. -/
theorem relays_openBracket (b : Bracket) :
    Relays (told k s) k s es (openBracket recorder ⟨nesting, skipped, mode, es⟩ b) fun t =>
      openBracket k ⟨nesting, skipped, mode, t⟩ b := by
  refine relays_bind (relays_tell b.opening) fun m => ?_
  dsimp only
  split
  · exact relays_error
  · exact relays_ok

theorem relays_closeBracket (b : Bracket) :
    Relays (told k s) k s es (closeBracket recorder ⟨nesting, skipped, mode, es⟩ b) fun t =>
      closeBracket k ⟨nesting, skipped, mode, t⟩ b :=
  relays_bind (relays_tell b.closing) fun _ => relays_ok

/-- The first character of a value. This is where a sink could ask for a value to be skipped. -/
theorem relays_startValue (hk : k.Calm) (c : Char) :
    Relays (told k s) k s es (startValue recorder ⟨nesting, skipped, mode, es⟩ c) fun t =>
      startValue k ⟨nesting, skipped, mode, t⟩ c := by
  unfold startValue
  -- Nothing is skipped, so that both machines begin the value alike.
  simp only [hk.skips, recorder, Bool.and_false, Bool.false_eq_true, if_false]
  repeat' split
  all_goals first
    | exact relays_ok
    | exact relays_error
    | exact relays_openBracket _

/-- The first character of a key, of which no sink hears. -/
theorem relays_startKey (c : Char) :
    Relays (told k s) k s es (startKey ⟨nesting, skipped, mode, es⟩ c) fun t =>
      startKey ⟨nesting, skipped, mode, t⟩ c := by
  unfold startKey
  split
  · exact relays_ok
  · exact relays_error

/-- A step between two tokens. This is where a sink could have no room for an item. -/
theorem relays_stepBetween (hk : k.Calm) (e : Expecting) (c : Char) :
    Relays (told k s) k s es (stepBetween recorder ⟨nesting, skipped, mode, es⟩ e c) fun t =>
      stepBetween k ⟨nesting, skipped, mode, t⟩ e c := by
  unfold stepBetween
  simp only [hk.room, recorder, Bool.or_true, Bool.and_true]
  repeat' split
  all_goals first
    | exact relays_ok
    | exact relays_error
    | exact relays_startValue hk c
    | exact relays_startKey c
    | exact relays_closeBracket _

/-- A number that ends is told as a scalar, unless it is out of range. -/
theorem relays_numberDone (d : Numeral.Draft) :
    Relays (told k s) k s es (numberDone recorder ⟨nesting, skipped, mode, es⟩ d) fun t =>
      numberDone k ⟨nesting, skipped, mode, t⟩ d := by
  unfold numberDone
  dsimp only
  split
  · exact relays_ok
  · exact relays_scalar _
  · exact relays_error

/-- A step inside a number, or the end of the number and a step behind it. -/
theorem relays_stepNumber (hk : k.Calm) (d : Numeral.Draft) (c : Char) :
    Relays (told k s) k s es (stepNumber recorder ⟨nesting, skipped, mode, es⟩ d c) fun t =>
      stepNumber k ⟨nesting, skipped, mode, t⟩ d c := by
  unfold stepNumber
  split
  · exact relays_ok
  · exact relays_error
  · exact relays_bind (relays_numberDone d) fun _ => relays_stepBetween hk .separator c

/-- A step inside a word; the last letter tells the scalar. -/
theorem relays_stepWord (left : List Char) (means : Word) (c : Char) :
    Relays (told k s) k s es (stepWord recorder ⟨nesting, skipped, mode, es⟩ left means c) fun t =>
      stepWord k ⟨nesting, skipped, mode, t⟩ left means c := by
  unfold stepWord
  repeat' split
  all_goals first
    | exact relays_ok
    | exact relays_error
    | exact relays_scalar means.event

/-- The quote at the end tells a key or a string. -/
theorem relays_quotedDone (asKey : Bool) (seen : List Char) :
    Relays (told k s) k s es (quotedDone recorder ⟨nesting, skipped, mode, es⟩ asKey seen) fun t =>
      quotedDone k ⟨nesting, skipped, mode, t⟩ asKey seen := by
  unfold quotedDone
  split
  · exact relays_map (relays_tell _) fun _ => relays_ok
  · exact relays_scalar _

/-- The end of an escape, of which no sink hears. -/
theorem relays_unicodeDone (asKey : Bool) (seen taken : List Char) (high : Option Nat) :
    Relays (told k s) k s es
      (unicodeDone ⟨nesting, skipped, mode, es⟩ asKey seen taken high) fun t =>
        unicodeDone ⟨nesting, skipped, mode, t⟩ asKey seen taken high := by
  unfold unicodeDone
  dsimp only
  repeat' split
  all_goals first
    | exact relays_ok
    | exact relays_error

/-- A step inside the quotes. -/
theorem relays_stepQuoted (asKey : Bool) (seen : List Char) (place : Inside) (c : Char) :
    Relays (told k s) k s es
      (stepQuoted recorder ⟨nesting, skipped, mode, es⟩ asKey seen place c) fun t =>
        stepQuoted k ⟨nesting, skipped, mode, t⟩ asKey seen place c := by
  unfold stepQuoted
  dsimp only
  repeat' split
  -- One alternative for each kind of branch: more text, a fault, the last quote, the end of an
  -- escape.
  all_goals first
    | exact relays_ok
    | exact relays_error
    | exact relays_quotedDone asKey seen
    | exact relays_unicodeDone asKey seen _ _

/-- A step in whatever mode; the mode is the same for both machines, since only their sinks
differ. -/
theorem relays_step (hk : k.Calm) (m : Machine (List Event)) (c : Char) :
    Relays (told k s) k s m.sink (step recorder m c) fun t =>
      step k ⟨m.nesting, m.skipped, m.mode, t⟩ c := by
  unfold step
  dsimp only
  split
  · exact relays_stepBetween hk _ c
  · exact relays_stepWord _ _ c
  · exact relays_stepNumber hk _ c
  · exact relays_stepQuoted _ _ _ c

/-! ## Runs -/

/-- A whole text, by induction on it from any point on. -/
theorem relays_foldlM (hk : k.Calm) (m : Machine (List Event)) (text : List Char) :
    Relays (told k s) k s m.sink (text.foldlM (step recorder) m) fun t =>
      text.foldlM (step k) ⟨m.nesting, m.skipped, m.mode, t⟩ := by
  induction text generalizing m with
  | nil => exact relays_ok
  | cons c text ih =>
    simp only [List.foldlM_cons]
    exact relays_bind (relays_step hk m c) ih

/-- The end of the text, which may still tell a number. -/
theorem relays_finish (m : Machine (List Event)) :
    Relays (k.listen s) k s m.sink (m.finish recorder) fun t =>
      finish k ⟨m.nesting, m.skipped, m.mode, t⟩ := by
  -- In either mode in which a text may end, no bracket may be open.
  have hclosed (m : Machine (List Event)) :
      Relays (k.listen s) k s m.sink (if m.nesting.isEmpty then .ok m.sink else .error .ended)
        fun t => if m.nesting.isEmpty then .ok t else .error .ended := by
    split
    · exact (Option.bind_fun_some _).symm
    · exact relays_error
  unfold finish
  dsimp only
  split
  · exact hclosed m
  · split
    · exact relays_bind (relays_numberDone _) hclosed
    · exact relays_error
  · exact relays_error

end Machine

/-- To read a text is to listen to its events, for every sink that takes whatever comes. -/
theorem read_eq_listen {σ : Type} {k : Sink σ} (hk : k.Calm) (s : σ) (text : List Char) :
    (read k s text).toOption = (read recorder [] text).toOption.bind (k.listen s) := by
  have hread : Machine.Relays (k.listen s) k s [] (read recorder [] text) fun t =>
      read k t text :=
    Machine.relays_bind (Machine.relays_foldlM hk (.start []) text) Machine.relays_finish
  exact hread.symm

end TableMarkup.Json
