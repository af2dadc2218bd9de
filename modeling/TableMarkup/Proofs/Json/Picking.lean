import TableMarkup.Proofs.Json.Written

/-!
# Objects with members of no interest

A sink that reads an object may care for some of the members only. The others are skipped: whatever
their values are and however deep they nest, the sink comes to where it would come without them, but
for having heard their names.

* `Sink.Picks`: where a sink comes to that hears the values of some members and skips those of others.
* `Machine.run_picked`: this is where reading the members comes to, with any blanks between them and
  any spelling of their strings.
* `read_picked`: so is reading the object.
-/

namespace TableMarkup.Json

/-- The sink hears the names of these members, and of each value that it does not skip the events. -/
inductive Sink.Picks {σ : Type} (k : Sink σ) : σ → List (String × Json) → σ → Prop
  | nil (s : σ) : Picks k s [] s
  | heard {s t u v : σ} {name : String} {j : Json} {ms : List (String × Json)}
      (hname : k.accept s (.key name) = .ok t) (hdepth : depth j < nestingLimit)
      (hvalue : k.Hears t (events j) u) (hlater : Picks k u ms v) : Picks k s ((name, j) :: ms) v
  | unheard {s t v : σ} {name : String} {j : Json} {ms : List (String × Json)}
      (hname : k.accept s (.key name) = .ok t) (hskips : k.skips t = true)
      (hlater : Picks k t ms v) : Picks k s ((name, j) :: ms) v

variable {σ : Type} {k : Sink σ} {s t u : σ} {text rest : List Char}

theorem Sink.Picks.eq_of_nil (h : k.Picks s [] t) : t = s := by
  cases h
  rfl

namespace Machine

/-- A value that the sink does not care for leaves no trace. -/
theorem run_skipped {nesting : List Bracket} {j : Json} (h : ValueText j text) (hrest : Ends rest)
    (hskips : k.skips s = true) :
    run k ⟨nesting, none, .between .value, s⟩ (text ++ rest) =
      run k ⟨nesting, none, .between .separator, s⟩ rest := by
  obtain ⟨c, cs, hhead, hblank, -⟩ := h.head
  -- The value is skipped with as many brackets around it as are open, so its end is seen.
  have hopen : ∀ n ∈ some nesting.length, n ≤ nesting.length := by
    rintro n ⟨⟩
    exact Nat.le_refl _
  have hover : run k ⟨nesting, some nesting.length, .between .value, s⟩ (text ++ rest) = _ :=
    run_valueText h hopen nofun hrest (.unheard nesting.length s (events j))
  rw [hhead, List.cons_append, run_skipping hblank hskips, ← List.cons_append, ← hhead, hover,
    completed, if_pos rfl]

/-- Some members are heard and others are skipped, one after the other. -/
theorem run_picked {ms : List (String × Json)} {e : Expecting} (h : MembersText ms text)
    (he : e = .firstKey ∨ e = .key) (hrest : Ends rest) (hpicks : k.Picks s ms t) :
    run k ⟨[.object], none, .between e, s⟩ (text ++ rest) =
      run k ⟨[.object], none, .between .separator, t⟩ rest := by
  -- Induction on what is picked, which runs along the members; the text of the rest follows a
  -- comma.
  induction hpicks generalizing text e with
  | nil s => cases h
  | @heard s t u v name j ms hname hdepth hvalue hlater ih =>
    have hread {text rest : List Char} (htext : ValueText j text) (hrest : Ends rest) :
        run k ⟨[.object], none, .between .value, t⟩ (text ++ rest) =
          run k ⟨[.object], none, .between .separator, u⟩ rest := by
      rw [← completed_heard]
      exact run_valueText htext (fun n hn => absurd hn (Option.not_mem_none n))
        (fun _ => Nat.add_comm 1 _ ▸ hdepth) hrest (.heard hvalue)
    refine run_firstMember h he hrest (.heard hname) hread ?_ fun hmore => ?_
    · rintro rfl
      exact hlater.eq_of_nil.symm
    · exact ih hmore (.inr rfl)
  | unheard hname hskips hlater ih =>
    refine run_firstMember h he hrest (.heard hname)
      (fun htext hrest => run_skipped htext hrest hskips) ?_ fun hmore => ?_
    · rintro rfl
      exact hlater.eq_of_nil.symm
    · exact ih hmore (.inr rfl)

end Machine

/-- An object is read with some members heard and others skipped. -/
theorem read_picked {ms : List (String × Json)} {v : σ} (h : ElementText (.object ms) text)
    (hopen : k.Takes none s [.openObject] t) (hpicks : k.Picks t ms u)
    (hclose : k.accept u .closeObject = .ok v) : read k s text = .ok v := by
  -- Between the braces there may be no member, and then only blanks.
  have hread {text rest : List Char} (h : ValueText (.object ms) text) :
      Machine.run k ⟨[], none, .between .value, s⟩ (text ++ rest) =
        Machine.run k (Machine.completed ⟨[], none, .between .value, v⟩) rest := by
    cases h with
    | emptyObject hblanks =>
      obtain rfl := hpicks.eq_of_nil
      rw [List.cons_append, Machine.run_open (b := .object) (by simp) hopen (fun _ => by decide),
        List.append_assoc, Machine.run_blanks hblanks]
      exact Machine.run_close (by simp) (.inr rfl) (.heard hclose)
    | object hmembers =>
      rw [List.cons_append, Machine.run_open (b := .object) (by simp) hopen (fun _ => by decide),
        List.append_assoc, Bracket.inside, List.singleton_append,
        Machine.run_picked hmembers (.inl rfl) (Machine.ends_of_head (by simp)) hpicks]
      exact Machine.run_close (by simp) (.inl rfl) (.heard hclose)
  show Machine.run k _ _ = _
  rw [← List.append_nil text, Machine.start,
    Machine.run_elementText (.inl rfl) h Machine.ends_nil
      fun h _ => by rw [hread h, Machine.completed_heard]]
  rfl

end TableMarkup.Json
