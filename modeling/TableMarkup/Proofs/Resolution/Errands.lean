import TableMarkup.Proofs.Resolution.Walk

/-!
# Errands

A path asks the host for one global name at most, its first, and then for one function to be run at
most. Everything between these two is a matter of the value that was found. What a path comes to before
anything is run is its errand.

* `Errand`, `Host.errand`, `Host.perform`: a path comes to a value or to one function that is still to be
  run; `Host.resolvePath_eq_perform`.
* `Value.errand`: in a value nothing is asked, `Host.errand_member`.
* `PathStep.globalName?`: the global name that a path asks for.
* `Asked`: what is asked in one resolution. There is no room in it for a second evaluation, a second
  look-up or a second call.
* `Host.run_errand_traced`: the name is all that is written down for an errand.
* `Host.resolvePath_by_segments`: the meaning of a path, with what it asks.
-/

namespace TableMarkup

/-! ## What a path comes to -/

/-- What a path comes to before anything is run. -/
inductive Errand where
  | settled (v : Value)
  /-- A function that is still to be run. -/
  | call (f : Callable) (receiver : Value) (args : List Json)

def Errand.call? : Errand → Option (Callable × Value × List Json)
  | .settled _ => none
  | .call f receiver args => some (f, receiver, args)

/-- What the last segment of a path comes to in a value. -/
def Value.errandAt (v : Value) (last : List Char) : Errand :=
  match PathStep.callOf? last with
  | none => .settled (v.member (String.ofList last))
  | some (name, body) =>
    match body.bind PathStep.itemsOf?, v.member (String.ofList name) with
    | some args, .function f _ => .call f v args
    | _, _ => .settled .undefined

/-- What names and a last segment come to in a value. -/
def Value.errand (v : Value) (names : List (List Char)) (last : List Char) : Errand :=
  match v.along (names.map String.ofList) with
  | none => .settled .undefined
  | some reached => reached.errandAt last

namespace Host

variable {m : Type → Type} [Monad m]

/-- What the last segment of a path comes to where the walk has ended. -/
def errandAt (host : Host m) (reached : Scope) (last : List Char) : m Errand :=
  match PathStep.callOf? last with
  | none => .settled <$> host.lookup reached (String.ofList last)
  | some (name, body) =>
    match body.bind PathStep.itemsOf? with
    | none => pure (.settled .undefined)
    | some args => do
      match ← host.lookup reached (String.ofList name) with
      | .function f _ => (.call f · args) <$> host.receiverIn reached
      | _ => pure (.settled .undefined)

/-- What a path comes to in a scope: the walk goes along all its segments but the last. -/
def errand (host : Host m) (scope : Scope) (path : String) : m Errand := do
  let segments := PathStep.segments path.toList
  match ← host.walk scope segments.dropLast with
  | none => pure (.settled .undefined)
  | some reached => host.errandAt reached (segments.getLast?.getD [])

def perform (host : Host m) : Errand → m Value
  | .settled v => pure v
  | .call f receiver args => host.call f receiver args

/-- The errand of a path by its names and its last segment. -/
theorem errand_of_segments (host : Host m) (scope : Scope) {path : String}
    {names : List (List Char)} {last : List Char}
    (h : PathStep.segments path.toList = names ++ [last]) :
    host.errand scope path = (do
      match ← host.walk scope names with
      | none => pure (.settled .undefined)
      | some reached => host.errandAt reached last) := by
  rw [errand, h, List.dropLast_concat, List.getLast?_concat]
  rfl

variable [LawfulMonad m]

/-- To finish with the last segment is to see what it comes to, and to do that. -/
theorem finish_eq_perform (host : Host m) (reached : Scope) (last : List Char) :
    host.finish reached last = host.errandAt reached last >>= host.perform := by
  rw [finish, errandAt]
  -- Without a call there is nothing to run; with one the function is found first and run then.
  cases PathStep.callOf? last with
  | none =>
    dsimp only
    rw [bind_map_left]
    exact (bind_pure _).symm
  | some call =>
    obtain ⟨name, body⟩ := call
    dsimp only
    cases body.bind PathStep.itemsOf? with
    | none =>
      dsimp only
      rw [pure_bind]
      rfl
    | some args =>
      dsimp only
      rw [bind_assoc]
      refine bind_congr fun found => ?_
      -- Only a function is run, on what it was found in.
      cases found with
      | function f members =>
        dsimp only
        rw [bind_map_left]
        rfl
      | _ =>
        dsimp only
        rw [pure_bind]
        rfl

/-- A path is one errand. -/
theorem resolvePath_eq_perform (host : Host m) (scope : Scope) (path : String) :
    host.resolvePath scope path = host.errand scope path >>= host.perform := by
  obtain ⟨names, last, hsegments⟩ := PathStep.exists_segments path.toList
  rw [host.resolvePath_of_segments scope hsegments, host.errand_of_segments scope hsegments,
    bind_assoc]
  refine bind_congr fun reached => ?_
  cases reached with
  | none =>
    dsimp only
    rw [pure_bind]
    rfl
  | some reached => exact host.finish_eq_perform reached last

/-! ## Errands in values -/

theorem errandAt_member (host : Host m) (v : Value) (last : List Char) :
    host.errandAt (.member v) last = pure (v.errandAt last) := by
  rw [errandAt, Value.errandAt]
  cases PathStep.callOf? last with
  | none => exact map_pure _ _
  | some call =>
    obtain ⟨name, body⟩ := call
    dsimp only
    cases body.bind PathStep.itemsOf? with
    | none => rfl
    | some args =>
      dsimp only
      rw [lookup, pure_bind]
      -- Nothing but a function is left to be run.
      cases v.member (String.ofList name) with
      | function f members => exact map_pure _ _
      | _ => rfl

/-- A walk that has come to a value goes on without the host. -/
theorem walk_errandAt_member (host : Host m) (v : Value) (names : List (List Char))
    (last : List Char) :
    (do
      match ← host.walk (.member v) names with
      | none => pure (.settled .undefined)
      | some reached => host.errandAt reached last) = (pure (v.errand names last) : m Errand) := by
  rw [walk_member, pure_bind, Value.errand]
  cases v.along (names.map String.ofList) with
  | none => rfl
  | some reached => exact host.errandAt_member reached last

/-- In a value a path asks nothing of the host before something is run. -/
theorem errand_member (host : Host m) (v : Value) {path : String} {names : List (List Char)}
    {last : List Char} (h : PathStep.segments path.toList = names ++ [last]) :
    host.errand (.member v) path = pure (v.errand names last) := by
  rw [host.errand_of_segments _ h, walk_errandAt_member]

/-- A path with dots looks its first name up, and the rest is a matter of what was found. -/
theorem errand_global_cons (host : Host m) {path : String} {name last : List Char}
    {names : List (List Char)} (h : PathStep.segments path.toList = name :: names ++ [last]) :
    host.errand .global path =
      (fun next : Value => if next.HasMembers then next.errand names last else .settled .undefined) <$>
        host.global (String.ofList name) := by
  rw [host.errand_of_segments .global h, walk, lookup, bind_assoc, ← bind_pure_comp]
  -- What the host answers is the value in which the other names are looked up.
  refine bind_congr fun next => ?_
  split
  · exact host.walk_errandAt_member next names last
  · exact pure_bind _ _

end Host

/-! ## What a path asks -/

/-- The name that is looked up for a last segment; none for a call whose arguments are not written
properly. -/
def PathStep.nameOf? (last : List Char) : Option (List Char) :=
  match callOf? last with
  | none => some last
  | some (name, body) => if (body.bind itemsOf?).isSome then some name else none

/-- The first name that segments say: a name to go on from, or the name of the last segment. -/
def PathStep.firstName? : List (List Char) → Option (List Char)
  | [] => none
  | [last] => nameOf? last
  | name :: _ :: _ => some name

/-- The global name that a path asks for in a scope: its first one, and in a value none. -/
def PathStep.globalName? (scope : Scope) (path : String) : Option String :=
  if scope.isGlobal then (firstName? (segments path.toList)).map String.ofList else none

theorem PathStep.globalName?_single {path : String} {last : List Char}
    (h : segments path.toList = [last]) :
    globalName? .global path = (nameOf? last).map String.ofList := by
  show (firstName? (segments path.toList)).map String.ofList = _
  rw [h, firstName?]

theorem PathStep.globalName?_cons {path : String} {name last : List Char}
    {names : List (List Char)} (h : segments path.toList = name :: names ++ [last]) :
    globalName? .global path = some (String.ofList name) := by
  show (firstName? (segments path.toList)).map String.ofList = _
  rw [h]
  cases names <;> rfl

/-- What a host is asked in one resolution, in the order in which it is asked. -/
structure Asked where
  source : Option String
  name : Option String
  call : Option (Callable × Value × List Json)

def Asked.requests (asked : Asked) : List Request :=
  asked.source.toList.map .evaluate ++ asked.name.toList.map .lookUp ++
    asked.call.toList.map fun (f, receiver, args) => .call f.name receiver args

namespace Host

variable {m : Type → Type} [Monad m] [LawfulMonad m] {host : Host m}

/-- What is run is written down. -/
theorem run_perform_traced (errand : Errand) (log : List Request) :
    (host.traced.perform errand).run log =
      (fun v => (v, log ++ Asked.requests ⟨none, none, errand.call?⟩)) <$> host.perform errand := by
  cases errand with
  | settled v => simp [perform, Errand.call?, Asked.requests]
  | call f receiver args => simp [perform, traced, Errand.call?, Asked.requests]

theorem run_global_traced (name : String) (log : List Request) :
    (host.traced.global name).run log = (·, log ++ [.lookUp name]) <$> host.global name := by
  simp [traced]

/-- A last segment in the global scope asks for its name, if it asks for anything. -/
theorem run_errandAt_traced (last : List Char) (log : List Request) :
    (host.traced.errandAt .global last).run log =
      (·, log ++ ((PathStep.nameOf? last).map String.ofList).toList.map .lookUp) <$>
        host.errandAt .global last := by
  rw [errandAt, errandAt, PathStep.nameOf?]
  cases PathStep.callOf? last with
  | none =>
    dsimp only
    rw [StateT.run_map, lookup, run_global_traced, Functor.map_map, Functor.map_map]
    rfl
  | some call =>
    obtain ⟨name, body⟩ := call
    dsimp only
    cases body.bind PathStep.itemsOf? with
    | none => simp
    | some args =>
      dsimp only
      rw [StateT.run_bind, lookup, run_global_traced, bind_map_left, map_bind]
      refine bind_congr fun found => ?_
      -- The receiver is given and not asked for, so a call writes nothing down here.
      cases found with
      | function f members => simp [receiverIn, traced]
      | _ => simp

/-- The first name of a path is all that is looked up for its errand. -/
theorem run_errand_traced (scope : Scope) (path : String) (log : List Request) :
    (host.traced.errand scope path).run log =
      (·, log ++ (PathStep.globalName? scope path).toList.map .lookUp) <$>
        host.errand scope path := by
  obtain ⟨names, last, hsegments⟩ := PathStep.exists_segments path.toList
  cases scope with
  | member v =>
    rw [host.errand_member v hsegments, host.traced.errand_member v hsegments]
    simp [PathStep.globalName?, Scope.isGlobal]
  | global =>
    -- A path of one segment asks for the name in it, and a longer one for its first name.
    cases names with
    | nil =>
      rw [host.errand_of_segments .global hsegments, host.traced.errand_of_segments .global hsegments,
        walk, walk, pure_bind, pure_bind, PathStep.globalName?_single hsegments]
      exact run_errandAt_traced last log
    | cons name names =>
      rw [host.errand_global_cons hsegments, host.traced.errand_global_cons hsegments,
        PathStep.globalName?_cons hsegments, StateT.run_map, run_global_traced, Functor.map_map,
        Functor.map_map]
      rfl

/-- A path asks for its name, and then for what it comes to. -/
theorem run_resolvePath_traced (scope : Scope) (path : String) (log : List Request) :
    (host.traced.resolvePath scope path).run log = (do
      let errand ← host.errand scope path
      let v ← host.perform errand
      pure (v, log ++ Asked.requests ⟨none, PathStep.globalName? scope path, errand.call?⟩)) := by
  rw [resolvePath_eq_perform, StateT.run_bind, run_errand_traced, bind_map_left]
  refine bind_congr fun errand => ?_
  -- The look-up is written down first, and what is run behind it.
  rw [run_perform_traced, ← bind_pure_comp]
  simp only [Asked.requests, Option.toList_none, List.map_nil, List.nil_append, List.append_assoc]

/-! ## Hosts that agree on a name -/

section Congruence

variable {other : Host m}

/-- Hosts that agree on the name that a path asks for have the same errand for it. -/
theorem errand_congr (hreceiver : other.receiver = host.receiver) (scope : Scope) (path : String)
    (hglobal : ∀ name, PathStep.globalName? scope path = some name →
      other.global name = host.global name) :
    other.errand scope path = host.errand scope path := by
  obtain ⟨names, last, hsegments⟩ := PathStep.exists_segments path.toList
  cases scope with
  | member v => rw [host.errand_member v hsegments, other.errand_member v hsegments]
  | global =>
    -- The first name is all that the two hosts are asked; for a single segment it is inside the
    -- segment.
    cases names with
    | nil =>
      rw [PathStep.globalName?_single hsegments] at hglobal
      rw [host.errand_of_segments .global hsegments, other.errand_of_segments .global hsegments,
        walk, walk, pure_bind, pure_bind]
      dsimp only
      rw [errandAt, errandAt]
      dsimp only [PathStep.nameOf?] at hglobal
      cases hcall : PathStep.callOf? last with
      | none =>
        rw [hcall] at hglobal
        dsimp only
        rw [lookup, lookup, hglobal _ rfl]
      | some call =>
        obtain ⟨name, body⟩ := call
        rw [hcall] at hglobal
        dsimp only at hglobal ⊢
        cases hargs : body.bind PathStep.itemsOf? with
        | none => rfl
        | some args =>
          rw [hargs] at hglobal
          dsimp only
          rw [lookup, lookup, hglobal _ rfl, receiverIn, receiverIn, hreceiver]
    | cons name names =>
      rw [host.errand_global_cons hsegments, other.errand_global_cons hsegments,
        hglobal _ (PathStep.globalName?_cons hsegments)]

/-- Hosts that agree on the name that a path asks for resolve the path alike. -/
theorem resolvePath_congr (hreceiver : other.receiver = host.receiver)
    (hcall : other.call = host.call) (scope : Scope) (path : String)
    (hglobal : ∀ name, PathStep.globalName? scope path = some name →
      other.global name = host.global name) :
    other.resolvePath scope path = host.resolvePath scope path := by
  rw [resolvePath_eq_perform, resolvePath_eq_perform, errand_congr hreceiver scope path hglobal]
  refine bind_congr fun errand => ?_
  -- What is run is the same function on the same receiver.
  cases errand with
  | settled v => rfl
  | call f receiver args => rw [perform, perform, hcall]

end Congruence

/-- What a path stands for in a scope, segment by segment: all but the last are names along which the
walk goes, and the last says what is done where the walk has ended. A walk that does not end leaves
nothing to be done, in whatever way the host works. The host is asked for the first name, where it is a
global one, for no other name, and then for the call if there is one: so what it would answer about
other names does not matter. -/
theorem resolvePath_by_segments (host : Host m) (scope : Scope) (path : String) :
    (∃ names last, PathStep.segments path.toList = names ++ [last] ∧
      host.resolvePath scope path = (do
        match ← host.walk scope names with
        | none => pure .undefined
        | some reached => host.finish reached last)) ∧
    (∀ log, (host.traced.resolvePath scope path).run log = (do
      let errand ← host.errand scope path
      let v ← host.perform errand
      pure (v, log ++ Asked.requests ⟨none, PathStep.globalName? scope path, errand.call?⟩))) ∧
    ∀ other : Host m, other.receiver = host.receiver → other.call = host.call →
      (∀ name, PathStep.globalName? scope path = some name →
        other.global name = host.global name) →
      other.resolvePath scope path = host.resolvePath scope path := by
  obtain ⟨names, last, hsegments⟩ := PathStep.exists_segments path.toList
  exact ⟨⟨names, last, hsegments, host.resolvePath_of_segments scope hsegments⟩,
    run_resolvePath_traced scope path, fun _ hreceiver hcall hglobal =>
      resolvePath_congr hreceiver hcall scope path hglobal⟩

/-- A function that is found in a value is run once, on this value and after one look-up; a host that
counts look-ups of other names resolves the path alike. -/
theorem resolvePath_by_segments_call :
    let app : Value := .object [("add", .function ⟨0, "add"⟩ [])]
    let host : Host (StateM Nat) := .ofGlobals [("app", app)]
      (fun _ _ args => do modify (· + 1); pure (.json (.array args))) none
    let other : Host (StateM Nat) := { host with
      global := fun name =>
        if name = "app" then pure app else do modify (· + 100); pure .null }
    (host.resolvePath .global "app.add(1,[])").run 0 =
        (.json (.array [.ofNat 1, .array []]), 1) ∧
      ((host.traced.resolvePath .global "app.add(1,[])").run []).run 0 =
        ((.json (.array [.ofNat 1, .array []]),
          [.lookUp "app", .call "add" app [.ofNat 1, .array []]]), 1) ∧
      PathStep.globalName? .global "app.add(1,[])" = some "app" ∧
      other.resolvePath .global "app.add(1,[])" = host.resolvePath .global "app.add(1,[])" := by
  intro app host other
  have hsegments : PathStep.segments "app.add(1,[])".toList =
      ["app".toList] ++ ["add(1,[])".toList] := by
    have hrest : PathStep.segments "add(1,[])".toList = ["add(1,[])".toList] :=
      PathStep.segments_of_not_mem (by decide)
    have happ : "app".toList ≠ [] ∧ '.' ∉ "app".toList := by decide
    rw [List.singleton_append, ← hrest]
    exact PathStep.segments_of_dot happ.1 happ.2
  have hname : PathStep.globalName? .global "app.add(1,[])" = some "app" :=
    PathStep.globalName?_cons hsegments
  have herrand : host.errand .global "app.add(1,[])" =
      pure (.call ⟨0, "add"⟩ app [.ofNat 1, .array []]) := by
    rw [host.errand_global_cons hsegments]
    rfl
  obtain ⟨⟨names, last, hparts, hresolve⟩, htraced, hcongr⟩ :=
    resolvePath_by_segments host .global "app.add(1,[])"
  rw [hsegments, List.append_singleton_inj] at hparts
  obtain ⟨rfl, rfl⟩ := hparts
  refine ⟨?_, ?_, hname, hcongr other rfl rfl fun name h => ?_⟩
  · rw [hresolve]
    rfl
  · rw [htraced, herrand, hname]
    rfl
  · obtain rfl := Option.some.inj (hname.symm.trans h)
    rfl

end Host

end TableMarkup
