import TableMarkup.Json.Assembly

/-!
# Paths

A text that is no literal is a path: names separated by dots, of which the last may be called with
arguments, `app.format.money(2, "EUR")`.

* `PathStep.of` reads the first step of a path. A separator at the very beginning does not count.
* `length_tail_lt`: what is left after the first step is shorter than the path.
-/

namespace TableMarkup

inductive PathStep where
  /-- A name, and the path that goes on inside what it stands for. -/
  | member (head tail : String)
  /-- A call; the arguments are missing if they are not written properly. -/
  | call (name : String) (args : Option (List Json))
  | property (name : String)

namespace PathStep

/-- What stands before and after the first `mark`, if something stands before it. -/
def cutAt? (mark : Char) (text : List Char) : Option (List Char × List Char) :=
  match text.takeWhile (· ≠ mark), text.dropWhile (· ≠ mark) with
  | c :: before, _ :: after => some (c :: before, after)
  | _, _ => none

/-- The arguments of a call, from what stands before and after its opening parenthesis. They end at
the first closing parenthesis of the whole text; one in the name leaves no arguments. -/
def arguments? (name after : List Char) : Option (List Json) :=
  let written := if ')' ∈ name then some []
    else if ')' ∈ after then some (after.takeWhile (· ≠ ')'))
    else none
  match written.bind fun args => Json.parse? ('[' :: args ++ [']']) with
  | some (.array items) => some items
  | _ => none

def of (path : String) : PathStep :=
  match cutAt? '.' path.toList with
  | some (head, tail) => .member (String.ofList head) (String.ofList tail)
  | none =>
    match cutAt? '(' path.toList with
    | some (name, after) => .call (String.ofList name) (arguments? name after)
    | none => .property path

theorem length_cutAt?_lt {mark : Char} {text before after : List Char}
    (h : cutAt? mark text = some (before, after)) : after.length < text.length := by
  unfold cutAt? at h
  split at h
  · next htake hdrop =>
    -- The text is what stands before the mark, the mark, and what is left.
    have := List.takeWhile_append_dropWhile (p := (· ≠ mark)) (l := text)
    simp only [Option.some.injEq, Prod.mk.injEq] at h
    rw [← this, htake, hdrop, h.2]
    simp only [List.cons_append, List.length_cons, List.length_append]
    omega
  · simp at h

/-- What is left after the first step is shorter than the path. -/
theorem length_tail_lt {path head tail : String} (h : of path = .member head tail) :
    tail.length < path.length := by
  unfold of at h
  split at h
  · next hcut =>
    simp only [PathStep.member.injEq] at h
    obtain ⟨-, rfl⟩ := h
    simpa [← String.length_toList] using length_cutAt?_lt hcut
  · split at h <;> simp at h

end PathStep

end TableMarkup
