import TableMarkup.Settings.Basic

/-!
# Reading settings

Settings are written in JSON as an object with any of their fields, or as an array of them in order.
What is missing keeps its standard value, and fields of other names are skipped.

* `Settings.ofJsonText` reads a text, and tells the first thing that is wrong with it.
-/

namespace TableMarkup.Settings

open Json (Event Sink)

inductive Next where
  | start
  | name
  /-- The value of a field; whether the settings are written as an array. -/
  | field (byPosition : Bool) (f : Field)
  | other
  | close
  | done
deriving DecidableEq

structure Reading where
  settings : Settings
  seen : List Field
  next : Next

def Reading.start : Reading :=
  ⟨standard, [], .start⟩

def Reading.named (r : Reading) (name : String) : Except String Reading :=
  match Field.ofName? name with
  | none => .ok { r with next := .other }
  | some f =>
    if f ∈ r.seen then .error ("duplicate field `" ++ name ++ "`")
    else .ok { r with next := .field false f }

def Reading.valued (r : Reading) (byPosition : Bool) (f : Field) (text : String) :
    Except String Reading :=
  (r.settings.withText f text).map fun settings =>
    { settings
      seen := f :: r.seen
      next := if byPosition then f.next?.elim .close (.field true) else .name }

def Reading.accept (r : Reading) (e : Event) : Except String Reading :=
  match r.next, e with
  | .start, .openObject => .ok { r with next := .name }
  | .start, .openArray => .ok { r with next := .field true .dataPrefix }
  | .start, e => .error (e.unexpected "struct Settings")
  | .name, .key name => r.named name
  | .other, .key name => r.named name
  | .field true _, .closeArray => .ok { r with next := .done }
  | .field byPosition f, .string s => r.valued byPosition f s
  | .field _ _, e => .error (e.unexpected "a string")
  | _, _ => .ok { r with next := .done }

def Reading.sink : Sink Reading where
  accept := Reading.accept
  skips r := r.next = .other
  room r := r.next ≠ .close

def ofJsonText (text : List Char) : Except Fault Settings :=
  (Json.read Reading.sink Reading.start text).map (·.settings)

end TableMarkup.Settings
