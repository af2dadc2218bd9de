import TableMarkup.Json.Reading

/-!
# From events to values

* `Assembly` is a value that is being put together from events; `Assembly.accept` takes one more.
* `Json.parse` reads the value that a text stands for; `Json.parse?_eq_some_iff` says that the machine
  ends with this value.
-/

namespace TableMarkup.Json

inductive Frame where
  /-- The items so far, last first. -/
  | items (before : List Json)
  /-- The members so far, and the name of the one that comes next. -/
  | members (before : Members Json) (name : String)

inductive Assembly where
  /-- What is open, innermost first. -/
  | building (frames : List Frame)
  | done (j : Json)

def Assembly.start : Assembly := .building []

/-- A complete value goes into what is open around it. -/
def Assembly.place (j : Json) : List Frame → Assembly
  | [] => .done j
  | .items before :: frames => .building (.items (j :: before) :: frames)
  | .members before name :: frames =>
    .building (.members (before.insert name j) name :: frames)

def Assembly.accept : Assembly → Event → Assembly
  | .building frames, .null => place .null frames
  | .building frames, .bool b => place (.bool b) frames
  | .building frames, .number n => place (.number n) frames
  | .building frames, .string s => place (.string s) frames
  | .building frames, .openArray => .building (.items [] :: frames)
  | .building (.items before :: frames), .closeArray => place (.array before.reverse) frames
  | .building frames, .openObject => .building (.members [] "" :: frames)
  | .building (.members before _ :: frames), .key name => .building (.members before name :: frames)
  | .building (.members before _ :: frames), .closeObject => place (.object before) frames
  | other, _ => other

def Assembly.sink : Sink Assembly where
  accept a e := .ok (a.accept e)
  skips _ := false
  room _ := true

def parse (text : List Char) : Except Fault Json :=
  match read Assembly.sink Assembly.start text with
  | .ok (.done j) => .ok j
  | .ok (.building _) => .error .ended
  | .error fault => .error fault

def parse? (text : List Char) : Option Json :=
  (parse text).toOption

theorem parse?_eq_some_iff {text : List Char} {j : Json} :
    parse? text = some j ↔ read Assembly.sink Assembly.start text = .ok (.done j) := by
  rw [parse?, parse]
  cases read Assembly.sink Assembly.start text with
  | error f => simp [Except.toOption]
  | ok a => cases a <;> simp [Except.toOption]

end TableMarkup.Json
