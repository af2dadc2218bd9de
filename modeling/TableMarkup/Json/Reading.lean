import TableMarkup.Json.Event
import TableMarkup.Json.Numeral
import TableMarkup.Text.Blank

/-!
# Reading JSON

A text is read by one pass over its characters. The machine remembers the brackets that are open and
what may come next; everything it recognises goes to a `Sink` as an event, at the character that
completes it. There is no look-ahead, so reading is `List.foldlM` over the characters and a text can
be cut anywhere.

* `Machine.step` takes one character, `Machine.finish` the end of the text.
* `read` runs a sink over a text.
* Values that a sink skips have to be well-formed, but their nesting, the size of their numbers and
  the pairing of their surrogates are not looked at.
-/

namespace TableMarkup.Json

def nestingLimit : Nat := 127

inductive Bracket where
  | array
  | object
deriving DecidableEq

inductive Expecting where
  | value
  | firstItem
  | firstKey
  | key
  | colon
  /-- A comma or the end of what is open, or blanks only when nothing is. -/
  | separator
deriving DecidableEq

def Bracket.opening : Bracket → Event
  | .array => .openArray
  | .object => .openObject

def Bracket.closing : Bracket → Event
  | .array => .closeArray
  | .object => .closeObject

def Bracket.inside : Bracket → Expecting
  | .array => .firstItem
  | .object => .firstKey

inductive Word where
  | null
  | truth (b : Bool)

def Word.event : Word → Event
  | .null => .null
  | .truth b => .bool b

inductive Inside where
  | plain
  | escape
  /-- After `\u`: the characters taken so far, last first, and the high surrogate in front. -/
  | unicode (taken : List Char) (high : Option Nat)
  /-- After a high surrogate, which another escape has to follow. -/
  | afterHigh (high : Nat)
  | afterHighEscape (high : Nat)

inductive Mode where
  | between (e : Expecting)
  /-- One of the words `null`, `true` and `false`: what is left of it and which one it is. -/
  | word (left : List Char) (means : Word)
  | number (d : Numeral.Draft)
  /-- A quoted text: the characters read so far, last first. -/
  | quoted (asKey : Bool) (seen : List Char) (place : Inside)

structure Machine (σ : Type) where
  /-- The open brackets, innermost first. -/
  nesting : List Bracket
  /-- Inside a skipped value: how many brackets are open around it. -/
  skipped : Option Nat
  mode : Mode
  sink : σ

namespace Machine

variable {σ : Type}

def start (sink : σ) : Machine σ :=
  { nesting := [], skipped := none, mode := .between .value, sink }

/-- Passes an event to the sink, unless it belongs to a skipped value. -/
def tell (k : Sink σ) (m : Machine σ) (e : Event) : Except Fault (Machine σ) :=
  match m.skipped with
  | some _ => .ok m
  | none =>
    match k.accept m.sink e with
    | .ok sink => .ok { m with sink }
    | .error message => .error (.unsuitable message)

def completed (m : Machine σ) : Machine σ :=
  { m with
    mode := .between .separator
    -- A skipped value ends where as many brackets are open as when it began.
    skipped := if m.skipped = some m.nesting.length then none else m.skipped }

def scalar (k : Sink σ) (m : Machine σ) (e : Event) : Except Fault (Machine σ) :=
  (m.tell k e).map completed

/-- Opens a bracket. Too many open brackets are refused after the sink has heard of this one. -/
def openBracket (k : Sink σ) (m : Machine σ) (b : Bracket) : Except Fault (Machine σ) := do
  let m ← m.tell k b.opening
  if m.skipped.isNone && nestingLimit ≤ m.nesting.length then .error .malformed
  else
    .ok { m with nesting := b :: m.nesting, mode := .between b.inside }

/-- Closes the innermost bracket. -/
def closeBracket (k : Sink σ) (m : Machine σ) (b : Bracket) : Except Fault (Machine σ) := do
  let m ← m.tell k b.closing
  .ok { m with nesting := m.nesting.tail }.completed

def startValue (k : Sink σ) (m : Machine σ) (c : Char) : Except Fault (Machine σ) :=
  let m := { m with
    -- Whether a value is of interest is asked once, when it begins.
    skipped :=
      if m.skipped.isNone && k.skips m.sink then some m.nesting.length else m.skipped }
  if c = 'n' then .ok { m with mode := .word ['u', 'l', 'l'] .null }
  else if c = 't' then .ok { m with mode := .word ['r', 'u', 'e'] (.truth true) }
  else if c = 'f' then .ok { m with mode := .word ['a', 'l', 's', 'e'] (.truth false) }
  else if c = '"' then .ok { m with mode := .quoted false [] .plain }
  else if c = '[' then m.openBracket k .array
  else if c = '\x7b' then m.openBracket k .object
  else match Numeral.Draft.start? c with
    | some d => .ok { m with mode := .number d }
    | none => .error .malformed

def startKey (m : Machine σ) (c : Char) : Except Fault (Machine σ) :=
  if c = '"' then .ok { m with mode := .quoted true [] .plain } else .error .malformed

def stepBetween (k : Sink σ) (m : Machine σ) (e : Expecting) (c : Char) :
    Except Fault (Machine σ) :=
  if Text.isJsonBlank c then .ok { m with mode := .between e }
  else match e with
    | .value => m.startValue k c
    | .firstItem => if c = ']' then m.closeBracket k .array else m.startValue k c
    | .firstKey => if c = '\x7d' then m.closeBracket k .object else m.startKey c
    | .key => m.startKey c
    | .colon => if c = ':' then .ok { m with mode := .between .value } else .error .malformed
    | .separator =>
      match m.nesting with
      | .array :: _ =>
        if c = ']' then m.closeBracket k .array
        else if c = ',' && (m.skipped.isSome || k.room m.sink) then
          .ok { m with mode := .between .value }
        else .error .malformed
      | .object :: _ =>
        if c = '\x7d' then m.closeBracket k .object
        else if c = ',' then .ok { m with mode := .between .key }
        else .error .malformed
      | [] => .error .malformed

/-- A number is complete. A number out of range is malformed, unless it is skipped. -/
def numberDone (k : Sink σ) (m : Machine σ) (d : Numeral.Draft) : Except Fault (Machine σ) :=
  match m.skipped, d.value? with
  | some _, _ => .ok m.completed
  | none, some n => m.scalar k (.number n)
  | none, none => .error .malformed

def stepNumber (k : Sink σ) (m : Machine σ) (d : Numeral.Draft) (c : Char) :
    Except Fault (Machine σ) :=
  match d.push c with
  | .more d => .ok { m with mode := .number d }
  | .wrong => .error .malformed
  | .after => do
    let m ← m.numberDone k d
    m.stepBetween k .separator c

def stepWord (k : Sink σ) (m : Machine σ) (left : List Char) (means : Word) (c : Char) :
    Except Fault (Machine σ) :=
  match left with
  | [] => .error .malformed
  | expected :: left =>
    if c = expected then
      if left.isEmpty then m.scalar k means.event else .ok { m with mode := .word left means }
    else .error .malformed

def quotedDone (k : Sink σ) (m : Machine σ) (asKey : Bool) (seen : List Char) :
    Except Fault (Machine σ) :=
  let s := String.ofList seen.reverse
  if asKey then (m.tell k (.key s)).map fun m => { m with mode := .between .colon }
  else m.scalar k (.string s)

/-- The four characters after `\u`, with what they mean for the text. -/
def unicodeDone (m : Machine σ) (asKey : Bool) (seen taken : List Char) (high : Option Nat) :
    Except Fault (Machine σ) :=
  match taken.reverse.mapM Text.hexValue? with
  | none => .error .malformed
  | some values =>
    let unit := values.foldl (fun n d => 16 * n + d) 0
    if values.length ≠ 4 then .error .malformed
    -- Nobody reads a skipped text, so its surrogates need no pairs.
    else if m.skipped.isSome then .ok { m with mode := .quoted asKey seen .plain }
    else match high with
      | none =>
        if 0xD800 ≤ unit && unit ≤ 0xDBFF then
          .ok { m with mode := .quoted asKey seen (.afterHigh unit) }
        else if 0xDC00 ≤ unit && unit ≤ 0xDFFF then .error .malformed
        else .ok { m with mode := .quoted asKey (Char.ofNat unit :: seen) .plain }
      | some high =>
        if 0xDC00 ≤ unit && unit ≤ 0xDFFF then
          let c := Char.ofNat ((high - 0xD800) * 0x400 + (unit - 0xDC00) + 0x10000)
          .ok { m with mode := .quoted asKey (c :: seen) .plain }
        else .error .malformed

def stepQuoted (k : Sink σ) (m : Machine σ) (asKey : Bool) (seen : List Char) (place : Inside)
    (c : Char) : Except Fault (Machine σ) :=
  let inside (seen : List Char) (place : Inside) : Except Fault (Machine σ) :=
    .ok { m with mode := .quoted asKey seen place }
  match place with
  | .plain =>
    if c = '"' then m.quotedDone k asKey seen
    else if c = '\\' then inside seen .escape
    else if c.toNat < 0x20 then .error .malformed
    else inside (c :: seen) .plain
  | .escape =>
    if c = 'u' then inside seen (.unicode [] none)
    else match unescape? c with
      | some meant => inside (meant :: seen) .plain
      | none => .error .malformed
  | .unicode taken high =>
    let taken := c :: taken
    -- Four bytes are taken at once, so a text that ends within them has ended too early.
    if taken.foldl (fun size c => size + c.utf8Size) 0 < 4 then inside seen (.unicode taken high)
    else m.unicodeDone asKey seen taken high
  | .afterHigh high => if c = '\\' then inside seen (.afterHighEscape high) else .error .malformed
  | .afterHighEscape high =>
    if c = 'u' then inside seen (.unicode [] (some high)) else .error .malformed

def step (k : Sink σ) (m : Machine σ) (c : Char) : Except Fault (Machine σ) :=
  match m.mode with
  | .between e => m.stepBetween k e c
  | .word left means => m.stepWord k left means c
  | .number d => m.stepNumber k d c
  | .quoted asKey seen place => m.stepQuoted k asKey seen place c

/-- The end of the text. A number may end here; anything else has to be complete. In a skipped value
an unfinished number counts as malformed. -/
def finish (k : Sink σ) (m : Machine σ) : Except Fault σ :=
  let closed (m : Machine σ) : Except Fault σ :=
    if m.nesting.isEmpty then .ok m.sink else .error .ended
  match m.mode with
  | .between .separator => closed m
  -- A number that goes on to the last character is complete only now.
  | .number d =>
    if d.complete then (m.numberDone k d).bind closed
    else .error (if m.skipped.isSome then .malformed else .ended)
  | _ => .error .ended

end Machine

def read {σ : Type} (k : Sink σ) (start : σ) (text : List Char) : Except Fault σ := do
  let m ← text.foldlM (Machine.step k) (Machine.start start)
  m.finish k

end TableMarkup.Json
