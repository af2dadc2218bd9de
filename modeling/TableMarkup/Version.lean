import TableMarkup.Json.Reading
import TableMarkup.Text.Blank

/-!
# Versions

A version is three numbers of 64 bits, written with dots between them. In a text that is read the
last ones may be missing, which then are zero, and blanks may surround it.

* `Version.parse` reads a version, `Version.render` writes it.
* `compare` on versions looks at the first number first.
-/

namespace TableMarkup

structure Version where
  major : UInt64
  minor : UInt64
  patch : UInt64
deriving DecidableEq, Inhabited

namespace Version

instance : Ord Version where
  compare a b :=
    (compare a.major b.major).then ((compare a.minor b.minor).then (compare a.patch b.patch))

def isBefore (a b : Version) : Bool :=
  compare a b = .lt

def complaint (text : String) : String :=
  "invalid version '" ++ text ++ "': expected up to three dot-separated numbers"

def number? (part : List Char) : Option UInt64 :=
  (Text.unsigned? Text.wordSize part).map UInt64.ofNat

def parse? (text : String) : Option Version :=
  -- Numbers that are left out are zero.
  match ((Text.trim text.toList).splitOn '.').mapM number? with
  | some [major] => some ⟨major, 0, 0⟩
  | some [major, minor] => some ⟨major, minor, 0⟩
  | some [major, minor, patch] => some ⟨major, minor, patch⟩
  | _ => none

def parse (text : String) : Except String Version :=
  match parse? text with
  | some v => .ok v
  | none => .error (complaint text)

def render (v : Version) : String :=
  String.ofList (Text.digits v.major.toNat ++ '.' :: Text.digits v.minor.toNat ++
    '.' :: Text.digits v.patch.toNat)

def serialized (v : Version) : List Char :=
  Json.quoted v.render

/-- Takes the event of a version: a text that is one. -/
def accept (_ : Option Version) : Json.Event → Except String (Option Version)
  | .string s => (parse s).map some
  | e => .error (e.unexpected "a string")

def sink : Json.Sink (Option Version) where
  accept := accept
  skips _ := false
  room _ := true

def ofJsonText (text : List Char) : Except Fault Version := do
  match ← Json.read sink none text with
  | some v => .ok v
  | none => .error .ended

end Version

end TableMarkup
