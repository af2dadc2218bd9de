/-!
# Files

What a program reads from files, it reads through `Files`: from the files of the machine, or from a
table of texts.

A path is followed part by part from the current directory. An empty part and a single dot stay where
they are, two dots lead to the directory above, and any other part leads down; whatever a part is
taken from has to be a directory.

* `Files.read` gives the text of a file, or the reason why there is none.
* `pathFault?` is what is wrong with a path wherever it leads.
* `FileTable.follow` follows a path through a table, and `Files.ofTable` are the files of the table.
* `fileExtension` is the extension of a path.
-/

namespace TableMarkup

inductive ReadFailure where
  | missing
  | directory
  | noDirectory
  /-- A part of the path, or the path as a whole, is too long. -/
  | nameTooLong
  | nullInName
  /-- The bytes of the file are no text. -/
  | notText
  | other (report : String)

def ReadFailure.message : ReadFailure → String
  | .missing => "No such file or directory (os error 2)"
  | .directory => "Is a directory (os error 21)"
  | .noDirectory => "Not a directory (os error 20)"
  | .nameTooLong => "File name too long (os error 36)"
  | .nullInName => "file name contained an unexpected NUL byte"
  | .notText => "stream did not contain valid UTF-8"
  | .other report => report

structure Files (m : Type → Type) where
  read : String → m (Except ReadFailure String)

/-- The number of bytes that a path may have, and the number that a part of it may have. -/
def pathLimits : Nat × Nat := (4095, 255)

def pathFault? (path : String) : Option ReadFailure :=
  if path.toList.contains '\x00' then some .nullInName
  else if path.isEmpty then some .missing
  else if pathLimits.1 < path.utf8ByteSize then some .nameTooLong
  else none

def pathParts (path : String) : List String :=
  (path.toList.splitOn '/').map String.ofList

/-- Whether a part of a path leads nowhere. -/
def staysInPlace (part : String) : Bool :=
  part = "" || part = "."

def pathNames (path : String) : List String :=
  (pathParts path).filter (!staysInPlace ·)

/-- Files with their contents, or with the reason why they have none. Their names are paths below the
current directory. -/
abbrev FileTable := List (String × Except ReadFailure String)

inductive Place where
  /-- A directory above the current one. The table does not say what else is there. -/
  | above
  | below (names : List String)
  | nowhere

def Place.parent : Place → Place
  | .above => .above
  | .below [] => .above
  | .below names => .below names.dropLast
  | .nowhere => .nowhere

def Place.child (place : Place) (name : String) : Place :=
  match place with
  | .below names => .below (names ++ [name])
  | _ => .nowhere

namespace FileTable

/-- What the names lead to, from the current directory. What has something below it is a directory. -/
def content (table : FileTable) (names : List String) : Except ReadFailure String :=
  match table.find? fun (name, _) => pathNames name = names with
  | some (_, content) => content
  | none =>
    -- A table lists files; their directories are there because of them.
    if names.isEmpty || table.any fun (name, _) => names.isPrefixOf (pathNames name) then
      .error .directory
    else .error .missing

def contentAt (table : FileTable) : Place → Except ReadFailure String
  | .above => .error .directory
  | .below names => table.content names
  | .nowhere => .error .missing

def follow (table : FileTable) : List String → Place → Except ReadFailure String
  | [], place => table.contentAt place
  | part :: parts, place =>
    -- Only a directory leads on, also for a part that stays in place.
    match table.contentAt place with
    | .error .directory =>
      if staysInPlace part then table.follow parts place
      else if part = ".." then table.follow parts place.parent
      else if pathLimits.2 < part.utf8ByteSize then .error .nameTooLong
      else table.follow parts (place.child part)
    | .error .missing => .error .missing
    | _ => .error .noDirectory

end FileTable

/-- The files of a table. A path that begins with a slash leads out of the table at once. -/
def Files.ofTable (table : FileTable) : Files Id where
  read path :=
    match pathFault? path with
    | some fault => .error fault
    | none => table.follow (pathParts path) (if path.startsWith "/" then .above else .below [])

/-- What follows the last dot of the last part of a path, if something precedes it. -/
def fileExtension (path : String) : String :=
  match (pathNames path).getLast? with
  | none => ""
  | some name =>
    let fromEnd := name.toList.reverse
    match fromEnd.dropWhile (· ≠ '.') with
    | '.' :: _ :: _ =>
      -- A name that begins with its only dot has no extension, and neither has the parent.
      if name = ".." then "" else String.ofList (fromEnd.takeWhile (· ≠ '.')).reverse
    | _ => ""

end TableMarkup
