import TableMarkup.Command.Program

/-!
# The executable

Runs the program on the files of the machine.
-/

namespace TableMarkup

def readFailure : IO.Error → ReadFailure
  | .noFileOrDirectory .. => .missing
  | .inappropriateType _ 20 _ => .noDirectory
  | .inappropriateType .. => .directory
  | .invalidArgument _ 36 _ => .nameTooLong
  | e => .other (toString e)

/-- The files of the machine. -/
def machineFiles : Files IO where
  read path := do
    if let some fault := pathFault? path then return .error fault
    try
      let bytes ← IO.FS.readBinFile path
      match String.fromUTF8? bytes with
      | some text => return .ok text
      | none => return .error .notText
    catch e => return .error (readFailure e)

end TableMarkup

open TableMarkup

def main (args : List String) : IO UInt32 := do
  let exit ← Program.run machineFiles args
  IO.print exit.stdout
  if let some report := exit.error then IO.eprintln report
  return exit.code
