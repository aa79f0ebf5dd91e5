import Stylesheet.Command

/-! # The program

The command on the files of the system.
-/

namespace Stylesheet.Command

def fileProblem : IO.Error → FileProblem
  | .noFileOrDirectory _ code details => .system details code.toNat
  | .inappropriateType _ code details => .system details code.toNat
  | .permissionDenied _ code details => .system details code.toNat
  | .otherError code details => .system details code.toNat
  | other => .system (toString other) 0

def systemFiles : Files IO where
  read path := do
    try
      match String.fromUTF8? (← IO.FS.readBinFile path) with
      | some text => return .ok text
      | none => return .error .notText
    catch error => return .error (fileProblem error)
  write path text := do
    try
      IO.FS.writeFile path text
      return .ok ()
    catch error => return .error (fileProblem error)

end Stylesheet.Command

open Stylesheet.Command in
def main (arguments : List String) : IO UInt32 := do
  let outcome ← run systemFiles arguments
  IO.print outcome.output
  IO.eprint outcome.errors
  return outcome.exitCode
