import ScriptCheck.CommandLine

/-!
# The program

Reads the script, prints the outcome and exits.
-/

namespace ScriptCheck.Program

/-- Why a file could not be read, in the words of the system. -/
def reason : IO.Error → String
  | .noFileOrDirectory .. => "No such file or directory (os error 2)"
  | .permissionDenied .. => "Permission denied (os error 13)"
  | .inappropriateType .. => "Is a directory (os error 21)"
  | other => toString other

def readText (path : String) : IO (Except String String) := do
  try
    let bytes ← IO.FS.readBinFile path
    match String.fromUTF8? bytes with
    | some text => return .ok text
    | none => return .error "stream did not contain valid UTF-8"
  catch error => return .error (reason error)

end ScriptCheck.Program

def main (arguments : List String) : IO UInt32 := do
  let outcome ← ScriptCheck.CommandLine.run "flowcheck" ScriptCheck.Program.readText arguments
  IO.print outcome.stdout
  IO.eprint outcome.stderr
  return outcome.exitCode
