import ScriptCheck.Check.Program
import ScriptCheck.Report

/-!
# The command line

One argument names the script to check.  The exit code is zero for a script
without problems, one for a script with problems and two when there is nothing to
check.
-/

namespace ScriptCheck.CommandLine

/-- What a run of the program leaves behind. -/
structure Outcome where
  exitCode : UInt32
  stdout : String := ""
  stderr : String := ""
deriving DecidableEq, Repr

/-- The outcome for a wrong number of arguments. -/
def usage (program : String) : Outcome :=
  { exitCode := 2, stderr := "Usage: " ++ program ++ " <file.js>\n" }

/-- The outcome for a file that cannot be read. -/
def unreadable (path reason : String) : Outcome :=
  { exitCode := 2, stderr := "Failed to read " ++ path ++ ": " ++ reason ++ "\n" }

def fileName (path : String) : String :=
  String.ofList (path.toList.reverse.takeWhile (· ≠ '/')).reverse

/-- The outcome for a script that could not be checked to its end. -/
def stopped (halt : Halt) (source path : String) : Outcome :=
  match halt with
  | .fault fault => { exitCode := 1, stderr := fault.report source path }
  | .depthExceeded => { exitCode := 1, stderr := "Error: nested too deeply\n-> " ++ path ++ "\n" }
  | .joinExceeded => { exitCode := 1, stderr := "Error: types too complex\n-> " ++ path ++ "\n" }

/-- The outcome for a script that was checked to its end. -/
def finished (diagnostics : Diagnostics) (source path : String) : Outcome :=
  let name := fileName path
  if diagnostics.isEmpty then
    { exitCode := 0, stdout := "No problems found in " ++ name ++ "\n" }
  else
    let reports := diagnostics.toList.map fun diagnostic => diagnostic.report source path
    let count := diagnostics.size
    { exitCode := 1
      stderr := String.join reports ++ s!"{count} problem(s) found in " ++ name ++ "\n" }

def checkText (source path : String) : Outcome :=
  match checkSource source (fileName path) {} with
  | .error halt => stopped halt source path
  | .ok diagnostics => finished diagnostics source path

def run {m : Type → Type} [Monad m] (program : String)
    (readFile : String → m (Except String String)) (arguments : List String) :
    m Outcome := do
  match arguments with
  | [path] =>
      match ← readFile path with
      | .error reason => return unreadable path reason
      | .ok source => return checkText source path
  | _ => return usage program

end ScriptCheck.CommandLine
