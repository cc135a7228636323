/-!
# Options of a check
-/

namespace ScriptCheck

/-- The names that every script may read without declaring them. -/
def defaultGlobals : List String :=
  ["undefined", "NaN", "Infinity", "console", "Math", "JSON", "Object", "Array",
   "String", "Number", "Boolean", "Error", "parseInt", "parseFloat", "isNaN",
   "require", "module", "exports"]

/-- How a script is checked. -/
structure CheckOptions where
  /-- The names of the global scope. -/
  globals : List String := defaultGlobals
  /-- Whether values that the text alone settles sharpen what is assigned. -/
  foldConstants : Bool := true
  /-- Whether diagnostics that follow one another at one location are joined. -/
  mergeDiagnostics : Bool := true
  /-- Whether assigning `undefined` is reported. -/
  reportUndefinedAssignment : Bool := false
deriving DecidableEq, Repr

end ScriptCheck
