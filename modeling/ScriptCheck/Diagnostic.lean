import ScriptCheck.Source.Position
import ScriptCheck.Text.Split

/-!
# Diagnostics

A diagnostic is a problem of a script that can be checked to its end.  They are
collected in the order in which they are found; a merging collector joins those
that follow one another at the same location.
-/

namespace ScriptCheck

/-- Where a problem is: a line from one and a column from zero. -/
structure Location where
  line : Nat
  column : Nat
deriving DecidableEq, Repr, Inhabited

def Position.location (p : Position) : Location := ⟨p.line, p.column⟩

def Location.display (location : Location) : String :=
  let line := location.line
  let column := location.column
  s!"{line}:{column}"

inductive Problem where
  | unresolvedIdentifier (name : String)
  | duplicateDeclaration (name : String)
  | assignToConstant (name : String)
  | assignToUndeclared (name : String)
  | incompatibleOperands (operator left right : String)
  | incompatibleArgument (operator : String)
  | missingProperty (key object : String)
  | immutableAssignment
  | brokenAssignment
  | notCallable (callee : String)
  | unexpectedReturn
  | assignUndefined
deriving DecidableEq, Repr

namespace Problem

def name : Problem → String
  | unresolvedIdentifier _ => "UnresolvedIdentifier"
  | duplicateDeclaration _ => "DuplicateDeclaration"
  | assignToConstant _ => "AssignToConstant"
  | assignToUndeclared _ => "AssignToUndeclared"
  | incompatibleOperands _ _ _ => "IncompatibleOperands"
  | incompatibleArgument _ => "IncompatibleArgument"
  | missingProperty _ _ => "MissingProperty"
  | immutableAssignment => "ImmutableAssignment"
  | brokenAssignment => "BrokenAssignment"
  | notCallable _ => "NotCallable"
  | unexpectedReturn => "UnexpectedReturn"
  | assignUndefined => "AssignUndefined"

def message : Problem → String
  | unresolvedIdentifier name => "No such item in scope: `" ++ name ++ "`."
  | duplicateDeclaration name => "Multiple declarations for `" ++ name ++ "`."
  | assignToConstant name => "Assigning to a constant: `" ++ name ++ "`."
  | assignToUndeclared name => "Assigning to variable before init: `" ++ name ++ "`."
  | incompatibleOperands operator left right =>
      "Binary `" ++ operator ++ "`: Incompatible operands " ++ left ++ ", " ++ right ++ "."
  | incompatibleArgument operator => "Unary `" ++ operator ++ "`: Incompatible argument."
  | missingProperty key object => "No property " ++ key ++ " defined on " ++ object ++ "."
  | immutableAssignment => "Immutable type on the left-hand side of an assignment."
  | brokenAssignment => "Broken assignment."
  | notCallable callee => "Not a function " ++ callee ++ "."
  | unexpectedReturn => "Unexpected `return`."
  | assignUndefined => "Assigning `undefined`."

end Problem

/-- A problem at a location.  The trace holds the calls that led there, the
innermost first; it is empty outside every function.  Once others are merged into
it, the message has several lines and the problem stays the first one. -/
structure Diagnostic where
  location : Location
  problem : Problem
  message : String
  trace : List String
deriving DecidableEq, Repr

namespace Diagnostic

def ofProblem (location : Location) (problem : Problem) (trace : List String) :
    Diagnostic :=
  ⟨location, problem, problem.message, trace⟩

/-- What stands between the messages of a merged diagnostic. -/
def separator : String := "\n    "

def pieces (message : String) : List String :=
  (Text.segments separator.toList message.toList).map String.ofList

def messages (diagnostic : Diagnostic) : List String := pieces diagnostic.message

def display (diagnostic : Diagnostic) : String :=
  let line := diagnostic.location.line
  let column := diagnostic.location.column
  s!"({line},{column}): " ++ diagnostic.message

/-- The first diagnostic with the message of the second added, unless it already
lists it. -/
def absorb (earlier later : Diagnostic) : Diagnostic :=
  if later.message ∈ earlier.messages then earlier
  else { earlier with message := earlier.message ++ separator ++ later.message }

end Diagnostic

/-- The diagnostics found so far. -/
structure Diagnostics where
  merging : Bool
  records : Array Diagnostic := #[]
deriving Repr

namespace Diagnostics

/-- A collector that has found nothing. -/
def empty (merging : Bool) : Diagnostics := { merging }

/-- Adds a diagnostic.  When merging, one at the location of the last record is
joined to that record. -/
def report (diagnostics : Diagnostics) (found : Diagnostic) : Diagnostics :=
  match diagnostics.records.back? with
  | some last =>
      if diagnostics.merging ∧ last.location = found.location then
        { diagnostics with records := diagnostics.records.pop.push (last.absorb found) }
      else { diagnostics with records := diagnostics.records.push found }
  | none => { diagnostics with records := diagnostics.records.push found }

def size (diagnostics : Diagnostics) : Nat := diagnostics.records.size

def isEmpty (diagnostics : Diagnostics) : Bool := diagnostics.records.isEmpty

def hasErrors (diagnostics : Diagnostics) : Bool := !diagnostics.isEmpty

/-- The records in the order in which they were found. -/
def toList (diagnostics : Diagnostics) : List Diagnostic := diagnostics.records.toList

end Diagnostics

end ScriptCheck
