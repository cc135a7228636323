import ScriptCheck.Source.Position
import ScriptCheck.Text.Quoted

/-!
# Faults

A fault ends the reading or the checking of a script: the text is no script, or
the tree is not one that a script can have.  A fault is its cause and the place
where it arose; all wording is derived from the cause.
-/

namespace ScriptCheck

/-- Why a script cannot be read or checked any further. -/
inductive Fault.Cause where
  | unrecognisedToken (token : String)
  | unexpectedToken (token : String)
  | unexpectedTokenDetailed (token message : String)
  | numberParse (token : String)
  | unsupportedSyntax (construct : String)
  | missingChild (node child : String)
  | invalidTarget (node : String)
  | scopeGenerationOrder (origin callee : Nat)
  | missingFrame (symbol : String)
deriving DecidableEq, Repr

/-- A cause at a place of the source. -/
structure Fault where
  cause : Fault.Cause
  position : Position
deriving DecidableEq, Repr

namespace Fault.Cause

open Text (quoted)

def name : Cause → String
  | unrecognisedToken _ => "UnrecognisedToken"
  | unexpectedToken _ => "UnexpectedToken"
  | unexpectedTokenDetailed _ _ => "UnexpectedTokenDetailed"
  | numberParse _ => "NumberParseError"
  | unsupportedSyntax _ => "UnsupportedSyntax"
  | missingChild _ _ => "MissingChild"
  | invalidTarget _ => "InvalidTarget"
  | scopeGenerationOrder _ _ => "ScopeGenerationOrder"
  | missingFrame _ => "MissingFrame"

def detail : Cause → String
  | unrecognisedToken token => "unrecognised token: " ++ quoted token
  | unexpectedToken token => "unexpected token: " ++ quoted token
  | unexpectedTokenDetailed token message =>
      "unexpected token (" ++ quoted message ++ "): " ++ quoted token
  | numberParse token => "error parsing number: " ++ quoted token
  | unsupportedSyntax construct => "unsupported syntax: " ++ construct
  | missingChild node child => node ++ " is missing its " ++ child
  | invalidTarget node => "invalid assignment target: " ++ node
  | scopeGenerationOrder origin callee =>
      s!"callee scope {callee} is not newer than origin scope {origin}"
  | missingFrame symbol => "no frame holds binding " ++ quoted symbol

/-- What the author of the script may do about it.  An unrecognised character
speaks for itself. -/
def tip? : Cause → Option String
  | unrecognisedToken _ => none
  | unexpectedToken token =>
      some ("Unexpected token: `" ++ token ++ "`, did you miss a semicolon?")
  | unexpectedTokenDetailed token message =>
      some ("Unexpected token: `" ++ token ++ "`, " ++ message)
  | numberParse token => some ("Invalid number literal: `" ++ token ++ "`")
  | unsupportedSyntax construct =>
      some ("`" ++ construct ++ "` is not supported by the checker")
  | missingChild node child =>
      some ("`" ++ node ++ "` node is missing its `" ++ child ++ "`")
  | invalidTarget node =>
      some ("`" ++ node ++ "` cannot appear on the left-hand side of an assignment")
  | scopeGenerationOrder origin callee =>
      some s!"Callee scope #{callee} entered from a later scope #{origin}"
  | missingFrame symbol => some ("No live frame owns the binding `" ++ symbol ++ "`")

end Fault.Cause

def Fault.message (fault : Fault) : String :=
  let line := fault.position.line
  let column := fault.position.column
  fault.cause.detail ++ s!" at {line}:{column}"

/-- Why a computation on scripts stopped without an answer: a fault of the
script, or one of the bounds that keep the computation finite. -/
inductive Halt where
  | fault (fault : Fault)
  | depthExceeded
  | joinExceeded
deriving DecidableEq, Repr

end ScriptCheck
