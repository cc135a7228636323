/-!
# Kinds

The sorts of values that a type can stand for.
-/

namespace ScriptCheck

/-- The kind of a plain type.  An unknown type may be anything. -/
inductive Kind where
  | string | number | boolean | null | undefined | object | function | unknown
deriving DecidableEq, Repr, Inhabited

namespace Kind

def all : List Kind :=
  [.string, .number, .boolean, .null, .undefined, .object, .function, .unknown]

def name : Kind → String
  | string => "string"
  | number => "number"
  | boolean => "boolean"
  | null => "null"
  | undefined => "undefined"
  | object => "object"
  | function => "function"
  | unknown => "any"

def ofTypeof? : String → Option Kind
  | "string" => some string
  | "number" => some number
  | "boolean" => some boolean
  | "undefined" => some undefined
  | "object" => some object
  | "function" => some function
  | _ => none

def typeofName? : Kind → Option String
  | string => some "string"
  | number => some "number"
  | boolean => some "boolean"
  | null | object => some "object"
  | undefined => some "undefined"
  | function => some "function"
  | unknown => none

/-- Whether values of a kind have no members that can be written. -/
def isPrimitive : Kind → Bool
  | string | number | boolean | null | undefined => true
  | object | function | unknown => false

end Kind

end ScriptCheck
