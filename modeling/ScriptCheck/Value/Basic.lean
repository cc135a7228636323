import ScriptCheck.Number.Reader
import ScriptCheck.Number.Text
import ScriptCheck.Record
import ScriptCheck.Text.Units

/-!
# Values

The values a script computes with, as far as they are known before it runs.
Arrays and objects have an identity besides their contents, kept as a tag: two of
them are the same array or object exactly when their tags agree.
-/

namespace ScriptCheck

/-- A value of a script.  The members of an object stand in ascending order of
their names. -/
inductive Value where
  | undefined
  | null
  | bool (b : Bool)
  | number (x : Float)
  | string (s : String)
  | array (tag : Nat) (elements : List Value)
  | object (tag : Nat) (members : List (String × Value))
deriving Inhabited

namespace Value

def typeName : Value → String
  | undefined => "undefined"
  | null | array .. | object .. => "object"
  | bool _ => "boolean"
  | number _ => "number"
  | string _ => "string"

/-- Whether a value has no identity besides its contents. -/
def isPrimitive : Value → Bool
  | array .. | object .. => false
  | _ => true

def isNullish : Value → Bool
  | undefined | null => true
  | _ => false

/-- Whether a value counts as true in a condition. -/
def truthy : Value → Bool
  | undefined | null => false
  | bool b => b
  | number x => x != 0 && !x.isNaN
  | string s => !s.isEmpty
  | array .. | object .. => true

mutual

/-- A value as a text, the way a script converts it. -/
def text : Value → String
  | undefined => "undefined"
  | null => "null"
  | bool b => if b then "true" else "false"
  | number x => Number.text x
  | string s => s
  | array _ elements => ",".intercalate (elementTexts elements)
  | object _ _ => "[object Object]"

/-- The elements of an array as texts; `null` and `undefined` leave a blank. -/
def elementTexts : List Value → List String
  | [] => []
  | undefined :: rest => "" :: elementTexts rest
  | null :: rest => "" :: elementTexts rest
  | element :: rest => element.text :: elementTexts rest

end

/-- A value as a number, the way a script converts it. -/
def toNumber : Value → Float
  | undefined => Number.nan
  | null => 0
  | bool b => if b then 1 else 0
  | number x => x
  | string s => Number.ofText s
  | array tag elements => Number.ofText (array tag elements).text
  | object tag members => Number.ofText (object tag members).text

/-- A value with the identity of an array or object given up for its text. -/
def toPrimitive (value : Value) : Value :=
  if value.isPrimitive then value else string value.text

mutual

def display : Value → String
  | string s => "'" ++ s ++ "'"
  | array _ [] => "[]"
  | array _ elements => "[ " ++ ", ".intercalate (elementDisplays elements) ++ " ]"
  | object _ [] => "\x7b\x7d"
  | object _ members =>
      "\x7b " ++ ", ".intercalate (memberDisplays members) ++ " \x7d"
  | undefined => "undefined"
  | null => "null"
  | bool b => if b then "true" else "false"
  | number x => Number.text x

/-- The elements of an array as a message shows them. -/
def elementDisplays : List Value → List String
  | [] => []
  | element :: rest => element.display :: elementDisplays rest

/-- The members of an object as a message shows them. -/
def memberDisplays : List (String × Value) → List String
  | [] => []
  | (name, member) :: rest => (name ++ ": " ++ member.display) :: memberDisplays rest

end

/-- The index that a member name spells: decimal digits without a leading zero. -/
def index? (key : String) : Option Nat :=
  let n := Number.digitsValue key.toList
  if key.toList = Nat.toDigits 10 n then some n else none

/-- The member of a value, none where it has no such member.  The length of a
string is in 16-bit units, its characters are code points. -/
def get? (value : Value) (key : String) : Option Value :=
  match value with
  | object _ members => Record.get? key members
  | array _ elements =>
      if key = "length" then some (number (Float.ofNat elements.length))
      else (index? key).bind fun index => elements[index]?
  | string s =>
      if key = "length" then some (number (Float.ofNat (Text.unitCount s)))
      else (index? key).bind fun index =>
        s.toList[index]?.map fun c => string (String.singleton c)
  | _ => none

end Value

end ScriptCheck
