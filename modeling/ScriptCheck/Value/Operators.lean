import ScriptCheck.Operator
import ScriptCheck.Value.Equality

/-!
# Operators on values

What the operators of a script compute on known values.
-/

namespace ScriptCheck.Value

/-- An order relation on texts or numbers, by the operator that asks for it. -/
inductive Comparison where
  | less | lessEq | greater | greaterEq
deriving DecidableEq, Repr

/-- Compares two texts by their code points. -/
def Comparison.onTexts (comparison : Comparison) (s t : String) : Bool :=
  match comparison with
  | less => s < t
  | lessEq => !(decide (t < s))
  | greater => t < s
  | greaterEq => !(decide (s < t))

/-- Compares two numbers; nothing holds of not a number. -/
def Comparison.onNumbers (comparison : Comparison) (x y : Float) : Bool :=
  match comparison with
  | less => x < y
  | lessEq => x ≤ y
  | greater => y < x
  | greaterEq => y ≤ x

/-- Compares two values: as texts when both are texts without their identities, as
numbers otherwise. -/
def compare (comparison : Comparison) (left right : Value) : Bool :=
  match left.toPrimitive, right.toPrimitive with
  | string s, string t => comparison.onTexts s t
  | a, b => comparison.onNumbers a.toNumber b.toNumber

/-- The operator `+`: texts are joined as soon as one side is a text. -/
def add (left right : Value) : Value :=
  match left.toPrimitive, right.toPrimitive with
  | string s, b => string (s ++ b.text)
  | a, string t => string (a.text ++ t)
  | a, b => number (a.toNumber + b.toNumber)

def onNumbers (f : Float → Float → Float) (left right : Value) : Value :=
  number (f left.toNumber right.toNumber)

/-- A number computed from both operands as 32-bit integers. -/
def onInt32 (f : Int32 → Int32 → Int32) (left right : Value) : Value :=
  let result := f (Number.toInt32 left.toNumber) (Number.toInt32 right.toNumber)
  number (Float.ofInt result.toInt)

def shiftUnsigned (left right : Value) : Value :=
  let bits := (Number.toInt32 left.toNumber).toUInt32
  let amount := (Number.toInt32 right.toNumber).toUInt32
  number (Float.ofNat (bits >>> (amount &&& 31)).toNat)

/-- The result of a binary operator, none for those that ask about more than the
two values. -/
def binary (op : BinaryOp) (left right : Value) : Option Value :=
  match op with
  | .add => some (add left right)
  | .sub => some (onNumbers (· - ·) left right)
  | .mul => some (onNumbers (· * ·) left right)
  | .div => some (onNumbers (· / ·) left right)
  | .rem => some (onNumbers Number.remainder left right)
  | .pow => some (onNumbers Float.pow left right)
  | .eq => some (bool (looseEquals left right))
  | .notEq => some (bool !(looseEquals left right))
  | .strictEq => some (bool (strictEquals left right))
  | .strictNotEq => some (bool !(strictEquals left right))
  | .less => some (bool (compare .less left right))
  | .lessEq => some (bool (compare .lessEq left right))
  | .greater => some (bool (compare .greater left right))
  | .greaterEq => some (bool (compare .greaterEq left right))
  | .bitAnd => some (onInt32 (· &&& ·) left right)
  | .bitOr => some (onInt32 (· ||| ·) left right)
  | .bitXor => some (onInt32 (· ^^^ ·) left right)
  | .shl => some (onInt32 (fun a b => a <<< (b &&& 31)) left right)
  | .shr => some (onInt32 (fun a b => a >>> (b &&& 31)) left right)
  | .ushr => some (shiftUnsigned left right)
  | .in_ | .instanceof => none

/-- The result of a unary operator, none for the one that asks about more than the
value. -/
def unary (op : UnaryOp) (argument : Value) : Option Value :=
  match op with
  | .not => some (bool !argument.truthy)
  | .minus => some (number (-argument.toNumber))
  | .plus => some (number argument.toNumber)
  | .bitNot => some (number (Float.ofInt (~~~(Number.toInt32 argument.toNumber)).toInt))
  | .typeof => some (string argument.typeName)
  | .void => some undefined
  | .delete => none

end ScriptCheck.Value
