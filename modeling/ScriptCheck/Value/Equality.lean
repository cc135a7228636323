import ScriptCheck.Value.Basic

/-!
# Equality of values

Three notions: equal contents, the strict equality of a script, which tells
arrays and objects apart by identity, and its loose equality, which converts.
-/

namespace ScriptCheck.Value

mutual

/-- Whether two values have equal contents, whatever their identities.  Not a
number differs from itself. -/
def sameContent : Value → Value → Bool
  | undefined, undefined => true
  | null, null => true
  | bool a, bool b => a == b
  | number x, number y => x == y
  | string s, string t => s == t
  | array _ xs, array _ ys => sameElements xs ys
  | object _ xs, object _ ys => sameMembers xs ys
  | _, _ => false

def sameElements : List Value → List Value → Bool
  | [], [] => true
  | x :: xs, y :: ys => sameContent x y && sameElements xs ys
  | _, _ => false

/-- Memberwise equality of names and contents. -/
def sameMembers : List (String × Value) → List (String × Value) → Bool
  | [], [] => true
  | (k, x) :: xs, (l, y) :: ys => k == l && sameContent x y && sameMembers xs ys
  | _, _ => false

end

def strictEquals : Value → Value → Bool
  | undefined, undefined => true
  | null, null => true
  | bool a, bool b => a == b
  | number x, number y => x == y
  | string s, string t => s == t
  | array a _, array b _ => a == b
  | object a _, object b _ => a == b
  | _, _ => false

/-- Whether `==` compares two values as `===` does: both have the same type, and both have an
identity or neither has. -/
def sameSort (a b : Value) : Bool :=
  a.typeName == b.typeName && a.isPrimitive == b.isPrimitive

/-- The pair that `==` looks at in place of a pair, none where it answers at once.  A truth
value is taken as a number, the left one first; next to a primitive an array or object is taken
as its text. -/
def converted? (a b : Value) : Option (Value × Value) :=
  if a.isNullish || b.isNullish || a.sameSort b then none
  else
    match a, b with
    | bool _, _ => some (number a.toNumber, b)
    | _, bool _ => some (a, number b.toNumber)
    | _, _ =>
        if !a.isPrimitive && b.isPrimitive then some (a.toPrimitive, b)
        else if a.isPrimitive && !b.isPrimitive then some (a, b.toPrimitive)
        else none

/-- What `==` answers on a pair that it does not convert.  `null` and `undefined` equal each
other and nothing else; a number equals a text that reads as it. -/
def settled (a b : Value) : Bool :=
  if a.isNullish || b.isNullish then a.isNullish && b.isNullish
  else if a.sameSort b then strictEquals a b
  else
    match a, b with
    | number x, string _ => x == b.toNumber
    | string _, number y => a.toNumber == y
    | _, _ => false

def conversions : Value → Nat
  | bool _ | array .. | object .. => 1
  | undefined | null | number _ | string _ => 0

theorem conversions_toPrimitive (value : Value) (h : (!value.isPrimitive) = true) :
    value.toPrimitive.conversions + 1 = value.conversions := by
  cases value <;> first | rfl | cases h

theorem conversions_converted? {a b c d : Value} (h : converted? a b = some (c, d)) :
    c.conversions + d.conversions + 1 = a.conversions + b.conversions := by
  unfold converted? at h
  split at h
  · cases h
  · split at h
    · cases h
      exact Nat.add_right_comm 0 _ 1
    · cases h
      rfl
    · split at h
      · rename_i hboth
        cases h
        rw [← conversions_toPrimitive a (Bool.and_eq_true_iff.mp hboth).1, Nat.add_right_comm]
      · split at h
        · rename_i hboth
          cases h
          rw [← conversions_toPrimitive b (Bool.and_eq_true_iff.mp hboth).2, Nat.add_assoc]
        · cases h

/-- The operator `==`: a pair is converted for as long as there is something to convert.  Arrays
and objects equal one another by identity and a primitive by their text. -/
def looseEquals (a b : Value) : Bool :=
  match _h : converted? a b with
  | some (c, d) => looseEquals c d
  | none => settled a b
termination_by a.conversions + b.conversions
decreasing_by exact Nat.lt_of_succ_le (Nat.le_of_eq (conversions_converted? _h))

end ScriptCheck.Value
