/-!
# Floating-point numbers as scaled integers

A finite double is an integer times a power of two.  Exact arithmetic on the two
integers decides everything about a number that rounding would blur.
-/

namespace ScriptCheck.Number

structure Scaled where
  mantissa : Nat
  exponent : Int
deriving DecidableEq, Repr

/-- Exponent of the smallest steps between doubles. -/
def leastExponent : Int := -1074

/-- The leading bit of a mantissa, which a double has without storing it. -/
def leadingBit : Nat := Nat.pow 2 52

def signBit : Nat := Nat.pow 2 63

/-- The magnitude of a finite double, with its own mantissa and exponent. -/
def magnitude (x : Float) : Scaled :=
  let bits := x.toBits.toNat
  let field : Nat := bits / leadingBit % Nat.pow 2 11
  let fraction : Nat := bits % leadingBit
  if field = 0 then ⟨fraction, leastExponent⟩
  else ⟨leadingBit + fraction, (field : Int) - 1 + leastExponent⟩

def isNegative (x : Float) : Bool :=
  signBit ≤ x.toBits.toNat

/-- The double of a sign and a magnitude whose mantissa is below `2 ^ 53` and whose
exponent is at least the least one, provided that it is in range. -/
def ofScaled (negative : Bool) (s : Scaled) : Float :=
  let room := (s.exponent - leastExponent).toNat
  let shift := min (52 - s.mantissa.log2) room
  let mantissa := s.mantissa * Nat.pow 2 shift
  let sign := if negative then signBit else 0
  let bits :=
    if mantissa < leadingBit then mantissa
    else (room - shift + 1) * leadingBit + (mantissa - leadingBit)
  Float.ofBits (UInt64.ofNat (sign + bits))

/-- The integer part of a magnitude. -/
def Scaled.floor (s : Scaled) : Nat :=
  if 0 ≤ s.exponent then s.mantissa * Nat.pow 2 s.exponent.toNat
  else s.mantissa / Nat.pow 2 (-s.exponent).toNat

/-- The integer part of a number towards zero, wrapped into 32 signed bits; zero
for a number that is not finite. -/
def toInt32 (x : Float) : Int32 :=
  if x.isFinite then
    let n : Int := (magnitude x).floor
    Int32.ofInt (if isNegative x then -n else n)
  else 0

/-- The remainder of a division that truncates: exact, with the sign of the
dividend. -/
def remainder (x y : Float) : Float :=
  if x.isNaN || y.isNaN || x.isInf || y == 0 then 0.0 / 0.0
  else if y.isInf then x
  else
    let a := magnitude x
    let b := magnitude y
    let exponent := min a.exponent b.exponent
    let align (s : Scaled) := s.mantissa * Nat.pow 2 (s.exponent - exponent).toNat
    ofScaled (isNegative x) ⟨align a % align b, exponent⟩

end ScriptCheck.Number
