import ScriptCheck.Number.Binary

/-!
# The shortest decimal of a double

Every double has an interval of real numbers around it that round to it.  Its
shortest decimal is the one with the fewest digits in that interval and, of
those, the nearest to the double; of two equally near ones it is the larger.
All comparisons are made between integers.
-/

namespace ScriptCheck.Number

structure Decimal where
  significand : Nat
  exponent : Int
deriving DecidableEq, Repr

/-- An interval around `value / unit`, from `below / unit` under it to
`above / unit` over it; `closed` tells whether its ends belong to it. -/
structure Interval where
  value : Nat
  below : Nat
  above : Nat
  unit : Nat
  closed : Bool

/-- The reals that round to a positive magnitude.  Below a power of two the
doubles are twice as dense as above it. -/
def Interval.ofScaled (s : Scaled) : Interval :=
  let below := if s.mantissa = leadingBit ∧ leastExponent < s.exponent then 1 else 2
  let scale := Nat.pow 2 (s.exponent - 2).toNat
  { value := 4 * s.mantissa * scale
    below := below * scale
    above := 2 * scale
    unit := Nat.pow 2 (2 - s.exponent).toNat
    closed := s.mantissa % 2 = 0 }

def Interval.inUnits (i : Interval) (exponent : Int) : Interval :=
  let grow := Nat.pow 10 (-exponent).toNat
  { i with
    value := i.value * grow
    below := i.below * grow
    above := i.above * grow
    unit := i.unit * Nat.pow 10 exponent.toNat }

/-- Whether a distance from the value stays within one side of the interval. -/
def Interval.reaches (i : Interval) (side distance : Nat) : Bool :=
  if i.closed then distance ≤ side else distance < side

/-- The whole number in the interval that is nearest to its value, of the two
around the value. -/
def Interval.nearest? (i : Interval) : Option Nat :=
  let floor := i.value / i.unit
  let rest := i.value % i.unit
  let down := i.reaches i.below rest
  let up := i.reaches i.above (i.unit - rest)
  if down && up then some (if 2 * rest < i.unit then floor else floor + 1)
  else if down then some floor
  else if up then some (floor + 1)
  else none

/-- Number of decimal digits of a natural number, one for zero. -/
def digitCount (n : Nat) : Nat := (Nat.toDigits 10 n).length

/-- The power of ten just above the value of an interval: the value lies in
`[10 ^ (k - 1), 10 ^ k)`. -/
def Interval.order (i : Interval) : Int :=
  if i.unit ≤ i.value then digitCount (i.value / i.unit)
  else
    let zeros := (List.range 400).find? fun j => i.unit ≤ i.value * Nat.pow 10 (j + 1)
    Int.negOfNat (zeros.getD 0)

def Decimal.normalise : Nat → Decimal → Decimal
  | 0, d => d
  | fuel + 1, d =>
      if d.significand % 10 = 0 ∧ d.significand ≠ 0 then
        normalise fuel ⟨d.significand / 10, d.exponent + 1⟩
      else d

/-- The shortest decimal that reads back as a positive magnitude.  Seventeen
digits always suffice. -/
def shortest (s : Scaled) : Decimal :=
  let interval := Interval.ofScaled s
  let order := interval.order
  let found := (List.range 17).findSome? fun (n : Nat) =>
    let exponent : Int := order - (n + 1)
    (interval.inUnits exponent).nearest?.map fun digits => Decimal.mk digits exponent
  (found.getD ⟨0, 0⟩).normalise 20

end ScriptCheck.Number
