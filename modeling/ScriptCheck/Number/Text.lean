import ScriptCheck.Number.Shortest

/-!
# Numbers as text

Numbers are written with the digits of their shortest decimal: positionally from
`10 ^ -6` up to `10 ^ 21`, with an exponent beyond.
-/

namespace ScriptCheck.Number

def zeros (count : Nat) : List Char := List.replicate count '0'

/-- Digits with the point after the first `point` of them, padded with zeros on
whichever side needs it. -/
def positional (digits : List Char) (point : Int) : List Char :=
  if digits.length ≤ point then digits ++ zeros (point - digits.length).toNat
  else if 0 < point then digits.take point.toNat ++ '.' :: digits.drop point.toNat
  else '0' :: '.' :: (zeros (-point).toNat ++ digits)

/-- Digits with the point after the first of them and an exponent, whose sign is
always written. -/
def scientific (digits : List Char) (point : Int) : List Char :=
  let fraction := match digits.drop 1 with
    | [] => []
    | rest => '.' :: rest
  let sign := if point ≤ 0 then ['e', '-'] else ['e', '+']
  digits.take 1 ++ fraction ++ sign ++ Nat.toDigits 10 (point - 1).natAbs

/-- A decimal in the notation that its size asks for. -/
def Decimal.text (d : Decimal) : List Char :=
  let digits := Nat.toDigits 10 d.significand
  let point := digits.length + d.exponent
  if -6 < point ∧ point ≤ 21 then positional digits point
  else scientific digits point

/-- A number as a script sees it when it becomes a text.  Both zeros are `0`. -/
def text (x : Float) : String :=
  if x.isNaN then "NaN"
  else if x.isInf then if isNegative x then "-Infinity" else "Infinity"
  else if x == 0 then "0"
  else
    let digits := (shortest (magnitude x)).text
    String.ofList (if isNegative x then '-' :: digits else digits)

end ScriptCheck.Number
