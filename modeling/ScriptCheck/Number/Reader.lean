import ScriptCheck.Number.Binary
import ScriptCheck.Text.Blank
import ScriptCheck.Token.Escape

/-!
# Numbers from text

Reading decimal and hexadecimal numbers, each rounded once to the nearest double.
A text that a script turns into a number may also be blank or spell an infinity.
-/

namespace ScriptCheck.Number

open Escape (isDigit isHexDigit hexValue)

def nan : Float := 0.0 / 0.0

def infinity : Float := 1.0 / 0.0

/-- The number that decimal digits spell. -/
def digitsValue (digits : List Char) : Nat :=
  digits.foldl (fun value c => 10 * value + (c.toNat - '0'.toNat)) 0

/-- The double nearest to `significand * 10 ^ exponent`.  Exponents far outside
the range of doubles are settled by the order of magnitude. -/
def ofDecimal (significand : Nat) (exponent : Int) : Float :=
  let order := (Nat.toDigits 10 significand).length + exponent
  if significand = 0 then 0.0
  else if 310 < order then infinity
  else if order < -330 then 0.0
  else if 0 ≤ exponent then Float.ofScientific significand false exponent.toNat
  else Float.ofScientific significand true (-exponent).toNat

def splitSign : List Char → Bool × List Char
  | '-' :: rest => (true, rest)
  | '+' :: rest => (false, rest)
  | text => (false, text)

def readInteger? (text : List Char) : Option Int :=
  let (negative, digits) := splitSign text
  if digits ≠ [] ∧ digits.all isDigit then
    some (if negative then -(digitsValue digits) else digitsValue digits)
  else none

/-- A decimal number: an optional sign, digits with at most one point and at least
one digit, and an optional exponent. -/
def readDecimal? (text : List Char) : Option Float :=
  let (negative, body) := splitSign text
  let whole := body.takeWhile isDigit
  let afterWhole := body.dropWhile isDigit
  let (fraction, rest) := match afterWhole with
    | '.' :: tail => (tail.takeWhile isDigit, tail.dropWhile isDigit)
    | _ => ([], afterWhole)
  let exponent? := match rest with
    | [] => some 0
    | 'e' :: tail => readInteger? tail
    | 'E' :: tail => readInteger? tail
    | _ => none
  if whole = [] ∧ fraction = [] then none
  else exponent?.map fun exponent =>
    let size := ofDecimal (digitsValue (whole ++ fraction)) (exponent - fraction.length)
    if negative then -size else size

/-- A word for an infinity or for what is no number, in letters of either case and with an optional
sign. -/
def readWord? (text : List Char) : Option Float :=
  let (negative, body) := splitSign text
  let word := body.map Char.toLower
  let size? :=
    if word = "inf".toList ∨ word = "infinity".toList then some infinity
    else if word = "nan".toList then some nan
    else none
  size?.map fun size => if negative then -size else size

def readFloat? (text : List Char) : Option Float := readDecimal? text <|> readWord? text

/-- A hexadecimal number below `2 ^ 64`, with an optional plus in front. -/
def readHex? (text : List Char) : Option Float :=
  let digits := match text with
    | '+' :: rest => rest
    | _ => text
  if digits ≠ [] ∧ digits.all isHexDigit ∧ hexValue digits < Nat.pow 2 64 then
    some (Float.ofNat (hexValue digits))
  else none

/-- What follows the mark of a hexadecimal number. -/
def afterHexMark? : List Char → Option (List Char)
  | '0' :: 'x' :: rest => some rest
  | '0' :: 'X' :: rest => some rest
  | _ => none

def ofLiteral? (text : String) : Option Float :=
  match afterHexMark? text.toList with
  | some digits => readHex? digits
  | none => readFloat? text.toList

/-- The number that a text stands for when a script asks for one.  Blanks around it
do not count, a blank text is zero, and what spells no number is not a number.  The only
word is `Infinity`. -/
def ofText (text : String) : Float :=
  let trimmed := Text.trim text.toList
  if trimmed = [] then 0.0
  else
    match afterHexMark? trimmed with
    | some digits => (readHex? digits).getD nan
    | none =>
        if trimmed = "Infinity".toList ∨ trimmed = "+Infinity".toList then infinity
        else if trimmed = "-Infinity".toList then -infinity
        else if trimmed.any fun c => c.isAlpha && c != 'e' && c != 'E' then nan
        else (readFloat? trimmed).getD nan

end ScriptCheck.Number
