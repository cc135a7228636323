/-!
# Escapes in string literals

What stands between the quotes of a string literal spells a text.  A backslash
begins an escape: one letter for a control character, `x` or `u` for a code
point in hexadecimal, and any other character for itself.
-/

namespace ScriptCheck.Escape

def isDigit (c : Char) : Bool :=
  '0' ≤ c && c ≤ '9'

/-- The ASCII hexadecimal digits of either case. -/
def isHexDigit (c : Char) : Bool :=
  isDigit c || ('a' ≤ c && c ≤ 'f') || ('A' ≤ c && c ≤ 'F')

def hexDigitValue (c : Char) : Nat :=
  if isDigit c then c.toNat - '0'.toNat
  else if 'a' ≤ c then c.toNat - 'a'.toNat + 10
  else c.toNat - 'A'.toNat + 10

/-- The number that hexadecimal digits spell, the first the most significant. -/
def hexValue (digits : List Char) : Nat :=
  digits.foldl (fun value c => 16 * value + hexDigitValue c) 0

def letter? : Char → Option Char
  | 'n' => some '\n'
  | 't' => some '\t'
  | 'r' => some '\r'
  | 'b' => some '\x08'
  | 'f' => some '\x0c'
  | 'v' => some '\x0b'
  | '0' => some '\x00'
  | _ => none

/-- The most digits that a code-point escape takes. -/
def width? : Char → Option Nat
  | 'x' => some 2
  | 'u' => some 4
  | _ => none

/-- The text of a code-point escape begun by `sort` with some digits: the code
point, or the escape without its backslash where the digits name none. -/
def codePoint (sort : Char) (digits : List Char) : List Char :=
  if digits ≠ [] ∧ (hexValue digits).isValidChar then [Char.ofNat (hexValue digits)]
  else sort :: digits

/-- The digits of a code-point escape: as many as stand there, up to `width`. -/
def digitRun (width : Nat) (text : List Char) : List Char :=
  (text.take width).takeWhile isHexDigit

/-- The text that the body of a string literal spells. -/
def decode : List Char → List Char
  | [] => []
  | '\\' :: [] => ['\\']
  | '\\' :: c :: rest =>
      match letter? c, width? c with
      | some plain, _ => plain :: decode rest
      | none, some width =>
          let digits := digitRun width rest
          codePoint c digits ++ decode (rest.drop digits.length)
      | none, none => c :: decode rest
  | c :: rest => c :: decode rest
termination_by text => text.length
decreasing_by
  all_goals simp only [List.length_drop, List.length_cons]
  all_goals omega

end ScriptCheck.Escape
