/-!
# Text measured in 16-bit units
-/

namespace ScriptCheck.Text

/-- Number of 16-bit units of a character in UTF-16. -/
def unitSize (c : Char) : Nat :=
  if c.toNat < 0x10000 then 1 else 2

/-- Length of a run of characters in 16-bit units. -/
def unitLength : List Char → Nat
  | [] => 0
  | c :: text => unitSize c + unitLength text

def unitCount (text : String) : Nat :=
  unitLength text.toList

end ScriptCheck.Text
