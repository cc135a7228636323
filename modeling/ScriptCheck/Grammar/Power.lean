import ScriptCheck.Token.Basic

/-!
# Binding powers

How strongly an operator between or after expressions holds on to the expression
in front of it.
-/

namespace ScriptCheck

inductive Power where
  | lowest | comma | assignment | conditional | logicalOr | logicalAnd
  | bitwiseOr | bitwiseXor | bitwiseAnd | equality | relational | shift
  | additive | multiplicative | exponent | unary | call | member | primary
deriving DecidableEq, Repr

namespace Power

def rank : Power → Nat
  | lowest => 0
  | comma => 1
  | assignment => 2
  | conditional => 3
  | logicalOr => 4
  | logicalAnd => 5
  | bitwiseOr => 6
  | bitwiseXor => 7
  | bitwiseAnd => 8
  | equality => 9
  | relational => 10
  | shift => 11
  | additive => 12
  | multiplicative => 13
  | exponent => 14
  | unary => 15
  | call => 16
  | member => 17
  | primary => 18

instance : LE Power := ⟨fun p q => p.rank ≤ q.rank⟩

instance (p q : Power) : Decidable (p ≤ q) :=
  inferInstanceAs (Decidable (p.rank ≤ q.rank))

/-- The power with which a token continues the expression in front of it; the
lowest for a token that cannot. -/
def ofToken : TokenKind → Power
  | .mark .comma => comma
  | .mark .assign | .mark .plusEquals | .mark .minusEquals | .mark .starEquals
  | .mark .slashEquals | .mark .percentEquals => assignment
  | .mark .question => conditional
  | .mark .orElse => logicalOr
  | .mark .andAlso => logicalAnd
  | .mark .pipe => bitwiseOr
  | .mark .caret => bitwiseXor
  | .mark .ampersand => bitwiseAnd
  | .mark .equals | .mark .notEquals | .mark .strictEquals | .mark .strictNotEquals =>
      equality
  | .mark .less | .mark .lessEquals | .mark .greater | .mark .greaterEquals
  | .word .in_ | .word .instanceof_ => relational
  | .mark .shiftLeft | .mark .shiftRight | .mark .unsignedShiftRight => shift
  | .mark .plus | .mark .dash => additive
  | .mark .star | .mark .slash | .mark .percent => multiplicative
  | .mark .starStar => exponent
  | .mark .plusPlus | .mark .minusMinus | .mark .openParen => call
  | .mark .dot | .mark .openBracket => member
  | _ => lowest

end Power

end ScriptCheck
