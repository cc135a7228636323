import ScriptCheck.Token.Basic

/-!
# Operators

The operators of expressions, how they are written and which tokens stand for
them.  Binary operators fall into categories by what they ask of their operands.
-/

namespace ScriptCheck

inductive UnaryOp where
  | not | minus | plus | bitNot | typeof | void | delete
deriving DecidableEq, Repr

namespace UnaryOp

def all : List UnaryOp := [.not, .minus, .plus, .bitNot, .typeof, .void, .delete]

def text : UnaryOp → String
  | not => "!"
  | minus => "-"
  | plus => "+"
  | bitNot => "~"
  | typeof => "typeof"
  | void => "void"
  | delete => "delete"

/-- The operator that a token stands for in front of an operand. -/
def ofToken? : TokenKind → Option UnaryOp
  | .mark .bang => some not
  | .mark .dash => some minus
  | .mark .plus => some plus
  | .mark .tilde => some bitNot
  | .word .typeof_ => some typeof
  | .word .void_ => some void
  | .word .delete_ => some delete
  | _ => none

end UnaryOp

/-- Operators between two operands that evaluate both. -/
inductive BinaryOp where
  | add | sub | mul | div | rem | pow
  | eq | notEq | strictEq | strictNotEq
  | less | lessEq | greater | greaterEq
  | bitAnd | bitOr | bitXor | shl | shr | ushr
  | in_ | instanceof
deriving DecidableEq, Repr

/-- What a binary operator asks of its operands. -/
inductive OperatorCategory where
  | addition | equality | comparison | numeric | membership | instance_
deriving DecidableEq, Repr

def OperatorCategory.name : OperatorCategory → String
  | addition => "Addition"
  | equality => "Equality"
  | comparison => "Comparison"
  | numeric => "Numeric"
  | membership => "Membership"
  | instance_ => "Instance"

namespace BinaryOp

def all : List BinaryOp :=
  [.add, .sub, .mul, .div, .rem, .pow, .eq, .notEq, .strictEq, .strictNotEq, .less,
   .lessEq, .greater, .greaterEq, .bitAnd, .bitOr, .bitXor, .shl, .shr, .ushr, .in_,
   .instanceof]

def text : BinaryOp → String
  | add => "+"
  | sub => "-"
  | mul => "*"
  | div => "/"
  | rem => "%"
  | pow => "**"
  | eq => "=="
  | notEq => "!="
  | strictEq => "==="
  | strictNotEq => "!=="
  | less => "<"
  | lessEq => "<="
  | greater => ">"
  | greaterEq => ">="
  | bitAnd => "&"
  | bitOr => "|"
  | bitXor => "^"
  | shl => "<<"
  | shr => ">>"
  | ushr => ">>>"
  | in_ => "in"
  | instanceof => "instanceof"

/-- The operator that a token stands for between operands. -/
def ofToken? : TokenKind → Option BinaryOp
  | .mark .plus => some add
  | .mark .dash => some sub
  | .mark .star => some mul
  | .mark .slash => some div
  | .mark .percent => some rem
  | .mark .starStar => some pow
  | .mark .equals => some eq
  | .mark .notEquals => some notEq
  | .mark .strictEquals => some strictEq
  | .mark .strictNotEquals => some strictNotEq
  | .mark .less => some less
  | .mark .lessEquals => some lessEq
  | .mark .greater => some greater
  | .mark .greaterEquals => some greaterEq
  | .mark .ampersand => some bitAnd
  | .mark .pipe => some bitOr
  | .mark .caret => some bitXor
  | .mark .shiftLeft => some shl
  | .mark .shiftRight => some shr
  | .mark .unsignedShiftRight => some ushr
  | .word .in_ => some in_
  | .word .instanceof_ => some instanceof
  | _ => none

def category : BinaryOp → OperatorCategory
  | add => .addition
  | eq | notEq | strictEq | strictNotEq => .equality
  | less | lessEq | greater | greaterEq => .comparison
  | in_ => .membership
  | instanceof => .instance_
  | _ => .numeric

end BinaryOp

/-- Operators between two operands that may skip the second. -/
inductive LogicalOp where
  | and | or
deriving DecidableEq, Repr

def LogicalOp.text : LogicalOp → String
  | and => "&&"
  | or => "||"

/-- Assignments, plain or with an operation on the old value. -/
inductive AssignOp where
  | plain | add | sub | mul | div | rem
deriving DecidableEq, Repr

namespace AssignOp

def all : List AssignOp := [.plain, .add, .sub, .mul, .div, .rem]

/-- The operation that a compound assignment applies before it stores. -/
def binary? : AssignOp → Option BinaryOp
  | plain => none
  | add => some .add
  | sub => some .sub
  | mul => some .mul
  | div => some .div
  | rem => some .rem

def text (op : AssignOp) : String :=
  match op.binary? with
  | some operation => operation.text ++ "="
  | none => "="

def ofToken? : TokenKind → Option AssignOp
  | .mark .assign => some plain
  | .mark .plusEquals => some add
  | .mark .minusEquals => some sub
  | .mark .starEquals => some mul
  | .mark .slashEquals => some div
  | .mark .percentEquals => some rem
  | _ => none

end AssignOp

end ScriptCheck
