import ScriptCheck.Grammar.Function

/-!
# Expressions

An expression is an operand and whatever continues it with a power above the one
asked for.  Each continuation takes the expression so far as its left side.
-/

namespace ScriptCheck.Grammar

open Parse

/-! ## Operands -/

def numberValue (text : String) (position : Position) : Parse Float :=
  match Number.ofLiteral? text with
  | some x => return x
  | none => fail (.numberParse text) position

/-- The node of a token that is an expression by itself. -/
def primaryKind (token : Token) : Parse NodeKind := do
  match token.kind with
  | .number => return .literal (.number (← numberValue token.value token.span.start))
  | .string => return .literal (.string token.value)
  | .word .true_ => return .literal (.boolean true)
  | .word .false_ => return .literal (.boolean false)
  | .word .null_ => return .literal .null
  | .word .this_ => return .thisExpr
  | _ => unexpected

def primary : Parse NodeId := do
  let token ← current
  let kind ← primaryKind token
  let _ ← advance
  push kind token.span.start

/-- A name, or an arrow function with one bare parameter. -/
def identifier (g : Grammar) : Parse NodeId := do
  if (← peek 1).kind = .mark .arrow then arrow g
  else
    let token ← expect .identifier
    push (.identifier token.value) token.span.start

/-- An expression in parentheses, or an arrow function with a parameter list. -/
def grouping (g : Grammar) : Parse NodeId := do
  if ← isArrowAhead then arrow g
  else
    let _ ← expect (.mark .openParen)
    let inner ← g.expression .lowest
    let _ ← expect (.mark .closeParen)
    return inner

def array (g : Grammar) : Parse NodeId := do
  let opening ← advance
  let elements ← commaList (.mark .closeBracket) (g.expression .comma)
  push (.array elements) opening.span.start

def isReserved (text : String) : Bool :=
  (Keyword.ofText? text).isSome

def propertyKey (token : Token) : Parse String := do
  match token.kind with
  | .identifier | .string => return token.value
  | .number => return Number.text (← numberValue token.value token.span.start)
  | _ =>
      if isReserved token.value then return token.value
      else expected "expected property name"

/-- One property of an object literal.  A bare name stands for itself. -/
def property (g : Grammar) : Parse NodeId := do
  let token ← current
  let start := token.span.start
  let key ← propertyKey token
  let _ ← advance
  let value ←
    if ← isAt (.mark .colon) then
      let _ ← advance
      g.expression .comma
    else if token.kind = .identifier then
      push (.identifier key) start
    else
      expected "expected `:` after property name"
  push (.property key value) start

def object (g : Grammar) : Parse NodeId := do
  let opening ← advance
  let properties ← commaList (.mark .closeCurly) (property g)
  push (.object properties) opening.span.start

/-- A `new` expression.  The callee ends before its first argument list. -/
def construction (g : Grammar) : Parse NodeId := do
  let opening ← advance
  let callee ← g.expression .call
  let arguments ←
    if ← isAt (.mark .openParen) then
      let _ ← advance
      commaList (.mark .closeParen) (g.expression .comma)
    else
      pure []
  push (.newExpr callee arguments) opening.span.start

/-- An operator in front of its operand. -/
def unary (g : Grammar) (op : UnaryOp) : Parse NodeId := do
  let token ← advance
  let argument ← g.expression .exponent
  push (.unary op argument) token.span.start

/-- The operators that add or take away one in place are not supported. -/
def unsupported : Parse NodeId := do
  let token ← current
  fail (.unsupportedSyntax token.value) token.span.start

def operand (g : Grammar) : Parse NodeId := do
  let kind ← currentKind
  match kind with
  | .number | .string | .word .true_ | .word .false_ | .word .null_ | .word .this_ =>
      primary
  | .identifier => identifier g
  | .mark .openParen => grouping g
  | .mark .openBracket => array g
  | .mark .openCurly => object g
  | .word .function_ => function g .expression
  | .word .new_ => construction g
  | .mark .plusPlus | .mark .minusMinus => unsupported
  | _ =>
      match UnaryOp.ofToken? kind with
      | some op => unary g op
      | none => unexpected

/-! ## Continuations -/

/-- An operator between two operands.  Exponentiation groups to the right. -/
def binary (g : Grammar) (left : NodeId) (op : BinaryOp) (power : Power) :
    Parse NodeId := do
  let start ← startOf left
  let _ ← advance
  let right ← g.expression (if op = .pow then .multiplicative else power)
  push (.binary op left right) start

def logical (g : Grammar) (left : NodeId) (op : LogicalOp) (power : Power) :
    Parse NodeId := do
  let start ← startOf left
  let _ ← advance
  let right ← g.expression power
  push (.logical op left right) start

/-- An assignment to a name or a member.  Assignments group to the right. -/
def assignment (g : Grammar) (left : NodeId) (op : AssignOp) : Parse NodeId := do
  let node ← nodeAt left
  let start := node.span.start
  match node.kind with
  | .identifier _ | .member _ _ =>
      let _ ← advance
      let value ← g.expression .comma
      push (.assign op left value) start
  | other => fail (.invalidTarget other.name) start

/-- A condition with its two outcomes. -/
def conditional (g : Grammar) (test : NodeId) : Parse NodeId := do
  let start ← startOf test
  let _ ← expect (.mark .question)
  let consequent ← g.expression .comma
  let _ ← expect (.mark .colon)
  let alternate ← g.expression .comma
  push (.conditional test consequent alternate) start

/-- Expressions joined by commas, as many as there are. -/
def sequence (g : Grammar) (left : NodeId) : Parse NodeId := do
  let start ← startOf left
  let expressions ← loop (fun expressions => do
    if ← isAt (.mark .comma) then
      let _ ← advance
      return .inl ((← g.expression .comma) :: expressions)
    else
      return .inr expressions.reverse) [left]
  push (.sequence expressions) start

def call (g : Grammar) (callee : NodeId) : Parse NodeId := do
  let start ← startOf callee
  let _ ← expect (.mark .openParen)
  let arguments ← commaList (.mark .closeParen) (g.expression .comma)
  push (.call callee arguments) start

/-- A member named after a point.  Reserved words are names here. -/
def namedMember (owner : NodeId) : Parse NodeId := do
  let start ← startOf owner
  let _ ← expect (.mark .dot)
  let token ← current
  if token.kind = .identifier ∨ isReserved token.value then
    let _ ← advance
    push (.member owner (.named token.value)) start
  else
    expected "expected property name after `.`"

def computedMember (g : Grammar) (owner : NodeId) : Parse NodeId := do
  let start ← startOf owner
  let _ ← expect (.mark .openBracket)
  let key ← g.expression .lowest
  let _ ← expect (.mark .closeBracket)
  push (.member owner (.computed key)) start

def continuation (g : Grammar) (left : NodeId) (kind : TokenKind) : Parse NodeId :=
  match kind with
  | .mark .comma => sequence g left
  | .mark .question => conditional g left
  | .mark .orElse => logical g left .or .logicalOr
  | .mark .andAlso => logical g left .and .logicalAnd
  | .mark .plusPlus | .mark .minusMinus => unsupported
  | .mark .openParen => call g left
  | .mark .dot => namedMember left
  | .mark .openBracket => computedMember g left
  | kind =>
      match AssignOp.ofToken? kind, BinaryOp.ofToken? kind with
      | some op, _ => assignment g left op
      | none, some op => binary g left op (Power.ofToken kind)
      | none, none => unexpected

/-- An expression of at least some power: an operand, continued as long as the
token at the cursor binds more strongly. -/
def expressionAt (g : Grammar) (power : Power) : Parse NodeId := do
  let left ← operand g
  loop (fun left => do
    let kind ← currentKind
    if Power.ofToken kind ≤ power then return .inr left
    else return .inl (← continuation g left kind)) left

end ScriptCheck.Grammar
