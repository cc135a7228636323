import ScriptCheck.Grammar.Expression

/-!
# Statements
-/

namespace ScriptCheck.Grammar

open Parse

def declarator (g : Grammar) (kind : DeclarationKind) : Parse NodeId := do
  let start ← position
  let name ← expectName "expected identifier during variable declaration"
  let init ←
    if ← isAt (.mark .assign) then
      let _ ← advance
      pure (some (← g.expression .comma))
    else
      pure none
  if kind = .const_ ∧ init.isNone then
    expected "expected rhs in constant definition"
  push (.declarator name init) start

def declaration (g : Grammar) (kind : DeclarationKind) : Parse NodeId := do
  let opening ← advance
  let declarators ← loop (fun declarators => do
    let next ← declarator g kind
    if ← isAt (.mark .comma) then
      let _ ← advance
      return .inl (next :: declarators)
    else
      return .inr (next :: declarators).reverse) []
  push (.declaration kind declarators) opening.span.start

def declarationKind? : TokenKind → Option DeclarationKind
  | .word .var_ => some .var_
  | .word .let_ => some .let_
  | .word .const_ => some .const_
  | _ => none

def condition (g : Grammar) : Parse NodeId := do
  let _ ← expect (.mark .openParen)
  let test ← g.expression .lowest
  let _ ← expect (.mark .closeParen)
  return test

def ifStatement (g : Grammar) : Parse NodeId := do
  let opening ← advance
  let test ← condition g
  let consequent ← g.statement
  let alternate ←
    if ← isAt (.word .else_) then
      let _ ← advance
      pure (some (← g.statement))
    else
      pure none
  push (.ifStmt test consequent alternate) opening.span.start

/-- A `return` statement; its argument has to begin on the same line. -/
def returnStatement (g : Grammar) : Parse NodeId := do
  let opening ← advance
  let kind ← currentKind
  let endsHere := kind = .mark .semicolon ∨ kind = .mark .closeCurly ∨ kind = .endOfInput
  let argument ←
    if endsHere then
      pure none
    else if ← onNewLine then
      pure none
    else
      pure (some (← g.expression .lowest))
  endStatement
  push (.returnStmt argument) opening.span.start

def whileStatement (g : Grammar) : Parse NodeId := do
  let opening ← advance
  let test ← condition g
  let body ← g.statement
  push (.whileStmt test body) opening.span.start

/-- The first part of a `for` loop. -/
def forInit (g : Grammar) : Parse (Option NodeId) := do
  let kind ← currentKind
  if kind = .mark .semicolon then return none
  match declarationKind? kind with
  | some declared => return some (← declaration g declared)
  | none => return some (← g.expression .lowest)

/-- An expression, unless a token follows that stands after it. -/
def optionalExpression (g : Grammar) (close : TokenKind) : Parse (Option NodeId) := do
  if ← isAt close then return none
  else return some (← g.expression .lowest)

def forStatement (g : Grammar) : Parse NodeId := do
  let opening ← advance
  let _ ← expect (.mark .openParen)
  let init ← forInit g
  let _ ← expect (.mark .semicolon)
  let test ← optionalExpression g (.mark .semicolon)
  let _ ← expect (.mark .semicolon)
  let update ← optionalExpression g (.mark .closeParen)
  let _ ← expect (.mark .closeParen)
  let body ← g.statement
  push (.forStmt init test update body) opening.span.start

/-- What a `catch` clause binds, if anything. -/
def catchParameter : Parse (Option NodeId) := do
  if ← isAt (.mark .openParen) then
    let _ ← advance
    let start ← position
    let name := (← expect .identifier).value
    let parameter ← push (.parameter name) start
    let _ ← expect (.mark .closeParen)
    return some parameter
  else
    return none

def catchClause (g : Grammar) : Parse (Option NodeId) := do
  if ← isAt (.word .catch_) then
    let opening ← advance
    let parameter ← catchParameter
    let body ← block g
    return some (← push (.catchClause parameter body) opening.span.start)
  else
    return none

def tryStatement (g : Grammar) : Parse NodeId := do
  let opening ← advance
  let body ← block g
  let handler ← catchClause g
  let finalizer ←
    if ← isAt (.word .finally_) then
      let _ ← advance
      pure (some (← block g))
    else
      pure none
  if handler.isNone ∧ finalizer.isNone then
    expected "expected `catch` or `finally` after `try` block"
  push (.tryStmt body handler finalizer) opening.span.start

def throwStatement (g : Grammar) : Parse NodeId := do
  let opening ← advance
  let argument ← g.expression .lowest
  endStatement
  push (.throwStmt argument) opening.span.start

def jump (kind : NodeKind) : Parse NodeId := do
  let opening ← advance
  endStatement
  push kind opening.span.start

def emptyStatement : Parse NodeId := do
  let opening ← advance
  push .empty opening.span.start

def expressionStatement (g : Grammar) : Parse NodeId := do
  let start ← position
  let expr ← g.expression .lowest
  endStatement
  push (.expressionStmt expr) start

def statementAt (g : Grammar) : Parse NodeId := do
  let kind ← currentKind
  match kind with
  | .word .function_ => function g .declaration
  | .word .if_ => ifStatement g
  | .mark .openCurly => block g
  | .word .return_ => returnStatement g
  | .word .while_ => whileStatement g
  | .word .for_ => forStatement g
  | .word .try_ => tryStatement g
  | .word .throw_ => throwStatement g
  | .word .break_ => jump .breakStmt
  | .word .continue_ => jump .continueStmt
  | .mark .semicolon => emptyStatement
  | _ =>
      match declarationKind? kind with
      | some declared => do
        let node ← declaration g declared
        endStatement
        return node
      | none => expressionStatement g

end ScriptCheck.Grammar
