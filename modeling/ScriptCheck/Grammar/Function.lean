import ScriptCheck.Grammar.Parse

/-!
# Lists, blocks and functions
-/

namespace ScriptCheck.Grammar

open Parse

/-- Items between commas up to a closing token, which is read too.  A comma may
stand after the last item. -/
def commaList {α : Type} (close : TokenKind) (item : Parse α) : Parse (List α) := do
  let items ← loop (fun items => do
    if ← isAt close then return .inr items.reverse
    let next ← item
    if ← isAt (.mark .comma) then
      let _ ← advance
    else if !(← isAt close) then
      unexpected
    return .inl (next :: items)) []
  let _ ← expect close
  return items

def block (g : Grammar) : Parse NodeId := do
  let opening ← expect (.mark .openCurly)
  let body ← loop (fun body => do
    match ← currentKind with
    | .mark .closeCurly => return .inr body.reverse
    | .endOfInput => expected "expected `\x7d` before end of input"
    | _ => return .inl ((← g.statement) :: body)) []
  let _ ← expect (.mark .closeCurly)
  push (.block body) opening.span.start

def parameter : Parse NodeId := do
  let start ← position
  let name ← expectName "expected parameter name"
  push (.parameter name) start

def parameters : Parse (List NodeId) := do
  let _ ← expect (.mark .openParen)
  commaList (.mark .closeParen) parameter

/-- A function from the word `function` on.  Only a declaration has to be named. -/
def function (g : Grammar) (kind : FunctionKind) : Parse NodeId := do
  let opening ← expect (.word .function_)
  let name ←
    if ← isAt .identifier then
      pure (some (← advance).value)
    else if kind = .declaration then
      expected "expected function name"
    else
      pure none
  let parameters ← parameters
  let body ← block g
  push (.function ⟨kind, name, parameters, body, false⟩) opening.span.start

/-- An arrow function: one bare parameter or a list, the arrow, and a block or an
expression. -/
def arrow (g : Grammar) : Parse NodeId := do
  let start ← position
  let parameters ←
    if ← isAt .identifier then
      let name := (← advance).value
      pure [← push (.parameter name) start]
    else
      parameters
  let _ ← expect (.mark .arrow)
  if ← isAt (.mark .openCurly) then
    let body ← block g
    push (.function ⟨.arrow, none, parameters, body, false⟩) start
  else
    let body ← g.expression .comma
    push (.function ⟨.arrow, none, parameters, body, true⟩) start

end ScriptCheck.Grammar
