import ScriptCheck.Scope.Basic
import ScriptCheck.Value.Operators

/-!
# Constant folding

The value of an expression that is settled by the script's text alone.  Each node
is folded once and its result kept; a node that is met again while it is being
folded has no value.  A name folds through its only write, and only to a value
without identity, since an array or object may change through any other name.
-/

namespace ScriptCheck.Folding

/-- How far the folding of a node has come. -/
inductive Status where
  | unseen
  | active
  | known (result : Option Value)
deriving Inhabited

abbrev Memo := Array Status

def Memo.empty (tree : Tree) : Memo := Array.replicate tree.size .unseen

/-- A folding step: it may find no value, and leaves what it has learnt in the
memo. -/
abbrev Fold := OptionT (StateM Memo)

/-- A value that is or is not there. -/
def ofOption {α : Type} (found : Option α) : Fold α := OptionT.mk (pure found)

def isText : Value → Bool
  | .number _ | .string _ => true
  | _ => false

def isNumber : Value → Bool
  | .number _ => true
  | _ => false

/-- Whether the operands of a binary operator are of the sorts that it is meant
for. -/
def suits (category : OperatorCategory) (left right : Value) : Bool :=
  match category with
  | .equality => left.typeName == right.typeName
  | .addition | .comparison => isText left && isText right
  | .numeric => isNumber left && isNumber right
  | .membership | .instance_ => true

def foldBinary (op : BinaryOp) (left right : Value) : Option Value :=
  if suits op.category left right then Value.binary op left right else none

/-- A unary operator on a folded operand; arithmetic is for numbers only. -/
def foldUnary (op : UnaryOp) (argument : Value) : Option Value :=
  match op with
  | .minus | .plus | .bitNot =>
      if isNumber argument then Value.unary op argument else none
  | _ => Value.unary op argument

def onlyWrite? (graph : ScopeGraph) (id : NodeId) : Option NodeId :=
  (graph.resolved? id).bind fun found =>
    let symbol := graph.symbol found
    match symbol.kind, symbol.writes with
    | .var_, [write] | .let_, [write] | .const_, [write] => some write
    | _, _ => none

def foldProperties (tree : Tree) (fold : NodeId → Fold Value) :
    List NodeId → List (String × Value) → Fold (List (String × Value))
  | [], record => pure record
  | property :: rest, record =>
      match tree.kind property with
      | .property key value => do
        let member ← fold value
        foldProperties tree fold rest (Record.insert key member record)
      | _ => failure

def foldKey (fold : NodeId → Fold Value) : MemberKey → Fold String
  | .named name => pure name
  | .computed key => return (← fold key).text

/-- The rules of folding, given how to fold other nodes.  An array or object literal
is identified by its node. -/
def foldNode (tree : Tree) (graph : ScopeGraph) (fold : NodeId → Fold Value)
    (id : NodeId) : Fold Value := do
  match tree.kind id with
  | .literal literal => return literal.value
  | .identifier _ =>
      let write ← ofOption (onlyWrite? graph id)
      let value ← fold write
      if value.isPrimitive then return value else failure
  | .unary op argument =>
      let value ← fold argument
      ofOption (foldUnary op value)
  | .logical op left right =>
      let value ← fold left
      match op, value.truthy with
      | .and, false | .or, true => return value
      | _, _ => fold right
  | .binary op left right =>
      let leftValue ← fold left
      let rightValue ← fold right
      ofOption (foldBinary op leftValue rightValue)
  | .conditional test consequent alternate =>
      if (← fold test).truthy then fold consequent else fold alternate
  | .array elements => return .array id (← elements.mapM fold)
  | .object properties => return .object id (← foldProperties tree fold properties [])
  | .member owner key =>
      let value ← fold owner
      let name ← foldKey fold key
      ofOption (value.get? name)
  | _ => failure

def foldWithin (tree : Tree) (graph : ScopeGraph) : Nat → NodeId → Fold Value
  | 0, _ => failure
  | depth + 1, id => OptionT.mk do
    match (← get).getD id .unseen with
    | .known result => return result
    | .active => return none
    | .unseen =>
        modify (·.setIfInBounds id .active)
        let result ← (foldNode tree graph (foldWithin tree graph depth) id).run
        modify (·.setIfInBounds id (.known result))
        return result

/-- The value of a node, if the text settles it.  Nodes that are being folded are
distinct, so a depth of the number of nodes is never exceeded. -/
def tryFold (tree : Tree) (graph : ScopeGraph) (id : NodeId) : StateM Memo (Option Value) :=
  (foldWithin tree graph (tree.size + 1) id).run

end ScriptCheck.Folding
