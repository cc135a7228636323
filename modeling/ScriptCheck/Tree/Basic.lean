import ScriptCheck.Operator
import ScriptCheck.Value.Basic

/-!
# Syntax trees

A script as an arena of nodes.  Nodes refer to one another by their index in the
arena, and so do all tables that are computed from a tree.
-/

namespace ScriptCheck

abbrev NodeId := Nat

inductive DeclarationKind where
  | var_ | let_ | const_
deriving DecidableEq, Repr

def DeclarationKind.text : DeclarationKind → String
  | var_ => "var"
  | let_ => "let"
  | const_ => "const"

inductive FunctionKind where
  | declaration | expression | arrow
deriving DecidableEq, Repr

def FunctionKind.name : FunctionKind → String
  | declaration => "Declaration"
  | expression => "Expression"
  | arrow => "Arrow"

/-- A function: its parameters in order, and a body that is a block or, when
`expressionBody` is set, an expression. -/
structure FunctionShape where
  kind : FunctionKind
  name : Option String
  parameters : List NodeId
  body : NodeId
  expressionBody : Bool
deriving DecidableEq, Repr

def FunctionShape.isArrow (shape : FunctionShape) : Bool :=
  shape.kind = .arrow

def FunctionShape.displayName (shape : FunctionShape) : String :=
  shape.name.getD "anon"

inductive Literal where
  | number (x : Float)
  | string (s : String)
  | boolean (b : Bool)
  | null
deriving Repr

def Literal.value : Literal → Value
  | number x => .number x
  | string s => .string s
  | boolean b => .bool b
  | null => .null

/-- The key of a member expression: a name after a point, or an expression in
brackets. -/
inductive MemberKey where
  | named (name : String)
  | computed (key : NodeId)
deriving DecidableEq, Repr

inductive NodeKind where
  | program (body : List NodeId)
  | block (body : List NodeId)
  | empty
  | expressionStmt (expr : NodeId)
  | declaration (kind : DeclarationKind) (declarators : List NodeId)
  | declarator (name : String) (init : Option NodeId)
  | ifStmt (test consequent : NodeId) (alternate : Option NodeId)
  | returnStmt (argument : Option NodeId)
  | whileStmt (test body : NodeId)
  | forStmt (init test update : Option NodeId) (body : NodeId)
  | tryStmt (body : NodeId) (handler finalizer : Option NodeId)
  | catchClause (param : Option NodeId) (body : NodeId)
  | throwStmt (argument : NodeId)
  | breakStmt
  | continueStmt
  | function (shape : FunctionShape)
  | parameter (name : String)
  | literal (literal : Literal)
  | identifier (name : String)
  | thisExpr
  | array (elements : List NodeId)
  | object (properties : List NodeId)
  | property (key : String) (value : NodeId)
  | unary (op : UnaryOp) (argument : NodeId)
  | binary (op : BinaryOp) (left right : NodeId)
  | logical (op : LogicalOp) (left right : NodeId)
  | assign (op : AssignOp) (target value : NodeId)
  | conditional (test consequent alternate : NodeId)
  | call (callee : NodeId) (arguments : List NodeId)
  | newExpr (callee : NodeId) (arguments : List NodeId)
  | member (owner : NodeId) (key : MemberKey)
  | sequence (expressions : List NodeId)
deriving Repr

namespace NodeKind

def name : NodeKind → String
  | program .. => "Program"
  | block .. => "BlockStatement"
  | empty => "EmptyStatement"
  | expressionStmt .. => "ExpressionStatement"
  | declaration .. => "VariableDeclaration"
  | declarator .. => "VariableDeclarator"
  | ifStmt .. => "IfStatement"
  | returnStmt .. => "ReturnStatement"
  | whileStmt .. => "WhileStatement"
  | forStmt .. => "ForStatement"
  | tryStmt .. => "TryStatement"
  | catchClause .. => "CatchClause"
  | throwStmt .. => "ThrowStatement"
  | breakStmt => "BreakStatement"
  | continueStmt => "ContinueStatement"
  | function .. => "Function"
  | parameter .. => "Parameter"
  | literal .. => "Literal"
  | identifier .. => "Identifier"
  | thisExpr => "ThisExpression"
  | array .. => "ArrayExpression"
  | object .. => "ObjectExpression"
  | property .. => "Property"
  | unary .. => "UnaryExpression"
  | binary .. => "BinaryExpression"
  | logical .. => "LogicalExpression"
  | assign .. => "AssignmentExpression"
  | conditional .. => "ConditionalExpression"
  | call .. => "CallExpression"
  | newExpr .. => "NewExpression"
  | member .. => "MemberExpression"
  | sequence .. => "SequenceExpression"

def children : NodeKind → List NodeId
  | program body | block body => body
  | empty | breakStmt | continueStmt | thisExpr => []
  | parameter _ | literal _ | identifier _ => []
  | expressionStmt expr => [expr]
  | declaration _ declarators => declarators
  | declarator _ init => init.toList
  | ifStmt test consequent alternate => [test, consequent] ++ alternate.toList
  | returnStmt argument => argument.toList
  | whileStmt test body => [test, body]
  | forStmt init test update body =>
      init.toList ++ test.toList ++ update.toList ++ [body]
  | tryStmt body handler finalizer => [body] ++ handler.toList ++ finalizer.toList
  | catchClause param body => param.toList ++ [body]
  | throwStmt argument => [argument]
  | function shape => shape.parameters ++ [shape.body]
  | array elements => elements
  | object properties => properties
  | property _ value => [value]
  | unary _ argument => [argument]
  | binary _ left right => [left, right]
  | logical _ left right => [left, right]
  | assign _ target value => [target, value]
  | conditional test consequent alternate => [test, consequent, alternate]
  | call callee arguments | newExpr callee arguments => callee :: arguments
  | member owner (.named _) => [owner]
  | member owner (.computed key) => [owner, key]
  | sequence expressions => expressions

end NodeKind

/-- A node and the source text it was read from. -/
structure Node where
  kind : NodeKind
  span : Span
deriving Repr

instance : Inhabited Node := ⟨⟨.empty, .point .nowhere⟩⟩

/-- A script: its nodes, the node of the whole program and the name of its file. -/
structure Tree where
  nodes : Array Node
  root : NodeId
  file : String
deriving Repr

namespace Tree

def size (tree : Tree) : Nat := tree.nodes.size

/-- The node of an index; one outside the tree is an empty statement. -/
def node (tree : Tree) (id : NodeId) : Node := tree.nodes.getD id default

def kind (tree : Tree) (id : NodeId) : NodeKind := (tree.node id).kind

def span (tree : Tree) (id : NodeId) : Span := (tree.node id).span

def start (tree : Tree) (id : NodeId) : Position := (tree.span id).start

def function? (tree : Tree) (id : NodeId) : Option FunctionShape :=
  match tree.kind id with
  | .function shape => some shape
  | _ => none

def children (tree : Tree) (id : NodeId) : List NodeId := (tree.kind id).children

end Tree

end ScriptCheck
