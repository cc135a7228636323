import ScriptCheck.Source.Position

/-!
# Tokens

The words of a script: keywords, punctuators, names and literals, each with the
stretch of source text it was read from.  A list of tokens ends with one token
that marks the end of the input.
-/

namespace ScriptCheck

inductive Keyword where
  | var_ | let_ | const_ | function_ | return_ | if_ | else_ | while_ | for_ | break_
  | continue_ | new_ | typeof_ | void_ | delete_ | in_ | instanceof_ | this_ | true_
  | false_ | null_ | try_ | catch_ | finally_ | throw_
deriving DecidableEq, Repr

namespace Keyword

def all : List Keyword :=
  [.var_, .let_, .const_, .function_, .return_, .if_, .else_, .while_, .for_, .break_,
   .continue_, .new_, .typeof_, .void_, .delete_, .in_, .instanceof_, .this_, .true_,
   .false_, .null_, .try_, .catch_, .finally_, .throw_]

/-- How a reserved word is written. -/
def text : Keyword → String
  | var_ => "var"
  | let_ => "let"
  | const_ => "const"
  | function_ => "function"
  | return_ => "return"
  | if_ => "if"
  | else_ => "else"
  | while_ => "while"
  | for_ => "for"
  | break_ => "break"
  | continue_ => "continue"
  | new_ => "new"
  | typeof_ => "typeof"
  | void_ => "void"
  | delete_ => "delete"
  | in_ => "in"
  | instanceof_ => "instanceof"
  | this_ => "this"
  | true_ => "true"
  | false_ => "false"
  | null_ => "null"
  | try_ => "try"
  | catch_ => "catch"
  | finally_ => "finally"
  | throw_ => "throw"

/-- The name of a reserved word among the kinds of token. -/
def name : Keyword → String
  | var_ => "Var"
  | let_ => "Let"
  | const_ => "Const"
  | function_ => "Function"
  | return_ => "Return"
  | if_ => "If"
  | else_ => "Else"
  | while_ => "While"
  | for_ => "For"
  | break_ => "Break"
  | continue_ => "Continue"
  | new_ => "New"
  | typeof_ => "Typeof"
  | void_ => "Void"
  | delete_ => "Delete"
  | in_ => "In"
  | instanceof_ => "Instanceof"
  | this_ => "This"
  | true_ => "True"
  | false_ => "False"
  | null_ => "Null"
  | try_ => "Try"
  | catch_ => "Catch"
  | finally_ => "Finally"
  | throw_ => "Throw"

def ofText? (text : String) : Option Keyword :=
  all.find? fun word => word.text == text

theorem mem_all (word : Keyword) : word ∈ all := by
  cases word <;> decide

end Keyword

inductive Punctuator where
  | openBracket | closeBracket | openCurly | closeCurly | openParen | closeParen
  | strictEquals | equals | arrow | strictNotEquals | notEquals | bang | assign
  | shiftLeft | lessEquals | less | unsignedShiftRight | shiftRight | greaterEquals
  | greater | orElse | andAlso | pipe | ampersand | caret | tilde | dot | semicolon
  | colon | question | comma | plusPlus | minusMinus | plusEquals | minusEquals
  | starEquals | slashEquals | percentEquals | plus | dash | slash | starStar | star
  | percent
deriving DecidableEq, Repr

namespace Punctuator

/-- Every punctuator, in the order in which they are tried on a text: one that
begins another stands after it. -/
def all : List Punctuator :=
  [.openBracket, .closeBracket, .openCurly, .closeCurly, .openParen, .closeParen,
   .strictEquals, .equals, .arrow, .strictNotEquals, .notEquals, .bang, .assign,
   .shiftLeft, .lessEquals, .less, .unsignedShiftRight, .shiftRight, .greaterEquals,
   .greater, .orElse, .andAlso, .pipe, .ampersand, .caret, .tilde, .dot, .semicolon,
   .colon, .question, .comma, .plusPlus, .minusMinus, .plusEquals, .minusEquals,
   .starEquals, .slashEquals, .percentEquals, .plus, .dash, .slash, .starStar, .star,
   .percent]

def text : Punctuator → String
  | openBracket => "["
  | closeBracket => "]"
  | openCurly => "\x7b"
  | closeCurly => "\x7d"
  | openParen => "("
  | closeParen => ")"
  | strictEquals => "==="
  | equals => "=="
  | arrow => "=>"
  | strictNotEquals => "!=="
  | notEquals => "!="
  | bang => "!"
  | assign => "="
  | shiftLeft => "<<"
  | lessEquals => "<="
  | less => "<"
  | unsignedShiftRight => ">>>"
  | shiftRight => ">>"
  | greaterEquals => ">="
  | greater => ">"
  | orElse => "||"
  | andAlso => "&&"
  | pipe => "|"
  | ampersand => "&"
  | caret => "^"
  | tilde => "~"
  | dot => "."
  | semicolon => ";"
  | colon => ":"
  | question => "?"
  | comma => ","
  | plusPlus => "++"
  | minusMinus => "--"
  | plusEquals => "+="
  | minusEquals => "-="
  | starEquals => "*="
  | slashEquals => "/="
  | percentEquals => "%="
  | plus => "+"
  | dash => "-"
  | slash => "/"
  | starStar => "**"
  | star => "*"
  | percent => "%"

/-- The name of a punctuator among the kinds of token. -/
def name : Punctuator → String
  | openBracket => "OpenBracket"
  | closeBracket => "CloseBracket"
  | openCurly => "OpenCurly"
  | closeCurly => "CloseCurly"
  | openParen => "OpenParen"
  | closeParen => "CloseParen"
  | strictEquals => "StrictEquals"
  | equals => "Equals"
  | arrow => "Arrow"
  | strictNotEquals => "StrictNotEquals"
  | notEquals => "NotEquals"
  | bang => "Not"
  | assign => "Assignment"
  | shiftLeft => "ShiftLeft"
  | lessEquals => "LessEquals"
  | less => "Less"
  | unsignedShiftRight => "UnsignedShiftRight"
  | shiftRight => "ShiftRight"
  | greaterEquals => "GreaterEquals"
  | greater => "Greater"
  | orElse => "Or"
  | andAlso => "And"
  | pipe => "Pipe"
  | ampersand => "Ampersand"
  | caret => "Caret"
  | tilde => "Tilde"
  | dot => "Dot"
  | semicolon => "Semicolon"
  | colon => "Colon"
  | question => "Question"
  | comma => "Comma"
  | plusPlus => "PlusPlus"
  | minusMinus => "MinusMinus"
  | plusEquals => "PlusEquals"
  | minusEquals => "MinusEquals"
  | starEquals => "StarEquals"
  | slashEquals => "SlashEquals"
  | percentEquals => "PercentEquals"
  | plus => "Plus"
  | dash => "Dash"
  | slash => "Slash"
  | starStar => "StarStar"
  | star => "Star"
  | percent => "Percent"

theorem mem_all (mark : Punctuator) : mark ∈ all := by
  cases mark <;> decide

end Punctuator

inductive TokenKind where
  | endOfInput
  | number
  | string
  | identifier
  | mark (punctuator : Punctuator)
  | word (keyword : Keyword)
deriving DecidableEq, Repr

def TokenKind.name : TokenKind → String
  | endOfInput => "EOF"
  | number => "Number"
  | string => "String"
  | identifier => "Identifier"
  | mark punctuator => punctuator.name
  | word keyword => keyword.name

/-- One word of a script.  The value is the source text of the token, for a
string the text that it denotes. -/
structure Token where
  kind : TokenKind
  value : String
  span : Span
deriving DecidableEq, Repr

namespace Token

def endOfInput (p : Position) : Token :=
  ⟨.endOfInput, "EOF", .point p⟩

instance : Inhabited Token := ⟨endOfInput .nowhere⟩

/-- A token as it is shown to a reader. -/
def display (token : Token) : String :=
  "Token \x7b\nkind: " ++ token.kind.name ++ ",\nvalue: " ++ token.value ++ "\x7d"

def isOneOf (token : Token) (kinds : List TokenKind) : Bool :=
  kinds.contains token.kind

end Token

end ScriptCheck
