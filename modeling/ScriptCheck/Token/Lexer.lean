import ScriptCheck.Fault
import ScriptCheck.Text.Blank
import ScriptCheck.Token.Basic
import ScriptCheck.Token.Escape

/-!
# Reading tokens

A source text is cut into lexemes from left to right.  At each point a fixed
list of patterns is tried and the first one that matches there wins.  A pattern
is the function from the rest of the text to the length of the prefix it
matches, zero where it does not match; no pattern matches the empty text.
-/

namespace ScriptCheck.Lexer

open Escape (isDigit isHexDigit)

/-- What a lexeme is for.  Gaps separate tokens and leave none behind. -/
inductive Role where
  | gap
  | name
  | number
  | string
  | mark (punctuator : Punctuator)
deriving DecidableEq, Repr

/-- A lexeme: its role and how many characters follow its first one. -/
structure Lexeme where
  role : Role
  tail : Nat
deriving DecidableEq, Repr

def Lexeme.length (lexeme : Lexeme) : Nat := lexeme.tail + 1

/-! ## Patterns -/

def isNameStart (c : Char) : Bool :=
  ('a' ≤ c && c ≤ 'z') || ('A' ≤ c && c ≤ 'Z') || c == '_' || c == '$'

def isNamePart (c : Char) : Bool :=
  isNameStart c || isDigit c

/-- Length of the longest prefix whose characters all satisfy `p`. -/
def runLength (p : Char → Bool) (text : List Char) : Nat :=
  (text.takeWhile p).length

def nameLength : List Char → Nat
  | [] => 0
  | c :: rest => if isNameStart c then runLength isNamePart rest + 1 else 0

def hexLength : List Char → Nat
  | '0' :: x :: rest =>
      let digits := runLength isHexDigit rest
      if (x == 'x' || x == 'X') && digits != 0 then digits + 2 else 0
  | _ => 0

/-- Decimal digits with at most one point, and a digit on one side of it. -/
def mantissaLength (text : List Char) : Nat :=
  let whole := runLength isDigit text
  match text.drop whole with
  | '.' :: rest =>
      let fraction := runLength isDigit rest
      if whole == 0 && fraction == 0 then 0 else whole + 1 + fraction
  | _ => whole

/-- The exponent of a decimal literal, with its mark. -/
def exponentLength : List Char → Nat
  | e :: rest =>
      let sign := match rest with
        | '+' :: _ => 1
        | '-' :: _ => 1
        | _ => 0
      let digits := runLength isDigit (rest.drop sign)
      if (e == 'e' || e == 'E') && digits != 0 then 1 + sign + digits else 0
  | [] => 0

def decimalLength (text : List Char) : Nat :=
  let mantissa := mantissaLength text
  if mantissa == 0 then 0 else mantissa + exponentLength (text.drop mantissa)

def numberLength (text : List Char) : Nat :=
  if hexLength text != 0 then hexLength text else decimalLength text

def blankLength (text : List Char) : Nat :=
  runLength Text.isBlank text

/-- Length of the rest of a string literal up to and including its closing
quote; a line break, also an escaped one, leaves the literal open. -/
def closingLength? (quote : Char) : List Char → Option Nat
  | [] => none
  | '\\' :: [] => none
  | '\\' :: c :: rest => if c = '\n' then none else (closingLength? quote rest).map (· + 2)
  | c :: rest =>
      if c = quote then some 1
      else if c = '\n' then none
      else (closingLength? quote rest).map (· + 1)

def stringLength (quote : Char) : List Char → Nat
  | [] => 0
  | c :: rest =>
      if c = quote then ((closingLength? quote rest).map (· + 1)).getD 0 else 0

def lineCommentLength : List Char → Nat
  | '/' :: '/' :: rest => runLength (· ≠ '\n') rest + 2
  | _ => 0

/-- Length of the rest of a comment up to and including its closing mark. -/
def commentClosing? : List Char → Option Nat
  | [] => none
  | '*' :: '/' :: _ => some 2
  | _ :: rest => (commentClosing? rest).map (· + 1)

def blockCommentLength : List Char → Nat
  | '/' :: '*' :: rest => ((commentClosing? rest).map (· + 2)).getD 0
  | _ => 0

def literalLength (word : List Char) (text : List Char) : Nat :=
  if word.isPrefixOf text then word.length else 0

/-- The patterns in the order in which they are tried. -/
def patterns : List (Role × (List Char → Nat)) :=
  [(.name, nameLength), (.number, numberLength), (.gap, blankLength),
   (.string, stringLength '"'), (.string, stringLength '\''),
   (.gap, lineCommentLength), (.gap, blockCommentLength)] ++
  Punctuator.all.map fun mark => (.mark mark, literalLength mark.text.toList)

/-- The lexeme at the beginning of a text: that of the first pattern that
matches a non-empty prefix. -/
def first? (text : List Char) : Option Lexeme :=
  patterns.findSome? fun (role, pattern) =>
    match pattern text with
    | 0 => none
    | tail + 1 => some ⟨role, tail⟩

/-! ## Tokens -/

def nameKind (text : String) : TokenKind :=
  match Keyword.ofText? text with
  | some keyword => .word keyword
  | none => .identifier

def token? (role : Role) (text : List Char) (span : Span) : Option Token :=
  match role with
  | .gap => none
  | .name => some ⟨nameKind (String.ofList text), String.ofList text, span⟩
  | .number => some ⟨.number, String.ofList text, span⟩
  | .string =>
      some ⟨.string, String.ofList (Escape.decode (text.drop 1).dropLast), span⟩
  | .mark punctuator => some ⟨.mark punctuator, punctuator.text, span⟩

def scan (position : Position) : List Char → Except Fault (List Token)
  | [] => .ok [.endOfInput position]
  | c :: rest =>
      match first? (c :: rest) with
      | none => .error ⟨.unrecognisedToken (String.singleton c), position⟩
      | some lexeme =>
          let text := c :: rest.take lexeme.tail
          let stop := position.advance text
          match scan stop (rest.drop lexeme.tail) with
          | .error fault => .error fault
          | .ok tokens =>
              .ok ((token? lexeme.role text ⟨position, stop⟩).toList ++ tokens)
termination_by text => text.length

/-- The tokens of a source text, the end mark included. -/
def tokenize (source : String) : Except Fault (List Token) :=
  scan .start source.toList

end ScriptCheck.Lexer
