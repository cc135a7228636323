import ScriptCheck.Grammar.Program
import ScriptCheck.Proofs.Tree.Layout
import ScriptCheck.Token.Lexer

/-!
# Writing expressions

Expressions without functions, apart from any arena, and the words they are written with.
An operand stands in parentheses where the powers ask for them and nowhere else: a left
operand that holds on less strongly than the operator after it, and a right operand that
would not be read to its end.
-/

namespace ScriptCheck

/-- A word of a script, wherever it stands. -/
structure Word where
  kind : TokenKind
  value : String
deriving DecidableEq, Repr

/-- What a token says, without its place. -/
def Token.word (token : Token) : Word := ⟨token.kind, token.value⟩

namespace Word

/-- A punctuator as a word. -/
def mark (punctuator : Punctuator) : Word := ⟨.mark punctuator, punctuator.text⟩

def keyword (keyword : Keyword) : Word := ⟨.word keyword, keyword.text⟩

/-- A name that stands for itself. -/
def identifier (name : String) : Word := ⟨.identifier, name⟩

/-- A name after a point, which may be a reserved word. -/
def member (name : String) : Word := ⟨Lexer.nameKind name, name⟩

/-- A text in quotes. -/
def string (s : String) : Word := ⟨.string, s⟩

end Word

/-! ## Operators -/

/-- How an operator in front of its operand is written. -/
def UnaryOp.word : UnaryOp → Word
  | not => .mark .bang
  | minus => .mark .dash
  | plus => .mark .plus
  | bitNot => .mark .tilde
  | typeof => .keyword .typeof_
  | void => .keyword .void_
  | delete => .keyword .delete_

namespace BinaryOp

/-- How an operator between two operands is written. -/
def word : BinaryOp → Word
  | add => .mark .plus
  | sub => .mark .dash
  | mul => .mark .star
  | div => .mark .slash
  | rem => .mark .percent
  | pow => .mark .starStar
  | eq => .mark .equals
  | notEq => .mark .notEquals
  | strictEq => .mark .strictEquals
  | strictNotEq => .mark .strictNotEquals
  | less => .mark .less
  | lessEq => .mark .lessEquals
  | greater => .mark .greater
  | greaterEq => .mark .greaterEquals
  | bitAnd => .mark .ampersand
  | bitOr => .mark .pipe
  | bitXor => .mark .caret
  | shl => .mark .shiftLeft
  | shr => .mark .shiftRight
  | ushr => .mark .unsignedShiftRight
  | in_ => .keyword .in_
  | instanceof => .keyword .instanceof_

/-- How strongly an operator holds on to what stands in front of it. -/
def power (op : BinaryOp) : Power := .ofToken op.word.kind

/-- The least rank of a left operand without parentheses.  Exponentiation groups to the
right, all others to the left. -/
def leftRank (op : BinaryOp) : Nat :=
  if op = pow then op.power.rank + 1 else op.power.rank

/-- The power above which a right operand goes without parentheses. -/
def rightPower (op : BinaryOp) : Power := if op = pow then .multiplicative else op.power

end BinaryOp

namespace LogicalOp

/-- How a logical operator is written. -/
def word : LogicalOp → Word
  | and => .mark .andAlso
  | or => .mark .orElse

/-- How strongly a logical operator holds on to what stands in front of it. -/
def power (op : LogicalOp) : Power := .ofToken op.word.kind

end LogicalOp

/-- How an assignment is written. -/
def AssignOp.word : AssignOp → Word
  | plain => .mark .assign
  | add => .mark .plusEquals
  | sub => .mark .minusEquals
  | mul => .mark .starEquals
  | div => .mark .slashEquals
  | rem => .mark .percentEquals

/-! ## Expressions -/

/-- A number that is written out, in one of the ways to write it. -/
structure Numeral where
  text : String
  value : Float
  reads : Number.ofLiteral? text = some value

inductive WrittenLiteral where
  | number (numeral : Numeral)
  | string (s : String)
  | boolean (b : Bool)
  | null

namespace WrittenLiteral

/-- The word of a literal. -/
def word : WrittenLiteral → Word
  | number numeral => ⟨.number, numeral.text⟩
  | string s => .string s
  | boolean b => .keyword (if b then .true_ else .false_)
  | null => .keyword .null_

/-- The literal that is written. -/
def literal : WrittenLiteral → Literal
  | number numeral => .number numeral.value
  | string s => .string s
  | boolean b => .boolean b
  | null => .null

end WrittenLiteral

mutual

/-- What can be assigned to: a name, a named member or a computed one. -/
inductive Place where
  | identifier (name : String)
  | named (owner : Expression) (name : String)
  | computed (owner key : Expression)

/-- An expression without functions.  A sequence has at least two parts. -/
inductive Expression where
  | literal (written : WrittenLiteral)
  | this
  | place (place : Place)
  | array (elements : List Expression)
  | object (properties : List (String × Expression))
  | unary (op : UnaryOp) (argument : Expression)
  | binary (op : BinaryOp) (left right : Expression)
  | logical (op : LogicalOp) (left right : Expression)
  | assign (op : AssignOp) (target : Place) (value : Expression)
  | conditional (test consequent alternate : Expression)
  | call (callee : Expression) (arguments : List Expression)
  | construct (callee : Expression) (arguments : List Expression)
  | sequence (first second : Expression) (rest : List Expression)

end

/-- How strongly the parts of a place hold together. -/
def Place.power : Place → Power
  | identifier _ => .primary
  | named .. | computed .. => .member

namespace Expression

/-- How strongly the parts of an expression hold together. -/
def power : Expression → Power
  | literal _ | this | array _ | object _ | construct .. => .primary
  | .place p => p.power
  | unary .. => .unary
  | binary op _ _ => op.power
  | logical op _ _ => op.power
  | assign .. => .assignment
  | conditional .. => .conditional
  | call .. => .call
  | sequence .. => .comma

/-- The power that what follows an expression must not exceed, or it would go with the
last operand.  Nothing can reach into an expression that ends with a word of its own, and
a sequence takes every comma there is. -/
def rightPower : Expression → Power
  | literal _ | this | array _ | object _ | construct .. | place _ | call .. => .primary
  | unary .. => .exponent
  | binary op _ _ => op.rightPower
  | logical op _ _ => op.power
  | assign .. | conditional .. => .comma
  | sequence .. => .lowest

end Expression

/-! ## Words -/

/-- Puts parentheses around what holds together less strongly than is asked for. -/
def enclose (least : Nat) (power : Power) (inside : Nat → List Word) : List Word :=
  if least ≤ power.rank then inside least
  else .mark .openParen :: inside (Power.lowest.rank + 1) ++ [.mark .closeParen]

def commaSeparated : List (List Word) → List Word
  | [] => []
  | first :: rest => first ++ rest.flatMap (.mark .comma :: ·)

mutual

/-- The words of a place that nothing weaker than `least` may reach into. -/
def Place.bare : Place → Nat → List Word
  | .identifier name, _ => [.identifier name]
  | .named owner name, least =>
      enclose (max Power.call.rank least) owner.power (fun least => owner.bare least) ++
        [.mark .dot, .member name]
  | .computed owner key, least =>
      enclose (max Power.call.rank least) owner.power (fun least => owner.bare least) ++
        .mark .openBracket ::
          (enclose (Power.lowest.rank + 1) key.power (fun least => key.bare least) ++
            [.mark .closeBracket])

/-- The words of an expression without parentheses around it, where no operator on its
left side may be weaker than `least`. -/
def Expression.bare : Expression → Nat → List Word
  | .literal written, _ => [written.word]
  | .this, _ => [.keyword .this_]
  | .place place, least => place.bare least
  | .array elements, _ =>
      .mark .openBracket :: (commaSeparated (itemWords elements) ++ [.mark .closeBracket])
  | .object properties, _ =>
      .mark .openCurly :: (commaSeparated (propertyWords properties) ++ [.mark .closeCurly])
  | .unary op argument, _ =>
      op.word ::
        enclose (Power.exponent.rank + 1) argument.power (fun least => argument.bare least)
  | .binary op left right, _ =>
      enclose op.leftRank left.power (fun least => left.bare least) ++ op.word ::
        enclose (op.rightPower.rank + 1) right.power (fun least => right.bare least)
  | .logical op left right, _ =>
      enclose op.power.rank left.power (fun least => left.bare least) ++ op.word ::
        enclose (op.power.rank + 1) right.power (fun least => right.bare least)
  | .assign op target value, least =>
      target.bare least ++ op.word ::
        enclose (Power.comma.rank + 1) value.power (fun least => value.bare least)
  | .conditional test consequent alternate, _ =>
      enclose (Power.conditional.rank + 1) test.power (fun least => test.bare least) ++
        .mark .question ::
          (enclose (Power.comma.rank + 1) consequent.power (fun least => consequent.bare least) ++
            .mark .colon ::
              enclose (Power.comma.rank + 1) alternate.power (fun least => alternate.bare least))
  | .call callee arguments, _ =>
      enclose Power.call.rank callee.power (fun least => callee.bare least) ++
        .mark .openParen :: (commaSeparated (itemWords arguments) ++ [.mark .closeParen])
  | .construct callee arguments, _ =>
      .keyword .new_ ::
        (enclose (Power.call.rank + 1) callee.power (fun least => callee.bare least) ++
          .mark .openParen :: (commaSeparated (itemWords arguments) ++ [.mark .closeParen]))
  | .sequence first second rest, _ =>
      commaSeparated
        (enclose (Power.comma.rank + 1) first.power (fun least => first.bare least) ::
          enclose (Power.comma.rank + 1) second.power (fun least => second.bare least) ::
            itemWords rest)

def itemWords : List Expression → List (List Word)
  | [] => []
  | item :: rest =>
      enclose (Power.comma.rank + 1) item.power (fun least => item.bare least) :: itemWords rest

def propertyWords : List (String × Expression) → List (List Word)
  | [] => []
  | (key, value) :: rest =>
      (.string key :: .mark .colon ::
        enclose (Power.comma.rank + 1) value.power (fun least => value.bare least)) ::
          propertyWords rest

end

namespace Expression

/-- The words of an operand, in parentheses where it holds together less strongly than
`least`. -/
def write (e : Expression) (least : Nat) : List Word :=
  enclose least e.power fun least => e.bare least

/-- The words of an operand that is read with a power. -/
def writeAbove (e : Expression) (power : Power) : List Word := e.write (power.rank + 1)

/-- The words of a whole expression. -/
def words (e : Expression) : List Word := e.writeAbove .lowest

end Expression

/-! ## Powers of operators and expressions -/

theorem BinaryOp.power_cases (op : BinaryOp) :
    (op = .pow ∧ op.power = .exponent) ∨
      (op ≠ .pow ∧ 6 ≤ op.power.rank ∧ op.power.rank ≤ 13) := by
  cases op <;> decide

theorem LogicalOp.power_bounds (op : LogicalOp) : 4 ≤ op.power.rank ∧ op.power.rank ≤ 5 := by
  cases op <;> decide

namespace Expression

theorem power_pos (e : Expression) : 0 < e.power.rank := by
  cases e with
  | binary op left right => have := op.power_cases; simp only [power]; grind [Power.rank]
  | logical op left right => have := op.power_bounds; simp only [power]; omega
  | place place => cases place <;> simp [power, Place.power, Power.rank]
  | _ => simp [power, Power.rank]

/-- What holds on less strongly than the parts of an expression hold together does not
reach into it.  An assignment would: it can follow a condition. -/
theorem le_rightPower_of_lt {e : Expression} {rank : Nat} (h : rank < e.power.rank)
    (hassign : rank ≠ Power.assignment.rank) : rank ≤ e.rightPower.rank := by
  cases e with
  | binary op left right =>
      have := op.power_cases
      simp only [power, rightPower, BinaryOp.rightPower] at *
      grind [Power.rank]
  | logical op left right => exact Nat.le_of_lt h
  | place place => cases place <;> simp_all [power, Place.power, rightPower, Power.rank] <;> omega
  | _ => simp_all [power, rightPower, Power.rank] <;> omega

/-- An operator that groups to the left does not reach into an operand that holds together
as strongly. -/
theorem le_rightPower_of_le {e : Expression} {rank : Nat} (h : rank ≤ e.power.rank)
    (hleft : Power.logicalOr.rank ≤ rank) (hexponent : rank ≠ Power.exponent.rank)
    (hunary : rank ≠ Power.unary.rank) : rank ≤ e.rightPower.rank := by
  cases e with
  | binary op left right =>
      have := op.power_cases
      simp only [power, rightPower, BinaryOp.rightPower] at *
      grind [Power.rank]
  | logical op left right => exact h
  | place place => cases place <;> simp_all [power, Place.power, rightPower, Power.rank] <;> omega
  | _ => simp_all [power, rightPower, Power.rank] <;> omega

theorem le_rightPower_of_call_le {e : Expression} {power : Power}
    (h : Power.call.rank ≤ e.power.rank) : power ≤ e.rightPower := by
  have hprimary : e.rightPower = .primary := by
    cases e with
    | binary op left right =>
        have := op.power_cases
        simp only [Expression.power] at h
        grind [Power.rank]
    | logical op left right =>
        have := op.power_bounds
        simp only [Expression.power, Power.rank] at *
        omega
    | _ => simp_all [Expression.power, rightPower, Power.rank]
  rw [hprimary]
  cases power <;> decide

end Expression

/-! ## Phrases -/

def Word.Plain (word : Word) : Prop :=
  word.kind ≠ .endOfInput ∧ word.kind ≠ .mark .openParen ∧ word.kind ≠ .mark .closeParen

def Punctuator.Closes (punctuator : Punctuator) : Prop :=
  punctuator = .closeParen ∨ punctuator = .closeBracket ∨ punctuator = .closeCurly

theorem Punctuator.Closes.ne_comma {punctuator : Punctuator} (h : punctuator.Closes) :
    punctuator ≠ .comma := by
  rcases h with rfl | rfl | rfl <;> decide

def Word.Opens (word : Word) : Prop :=
  word.kind ≠ .mark .closeParen ∧ word.kind ≠ .mark .closeBracket ∧
    word.kind ≠ .mark .closeCurly

theorem Word.Opens.kind_ne {word : Word} {close : Punctuator} (h : word.Opens)
    (hclose : close.Closes) : word.kind ≠ .mark close := by
  rcases hclose with rfl | rfl | rfl
  · exact h.1
  · exact h.2.1
  · exact h.2.2

/-- A look for an arrow behind a group that is open passes over the words. -/
def Balanced (words : List Word) : Prop :=
  ∀ depth rest, Parse.arrowFollows (depth + 1) (words.map Word.kind ++ rest) =
    Parse.arrowFollows (depth + 1) rest

/-- Words that make an operand: parentheses are closed again, and nothing that is open
before is closed by the first word. -/
structure Phrase (words : List Word) : Prop where
  first : ∃ first rest, words = first :: rest ∧ first.Opens
  balanced : Balanced words

theorem arrowFollows_of_plain {word : Word} (h : word.Plain) (depth : Nat)
    (rest : List TokenKind) :
    Parse.arrowFollows depth (word.kind :: rest) = Parse.arrowFollows depth rest := by
  obtain ⟨hend, hopen, hclose⟩ := h
  simp [Parse.arrowFollows]

namespace Balanced

theorem nil : Balanced [] := fun _ _ => rfl

theorem cons {word : Word} {words : List Word} (hword : word.Plain) (h : Balanced words) :
    Balanced (word :: words) := by
  intro depth rest
  rw [List.map_cons, List.cons_append, arrowFollows_of_plain hword, h]

theorem append {words more : List Word} (h : Balanced words) (hmore : Balanced more) :
    Balanced (words ++ more) := by
  intro depth rest
  rw [List.map_append, List.append_assoc, h, hmore]

theorem group {words : List Word} (h : Balanced words) :
    Balanced (.mark .openParen :: (words ++ [.mark .closeParen])) := by
  intro depth rest
  have hopen : ∀ more, Parse.arrowFollows (depth + 1) (.mark .openParen :: more) =
      Parse.arrowFollows (depth + 2) more := fun _ => rfl
  have hclose : Parse.arrowFollows (depth + 2) (.mark .closeParen :: rest) =
      Parse.arrowFollows (depth + 1) rest := by
    simp [Parse.arrowFollows]
  simp only [List.map_cons, List.map_append, List.map_nil, List.append_assoc, List.cons_append,
    List.nil_append, Word.mark, hopen]
  rw [h, hclose]

theorem commaSeparated {stretches : List (List Word)} (h : ∀ words ∈ stretches, Balanced words) :
    Balanced (commaSeparated stretches) := by
  cases stretches with
  | nil => exact nil
  | cons first rest =>
      refine (h first (by simp)).append ?_
      replace h := fun words hmem => h words (List.mem_cons_of_mem first hmem)
      induction rest with
      | nil => exact nil
      | cons next rest ih =>
          refine (cons ⟨by decide, by decide, by decide⟩ (h next (by simp))).append ?_
          exact ih fun words hmem => h words (List.mem_cons_of_mem next hmem)

end Balanced

namespace Phrase

theorem cons {word : Word} {words : List Word} (hplain : word.Plain) (hopens : word.Opens)
    (h : Balanced words) : Phrase (word :: words) :=
  ⟨⟨word, words, rfl, hopens⟩, h.cons hplain⟩

theorem append {words more : List Word} (h : Phrase words) (hmore : Balanced more) :
    Phrase (words ++ more) := by
  obtain ⟨first, rest, rfl, hopens⟩ := h.first
  exact ⟨⟨first, rest ++ more, rfl, hopens⟩, h.balanced.append hmore⟩

theorem enclose {least : Nat} {power : Power} {inside : Nat → List Word}
    (h : ∀ least, Phrase (inside least)) : Phrase (enclose least power inside) := by
  unfold ScriptCheck.enclose
  split
  · exact h least
  · exact ⟨⟨_, _, rfl, by simp [Word.Opens, Word.mark]⟩, (h _).balanced.group⟩

theorem commaSeparated {first : List Word} {rest : List (List Word)} (h : Phrase first)
    (hrest : ∀ words ∈ rest, Balanced words) : Phrase (commaSeparated (first :: rest)) := by
  obtain ⟨word, words, hfirst, hopens⟩ := h.first
  refine ⟨⟨word, words ++ rest.flatMap (.mark .comma :: ·), ?_, hopens⟩, ?_⟩
  · rw [ScriptCheck.commaSeparated, hfirst]
    rfl
  · exact .commaSeparated fun words hmem => by
      rcases List.mem_cons.mp hmem with rfl | hmem
      · exact h.balanced
      · exact hrest words hmem

end Phrase

theorem Word.plain_mark {punctuator : Punctuator} (hopen : punctuator ≠ .openParen)
    (hclose : punctuator ≠ .closeParen) : (Word.mark punctuator).Plain := by
  simp [Plain, mark, hopen, hclose]

theorem Word.plain_keyword (word : Keyword) : (Word.keyword word).Plain := by
  simp [Plain, keyword]

theorem Word.opens_keyword (word : Keyword) : (Word.keyword word).Opens := by
  simp [Opens, keyword]

theorem Word.plain_member (name : String) : (Word.member name).Plain := by
  unfold Plain member Lexer.nameKind
  split <;> simp

theorem UnaryOp.plain_word (op : UnaryOp) : op.word.Plain := by
  cases op <;> simp [word, Word.Plain, Word.mark, Word.keyword]

theorem UnaryOp.opens_word (op : UnaryOp) : op.word.Opens := by
  cases op <;> simp [word, Word.Opens, Word.mark, Word.keyword]

theorem BinaryOp.plain_word (op : BinaryOp) : op.word.Plain := by
  cases op <;> simp [word, Word.Plain, Word.mark, Word.keyword]

theorem LogicalOp.plain_word (op : LogicalOp) : op.word.Plain := by
  cases op <;> simp [word, Word.Plain, Word.mark]

theorem AssignOp.plain_word (op : AssignOp) : op.word.Plain := by
  cases op <;> simp [word, Word.Plain, Word.mark]

theorem WrittenLiteral.phrase (written : WrittenLiteral) : Phrase [written.word] := by
  refine .cons ?_ ?_ .nil
  · cases written <;> simp [word, Word.Plain, Word.string, Word.keyword]
  · cases written <;> simp [word, Word.Opens, Word.string, Word.keyword]

theorem balanced_arguments {stretches : List (List Word)}
    (h : ∀ words ∈ stretches, Balanced words) :
    Balanced (.mark .openParen :: (commaSeparated stretches ++ [.mark .closeParen])) :=
  (Balanced.commaSeparated h).group

mutual

theorem Place.phrase : ∀ (place : Place) (least : Nat), Phrase (place.bare least)
  | .identifier name, _ =>
      .cons (by simp [Word.Plain, Word.identifier]) (by simp [Word.Opens, Word.identifier]) .nil
  | .named owner name, _ => by
    rw [Place.bare]
    exact (Phrase.enclose owner.phrase).append
      ((Balanced.nil.cons (Word.plain_member name)).cons (Word.plain_mark (by simp) (by simp)))
  | .computed owner key, _ => by
    rw [Place.bare]
    refine (Phrase.enclose owner.phrase).append (.cons (Word.plain_mark (by simp) (by simp)) ?_)
    exact (Phrase.enclose key.phrase).balanced.append
      (Balanced.nil.cons (Word.plain_mark (by simp) (by simp)))

theorem Expression.phrase : ∀ (e : Expression) (least : Nat), Phrase (e.bare least)
  | .literal written, _ => written.phrase
  | .this, _ => .cons (Word.plain_keyword _) (Word.opens_keyword _) .nil
  | .place place, least => place.phrase least
  | .array elements, _ => by
    rw [Expression.bare]
    refine .cons (Word.plain_mark (by simp) (by simp)) (by simp [Word.Opens, Word.mark]) ?_
    exact (Balanced.commaSeparated (balanced_itemWords elements)).append
      (Balanced.nil.cons (Word.plain_mark (by simp) (by simp)))
  | .object properties, _ => by
    rw [Expression.bare]
    refine .cons (Word.plain_mark (by simp) (by simp)) (by simp [Word.Opens, Word.mark]) ?_
    exact (Balanced.commaSeparated (balanced_propertyWords properties)).append
      (Balanced.nil.cons (Word.plain_mark (by simp) (by simp)))
  | .unary op argument, _ => by
    rw [Expression.bare]
    exact .cons op.plain_word op.opens_word (Phrase.enclose argument.phrase).balanced
  | .binary op left right, _ => by
    rw [Expression.bare]
    exact (Phrase.enclose left.phrase).append
      (.cons op.plain_word (Phrase.enclose right.phrase).balanced)
  | .logical op left right, _ => by
    rw [Expression.bare]
    exact (Phrase.enclose left.phrase).append
      (.cons op.plain_word (Phrase.enclose right.phrase).balanced)
  | .assign op target value, least => by
    rw [Expression.bare]
    exact (target.phrase least).append
      (.cons op.plain_word (Phrase.enclose value.phrase).balanced)
  | .conditional test consequent alternate, _ => by
    rw [Expression.bare]
    refine (Phrase.enclose test.phrase).append (.cons (Word.plain_mark (by simp) (by simp)) ?_)
    exact (Phrase.enclose consequent.phrase).balanced.append
      (.cons (Word.plain_mark (by simp) (by simp)) (Phrase.enclose alternate.phrase).balanced)
  | .call callee arguments, _ => by
    rw [Expression.bare]
    exact (Phrase.enclose callee.phrase).append
      (balanced_arguments (balanced_itemWords arguments))
  | .construct callee arguments, _ => by
    rw [Expression.bare]
    exact .cons (Word.plain_keyword _) (Word.opens_keyword _)
      ((Phrase.enclose callee.phrase).balanced.append
        (balanced_arguments (balanced_itemWords arguments)))
  | .sequence first second rest, _ => by
    rw [Expression.bare]
    refine .commaSeparated (.enclose first.phrase) fun words hmem => ?_
    rcases List.mem_cons.mp hmem with rfl | hmem
    · exact (Phrase.enclose second.phrase).balanced
    · exact balanced_itemWords rest words hmem

theorem balanced_itemWords : ∀ (items : List Expression), ∀ words ∈ itemWords items,
    Balanced words
  | [] => by simp [itemWords]
  | item :: rest => by
    intro words hmem
    rw [itemWords] at hmem
    rcases List.mem_cons.mp hmem with rfl | hmem
    · exact (Phrase.enclose item.phrase).balanced
    · exact balanced_itemWords rest words hmem

theorem balanced_propertyWords : ∀ (properties : List (String × Expression)),
    ∀ words ∈ propertyWords properties, Balanced words
  | [] => by simp [propertyWords]
  | (key, value) :: rest => by
    intro words hmem
    rw [propertyWords] at hmem
    rcases List.mem_cons.mp hmem with rfl | hmem
    · exact .cons (by simp [Word.Plain, Word.string])
        (.cons (Word.plain_mark (by simp) (by simp)) (Phrase.enclose value.phrase).balanced)
    · exact balanced_propertyWords rest words hmem

end

/-! ## Written parts -/

def propertyWord (property : String × Expression) : List Word :=
  .string property.1 :: .mark .colon :: property.2.writeAbove .comma

theorem itemWords_eq_map (items : List Expression) :
    itemWords items = items.map (·.writeAbove .comma) := by
  induction items with
  | nil => rw [itemWords, List.map_nil]
  | cons item rest ih =>
      rw [itemWords, ih]
      rfl

theorem propertyWords_eq_map (properties : List (String × Expression)) :
    propertyWords properties = properties.map propertyWord := by
  induction properties with
  | nil => rw [propertyWords, List.map_nil]
  | cons property rest ih =>
      rw [propertyWords, ih]
      rfl

theorem Expression.phrase_write (e : Expression) (least : Nat) : Phrase (e.write least) :=
  .enclose e.phrase

theorem Expression.write_of_le {e : Expression} {least : Nat} (h : least ≤ e.power.rank) :
    e.write least = e.bare least := if_pos h

theorem Expression.write_of_gt {e : Expression} {least : Nat} (h : e.power.rank < least) :
    e.write least = .mark .openParen :: (e.bare (Power.lowest.rank + 1) ++ [.mark .closeParen]) :=
  if_neg (Nat.not_le.mpr h)

end ScriptCheck
