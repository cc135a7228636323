import Mathlib.Data.List.Forall2
import ScriptCheck.Proofs.Token.Lexical

/-!
# Writing string literals

A text can be written as a string literal in many ways: each of its characters by itself or by
an escape.  Whatever is chosen for each of them, the literal is one token and its value is the
text: the pattern that finds the closing quote and the reading of escapes agree on where each
escape ends.
-/

namespace ScriptCheck.Lexer

open Escape (isDigit isHexDigit hexDigitValue hexValue digitRun codePoint decode)

/-! ## Ways to write a character -/

/-- The escapes of one letter, each with the character that it stands for. -/
def letters : List (Char × Char) :=
  [('n', '\n'), ('t', '\t'), ('r', '\r'), ('b', '\x08'), ('f', '\x0c'), ('v', '\x0b'),
   ('0', '\x00'), ('"', '"'), ('\'', '\''), ('\\', '\\')]

/-- The hexadecimal digits of either case, each with its value. -/
def hexDigits : List (Char × Nat) :=
  "0123456789abcdef".toList.zipIdx ++ "0123456789ABCDEF".toList.zipIdx

/-- Hexadecimal digits spell a number, the most significant first. -/
inductive SpellsHex : List Char → Nat → Prop
  | nil : SpellsHex [] 0
  | snoc {digits : List Char} {value digit : Nat} {c : Char} : SpellsHex digits value →
      (c, digit) ∈ hexDigits → SpellsHex (digits ++ [c]) (16 * value + digit)

/-- The ways to write a character between quotes: by itself, unless it is the quote, a
backslash or a line break, by an escape of one letter, or by its code in hexadecimal digits,
two after `x` or four after `u`. -/
inductive Writes (quote c : Char) : List Char → Prop
  | raw : c ≠ quote → c ≠ '\\' → c ≠ '\n' → Writes quote c [c]
  | letter {mark : Char} : (mark, c) ∈ letters → Writes quote c ['\\', mark]
  | byte {digits : List Char} : digits.length = 2 → SpellsHex digits c.toNat →
      Writes quote c ('\\' :: 'x' :: digits)
  | unit {digits : List Char} : digits.length = 4 → SpellsHex digits c.toNat →
      Writes quote c ('\\' :: 'u' :: digits)

/-! ## Hexadecimal digits -/

theorem isHexDigit_of_mem : ∀ digit ∈ hexDigits, isHexDigit digit.1 := by decide

theorem hexDigitValue_of_mem : ∀ digit ∈ hexDigits, hexDigitValue digit.1 = digit.2 := by decide

namespace SpellsHex

variable {digits : List Char} {value : Nat}

theorem isHexDigit (h : SpellsHex digits value) : ∀ c ∈ digits, isHexDigit c := by
  induction h with
  | nil => simp
  | snoc _ hdigit ih =>
      intro c hc
      rcases List.mem_append.mp hc with hc | hc
      · exact ih c hc
      · rw [List.mem_singleton.mp hc]
        exact isHexDigit_of_mem _ hdigit

theorem hexValue_eq (h : SpellsHex digits value) : hexValue digits = value := by
  induction h with
  | nil => rfl
  | snoc _ hdigit ih =>
      rw [hexValue, List.foldl_append, ← hexValue, ih]
      simp [hexDigitValue_of_mem _ hdigit]

end SpellsHex

/-- The digits of an escape are read up to its width, whatever follows them. -/
theorem digitRun_append {digits : List Char} (h : ∀ c ∈ digits, isHexDigit c) (rest : List Char) :
    digitRun digits.length (digits ++ rest) = digits := by
  rw [digitRun, List.take_left, List.takeWhile_eq_self_iff]
  exact h

theorem codePoint_eq {digits : List Char} {c : Char} (mark : Char) (h : SpellsHex digits c.toNat)
    (hne : digits ≠ []) : codePoint mark digits = [c] := by
  have hvalid : c.toNat.isValidChar := c.valid
  rw [codePoint, h.hexValue_eq, if_pos ⟨hne, hvalid⟩, Char.ofNat_toNat]

/-! ## Reading back -/

/-- An escape by code reads back as its character, whatever follows its digits. -/
theorem decode_codePoint {mark c : Char} {digits : List Char} (hletter : Escape.letter? mark = none)
    (hwidth : Escape.width? mark = some digits.length) (hspells : SpellsHex digits c.toNat)
    (hne : digits ≠ []) (rest : List Char) :
    decode ('\\' :: mark :: (digits ++ rest)) = c :: decode rest := by
  have hrun := digitRun_append hspells.isHexDigit rest
  have hcode := codePoint_eq mark hspells hne
  simp [decode, hletter, hwidth, hrun, hcode]

namespace Writes

variable {quote c : Char} {written : List Char}

/-- What is written for a character reads back as it and ends there. -/
theorem decode_append (h : Writes quote c written) (rest : List Char) :
    decode (written ++ rest) = c :: decode rest := by
  cases h with
  | raw _ hescape _ => simp [decode, hescape]
  | letter hmem =>
      simp only [letters, List.mem_cons, Prod.mk.injEq, List.not_mem_nil, or_false] at hmem
      rcases hmem with ⟨rfl, rfl⟩ | ⟨rfl, rfl⟩ | ⟨rfl, rfl⟩ | ⟨rfl, rfl⟩ | ⟨rfl, rfl⟩ |
        ⟨rfl, rfl⟩ | ⟨rfl, rfl⟩ | ⟨rfl, rfl⟩ | ⟨rfl, rfl⟩ | ⟨rfl, rfl⟩ <;>
      simp [decode, Escape.letter?, Escape.width?]
  | byte hlength hspells =>
      exact decode_codePoint rfl (by rw [hlength]; rfl) hspells (by rintro rfl; cases hlength) rest
  | unit hlength hspells =>
      exact decode_codePoint rfl (by rw [hlength]; rfl) hspells (by rintro rfl; cases hlength) rest

end Writes

theorem decode_flatten {quote : Char} {text : List Char} {pieces : List (List Char)}
    (h : List.Forall₂ (Writes quote) text pieces) : decode pieces.flatten = text := by
  induction h with
  | nil => simp [decode]
  | cons hwritten _ ih => rw [List.flatten_cons, hwritten.decode_append, ih]

/-! ## Finding the closing quote -/

/-- Neither mark of a string literal is a hexadecimal digit, nor is a line break. -/
theorem ne_of_isHexDigit {c : Char} (h : isHexDigit c) :
    c ≠ '"' ∧ c ≠ '\'' ∧ c ≠ '\\' ∧ c ≠ '\n' := by
  refine ⟨?_, ?_, ?_, ?_⟩ <;>
  · rintro rfl
    revert h
    decide

namespace IsBody

variable {quote : Char} {body : List Char}

theorem append_of_isHexDigit (hquote : quote = '"' ∨ quote = '\'') {digits : List Char}
    (hdigits : ∀ c ∈ digits, isHexDigit c) (hbody : IsBody quote body) :
    IsBody quote (digits ++ body) := by
  induction digits with
  | nil => exact hbody
  | cons c digits ih =>
      obtain ⟨hdouble, hsingle, hescape, hbreak⟩ := ne_of_isHexDigit (hdigits c List.mem_cons_self)
      have hne : c ≠ quote := by rcases hquote with rfl | rfl <;> assumption
      exact .plain hne hescape hbreak (ih fun d hd => hdigits d (List.mem_cons_of_mem c hd))

theorem append_of_writes (hquote : quote = '"' ∨ quote = '\'') {c : Char} {written : List Char}
    (h : Writes quote c written) (hbody : IsBody quote body) : IsBody quote (written ++ body) := by
  cases h with
  | raw hne hescape hbreak => exact .plain hne hescape hbreak hbody
  | letter hmem =>
      have hbreak : ∀ pair ∈ letters, pair.1 ≠ '\n' := by decide
      exact .escape (hbreak _ hmem) hbody
  | byte _ hspells =>
      exact .escape (by decide) (append_of_isHexDigit hquote hspells.isHexDigit hbody)
  | unit _ hspells =>
      exact .escape (by decide) (append_of_isHexDigit hquote hspells.isHexDigit hbody)

end IsBody

theorem isBody_flatten {quote : Char} (hquote : quote = '"' ∨ quote = '\'') {text : List Char}
    {pieces : List (List Char)} (h : List.Forall₂ (Writes quote) text pieces) :
    IsBody quote pieces.flatten := by
  induction h with
  | nil => exact .nil
  | cons hwritten _ ih => exact ih.append_of_writes hquote hwritten

/-- A string literal is found at the beginning of a text, up to its closing quote. -/
theorem first?_of_isBody {quote : Char} (hquote : quote = '"' ∨ quote = '\'') {body : List Char}
    (h : IsBody quote body) (rest : List Char) :
    first? (quote :: (body ++ quote :: rest)) = some ⟨.string, body.length + 1⟩ := by
  have hne : quote ≠ '\\' := by rcases hquote with rfl | rfl <;> decide
  have hclosing := closingLength?_append hne h rest
  rcases hquote with rfl | rfl <;>
  simp [first?, patterns, nameLength, isNameStart, numberLength, hexLength, decimalLength,
    mantissaLength, blankLength, runLength, isDigit, Text.isBlank, Text.inRanges, Text.blankRanges,
    stringLength, hclosing]

/-! ## The literal as a whole -/

/-- However a text is written as a string literal, the literal is one token, and the value of
the token is the text. -/
theorem tokenize_literal {quote : Char} (hquote : quote = '"' ∨ quote = '\'') (text : String)
    {pieces : List (List Char)} (h : List.Forall₂ (Writes quote) text.toList pieces) :
    let literal := quote :: (pieces.flatten ++ [quote])
    let stop := Position.start.advance literal
    tokenize (String.ofList literal) =
      .ok [⟨.string, text, ⟨.start, stop⟩⟩, .endOfInput stop] := by
  have hfirst := first?_of_isBody hquote (isBody_flatten hquote h) []
  have hdecode := decode_flatten h
  generalize pieces.flatten = body at hfirst hdecode ⊢
  have htake : (body ++ [quote]).take (body.length + 1) = body ++ [quote] :=
    List.take_of_length_le (by simp)
  have hdrop : (body ++ [quote]).drop (body.length + 1) = [] :=
    List.drop_of_length_le (by simp)
  simp [tokenize, scan, hfirst, htake, hdrop, token?, hdecode]

/-- A text written in every way at once: a tab by itself, an escape by code with a further
digit after it, and an escaped quote. -/
def mixedText : String := "\té4'A"

/-- What is written for each of its characters. -/
def mixedPieces : List (List Char) :=
  [['\t'], ['\\', 'x', 'e', '9'], ['4'], ['\\', '\''], ['\\', 'u', '0', '0', '4', '1']]

theorem writes_mixedText : List.Forall₂ (Writes '\'') mixedText.toList mixedPieces := by
  have hzero : ('0', 0) ∈ hexDigits := by decide
  have hone : ('1', 1) ∈ hexDigits := by decide
  have hfour : ('4', 4) ∈ hexDigits := by decide
  have hnine : ('9', 9) ∈ hexDigits := by decide
  have hfourteen : ('e', 14) ∈ hexDigits := by decide
  have hbyte : SpellsHex ['e', '9'] 'é'.toNat := (SpellsHex.nil.snoc hfourteen).snoc hnine
  have hunit : SpellsHex ['0', '0', '4', '1'] 'A'.toNat :=
    (((SpellsHex.nil.snoc hzero).snoc hzero).snoc hfour).snoc hone
  refine .cons (.raw ?_ ?_ ?_) (.cons (.byte rfl hbyte) (.cons (.raw ?_ ?_ ?_)
    (.cons (.letter ?_) (.cons (.unit rfl hunit) .nil))))
  all_goals decide

theorem tokenize_literal_mixedText :
    List.Forall₂ (Writes '\'') mixedText.toList mixedPieces ∧
      tokenize (String.ofList ('\'' :: (mixedPieces.flatten ++ ['\'']))) =
        .ok [⟨.string, mixedText, ⟨⟨0, 1, 0⟩, ⟨16, 1, 16⟩⟩⟩, .endOfInput ⟨16, 1, 16⟩] :=
  ⟨writes_mixedText, tokenize_literal (.inr rfl) mixedText writes_mixedText⟩

end ScriptCheck.Lexer
