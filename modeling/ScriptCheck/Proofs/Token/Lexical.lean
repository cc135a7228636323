import Mathlib.Data.List.TakeWhile
import ScriptCheck.Token.Lexer

/-!
# The words of a script

What a lexeme may look like, said without a word about how it is found: names, number and
string literals, blanks, comments and punctuators as sets of words.  Each pattern measures the
longest prefix of a text that is in its set.
-/

namespace ScriptCheck.Lexer

open Escape (isDigit isHexDigit)

/-! ## Words -/

/-- One character or more, all of one sort. -/
def IsRun (p : Char → Bool) (word : List Char) : Prop :=
  word ≠ [] ∧ ∀ c ∈ word, p c

inductive IsName : List Char → Prop
  | mk {c : Char} {rest : List Char} (first : isNameStart c) (later : ∀ d ∈ rest, isNamePart d) :
      IsName (c :: rest)

inductive IsMantissa : List Char → Prop
  | whole {digits : List Char} : IsRun isDigit digits → IsMantissa digits
  | pointed {whole fraction : List Char} : IsRun isDigit whole → (∀ c ∈ fraction, isDigit c) →
      IsMantissa (whole ++ '.' :: fraction)
  | fraction {digits : List Char} : IsRun isDigit digits → IsMantissa ('.' :: digits)

inductive IsExponent : List Char → Prop
  | mk {mark : Char} {sign digits : List Char} : mark = 'e' ∨ mark = 'E' →
      sign = [] ∨ sign = ['+'] ∨ sign = ['-'] → IsRun isDigit digits →
      IsExponent (mark :: (sign ++ digits))

inductive IsHex : List Char → Prop
  | mk {mark : Char} {digits : List Char} : mark = 'x' ∨ mark = 'X' → IsRun isHexDigit digits →
      IsHex ('0' :: mark :: digits)

inductive IsDecimal : List Char → Prop
  | plain {mantissa : List Char} : IsMantissa mantissa → IsDecimal mantissa
  | scaled {mantissa exponent : List Char} : IsMantissa mantissa → IsExponent exponent →
      IsDecimal (mantissa ++ exponent)

def IsNumber (word : List Char) : Prop := IsHex word ∨ IsDecimal word

/-- What may stand between the quotes of a string literal.  A backslash takes the next
character with it, but no line break. -/
inductive IsBody (quote : Char) : List Char → Prop
  | nil : IsBody quote []
  | plain {c : Char} {rest : List Char} : c ≠ quote → c ≠ '\\' → c ≠ '\n' → IsBody quote rest →
      IsBody quote (c :: rest)
  | escape {c : Char} {rest : List Char} : c ≠ '\n' → IsBody quote rest →
      IsBody quote ('\\' :: c :: rest)

inductive IsString (quote : Char) : List Char → Prop
  | mk {body : List Char} : IsBody quote body → IsString quote (quote :: (body ++ [quote]))

inductive IsLineComment : List Char → Prop
  | mk {body : List Char} : '\n' ∉ body → IsLineComment ('/' :: '/' :: body)

/-- With a closing mark after it, a text has no other before that one. -/
def ClosesOnce (body : List Char) : Prop :=
  ∀ before after, body ++ ['*', '/'] = before ++ '*' :: '/' :: after → after = []

inductive IsBlockComment : List Char → Prop
  | mk {body : List Char} : ClosesOnce body → IsBlockComment ('/' :: '*' :: (body ++ ['*', '/']))

inductive Lexical : Role → List Char → Prop
  | name {word : List Char} : IsName word → Lexical .name word
  | number {word : List Char} : IsNumber word → Lexical .number word
  | blanks {word : List Char} : IsRun Text.isBlank word → Lexical .gap word
  | doubleQuoted {word : List Char} : IsString '"' word → Lexical .string word
  | singleQuoted {word : List Char} : IsString '\'' word → Lexical .string word
  | lineComment {word : List Char} : IsLineComment word → Lexical .gap word
  | blockComment {word : List Char} : IsBlockComment word → Lexical .gap word
  | mark (punctuator : Punctuator) : Lexical (.mark punctuator) punctuator.text.toList

/-! ## Measuring -/

structure Measures (words : List Char → Prop) (pattern : List Char → Nat) : Prop where
  nonempty : ∀ word, words word → word ≠ []
  exists_word : ∀ text, pattern text ≠ 0 →
    ∃ word rest, text = word ++ rest ∧ words word ∧ word.length = pattern text
  longest : ∀ word rest, words word → word.length ≤ pattern (word ++ rest)

section Runs

variable {p : Char → Bool}

theorem runLength_append {word : List Char} (h : ∀ c ∈ word, p c) (rest : List Char) :
    runLength p (word ++ rest) = word.length + runLength p rest := by
  unfold runLength
  rw [List.takeWhile_append_of_pos h, List.length_append]

theorem runLength_append_of_head {word rest : List Char} (h : ∀ c ∈ word, p c)
    (hrest : ∀ c ∈ rest.head?, p c = false) : runLength p (word ++ rest) = word.length := by
  rw [runLength_append h]
  cases rest with
  | nil => rfl
  | cons c rest => simp [runLength, hrest c rfl]

/-- A text is a run of a sort of characters and what follows it. -/
theorem exists_run (p : Char → Bool) (text : List Char) :
    ∃ run rest, text = run ++ rest ∧ (∀ c ∈ run, p c) ∧ (∀ c ∈ rest.head?, p c = false) ∧
      run.length = runLength p text := by
  refine ⟨text.takeWhile p, text.dropWhile p, List.takeWhile_append_dropWhile.symm,
    fun c hc => List.mem_takeWhile_imp hc, fun c hc => ?_, rfl⟩
  cases hdrop : text.dropWhile p with
  | nil => simp [hdrop] at hc
  | cons d rest =>
      have := List.head?_dropWhile_not p text
      simp_all

end Runs

/-! ## Names and blanks -/

theorem measures_name : Measures IsName nameLength where
  nonempty := by
    rintro _ ⟨⟩
    simp
  exists_word text h := by
    cases text with
    | nil => exact absurd rfl h
    | cons c text =>
        have hfirst : isNameStart c := by
          by_contra hfirst
          exact h (if_neg hfirst)
        obtain ⟨run, rest, rfl, hrun, -, hlength⟩ := exists_run isNamePart text
        refine ⟨c :: run, rest, rfl, ⟨hfirst, hrun⟩, ?_⟩
        rw [nameLength, if_pos hfirst, List.length_cons, hlength]
  longest := by
    rintro _ rest ⟨hfirst, hlater⟩
    rw [List.cons_append, nameLength, if_pos hfirst, runLength_append hlater]
    simp

theorem measures_run (p : Char → Bool) : Measures (IsRun p) (runLength p) where
  nonempty := fun _ h => h.1
  exists_word text h := by
    obtain ⟨run, rest, rfl, hrun, -, hlength⟩ := exists_run p text
    refine ⟨run, rest, rfl, ⟨?_, hrun⟩, hlength⟩
    rintro rfl
    exact h hlength.symm
  longest := by
    rintro word rest ⟨-, h⟩
    rw [runLength_append h]
    omega

/-! ## Numbers -/

theorem measures_hex : Measures IsHex hexLength where
  nonempty := by
    rintro _ ⟨⟩
    simp
  exists_word text h := by
    unfold hexLength at h ⊢
    split at h
    · rename_i mark text
      obtain ⟨run, rest, rfl, hrun, -, hlength⟩ := exists_run isHexDigit text
      rw [← hlength] at h
      have hmark : (mark = 'x' ∨ mark = 'X') ∧ run ≠ [] := by simpa using h
      refine ⟨'0' :: mark :: run, rest, rfl, ⟨hmark.1, hmark.2, hrun⟩, ?_⟩
      simp [← hlength, hmark]
    · exact absurd rfl h
  longest := by
    rintro _ rest ⟨hmark, hdigits⟩
    have hlength := runLength_append hdigits.2 rest
    have hne : List.length _ ≠ 0 := fun h => hdigits.1 (List.eq_nil_of_length_eq_zero h)
    simp only [List.cons_append, hexLength]
    rw [if_pos (by simp [hmark]; omega)]
    simp
    omega

theorem mantissaLength_whole {whole rest : List Char} (hwhole : ∀ c ∈ whole, isDigit c)
    (hdigit : ∀ c ∈ rest.head?, isDigit c = false) (hpoint : ∀ c ∈ rest.head?, c ≠ '.') :
    mantissaLength (whole ++ rest) = whole.length := by
  unfold mantissaLength
  rw [runLength_append_of_head hwhole hdigit]
  dsimp only
  rw [List.drop_left]
  split
  · exact absurd rfl (hpoint '.' rfl)
  · rfl

theorem mantissaLength_pointed {whole fraction : List Char} (hwhole : ∀ c ∈ whole, isDigit c)
    (hfraction : ∀ c ∈ fraction, isDigit c) (rest : List Char) :
    mantissaLength (whole ++ '.' :: (fraction ++ rest)) =
      let digits := fraction.length + runLength isDigit rest
      if whole = [] ∧ digits = 0 then 0 else whole.length + 1 + digits := by
  unfold mantissaLength
  rw [runLength_append_of_head hwhole (by simp [isDigit])]
  dsimp only
  rw [List.drop_left]
  simp only [runLength_append hfraction]
  simp

theorem exists_mantissa {text : List Char} (h : mantissaLength text ≠ 0) :
    ∃ word rest, text = word ++ rest ∧ IsMantissa word ∧ word.length = mantissaLength text := by
  obtain ⟨whole, rest, rfl, hwhole, hdigit, -⟩ := exists_run isDigit text
  by_cases hpoint : ∀ c ∈ rest.head?, c ≠ '.'
  · have hlength := mantissaLength_whole hwhole hdigit hpoint
    refine ⟨whole, rest, rfl, .whole ⟨?_, hwhole⟩, hlength.symm⟩
    rintro rfl
    exact h hlength
  · obtain ⟨text, rfl⟩ : ∃ text, rest = '.' :: text := by
      cases rest with
      | nil => simp at hpoint
      | cons c text => exact ⟨text, by simpa using hpoint⟩
    obtain ⟨fraction, rest, rfl, hfraction, hend, -⟩ := exists_run isDigit text
    have hlength := mantissaLength_pointed hwhole hfraction rest
    have hrun : runLength isDigit rest = 0 := by
      simpa using runLength_append_of_head (List.forall_mem_nil _) hend
    simp only [hrun, Nat.add_zero] at hlength
    rw [hlength] at h ⊢
    refine ⟨whole ++ '.' :: fraction, rest, by simp, ?_, ?_⟩
    · by_cases hnil : whole = []
      · subst hnil
        refine .fraction ⟨?_, hfraction⟩
        rintro rfl
        simp at h
      · exact .pointed ⟨hnil, hwhole⟩ hfraction
    · rw [if_neg fun hnil => h (if_pos hnil)]
      simp
      omega

theorem runLength_le_mantissaLength (text : List Char) :
    runLength isDigit text ≤ mantissaLength text := by
  unfold mantissaLength
  dsimp only
  split
  · split
    · rename_i hnone
      simp at hnone
      omega
    · omega
  · exact Nat.le_refl _

theorem length_le_mantissaLength {word : List Char} (h : IsMantissa word) (rest : List Char) :
    word.length ≤ mantissaLength (word ++ rest) := by
  cases h with
  | whole h =>
      have hrun := runLength_append h.2 rest
      have := runLength_le_mantissaLength (word ++ rest)
      omega
  | pointed hwhole hfraction =>
      rw [List.append_assoc, List.cons_append, mantissaLength_pointed hwhole.2 hfraction]
      simp [hwhole.1]
      omega
  | @fraction digits h =>
      have hlength := mantissaLength_pointed (List.forall_mem_nil _) h.2 rest
      have hne := List.length_pos_iff.mpr h.1
      rw [List.nil_append] at hlength
      rw [List.cons_append, hlength, if_neg (by omega)]
      simp
      omega

/-- A mantissa is all that is measured where neither a digit nor a point follows. -/
theorem mantissaLength_of_head {word : List Char} (h : IsMantissa word) {rest : List Char}
    (hdigit : ∀ c ∈ rest.head?, isDigit c = false) (hpoint : ∀ c ∈ rest.head?, c ≠ '.') :
    mantissaLength (word ++ rest) = word.length := by
  have hrun : runLength isDigit rest = 0 := by
    simpa using runLength_append_of_head (List.forall_mem_nil _) hdigit
  cases h with
  | whole h => exact mantissaLength_whole h.2 hdigit hpoint
  | pointed hwhole hfraction =>
      rw [List.append_assoc, List.cons_append, mantissaLength_pointed hwhole.2 hfraction, hrun]
      simp [hwhole.1]
      omega
  | @fraction digits h =>
      have hlength := mantissaLength_pointed (List.forall_mem_nil _) h.2 rest
      have hne := List.length_pos_iff.mpr h.1
      rw [List.nil_append, hrun] at hlength
      rw [List.cons_append, hlength, if_neg (by omega)]
      simp
      omega

theorem exponentLength_signed {mark : Char} {sign text : List Char}
    (hsign : (sign = [] ∧ ∀ c ∈ text.head?, c ≠ '+' ∧ c ≠ '-') ∨ sign = ['+'] ∨ sign = ['-']) :
    exponentLength (mark :: (sign ++ text)) =
      if (mark = 'e' ∨ mark = 'E') ∧ runLength isDigit text ≠ 0 then
        1 + sign.length + runLength isDigit text
      else 0 := by
  rcases hsign with ⟨rfl, hhead⟩ | rfl | rfl
  · cases text with
    | nil => simp [exponentLength, runLength]
    | cons c text =>
        obtain ⟨hplus, hminus⟩ := hhead c rfl
        simp [exponentLength, hplus, hminus]
  · simp [exponentLength]
  · simp [exponentLength]

/-- A text begins with a sign or with none. -/
theorem exists_sign (text : List Char) :
    ∃ sign rest, text = sign ++ rest ∧
      ((sign = [] ∧ ∀ c ∈ rest.head?, c ≠ '+' ∧ c ≠ '-') ∨ sign = ['+'] ∨ sign = ['-']) := by
  by_cases hhead : ∀ c ∈ text.head?, c ≠ '+' ∧ c ≠ '-'
  · exact ⟨[], text, rfl, .inl ⟨rfl, hhead⟩⟩
  · cases text with
    | nil => simp at hhead
    | cons c text =>
        have hc : c = '+' ∨ c = '-' := by
          by_contra hc
          simp_all
        rcases hc with rfl | rfl
        · exact ⟨['+'], text, rfl, by simp⟩
        · exact ⟨['-'], text, rfl, by simp⟩

theorem measures_exponent : Measures IsExponent exponentLength where
  nonempty := by
    rintro _ ⟨⟩
    simp
  exists_word text h := by
    cases text with
    | nil => exact absurd rfl h
    | cons mark text =>
        obtain ⟨sign, text, rfl, hsign⟩ := exists_sign text
        rw [exponentLength_signed hsign] at h ⊢
        obtain ⟨digits, rest, rfl, hdigits, -, hrun⟩ := exists_run isDigit text
        rw [← hrun] at h ⊢
        have hmark : (mark = 'e' ∨ mark = 'E') ∧ digits.length ≠ 0 := by
          by_contra hnone
          exact h (if_neg hnone)
        have hword : IsExponent (mark :: (sign ++ digits)) :=
          .mk hmark.1 (hsign.imp_left And.left)
            ⟨fun hnil => hmark.2 (List.length_eq_zero_iff.mpr hnil), hdigits⟩
        refine ⟨_, rest, by simp, hword, ?_⟩
        rw [if_pos hmark]
        simp
        omega
  longest := by
    rintro _ rest ⟨hmark, hsign, hdigits⟩
    rename_i mark sign digits
    have hrun := runLength_append hdigits.2 rest
    have hne := List.length_pos_iff.mpr hdigits.1
    have hhead : ∀ c ∈ (digits ++ rest).head?, c ≠ '+' ∧ c ≠ '-' := by
      intro c hc
      have hmem : c ∈ digits := by
        cases digits with
        | nil => exact absurd rfl hdigits.1
        | cons d digits =>
            cases hc
            exact List.mem_cons_self
      have hdigit := hdigits.2 c hmem
      constructor <;> rintro rfl <;> simp [isDigit] at hdigit
    rw [List.cons_append, List.append_assoc,
      exponentLength_signed (hsign.imp_left fun hnil => ⟨hnil, hhead⟩),
      if_pos ⟨hmark, by omega⟩]
    simp
    omega

theorem decimalLength_eq {mantissa rest : List Char} (hne : mantissa ≠ [])
    (hlength : mantissaLength (mantissa ++ rest) = mantissa.length) :
    decimalLength (mantissa ++ rest) = mantissa.length + exponentLength rest := by
  unfold decimalLength
  rw [hlength]
  simp [hne]

theorem IsMantissa.ne_nil {word : List Char} (h : IsMantissa word) : word ≠ [] := by
  cases h with
  | whole h => exact h.1
  | pointed => simp
  | fraction => simp

theorem measures_decimal : Measures IsDecimal decimalLength where
  nonempty := by
    rintro _ (h | ⟨h, -⟩)
    · exact h.ne_nil
    · simp [h.ne_nil]
  exists_word text h := by
    have hmantissa : mantissaLength text ≠ 0 := fun hzero => h (by simp [decimalLength, hzero])
    obtain ⟨mantissa, rest, rfl, hword, hlength⟩ := exists_mantissa hmantissa
    rw [decimalLength_eq hword.ne_nil hlength.symm]
    by_cases hexponent : exponentLength rest = 0
    · exact ⟨mantissa, rest, rfl, .plain hword, by omega⟩
    · obtain ⟨exponent, rest, rfl, hexp, hexpLength⟩ := measures_exponent.exists_word rest hexponent
      exact ⟨mantissa ++ exponent, rest, by simp, .scaled hword hexp, by simp; omega⟩
  longest := by
    rintro _ rest (h | ⟨h, hexponent⟩)
    · have hlength := length_le_mantissaLength h rest
      have hne := List.length_pos_iff.mpr h.ne_nil
      unfold decimalLength
      dsimp only
      rw [if_neg (by simp; omega)]
      omega
    · have hlonger := measures_exponent.longest _ rest hexponent
      rename_i mantissa exponent
      have hhead : ∀ c ∈ (exponent ++ rest).head?, isDigit c = false ∧ c ≠ '.' := by
        obtain ⟨hmark, -, -⟩ := hexponent
        rintro c ⟨⟩
        rcases hmark with rfl | rfl <;> decide
      rw [List.append_assoc, decimalLength_eq h.ne_nil
        (mantissaLength_of_head h (fun c hc => (hhead c hc).1) fun c hc => (hhead c hc).2)]
      simp
      omega

/-- Where a hexadecimal literal stands, only its first digit would be read as a decimal one. -/
theorem decimalLength_le_hexLength {text : List Char} (h : hexLength text ≠ 0) :
    decimalLength text ≤ hexLength text := by
  obtain ⟨_, rest, rfl, ⟨hmark, -⟩, -⟩ := measures_hex.exists_word text h
  rename_i mark digits
  have hhead : ∀ c ∈ (mark :: (digits ++ rest)).head?, isDigit c = false ∧ c ≠ '.' := by
    rintro c ⟨⟩
    rcases hmark with rfl | rfl <;> decide
  have hzero : IsMantissa ['0'] := .whole ⟨by simp, by simp [isDigit]⟩
  have hlength : mantissaLength (['0'] ++ mark :: (digits ++ rest)) = 1 :=
    mantissaLength_of_head hzero (fun c hc => (hhead c hc).1) fun c hc => (hhead c hc).2
  have hdecimal := decimalLength_eq hzero.ne_nil hlength
  have hexponent : exponentLength (mark :: (digits ++ rest)) = 0 := by
    rcases hmark with rfl | rfl <;> simp [exponentLength]
  have hone : decimalLength (('0' :: mark :: digits) ++ rest) = 1 := by
    rw [hexponent] at hdecimal
    exact hdecimal
  omega

theorem measures_number : Measures IsNumber numberLength where
  nonempty := by
    rintro word (h | h)
    · exact measures_hex.nonempty word h
    · exact measures_decimal.nonempty word h
  exists_word text h := by
    by_cases hhex : hexLength text = 0
    · have hnumber : numberLength text = decimalLength text := by simp [numberLength, hhex]
      rw [hnumber] at h ⊢
      obtain ⟨word, rest, htext, hword, hlength⟩ := measures_decimal.exists_word text h
      exact ⟨word, rest, htext, .inr hword, hlength⟩
    · have hnumber : numberLength text = hexLength text := by simp [numberLength, hhex]
      rw [hnumber]
      obtain ⟨word, rest, htext, hword, hlength⟩ := measures_hex.exists_word text hhex
      exact ⟨word, rest, htext, .inl hword, hlength⟩
  longest := by
    rintro word rest (h | h)
    · have hlength := measures_hex.longest word rest h
      have hne := List.length_pos_iff.mpr (measures_hex.nonempty word h)
      rw [numberLength, if_pos (by simp; omega)]
      exact hlength
    · have hlength := measures_decimal.longest word rest h
      unfold numberLength
      split
      · rename_i hhex
        exact Nat.le_trans hlength (decimalLength_le_hexLength (by simpa using hhex))
      · exact hlength

/-! ## Strings -/

theorem closingLength?_append {quote : Char} (hquote : quote ≠ '\\') {body : List Char}
    (h : IsBody quote body) (rest : List Char) :
    closingLength? quote (body ++ quote :: rest) = some (body.length + 1) := by
  induction h with
  | nil => simp [closingLength?, hquote]
  | plain hne hescape hbreak _ ih => simp [closingLength?, hne, hescape, hbreak, ih]
  | escape hbreak _ ih => simp [closingLength?, hbreak, ih]

theorem exists_body {quote : Char} {text : List Char} {length : Nat}
    (h : closingLength? quote text = some length) :
    ∃ body rest, text = body ++ quote :: rest ∧ IsBody quote body ∧ length = body.length + 1 := by
  fun_induction closingLength? quote text generalizing length with
  | case1 => cases h
  | case2 => cases h
  | case3 => cases h
  | case4 c text hbreak ih =>
      obtain ⟨inner, hinner, rfl⟩ := Option.map_eq_some_iff.mp h
      obtain ⟨body, rest, rfl, hbody, rfl⟩ := ih hinner
      exact ⟨'\\' :: c :: body, rest, rfl, .escape hbreak hbody, rfl⟩
  | case5 text =>
      cases h
      exact ⟨[], text, rfl, .nil, rfl⟩
  | case6 => cases h
  | case7 c text hlast hescape hquote hbreak ih =>
      obtain ⟨inner, hinner, rfl⟩ := Option.map_eq_some_iff.mp h
      obtain ⟨body, rest, rfl, hbody, rfl⟩ := ih hinner
      refine ⟨c :: body, rest, rfl, .plain hquote ?_ hbreak hbody, rfl⟩
      rintro rfl
      cases hrest : body ++ quote :: rest with
      | nil => exact hlast rfl hrest
      | cons d rest => exact hescape d rest rfl hrest

theorem measures_string {quote : Char} (hquote : quote ≠ '\\') :
    Measures (IsString quote) (stringLength quote) where
  nonempty := by
    rintro _ ⟨⟩
    simp
  exists_word text h := by
    cases text with
    | nil => exact absurd rfl h
    | cons c text =>
        have hc : c = quote := by
          by_contra hc
          exact h (if_neg hc)
        subst hc
        rw [stringLength, if_pos rfl] at h ⊢
        cases hclosing : closingLength? c text with
        | none => simp [hclosing] at h
        | some length =>
            obtain ⟨body, rest, rfl, hbody, rfl⟩ := exists_body hclosing
            exact ⟨c :: (body ++ [c]), rest, by simp, ⟨hbody⟩, by simp⟩
  longest := by
    rintro _ rest ⟨hbody⟩
    have hclosing := closingLength?_append hquote hbody rest
    simp [stringLength, hclosing]

/-! ## Comments -/

theorem measures_lineComment : Measures IsLineComment lineCommentLength where
  nonempty := by
    rintro _ ⟨⟩
    simp
  exists_word text h := by
    unfold lineCommentLength at h ⊢
    split at h
    · rename_i text
      obtain ⟨run, rest, rfl, hrun, -, hlength⟩ := exists_run (· ≠ '\n') text
      refine ⟨'/' :: '/' :: run, rest, rfl, ⟨fun hmem => ?_⟩, by simp [hlength]⟩
      simpa using hrun _ hmem
    · exact absurd rfl h
  longest := by
    rintro _ rest ⟨hbody⟩
    have hrun : ∀ c ∈ _, (decide (c ≠ '\n') : Bool) = true := fun c hc =>
      decide_eq_true fun heq => hbody (heq ▸ hc)
    simp only [List.cons_append, lineCommentLength, runLength_append hrun, List.length_cons]
    omega

theorem commentClosing?_append {body : List Char} (hfirst : ClosesOnce body) (rest : List Char) :
    commentClosing? (body ++ '*' :: '/' :: rest) = some (body.length + 2) := by
  induction body with
  | nil => rfl
  | cons c body ih =>
      have hearly : ∀ tail, c = '*' → body ++ '*' :: '/' :: rest = '/' :: tail → False := by
        rintro tail rfl heq
        cases body with
        | nil => cases heq
        | cons d body =>
            cases heq
            have := hfirst [] (body ++ ['*', '/']) rfl
            simp at this
      rw [List.cons_append, commentClosing?.eq_3 _ _ hearly,
        ih fun before after heq => hfirst (c :: before) after (congrArg (c :: ·) heq)]
      rfl

theorem exists_comment {text : List Char} {length : Nat} (h : commentClosing? text = some length) :
    ∃ body rest, text = body ++ '*' :: '/' :: rest ∧ ClosesOnce body ∧
      length = body.length + 2 := by
  fun_induction commentClosing? text generalizing length with
  | case1 => cases h
  | case2 text =>
      cases h
      refine ⟨[], text, rfl, fun before after heq => ?_, rfl⟩
      have hlength := congrArg List.length heq
      simp only [List.nil_append, List.length_append, List.length_cons, List.length_nil] at hlength
      exact List.eq_nil_of_length_eq_zero (by omega)
  | case3 c text hearly ih =>
      obtain ⟨inner, hinner, rfl⟩ := Option.map_eq_some_iff.mp h
      obtain ⟨body, rest, rfl, hfirst, rfl⟩ := ih hinner
      refine ⟨c :: body, rest, rfl, fun before after heq => ?_, rfl⟩
      cases before with
      | nil =>
          obtain ⟨hstar, heq⟩ := List.cons.inj heq
          cases body with
          | nil => cases heq
          | cons d body =>
              cases (List.cons.inj heq).1
              exact (hearly _ hstar rfl).elim
      | cons d before => exact hfirst before after (List.cons.inj heq).2

theorem measures_blockComment : Measures IsBlockComment blockCommentLength where
  nonempty := by
    rintro _ ⟨⟩
    simp
  exists_word text h := by
    unfold blockCommentLength at h ⊢
    split at h
    · rename_i text
      cases hclosing : commentClosing? text with
      | none => simp [hclosing] at h
      | some length =>
          obtain ⟨body, rest, rfl, hfirst, rfl⟩ := exists_comment hclosing
          exact ⟨'/' :: '*' :: (body ++ ['*', '/']), rest, by simp, ⟨hfirst⟩, by simp⟩
    · exact absurd rfl h
  longest := by
    rintro _ rest ⟨hfirst⟩
    have hclosing := commentClosing?_append hfirst rest
    simp [blockCommentLength, hclosing]

/-! ## Fixed texts -/

theorem measures_literal {word : List Char} (hword : word ≠ []) :
    Measures (· = word) (literalLength word) where
  nonempty := by
    rintro _ rfl
    exact hword
  exists_word text h := by
    unfold literalLength at h ⊢
    split at h
    · rename_i hprefix
      obtain ⟨rest, rfl⟩ := List.isPrefixOf_iff_prefix.mp hprefix
      exact ⟨word, rest, rfl, rfl, by rw [if_pos hprefix]⟩
    · exact absurd rfl h
  longest := by
    rintro _ rest rfl
    rw [literalLength, if_pos (List.isPrefixOf_iff_prefix.mpr (List.prefix_append _ rest))]

end ScriptCheck.Lexer
