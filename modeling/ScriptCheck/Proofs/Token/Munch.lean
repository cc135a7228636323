import ScriptCheck.Proofs.Token.Lexical

/-!
# The longest lexeme

Of the patterns the first that matches is taken.  They stand in such an order that it finds the
longest prefix of the text that is a word of any of them; so where a text is cut does not depend
on the order, and where no pattern matches no prefix is a word.
-/

namespace ScriptCheck.Lexer

open Escape (isDigit isHexDigit)

/-! ## The patterns together -/

structure Pattern where
  role : Role
  words : List Char → Prop
  measure : List Char → Nat
  measures : Measures words measure

namespace Pattern

def ofMark (mark : Punctuator) : Pattern :=
  ⟨.mark mark, (· = mark.text.toList), literalLength mark.text.toList,
    measures_literal (by cases mark <;> simp [Punctuator.text])⟩

def names : Pattern := ⟨.name, IsName, nameLength, measures_name⟩

def numbers : Pattern := ⟨.number, IsNumber, numberLength, measures_number⟩

def blanks : Pattern := ⟨.gap, IsRun Text.isBlank, blankLength, measures_run Text.isBlank⟩

def quoted (quote : Char) (h : quote ≠ '\\') : Pattern :=
  ⟨.string, IsString quote, stringLength quote, measures_string h⟩

def lineComments : Pattern := ⟨.gap, IsLineComment, lineCommentLength, measures_lineComment⟩

def blockComments : Pattern := ⟨.gap, IsBlockComment, blockCommentLength, measures_blockComment⟩

def spelled : List Pattern :=
  [names, numbers, blanks, quoted '"' (by decide), quoted '\'' (by decide), lineComments,
   blockComments]

/-- Every pattern, in the order in which they are tried. -/
def all : List Pattern := spelled ++ Punctuator.all.map ofMark

theorem patterns_eq : patterns = all.map fun pattern => (pattern.role, pattern.measure) := by
  simp only [patterns, all, spelled, List.map_append, List.map_map]
  rfl

theorem exists_mem_all_iff {role : Role} {word : List Char} :
    (∃ pattern ∈ all, pattern.role = role ∧ pattern.words word) ↔ Lexical role word := by
  constructor
  · rintro ⟨pattern, hmem, rfl, hword⟩
    rcases List.mem_append.mp hmem with hmem | hmem
    · simp only [spelled, List.mem_cons, List.not_mem_nil, or_false] at hmem
      rcases hmem with rfl | rfl | rfl | rfl | rfl | rfl | rfl
      · exact .name hword
      · exact .number hword
      · exact .blanks hword
      · exact .doubleQuoted hword
      · exact .singleQuoted hword
      · exact .lineComment hword
      · exact .blockComment hword
    · obtain ⟨mark, -, rfl⟩ := List.mem_map.mp hmem
      cases hword
      exact .mark mark
  · intro h
    cases h with
    | mark mark =>
        exact ⟨ofMark mark, List.mem_append_right _ (List.mem_map_of_mem mark.mem_all), rfl, rfl⟩
    | name h => exact ⟨_, List.mem_append_left _ (List.mem_of_getElem? (i := 0) rfl), rfl, h⟩
    | number h => exact ⟨_, List.mem_append_left _ (List.mem_of_getElem? (i := 1) rfl), rfl, h⟩
    | blanks h => exact ⟨_, List.mem_append_left _ (List.mem_of_getElem? (i := 2) rfl), rfl, h⟩
    | doubleQuoted h =>
        exact ⟨_, List.mem_append_left _ (List.mem_of_getElem? (i := 3) rfl), rfl, h⟩
    | singleQuoted h =>
        exact ⟨_, List.mem_append_left _ (List.mem_of_getElem? (i := 4) rfl), rfl, h⟩
    | lineComment h =>
        exact ⟨_, List.mem_append_left _ (List.mem_of_getElem? (i := 5) rfl), rfl, h⟩
    | blockComment h =>
        exact ⟨_, List.mem_append_left _ (List.mem_of_getElem? (i := 6) rfl), rfl, h⟩

/-! ## How the patterns meet -/

/-- A number for the sort of word that a character may begin. -/
def rank (c : Char) : Nat :=
  if isNameStart c then 0
  else if isDigit c then 1
  else if c = '.' then 2
  else if Text.isBlank c then 3
  else if c = '"' then 4
  else if c = '\'' then 5
  else if c = '/' then 6
  else 7

/-- The words of a pattern begin with characters of some ranks. -/
def StartsIn (pattern : Pattern) (ranks : List Nat) : Prop :=
  ∀ c rest, pattern.words (c :: rest) → rank c ∈ ranks

theorem not_isNameStart_of_isDigit {c : Char} (h : isDigit c) : isNameStart c = false := by
  simp [isNameStart, isDigit, Char.le_def, UInt32.le_iff_toNat_le] at *
  refine ⟨⟨⟨?_, ?_⟩, ?_⟩, ?_⟩
  · omega
  · omega
  · rintro rfl; simp at h
  · rintro rfl; simp at h

theorem not_isNameStart_of_isBlank {c : Char} (h : Text.isBlank c) : isNameStart c = false := by
  simp [isNameStart, Text.isBlank, Text.inRanges, Text.blankRanges, Char.le_def,
    UInt32.le_iff_toNat_le] at *
  refine ⟨⟨⟨?_, ?_⟩, ?_⟩, ?_⟩
  · omega
  · omega
  · rintro rfl; simp at h
  · rintro rfl; simp at h

theorem not_isDigit_of_isBlank {c : Char} (h : Text.isBlank c) : isDigit c = false := by
  simp [isDigit, Text.isBlank, Text.inRanges, Text.blankRanges, Char.le_def,
    UInt32.le_iff_toNat_le] at *
  omega

theorem startsIn_names : names.StartsIn [0] := by
  rintro c rest ⟨hfirst, -⟩
  simp [rank, hfirst]

theorem rank_of_isDigit {c : Char} (h : isDigit c) : rank c = 1 := by
  simp [rank, h, not_isNameStart_of_isDigit h]

theorem rank_of_isBlank {c : Char} (h : Text.isBlank c) : rank c = 3 := by
  have hpoint : c ≠ '.' := by
    rintro rfl
    simp [Text.isBlank, Text.inRanges, Text.blankRanges] at h
  simp [rank, h, not_isNameStart_of_isBlank h, not_isDigit_of_isBlank h, hpoint]

theorem startsIn_numbers : numbers.StartsIn [1, 2] := by
  have hmantissa : ∀ c rest, IsMantissa (c :: rest) → rank c ∈ [1, 2] := by
    intro c rest h
    generalize hword : c :: rest = word at h
    cases h with
    | whole h =>
        subst hword
        simp [rank_of_isDigit (h.2 c List.mem_cons_self)]
    | @pointed whole fraction h =>
        cases whole with
        | nil => exact absurd rfl h.1
        | cons d whole =>
            cases hword
            simp [rank_of_isDigit (h.2 c List.mem_cons_self)]
    | fraction =>
        cases hword
        decide
  rintro c rest (h | h)
  · cases h
    decide
  · generalize hword : c :: rest = word at h
    cases h with
    | plain h =>
        subst hword
        exact hmantissa c rest h
    | @scaled mantissa exponent h =>
        cases mantissa with
        | nil => exact absurd rfl h.ne_nil
        | cons d mantissa =>
            cases hword
            exact hmantissa c mantissa h

theorem startsIn_blanks : blanks.StartsIn [3] := fun c rest h => by
  simp [rank_of_isBlank (h.2 c List.mem_cons_self)]

theorem startsIn_quoted {quote : Char} (h : quote ≠ '\\') :
    (quoted quote h).StartsIn [rank quote] := by
  rintro c rest ⟨-⟩
  simp

theorem startsIn_lineComments : lineComments.StartsIn [6] := by
  rintro c rest ⟨-⟩
  decide

theorem startsIn_blockComments : blockComments.StartsIn [6] := by
  rintro c rest ⟨-⟩
  decide

/-- Whatever two patterns find at one place, the first finds no less than the second. -/
def Over (first second : Pattern) : Prop :=
  ∀ text word other, first.words word → second.words other → word <+: text → other <+: text →
    other.length ≤ word.length

theorem exists_mark_eq (mark : Punctuator) : ∃ c rest, mark.text.toList = c :: rest ∧
    rank c ∈ [2, 6, 7] ∧ (rank c = 2 → rest.length = 0) ∧ (rank c = 6 → rest.length ≤ 1) := by
  cases mark <;> exact ⟨_, _, rfl, by decide, by decide, by decide⟩

variable {first second : Pattern}

/-- Words that begin with characters of different ranks are never found at one place. -/
theorem over_of_startsIn {m n : List Nat} (hfirst : first.StartsIn m) (hsecond : second.StartsIn n)
    (hdisjoint : ∀ k ∈ m, k ∉ n) : first.Over second := by
  rintro text word other hword hother ⟨rest, rfl⟩ ⟨rest', heq⟩
  cases word with
  | nil => exact absurd rfl (first.measures.nonempty _ hword)
  | cons c word =>
      cases other with
      | nil => exact absurd rfl (second.measures.nonempty _ hother)
      | cons d other =>
          cases (List.cons.inj heq).1
          exact absurd (hsecond _ _ hother) (hdisjoint _ (hfirst _ _ hword))

theorem startsIn_ofMark (mark : Punctuator) : (ofMark mark).StartsIn [2, 6, 7] := by
  rintro c rest hword
  obtain ⟨d, other, htext, hrank, -⟩ := exists_mark_eq mark
  cases hword.trans htext
  exact hrank

/-- A punctuator that begins like a number is a point, one that begins like a comment is no
longer than the opening mark. -/
theorem over_ofMark {m : List Nat} {least : Nat} (hfirst : first.StartsIn m)
    (hlength : ∀ word, first.words word → least ≤ word.length)
    (hranks : (least = 1 ∧ ∀ k ∈ m, k ∉ [6, 7]) ∨ (least = 2 ∧ ∀ k ∈ m, k ∉ [2, 7]))
    (mark : Punctuator) : first.Over (ofMark mark) := by
  rintro text word other hword hother ⟨rest, rfl⟩ ⟨rest', heq⟩
  obtain ⟨d, tail, htext, hrank, hpoint, hslash⟩ := exists_mark_eq mark
  cases hother.trans htext
  have hleast := hlength word hword
  cases word with
  | nil => exact absurd rfl (first.measures.nonempty _ hword)
  | cons c word =>
      cases (List.cons.inj heq).1
      have hmem := hfirst _ _ hword
      simp only [List.mem_cons, List.not_mem_nil, or_false] at hrank hranks
      rw [show (d :: tail).length = tail.length + 1 from List.length_cons]
      rcases hranks with ⟨rfl, hranks⟩ | ⟨rfl, hranks⟩
      · have := hpoint (by have := hranks _ hmem; omega)
        omega
      · have := hslash (by have := hranks _ hmem; omega)
        omega

theorem lineComments_over_blockComments : lineComments.Over blockComments := by
  rintro text _ _ ⟨-⟩ ⟨-⟩ ⟨rest, rfl⟩ ⟨rest', heq⟩
  simp at heq

theorem ofMark_over {mark later : Punctuator}
    (h : mark.text.toList.isPrefixOf later.text.toList = false) :
    (ofMark mark).Over (ofMark later) := by
  rintro text word other hword hother hprefix hother'
  cases hword
  cases hother
  by_contra hlonger
  have := List.isPrefixOf_iff_prefix.mpr
    (List.prefix_of_prefix_length_le hprefix hother' (by omega))
  simp [h] at this

/-- A punctuator that begins another is tried after it. -/
theorem pairwise_marks : Punctuator.all.Pairwise fun mark later =>
    mark.text.toList.isPrefixOf later.text.toList = false := by
  decide

theorem pairwise_spelled : spelled.Pairwise Over := by
  have hdouble := startsIn_quoted (show '"' ≠ '\\' by decide)
  have hsingle := startsIn_quoted (show '\'' ≠ '\\' by decide)
  simp only [spelled, List.pairwise_cons, List.forall_mem_cons]
  refine ⟨⟨?_, ?_, ?_, ?_, ?_, ?_, by simp⟩, ⟨?_, ?_, ?_, ?_, ?_, by simp⟩,
    ⟨?_, ?_, ?_, ?_, by simp⟩, ⟨?_, ?_, ?_, by simp⟩, ⟨?_, ?_, by simp⟩,
    ⟨lineComments_over_blockComments, by simp⟩, by simp⟩
  · exact over_of_startsIn startsIn_names startsIn_numbers (by decide)
  · exact over_of_startsIn startsIn_names startsIn_blanks (by decide)
  · exact over_of_startsIn startsIn_names hdouble (by decide)
  · exact over_of_startsIn startsIn_names hsingle (by decide)
  · exact over_of_startsIn startsIn_names startsIn_lineComments (by decide)
  · exact over_of_startsIn startsIn_names startsIn_blockComments (by decide)
  · exact over_of_startsIn startsIn_numbers startsIn_blanks (by decide)
  · exact over_of_startsIn startsIn_numbers hdouble (by decide)
  · exact over_of_startsIn startsIn_numbers hsingle (by decide)
  · exact over_of_startsIn startsIn_numbers startsIn_lineComments (by decide)
  · exact over_of_startsIn startsIn_numbers startsIn_blockComments (by decide)
  · exact over_of_startsIn startsIn_blanks hdouble (by decide)
  · exact over_of_startsIn startsIn_blanks hsingle (by decide)
  · exact over_of_startsIn startsIn_blanks startsIn_lineComments (by decide)
  · exact over_of_startsIn startsIn_blanks startsIn_blockComments (by decide)
  · exact over_of_startsIn hdouble hsingle (by decide)
  · exact over_of_startsIn hdouble startsIn_lineComments (by decide)
  · exact over_of_startsIn hdouble startsIn_blockComments (by decide)
  · exact over_of_startsIn hsingle startsIn_lineComments (by decide)
  · exact over_of_startsIn hsingle startsIn_blockComments (by decide)

theorem pairwise_all : all.Pairwise Over := by
  refine List.pairwise_append.mpr ⟨pairwise_spelled,
    List.pairwise_map.mpr (pairwise_marks.imp ofMark_over), fun pattern hmem later hlater => ?_⟩
  obtain ⟨mark, -, rfl⟩ := List.mem_map.mp hlater
  have hmark := startsIn_ofMark mark
  simp only [spelled, List.mem_cons, List.not_mem_nil, or_false] at hmem
  rcases hmem with rfl | rfl | rfl | rfl | rfl | rfl | rfl
  · exact over_of_startsIn startsIn_names hmark (by decide)
  · exact over_ofMark startsIn_numbers
      (fun word hword => List.length_pos_iff.mpr (numbers.measures.nonempty _ hword))
      (.inl ⟨rfl, by decide⟩) mark
  · exact over_of_startsIn startsIn_blanks hmark (by decide)
  · exact over_of_startsIn (startsIn_quoted _) hmark (by decide)
  · exact over_of_startsIn (startsIn_quoted _) hmark (by decide)
  · refine over_ofMark startsIn_lineComments ?_ (.inr ⟨rfl, by decide⟩) mark
    rintro _ ⟨-⟩
    simp
  · refine over_ofMark startsIn_blockComments ?_ (.inr ⟨rfl, by decide⟩) mark
    rintro _ ⟨-⟩
    simp

theorem exists_of_findSome? {patterns : List Pattern} (h : patterns.Pairwise Over)
    {text : List Char} {lexeme : Lexeme}
    (hfound : (patterns.findSome? fun pattern => match pattern.measure text with
      | 0 => none
      | tail + 1 => some (⟨pattern.role, tail⟩ : Lexeme)) = some lexeme) :
    ∃ pattern ∈ patterns, ∃ word rest, text = word ++ rest ∧ pattern.role = lexeme.role ∧
      pattern.words word ∧ word.length = lexeme.length ∧
      ∀ pattern ∈ patterns, ∀ other, pattern.words other → other <+: text →
        other.length ≤ word.length := by
  induction patterns with
  | nil => cases hfound
  | cons pattern patterns ih =>
      obtain ⟨hover, hrest⟩ := List.pairwise_cons.mp h
      rw [List.findSome?_cons] at hfound
      cases hmeasure : pattern.measure text with
      | zero =>
          rw [hmeasure] at hfound
          obtain ⟨found, hmem, word, rest, rfl, hrole, hword, hlength, hlongest⟩ := ih hrest hfound
          refine ⟨found, List.mem_cons_of_mem _ hmem, word, rest, rfl, hrole, hword, hlength, ?_⟩
          rintro later hmem' other hother ⟨tail, htext⟩
          rcases List.mem_cons.mp hmem' with rfl | hmem'
          · have := later.measures.longest other tail hother
            rw [htext, hmeasure] at this
            omega
          · exact hlongest later hmem' other hother ⟨tail, htext⟩
      | succ tail =>
          rw [hmeasure] at hfound
          cases hfound
          obtain ⟨word, rest, rfl, hword, hlength⟩ :=
            pattern.measures.exists_word text (by omega)
          refine ⟨pattern, List.mem_cons_self, word, rest, rfl, rfl, hword,
            hlength.trans hmeasure, ?_⟩
          rintro later hmem other hother ⟨tail', htext⟩
          rcases List.mem_cons.mp hmem with rfl | hmem
          · have := later.measures.longest other tail' hother
            rw [htext] at this
            omega
          · exact hover later hmem _ word other hword hother ⟨rest, rfl⟩ ⟨tail', htext⟩

end Pattern

/-! ## The lexeme at the beginning of a text -/

structure Longest (role : Role) (word rest : List Char) : Prop where
  lexical : Lexical role word
  longest : ∀ role other, Lexical role other → other <+: word ++ rest → other.length ≤ word.length

theorem Lexical.ne_nil {role : Role} {word : List Char} (h : Lexical role word) : word ≠ [] := by
  obtain ⟨pattern, -, -, hword⟩ := Pattern.exists_mem_all_iff.mpr h
  exact pattern.measures.nonempty word hword

theorem first?_eq_findSome? (text : List Char) :
    first? text = Pattern.all.findSome? fun pattern => match pattern.measure text with
      | 0 => none
      | tail + 1 => some ⟨pattern.role, tail⟩ := by
  unfold first?
  rw [Pattern.patterns_eq, List.findSome?_map]
  rfl

/-- What is found at the beginning of a text is the longest word there. -/
theorem exists_longest {text : List Char} {lexeme : Lexeme} (h : first? text = some lexeme) :
    ∃ word rest, text = word ++ rest ∧ word.length = lexeme.length ∧
      Longest lexeme.role word rest := by
  rw [first?_eq_findSome?] at h
  obtain ⟨pattern, hmem, word, rest, rfl, hrole, hword, hlength, hlongest⟩ :=
    Pattern.exists_of_findSome? Pattern.pairwise_all h
  refine ⟨word, rest, rfl, hlength, ?_, fun role other hother hprefix => ?_⟩
  · exact Pattern.exists_mem_all_iff.mp ⟨pattern, hmem, hrole, hword⟩
  · obtain ⟨pattern, hmem, -, hother⟩ := Pattern.exists_mem_all_iff.mpr hother
    exact hlongest pattern hmem other hother hprefix

/-- Nothing is found just where no prefix of the text is a word. -/
theorem first?_eq_none_iff {text : List Char} :
    first? text = none ↔ ∀ role word, Lexical role word → ¬ word <+: text := by
  constructor
  · rintro h role word hword ⟨rest, rfl⟩
    obtain ⟨pattern, hmem, -, hother⟩ := Pattern.exists_mem_all_iff.mpr hword
    rw [first?_eq_findSome?, List.findSome?_eq_none_iff] at h
    have hzero := h pattern hmem
    have hlength := pattern.measures.longest word rest hother
    have hpos := List.length_pos_iff.mpr hword.ne_nil
    split at hzero
    · omega
    · cases hzero
  · intro h
    cases hfound : first? text with
    | none => rfl
    | some lexeme =>
        obtain ⟨word, rest, rfl, -, hlongest⟩ := exists_longest hfound
        exact absurd (List.prefix_append word rest) (h _ word hlongest.lexical)

end ScriptCheck.Lexer
