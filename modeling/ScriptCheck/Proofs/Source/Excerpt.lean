import ScriptCheck.Proofs.Source.Lines
import ScriptCheck.Proofs.Token.Partition
import ScriptCheck.Report

/-!
# The place of a token in its source

Line and column of a token lead back to the byte it starts at, and the line found for that byte
has the token's line number.  A report shows that line above a caret, whose indent is the number
of bytes, not of characters, between the spaces the line begins with and the token.
-/

namespace ScriptCheck

/-! ## Where tokens begin -/

namespace Lexer

theorem Pattern.rank_quote : rank '"' = 4 ∧ rank '\'' = 5 := by decide

/-- A word that is no gap begins with a character that is not blank. -/
theorem Lexical.isBlank_head {role : Role} {c : Char} {rest : List Char}
    (h : Lexical role (c :: rest)) (hrole : role ≠ .gap) : Text.isBlank c = false := by
  rw [Bool.eq_false_iff]
  intro hblank
  have hrank := Pattern.rank_of_isBlank hblank
  generalize hword : c :: rest = word at h
  cases h with
  | name h =>
      subst hword
      simpa [hrank] using Pattern.startsIn_names c rest h
  | number h =>
      subst hword
      simpa [hrank] using Pattern.startsIn_numbers c rest h
  | doubleQuoted h =>
      subst hword
      simpa [hrank, Pattern.rank_quote] using Pattern.startsIn_quoted (by decide) c rest h
  | singleQuoted h =>
      subst hword
      simpa [hrank, Pattern.rank_quote] using Pattern.startsIn_quoted (by decide) c rest h
  | mark punctuator =>
      simpa [hrank] using Pattern.startsIn_ofMark punctuator c rest hword
  | blanks | lineComment | blockComment => exact hrole rfl

/-- What is scanned behind some text begins at a character of the whole text that is not blank. -/
theorem exists_start_of_scan {before text : List Char} {tokens : List Token}
    (h : scan (.after before) text = .ok tokens) {token : Token} (hmem : token ∈ tokens)
    (hkind : token.kind ≠ .endOfInput) :
    ∃ past c rest, before ++ text = past ++ c :: rest ∧ token.span.start = .after past ∧
      Text.isBlank c = false := by
  -- on the scan, with the text behind which it has arrived
  generalize hposition : Position.after before = position at h
  fun_induction scan position text generalizing before tokens with
  | case1 position =>
      cases h
      cases List.mem_singleton.mp hmem
      exact absurd rfl hkind
  | case2 => cases h
  | case3 => cases h
  | case4 position c rest lexeme hlexeme word stop later =>
      rename_i hrest ih
      cases h
      subst hposition
      rcases List.mem_append.mp hmem with hmem | hmem
      · have htoken := Option.mem_toList.mp hmem
        have hrole : lexeme.role ≠ .gap := fun hgap => by
          rw [token?_eq_none_iff.mpr hgap] at htoken
          cases htoken
        exact ⟨before, c, rest, rfl, congrArg Span.start (token?_eq_some htoken).1,
          (longest_of_first? hlexeme).lexical.isBlank_head hrole⟩
      · obtain ⟨past, d, left, htext, hstart, hblank⟩ :=
          ih hmem (Position.after_append before word) hrest
        refine ⟨past, d, left, ?_, hstart, hblank⟩
        rw [← htext, List.append_assoc]
        exact congrArg (before ++ c :: ·) (List.take_append_drop lexeme.tail rest).symm

/-- Every token of a text but the end mark begins at a character that is not blank. -/
theorem exists_start_of_tokenize {source : String} {tokens : List Token}
    (h : tokenize source = .ok tokens) {token : Token} (hmem : token ∈ tokens)
    (hkind : token.kind ≠ .endOfInput) :
    ∃ before c rest, source.toList = before ++ c :: rest ∧ token.span.start = .after before ∧
      Text.isBlank c = false := by
  have hscan : scan (.after []) source.toList = .ok tokens := h
  exact exists_start_of_scan hscan hmem hkind

theorem exists_token_of_any (source : String) (p : Token → Bool)
    (h : ((tokenize source).toOption.any fun tokens => tokens.any p) = true) :
    ∃ tokens token, tokenize source = .ok tokens ∧ token ∈ tokens ∧ p token = true := by
  cases htokens : tokenize source with
  | error fault =>
      rw [htokens] at h
      cases h
  | ok tokens =>
      rw [htokens] at h
      obtain ⟨token, hmem, hp⟩ := List.any_eq_true.mp h
      exact ⟨tokens, token, rfl, hmem, hp⟩

end Lexer

namespace Source

/-! ## Lines and columns -/

/-- The position after a text, told from its lines. -/
theorem Closes.after_eq {before head : List Char} {past : List (List Char)}
    (h : Closes before past head) :
    Position.after before = ⟨byteSize before, past.length + 1, head.length⟩ := by
  have hcolumn : (before.reverse.takeWhile (· ≠ '\n')).length = head.length := by
    rw [← h.lastLine_eq, lastLine, List.length_reverse]
  rw [Position.after, h.count_eq, hcolumn, Nat.add_comm]

/-- The line found for the first byte of a character. -/
theorem Closes.lineAt?_start {before head : List Char} {past : List (List Char)}
    (h : Closes before past head) (c : Char) (rest : List Char) :
    ∃ ending, ending <+: rest ∧ lineAt? (before ++ c :: rest) (byteSize before) =
      some ⟨past.length + 1, head ++ c :: ending, byteSize head⟩ := by
  obtain ⟨ending, more, hlines, -⟩ := exists_first_line h.no_break c rest
  have hrest := append_flatten_of_lines hlines
  rw [List.append_assoc, List.append_cancel_left_eq, List.cons_append] at hrest
  refine ⟨ending, ⟨more.flatten, (List.cons.inj hrest).2⟩, ?_⟩
  rw [Nat.add_comm]
  exact lineAt?_inside h hlines c.utf8Size_pos

/-- Line and column of a character lead back to its first byte. -/
theorem offsetOf?_after (before : List Char) (c : Char) (rest : List Char) :
    offsetOf? (before ++ c :: rest) (Position.after before).line (Position.after before).column =
      some (byteSize before) := by
  obtain ⟨past, head, hcloses⟩ := exists_closes before
  obtain ⟨ending, more, hlines, -⟩ := exists_first_line hcloses.no_break c rest
  rw [hcloses.after_eq, offsetOf?, hcloses.lines_append, hlines,
    List.getElem?_append_right (Nat.le_refl _), Nat.sub_self, List.take_left]
  simp [hcloses.byteSize_eq]

/-- **Locations lead back to the source.**  Line and column of a token give the offset that it
starts at, and the line found there has the line number of the token. -/
theorem offsetOf?_start_of_tokenize {source : String} {tokens : List Token}
    (h : Lexer.tokenize source = .ok tokens) {token : Token} (hmem : token ∈ tokens)
    (hkind : token.kind ≠ .endOfInput) :
    let start := token.span.start
    offsetOf? source.toList start.line start.column = some start.offset ∧
      ∃ line, lineAt? source.toList start.offset = some line ∧ line.number = start.line := by
  obtain ⟨before, c, rest, htext, hstart, -⟩ := Lexer.exists_start_of_tokenize h hmem hkind
  obtain ⟨past, head, hcloses⟩ := exists_closes before
  obtain ⟨ending, -, hline⟩ := hcloses.lineAt?_start c rest
  rw [htext, hstart]
  refine ⟨offsetOf?_after before c rest, _, hline, ?_⟩
  rw [hcloses.after_eq]

/-- A script with a comment over two lines, an empty line and characters of two bytes. -/
def brokenScript : String := "/* é\n */ 'ü'\n\n   + b"

theorem exists_token_brokenScript :
    ∃ tokens token, Lexer.tokenize brokenScript = .ok tokens ∧ token ∈ tokens ∧
      token.kind ≠ .endOfInput ∧ token.span.start = ⟨21, 4, 5⟩ := by
  obtain ⟨tokens, token, htokens, hmem, htoken⟩ := Lexer.exists_token_of_any brokenScript
    (fun token => decide (token.kind ≠ .endOfInput ∧ token.span.start = ⟨21, 4, 5⟩))
    (by decide +kernel)
  exact ⟨tokens, token, htokens, hmem, of_decide_eq_true htoken⟩

theorem offsetOf?_start_of_tokenize_brokenScript :
    ∃ tokens token, Lexer.tokenize brokenScript = .ok tokens ∧ token ∈ tokens ∧
      token.kind ≠ .endOfInput ∧ token.span.start = ⟨21, 4, 5⟩ ∧
      offsetOf? brokenScript.toList token.span.start.line token.span.start.column =
        some token.span.start.offset ∧
      ∃ line, lineAt? brokenScript.toList token.span.start.offset = some line ∧
        line.number = token.span.start.line := by
  obtain ⟨tokens, token, htokens, hmem, hkind, hstart⟩ := exists_token_brokenScript
  exact ⟨tokens, token, htokens, hmem, hkind, hstart,
    offsetOf?_start_of_tokenize htokens hmem hkind⟩

/-! ## The caret -/

/-- The blanks that are left out at the end of a line all stand behind its last character that is
not blank. -/
theorem trimRight_append_cons {c : Char} (h : Text.isBlank c = false) (kept ending : List Char) :
    ∃ shown blanks, Text.trimRight (kept ++ c :: ending) = kept ++ c :: shown ∧
      ending = shown ++ blanks ∧ ∀ d ∈ blanks, Text.isBlank d = true := by
  refine ⟨(ending.reverse.dropWhile Text.isBlank).reverse,
    (ending.reverse.takeWhile Text.isBlank).reverse, ?_, ?_, fun d hd => ?_⟩
  · rw [Text.trimRight, List.reverse_append, List.reverse_cons, List.append_assoc,
      List.singleton_append, List.dropWhile_append]
    split
    · rename_i hnone
      rw [List.isEmpty_iff.mp hnone, List.dropWhile_cons_of_neg (by simp [h])]
      simp
    · simp
  · rw [← List.reverse_append, List.takeWhile_append_dropWhile, List.reverse_reverse]
  · exact List.mem_takeWhile_imp (List.mem_reverse.mp hd)

/-- How many characters of a line come before its first caret. -/
def caretColumn (line : String) : Nat :=
  (line.toList.takeWhile (· ≠ '^')).length

/-- What an excerpt shows of a line before a place: all but the spaces that the line begins
with. -/
def shownBefore (before : List Char) : List Char :=
  (lastLine before).dropWhile (· = ' ')

/-- All that an excerpt prints on the line of a place before the character there: the number of the
line, a bar and what it shows of the line. -/
def printedBefore (before : List Char) : String :=
  toString (Position.after before).line ++ " | " ++ String.ofList (shownBefore before)

/-- The line above what an excerpt prints for a place. -/
def ruleAbove (before : List Char) : String :=
  padLeft ((toString (Position.after before).line).length + 2) ' ' "|"

def caretBelow (before : List Char) : String :=
  ruleAbove before ++ " " ++ padLeft (byteSize (shownBefore before) + 1) '-' "^"

theorem toList_padLeft (count : Nat) (fill : Char) {mark : String} (h : mark.length = 1) :
    (padLeft (count + 1) fill mark).toList = List.replicate count fill ++ mark.toList := by
  simp [padLeft, h]

/-- The caret is as many characters too far to the right as there are bytes beyond the first of
each character shown. -/
theorem caretColumn_caretBelow (before : List Char) :
    caretColumn (caretBelow before) + (shownBefore before).length =
      (printedBefore before).length + byteSize (shownBefore before) := by
  let width := (toString (Position.after before).line).length
  let count := byteSize (shownBefore before)
  have hcaret : (caretBelow before).toList =
      (List.replicate (width + 1) ' ' ++ ['|', ' '] ++ List.replicate count '-') ++ ['^'] := by
    rw [caretBelow, ruleAbove, String.toList_append, String.toList_append, toList_padLeft _ _ rfl,
      toList_padLeft _ _ rfl]
    simp [width, count]
  have hfront : ∀ c ∈ List.replicate (width + 1) ' ' ++ ['|', ' '] ++ List.replicate count '-',
      (c ≠ '^' : Bool) = true := by
    intro c hc
    simp only [List.mem_append, List.mem_replicate, List.mem_cons, List.not_mem_nil, or_false] at hc
    rcases hc with (⟨-, rfl⟩ | rfl | rfl) | ⟨-, rfl⟩ <;> decide
  have hprinted : (printedBefore before).length = width + 3 + (shownBefore before).length := by
    have hbar : " | ".length = 3 := rfl
    rw [printedBefore, String.length_append, String.length_append, hbar, String.length_ofList]
  rw [caretColumn, hcaret, List.takeWhile_append_of_pos hfront, hprinted]
  simp [count]
  omega

/-- The spaces that a line begins with are as many bytes as characters. -/
theorem byteSize_indent (line : List Char) :
    byteSize line = (line.takeWhile (· = ' ')).length + byteSize (line.dropWhile (· = ' ')) := by
  induction line with
  | nil => rfl
  | cons c line ih =>
      by_cases hc : c = ' '
      · have hsize : c.utf8Size = 1 := by rw [hc]; rfl
        rw [byteSize_cons, hsize, ih]
        simp only [hc, decide_true, List.takeWhile_cons_of_pos, List.dropWhile_cons_of_pos,
          List.length_cons]
        omega
      · simp [hc]

theorem drop_length_takeWhile (p : Char → Bool) (text : List Char) :
    text.drop (text.takeWhile p).length = text.dropWhile p := by
  have hdrop : (text.takeWhile p ++ text.dropWhile p).drop (text.takeWhile p).length =
      text.dropWhile p := List.drop_left
  rwa [List.takeWhile_append_dropWhile] at hdrop

section

variable {p : Char → Bool} {c : Char} (h : p c = false) (before ending : List Char)
include h

theorem takeWhile_append_cons : (before ++ c :: ending).takeWhile p = before.takeWhile p := by
  induction before with
  | nil => simp [h]
  | cons d before ih => by_cases hd : p d <;> simp [hd, ih]

theorem dropWhile_append_cons :
    (before ++ c :: ending).dropWhile p = before.dropWhile p ++ c :: ending := by
  induction before with
  | nil => simp [h]
  | cons d before ih => by_cases hd : p d <;> simp [hd, ih]

end

/-- The excerpt for a character that is not blank shows the character and more of what follows. -/
theorem exists_excerpt {c : Char} (h : Text.isBlank c = false) (before rest : List Char) :
    ∃ shown, shown <+: rest ∧
      excerpt (before ++ c :: rest) (byteSize before) =
        [ruleAbove before, printedBefore before ++ String.ofList (c :: shown),
          caretBelow before] := by
  obtain ⟨past, head, hcloses⟩ := exists_closes before
  obtain ⟨ending, hending, hline⟩ := hcloses.lineAt?_start c rest
  obtain ⟨shown, blanks, hshown, rfl, -⟩ := trimRight_append_cons h (shownBefore before) ending
  have hspace : decide (c = ' ') = false := by
    rw [decide_eq_false_iff_not]
    rintro rfl
    cases h
  have hindent := takeWhile_append_cons (p := (· = ' ')) hspace head (shown ++ blanks)
  have hdrop : (head ++ c :: (shown ++ blanks)).drop (head.takeWhile (· = ' ')).length =
      shownBefore before ++ c :: (shown ++ blanks) := by
    rw [shownBefore, hcloses.lastLine_eq, ← dropWhile_append_cons hspace, ← hindent,
      drop_length_takeWhile]
  have hdashes : byteSize head - (head.takeWhile (· = ' ')).length =
      byteSize (shownBefore before) := by
    rw [byteSize_indent head, Nat.add_sub_cancel_left, shownBefore, hcloses.lastLine_eq]
  refine ⟨shown, (List.prefix_append shown blanks).trans hending, ?_⟩
  rw [excerpt, hline]
  simp only [hindent, hdrop, hshown, hdashes, hcloses.after_eq, ruleAbove, caretBelow,
    printedBefore, String.ofList_append, String.append_assoc]

theorem length_le_byteSize (text : List Char) : text.length ≤ byteSize text := by
  induction text with
  | nil => exact Nat.le_refl 0
  | cons c text ih =>
      have hpos := c.utf8Size_pos
      rw [List.length_cons, byteSize_cons]
      omega

theorem byteSize_eq_length_iff {text : List Char} :
    byteSize text = text.length ↔ ∀ c ∈ text, c.utf8Size = 1 := by
  induction text with
  | nil => simp
  | cons c text ih =>
      have hpos := c.utf8Size_pos
      have hle := length_le_byteSize text
      rw [List.forall_mem_cons, ← ih, List.length_cons, byteSize_cons]
      omega

/-- **Where the caret stands.**  The report of a diagnostic at a token shows the line of the token
up to the token and beyond.  The caret below stands as many characters too far to the right as the
characters shown before the token have bytes beyond their first, so it is below the first character
of the token just when all of them are of one byte. -/
theorem report_caretColumn {source : String} {tokens : List Token}
    (h : Lexer.tokenize source = .ok tokens) {token : Token} (hmem : token ∈ tokens)
    (hkind : token.kind ≠ .endOfInput) {diagnostic : Diagnostic}
    (hlocation : diagnostic.location = token.span.start.location) (file : String) :
    ∃ before c rest rule shown caret,
      source.toList = before ++ c :: rest ∧ token.span.start = .after before ∧ shown <+: rest ∧
      diagnostic.report source file =
        unlines (["Error: " ++ diagnostic.message,
          "-> " ++ file ++ ":" ++ diagnostic.location.display,
          rule, printedBefore before ++ String.ofList (c :: shown), caret] ++
          diagnostic.trace.map ("    at " ++ ·)) ∧
      caretColumn caret + (shownBefore before).length =
        (printedBefore before).length + byteSize (shownBefore before) ∧
      (caretColumn caret = (printedBefore before).length ↔
        ∀ d ∈ shownBefore before, d.utf8Size = 1) := by
  obtain ⟨before, c, rest, htext, hstart, hblank⟩ := Lexer.exists_start_of_tokenize h hmem hkind
  obtain ⟨shown, hshown, hexcerpt⟩ := exists_excerpt hblank before rest
  have hcaret := caretColumn_caretBelow before
  have hline : diagnostic.location.line = (Position.after before).line := by
    rw [hlocation, hstart]
    rfl
  have hcolumn : diagnostic.location.column = (Position.after before).column := by
    rw [hlocation, hstart]
    rfl
  refine ⟨before, c, rest, ruleAbove before, shown, caretBelow before, htext, hstart, hshown, ?_,
    hcaret, ?_⟩
  · rw [Diagnostic.report, htext, hline, hcolumn, offsetOf?_after]
    simp only [hexcerpt]
    rfl
  · rw [← byteSize_eq_length_iff]
    omega

theorem report_caretColumn_brokenScript :
    let diagnostic := Diagnostic.ofProblem ⟨4, 5⟩ (.unresolvedIdentifier "b") []
    ∃ tokens token, Lexer.tokenize brokenScript = .ok tokens ∧ token ∈ tokens ∧
      token.kind ≠ .endOfInput ∧ diagnostic.location = token.span.start.location ∧
      ∃ before c rest rule shown caret,
        brokenScript.toList = before ++ c :: rest ∧ token.span.start = .after before ∧
        shown <+: rest ∧
        diagnostic.report brokenScript "b.js" =
          unlines (["Error: " ++ diagnostic.message,
            "-> " ++ "b.js" ++ ":" ++ diagnostic.location.display,
            rule, printedBefore before ++ String.ofList (c :: shown), caret] ++
            diagnostic.trace.map ("    at " ++ ·)) ∧
        caretColumn caret + (shownBefore before).length =
          (printedBefore before).length + byteSize (shownBefore before) ∧
        (caretColumn caret = (printedBefore before).length ↔
          ∀ d ∈ shownBefore before, d.utf8Size = 1) := by
  intro diagnostic
  obtain ⟨tokens, token, htokens, hmem, hkind, hstart⟩ := exists_token_brokenScript
  have hlocation : diagnostic.location = token.span.start.location := by rw [hstart]; rfl
  exact ⟨tokens, token, htokens, hmem, hkind, hlocation,
    report_caretColumn htokens hmem hkind hlocation "b.js"⟩

/-- A character of two bytes before a token puts the caret behind the first character of the
token. -/
theorem report_caretBeyondAccent :
    (∃ tokens token, Lexer.tokenize "'é' + a;" = .ok tokens ∧ token ∈ tokens ∧
      token.kind = .identifier ∧ token.span.start = ⟨7, 1, 6⟩) ∧
    (Diagnostic.ofProblem ⟨1, 6⟩ (.unresolvedIdentifier "a") []).report "'é' + a;" "a.js" =
      unlines ["Error: No such item in scope: `a`.", "-> a.js:1:6", "  |", "1 | 'é' + a;",
        "  | -------^"] ∧
    caretColumn "  | -------^" ≠ "1 | 'é' + ".length := by
  refine ⟨?_, by decide +kernel, by decide⟩
  obtain ⟨tokens, token, htokens, hmem, htoken⟩ := Lexer.exists_token_of_any "'é' + a;"
    (fun token => decide (token.kind = .identifier ∧ token.span.start = ⟨7, 1, 6⟩))
    (by decide +kernel)
  exact ⟨tokens, token, htokens, hmem, of_decide_eq_true htoken⟩

end Source

end ScriptCheck
