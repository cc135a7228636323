import Mathlib.Data.List.Induction
import ScriptCheck.Proofs.Token.Munch
import ScriptCheck.Proofs.Token.Rising

/-!
# A text as its tokens and what separates them

Reading the tokens of a text cuts it into words with nothing left out: each is the longest word
at its place, a token or a piece of the gap before one.  The position of a token can be told
from the text before it alone.
-/

namespace ScriptCheck

/-! ## Positions -/

/-- The position after a text, told from the text as a whole: its size in bytes, one line more
than it has line breaks, and the characters since the last of them. -/
def Position.after (before : List Char) : Position :=
  ⟨byteSize before, 1 + before.count '\n', (before.reverse.takeWhile (· ≠ '\n')).length⟩

theorem Position.after_concat (before : List Char) (c : Char) :
    Position.after (before ++ [c]) = (Position.after before).next c := by
  unfold Position.after Position.next
  by_cases hc : c = '\n'
  · subst hc
    simp [byteSize_append, Nat.add_assoc]
  · simp [byteSize_append, hc]

/-- Counting while reading gives the position told from the text as a whole. -/
theorem Position.advance_start (before : List Char) :
    Position.start.advance before = .after before := by
  induction before using List.reverseRecOn with
  | nil => rfl
  | append_singleton before c ih => rw [Position.advance_append, ih, Position.after_concat]; rfl

theorem Position.after_append (before text : List Char) :
    Position.after (before ++ text) = (Position.after before).advance text := by
  rw [← Position.advance_start, ← Position.advance_start, Position.advance_append]

namespace Lexer

/-! ## Cutting a text -/

inductive Gaps : List Char → List Char → Prop
  | nil (rest : List Char) : Gaps [] rest
  | cons {word gap rest : List Char} : Longest .gap word (gap ++ rest) → Gaps gap rest →
      Gaps (word ++ gap) rest

/-- A word after some text reads as a token. -/
structure ReadsAs (before word : List Char) (token : Token) : Prop where
  span_eq : token.span = ⟨.after before, .after (before ++ word)⟩
  kind_ne : token.kind ≠ .endOfInput
  value_eq : token.kind ≠ .string → token.value = String.ofList word
  string_eq : token.kind = .string → ∃ quote body, (quote = '"' ∨ quote = '\'') ∧
    word = quote :: (body ++ [quote]) ∧ token.value = String.ofList (Escape.decode body)

/-- Tokens cut a text, after some text and before some more: gaps before each token, each token
the longest word at its place, and gaps behind the last. -/
inductive Cut : List Char → List Char → List Token → List Char → Prop
  | nil {before gap rest : List Char} : Gaps gap rest → Cut before gap [] rest
  | cons {before gap word text rest : List Char} {role : Role} {token : Token}
      {tokens : List Token} :
      Gaps gap (word ++ (text ++ rest)) → Longest role word (text ++ rest) →
      ReadsAs (before ++ gap) word token → Cut (before ++ gap ++ word) text tokens rest →
      Cut before (gap ++ word ++ text) (token :: tokens) rest

theorem nameKind_ne_string (text : String) : nameKind text ≠ .string := by
  unfold nameKind
  split <;> simp

theorem readsAs_of_isString {before word : List Char} {quote : Char}
    (hquote : quote = '"' ∨ quote = '\'') (hword : IsString quote word) {token : Token}
    (h : token? .string word ⟨.after before, .after (before ++ word)⟩ = some token) :
    ReadsAs before word token := by
  obtain ⟨hspan, hkind⟩ := token?_eq_some h
  obtain ⟨-⟩ := hword
  rename_i body
  cases h
  exact ⟨hspan, hkind, fun h => absurd rfl h, fun _ => ⟨quote, body, hquote, rfl, by simp⟩⟩

/-- What a word gives is a token read from it, or nothing from a gap. -/
theorem readsAs_of_token? {before word : List Char} {role : Role} {token : Token}
    (hword : Lexical role word)
    (h : token? role word ⟨.after before, .after (before ++ word)⟩ = some token) :
    ReadsAs before word token := by
  obtain ⟨hspan, hkind⟩ := token?_eq_some h
  cases hword with
  | name =>
      cases h
      exact ⟨hspan, hkind, fun _ => rfl, fun h => absurd h (nameKind_ne_string _)⟩
  | number =>
      cases h
      exact ⟨hspan, hkind, fun _ => rfl, by simp⟩
  | mark =>
      cases h
      exact ⟨hspan, hkind, fun _ => by simp, by simp⟩
  | doubleQuoted hword => exact readsAs_of_isString (.inl rfl) hword h
  | singleQuoted hword => exact readsAs_of_isString (.inr rfl) hword h
  | blanks => cases h
  | lineComment => cases h
  | blockComment => cases h

theorem token?_eq_none_iff {role : Role} {word : List Char} {span : Span} :
    token? role word span = none ↔ role = .gap := by
  cases role <;> simp [token?]

theorem Cut.gap {before word text rest : List Char} {tokens : List Token}
    (hword : Longest .gap word (text ++ rest)) (h : Cut (before ++ word) text tokens rest) :
    Cut before (word ++ text) tokens rest := by
  generalize hpast : before ++ word = past at h
  cases h with
  | nil hgaps => exact .nil (.cons hword hgaps)
  | @cons _ gap next text _ role token tokens hgaps hlongest hread hcut =>
      subst hpast
      have hgaps : Gaps (word ++ gap) (next ++ (text ++ rest)) :=
        .cons (by simpa only [List.append_assoc] using hword) hgaps
      have hcut := Cut.cons hgaps hlongest (by simpa only [List.append_assoc] using hread)
        (by simpa only [List.append_assoc] using hcut)
      simpa only [List.append_assoc] using hcut

/-! ## Reading a text -/

theorem longest_of_first? {c : Char} {rest : List Char} {lexeme : Lexeme}
    (h : first? (c :: rest) = some lexeme) :
    Longest lexeme.role (c :: rest.take lexeme.tail) (rest.drop lexeme.tail) := by
  obtain ⟨word, left, htext, hlength, hlongest⟩ := exists_longest h
  have hword : c :: rest.take lexeme.tail = word := by
    have htake : (word ++ left).take word.length = word := List.take_left
    rw [← htext, hlength] at htake
    exact htake
  have hleft : rest.drop lexeme.tail = left := by
    have hdrop : (word ++ left).drop word.length = left := List.drop_left
    rw [← htext, hlength] at hdrop
    exact hdrop
  rw [hword, hleft]
  exact hlongest

theorem Cut.step {before word text rest : List Char} {role : Role} {tokens : List Token}
    (hword : Longest role word (text ++ rest)) (h : Cut (before ++ word) text tokens rest) :
    Cut before (word ++ text)
      ((token? role word ⟨.after before, .after (before ++ word)⟩).toList ++ tokens) rest := by
  cases htoken : token? role word ⟨.after before, .after (before ++ word)⟩ with
  | none =>
      cases token?_eq_none_iff.mp htoken
      exact h.gap hword
  | some token =>
      have hread := readsAs_of_token? hword.lexical htoken
      have hread' : ReadsAs (before ++ []) word token := by rwa [List.append_nil]
      exact .cons (.nil _) hword hread' (by rwa [List.append_nil])

/-- Scanning cuts what is left of a text, or cuts it up to where no word begins. -/
theorem scan_cut (before text : List Char) :
    (∃ tokens, scan (.after before) text = .ok (tokens ++ [.endOfInput (.after (before ++ text))]) ∧
      Cut before text tokens []) ∨
    ∃ past c rest tokens, text = past ++ c :: rest ∧ Cut before past tokens (c :: rest) ∧
      (∀ role word, Lexical role word → ¬ word <+: c :: rest) ∧
      scan (.after before) text =
        .error ⟨.unrecognisedToken (String.singleton c), .after (before ++ past)⟩ := by
  generalize hposition : Position.after before = position
  fun_induction scan position text generalizing before with
  | case1 position =>
      subst hposition
      exact .inl ⟨[], by simp, .nil (.nil [])⟩
  | case2 position c rest hnone =>
      subst hposition
      exact .inr ⟨[], c, rest, [], rfl, .nil (.nil _), first?_eq_none_iff.mp hnone, by simp⟩
  | case3 position c rest lexeme hlexeme word stop fault hrest ih =>
      subst hposition
      have hlongest := longest_of_first? hlexeme
      have htext : word ++ rest.drop lexeme.tail = c :: rest :=
        congrArg (c :: ·) (List.take_append_drop lexeme.tail rest)
      obtain ⟨tokens, hscan, -⟩ | ⟨past, d, left, tokens, hdrop, hcut, hnone, hscan⟩ :=
        ih (before ++ word) (Position.after_append before word)
      · rw [hrest] at hscan
        cases hscan
      · rw [hrest] at hscan
        cases hscan
        rw [hdrop] at htext hlongest
        exact .inr ⟨word ++ past, d, left, _, by rw [← htext, List.append_assoc],
          hcut.step hlongest, hnone, by rw [List.append_assoc]⟩
  | case4 position c rest lexeme hlexeme word stop later hrest ih =>
      subst hposition
      have hlongest := longest_of_first? hlexeme
      have htext : word ++ rest.drop lexeme.tail = c :: rest :=
        congrArg (c :: ·) (List.take_append_drop lexeme.tail rest)
      obtain ⟨tokens, hscan, hcut⟩ | ⟨past, d, left, tokens, -, -, -, hscan⟩ :=
        ih (before ++ word) (Position.after_append before word)
      · rw [hrest] at hscan
        cases hscan
        have hstep := hcut.step (by rwa [List.append_nil])
        rw [htext] at hstep
        refine .inl ⟨_, ?_, hstep⟩
        rw [List.append_assoc, htext, List.append_assoc, Position.after_append before word]
      · rw [hrest] at hscan
        cases hscan

theorem Cut.exists_word {before text rest : List Char} {tokens : List Token}
    (h : Cut before text tokens rest) {token : Token} (hmem : token ∈ tokens) :
    ∃ past word later, before ++ text = past ++ word ++ later ∧ ReadsAs past word token := by
  induction h with
  | nil => cases hmem
  | @cons before gap word text rest role first tokens _ _ hread _ ih =>
      rcases List.mem_cons.mp hmem with rfl | hmem
      · exact ⟨before ++ gap, word, text, by simp only [List.append_assoc], hread⟩
      · obtain ⟨past, other, later, heq, hread⟩ := ih hmem
        exact ⟨past, other, later, by rw [← heq]; simp only [List.append_assoc], hread⟩

/-- What the tokens of a text are: some that cut the whole of it and then the end mark, where
the text ends.  They are in order and none is empty, and each is read from the words of the
text that its span says. -/
structure Tokenized (text : List Char) (read tokens : List Token) : Prop where
  tokens_eq : tokens = read ++ [.endOfInput (.after text)]
  cut : Cut [] text read []
  rising : Rising read
  stop_le : ∀ token ∈ read, token.span.stop.offset ≤ byteSize text
  exists_word : ∀ token ∈ read, ∃ before word later,
    text = before ++ word ++ later ∧ ReadsAs before word token

/-- Why a text has no tokens: cut like any other up to some place, it goes on with no word of
any role, and the fault says so. -/
structure Stuck (text : List Char) (fault : Fault) (before : List Char) (c : Char)
    (rest : List Char) (read : List Token) : Prop where
  text_eq : text = before ++ c :: rest
  cut : Cut [] before read (c :: rest)
  no_word : ∀ role word, Lexical role word → ¬ word <+: c :: rest
  fault_eq : fault = ⟨.unrecognisedToken (String.singleton c), .after before⟩

/-- **Reading tokens loses nothing and invents nothing.**  Every text is either cut into tokens
and gaps from end to end, or cut so up to a place where no word begins, which the fault names. -/
theorem tokenize_partitions (source : String) :
    (∃ tokens read, tokenize source = .ok tokens ∧ Tokenized source.toList read tokens) ∨
      ∃ fault before c rest read, tokenize source = .error fault ∧
        Stuck source.toList fault before c rest read := by
  obtain ⟨read, hscan, hcut⟩ | ⟨before, c, rest, read, htext, hcut, hnone, hscan⟩ :=
    scan_cut [] source.toList
  · obtain ⟨read', stop, heq, hrising, -⟩ := scan_eq_ok hscan
    obtain ⟨rfl, -⟩ := List.append_inj' heq rfl
    refine .inl ⟨_, read, hscan, rfl, hcut, hrising, fun token hmem => ?_, fun token hmem =>
      hcut.exists_word hmem⟩
    obtain ⟨past, word, later, hwhole, hread⟩ := hcut.exists_word hmem
    rw [List.nil_append] at hwhole
    rw [hread.span_eq, hwhole, byteSize_append]
    exact Nat.le_add_right _ _
  · exact .inr ⟨_, before, c, rest, read, hscan, htext, hcut, hnone, rfl⟩

end Lexer

end ScriptCheck
