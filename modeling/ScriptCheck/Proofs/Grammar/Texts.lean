import ScriptCheck.Proofs.Grammar.Progress
import ScriptCheck.Token.Lexer

/-!
# The texts of strings

What a string says has no part in how a script is read: the nodes are the same, at the same
places, and only the texts differ that literals, keys of properties and names of members take over
from strings.  The one place where a text is looked at is right behind a point, where a string may
name a member if it spells a reserved word.
-/

namespace ScriptCheck

open Parse

/-! ## Lists that differ in texts -/

/-- A token without the text of a string. -/
def Token.blank (token : Token) : Token :=
  if token.kind = .string then { token with value := "" } else token

/-- For each token but the first, whether it is a string that spells a reserved word right behind
a point. -/
def Token.wordsAfterPoints (tokens : List Token) : List Bool :=
  List.zipWith (fun point name => point.kind == .mark .dot && name.kind == .string &&
    Grammar.isReserved name.value) tokens tokens.tail

@[simp]
theorem Token.kind_blank (token : Token) : token.blank.kind = token.kind := by
  unfold blank
  split <;> rfl

@[simp]
theorem Token.span_blank (token : Token) : token.blank.span = token.span := by
  unfold blank
  split <;> rfl

theorem Token.alike_of_blank_eq {token other : Token} (h : other.blank = token.blank) :
    token.Alike other := by
  have hkind_eq : other.kind = token.kind := by simpa using congrArg Token.kind h
  refine ⟨hkind_eq, by simpa using congrArg Token.span h, fun hplain => ?_⟩
  simpa [blank, hplain, hkind_eq] using congrArg Token.value h

theorem Token.getElem?_wordsAfterPoints {tokens : List Token} {index : Nat}
    (hlt : index + 1 < tokens.length) :
    (wordsAfterPoints tokens)[index]? = some (tokens[index].kind == .mark .dot &&
      tokens[index + 1].kind == .string && Grammar.isReserved tokens[index + 1].value) := by
  simp [wordsAfterPoints, List.getElem?_zipWith, hlt, Nat.lt_of_succ_lt hlt]

namespace TokenStream

theorem lackedEnd_eq {last other : Option Token}
    (h : other.map Token.blank = last.map Token.blank) : lackedEnd other = lackedEnd last := by
  cases last <;> cases other
  case some.some token other =>
    have halike := Token.alike_of_blank_eq (Option.some.inj h)
    simp only [lackedEnd, halike.kind_eq, halike.span_eq]
  all_goals simp_all

theorem get_ofTokens {tokens : List Token} {index : Nat} (hlt : index < tokens.length) :
    (ofTokens tokens).get index = tokens[index] := by
  have hwhole := toList_ofTokens tokens
  have hle : index ≤ (ofTokens tokens).size - 1 := by
    have := congrArg List.length hwhole
    simp only [Array.length_toList, List.length_append] at this
    simp only [size]
    omega
  have hfound := getElem?_toList (ofTokens tokens) index
  rw [Nat.min_eq_left hle, hwhole, List.getElem?_append_left hlt,
    List.getElem?_eq_getElem hlt] at hfound
  exact (Option.some.inj hfound).symm

/-- Behind the list there is only the end of the input. -/
theorem kind_get_of_le {tokens : List Token} {index : Nat} (hle : tokens.length ≤ index) :
    ((ofTokens tokens).get index).kind = .endOfInput := by
  have hfew : (ofTokens tokens).size ≤ tokens.length + 1 := by
    have hwhole := congrArg List.length (toList_ofTokens tokens)
    have hone : (lackedEnd tokens.getLast?).toList.length ≤ 1 := by
      cases lackedEnd tokens.getLast? <;> simp
    simp only [Array.length_toList, List.length_append] at hwhole
    simp only [size]
    omega
  have hlast : min index ((ofTokens tokens).size - 1) =
      min ((ofTokens tokens).size - 1) ((ofTokens tokens).size - 1) := by omega
  have hfound := getElem?_toList (ofTokens tokens) index
  rw [hlast, getElem?_toList] at hfound
  rw [← Option.some.inj hfound, kind_last_ofTokens]

section

variable {tokens others : List Token} (hblanks : others.map Token.blank = tokens.map Token.blank)

include hblanks

theorem blanks_ofTokens :
    (ofTokens others).tokens.toList.map Token.blank =
      (ofTokens tokens).tokens.toList.map Token.blank := by
  have hlasts : others.getLast?.map Token.blank = tokens.getLast?.map Token.blank := by
    rw [← List.getLast?_map, ← List.getLast?_map, hblanks]
  rw [toList_ofTokens, toList_ofTokens, List.map_append, List.map_append, hblanks,
    lackedEnd_eq hlasts]

theorem size_ofTokens : (ofTokens others).size = (ofTokens tokens).size := by
  simpa [size] using congrArg List.length (blanks_ofTokens hblanks)

theorem alike_get (index : Nat) :
    ((ofTokens tokens).get index).Alike ((ofTokens others).get index) := by
  have hfound := congrArg (·[min index ((ofTokens tokens).size - 1)]?) (blanks_ofTokens hblanks)
  simp only [List.getElem?_map, getElem?_toList] at hfound
  rw [← size_ofTokens hblanks, getElem?_toList] at hfound
  exact Token.alike_of_blank_eq (Option.some.inj hfound)

/-- A string behind a point spells a reserved word in both lists or in neither. -/
theorem isReserved_eq_of_words
    (hwords : Token.wordsAfterPoints others = Token.wordsAfterPoints tokens) {index : Nat}
    (hpoint : ((ofTokens tokens).get index).kind = .mark .dot) :
    Grammar.isReserved ((ofTokens others).get (index + 1)).value =
      Grammar.isReserved ((ofTokens tokens).get (index + 1)).value := by
  have halike := alike_get hblanks
  by_cases hstring : ((ofTokens tokens).get (index + 1)).kind = .string
  · have hlt : index + 1 < tokens.length := by
      refine Nat.lt_of_not_le fun hle => ?_
      rw [kind_get_of_le hle] at hstring
      cases hstring
    have hlt' : index + 1 < others.length := by
      have := congrArg List.length hblanks
      simp only [List.length_map] at this
      omega
    have hpoint' := (halike index).kind_eq.trans hpoint
    have hstring' := (halike (index + 1)).kind_eq.trans hstring
    have hword := congrArg (·[index]?) hwords
    simp only [Token.getElem?_wordsAfterPoints hlt, Token.getElem?_wordsAfterPoints hlt'] at hword
    rw [get_ofTokens hlt] at hstring ⊢
    rw [get_ofTokens hlt'] at hstring' ⊢
    rw [get_ofTokens (Nat.lt_of_succ_lt hlt)] at hpoint
    rw [get_ofTokens (Nat.lt_of_succ_lt hlt')] at hpoint'
    simpa [hpoint, hpoint', hstring, hstring'] using hword
  · rw [(halike (index + 1)).eq_of_plain hstring]

theorem alike_ofTokens (hwords : Token.wordsAfterPoints others = Token.wordsAfterPoints tokens) :
    (ofTokens tokens).Alike (ofTokens others) where
  size_eq := size_ofTokens hblanks
  token := alike_get hblanks
  isReserved_eq _ := isReserved_eq_of_words hblanks hwords
  kind_last := kind_last_ofTokens tokens

end

end TokenStream

/-! ## The same tree up to texts -/

/-- Two trees have one root, and their nodes are alike, one by one. -/
structure Tree.Alike (first second : TokenStream) (tree other : Tree) : Prop where
  root_eq : other.root = tree.root
  file_eq : other.file = tree.file
  nodes : ArenasAlike first second tree.nodes other.nodes

namespace Tree

/-- Two lists of tokens that differ in the texts of strings only, and in which the same strings
right behind a point spell reserved words, are both read into a tree or both refused.  The trees
are the same but for the texts that nodes take over from strings, and so are the faults. -/
theorem ofTokens_blind_to_texts {tokens others : List Token}
    (hblanks : others.map Token.blank = tokens.map Token.blank)
    (hwords : Token.wordsAfterPoints others = Token.wordsAfterPoints tokens) (file : String) :
    (∃ tree other, ofTokens tokens file = .ok tree ∧ ofTokens others file = .ok other ∧
        tree.Alike (.ofTokens tokens) (.ofTokens others) other) ∨
      ∃ fault other, ofTokens tokens file = .error (.fault fault) ∧
        ofTokens others file = .error (.fault other) ∧
        fault.Alike (.ofTokens tokens) (.ofTokens others) other := by
  have h := TokenStream.alike_ofTokens hblanks hwords
  have hpairs : Grammar.Pairs (.ofTokens tokens) (.ofTokens others)
      (.upTo (2 * (TokenStream.ofTokens tokens).size + 2))
      (.upTo (2 * (TokenStream.ofTokens others).size + 2)) 0 0 :=
    Grammar.pairs_upTo h (by omega) (by have := h.size_eq; omega)
  have hruns : Outcome (.ofTokens tokens) (.ofTokens others) _
      (Grammar.program (.upTo (2 * (TokenStream.ofTokens tokens).size + 2)) (.ofTokens tokens) {})
      (Grammar.program (.upTo (2 * (TokenStream.ofTokens others).size + 2))
        (.ofTokens others) {}) :=
    Grammar.paired_program h hpairs #[] #[] (.refl _)
  rw [ofTokens_eq, ofTokens_eq]
  generalize Grammar.program _ (.ofTokens tokens) {} = run at hruns ⊢
  generalize Grammar.program _ (.ofTokens others) {} = run' at hruns ⊢
  cases hruns with
  | ok hinside harenas hsame => exact .inl ⟨_, _, rfl, rfl, hsame.1, rfl, harenas⟩
  | fault halike => exact .inr ⟨_, _, rfl, rfl, halike⟩

theorem exists_tokens_of_any (source source' : String) (p : List Token → List Token → Bool)
    (h : ((Lexer.tokenize source).toOption.any fun tokens =>
      (Lexer.tokenize source').toOption.any (p tokens)) = true) :
    ∃ tokens others, Lexer.tokenize source = .ok tokens ∧ Lexer.tokenize source' = .ok others ∧
      p tokens others = true := by
  cases htokens : Lexer.tokenize source with
  | error fault => simp [htokens, Except.toOption] at h
  | ok tokens =>
      cases hothers : Lexer.tokenize source' with
      | error fault => simp [hothers, Except.toOption] at h
      | ok others =>
          exact ⟨tokens, others, rfl, rfl, by simpa [htokens, hothers, Except.toOption] using h⟩

/-- Two scripts with other strings in the place of literals, of keys and of a member's name. -/
def quotedNames : String := "var o = \x7b'k': 1\x7d; o.'for' = 'yes' + o['k'];"

def otherNames : String := "var o = \x7b'l': 1\x7d; o.'new' = 'no!' + o['m'];"

theorem ofTokens_blind_to_texts_quotedNames :
    ∃ tokens others tree other, Lexer.tokenize quotedNames = .ok tokens ∧
      Lexer.tokenize otherNames = .ok others ∧ ofTokens tokens "" = .ok tree ∧
      ofTokens others "" = .ok other ∧ tree.Alike (.ofTokens tokens) (.ofTokens others) other := by
  obtain ⟨tokens, others, htokens, hothers, hdiffer⟩ := exists_tokens_of_any quotedNames otherNames
    (fun tokens others =>
      decide (others.map Token.blank = tokens.map Token.blank) &&
        decide (Token.wordsAfterPoints others = Token.wordsAfterPoints tokens) &&
        (ofTokens tokens "").toOption.isSome) (by decide +kernel)
  simp only [Bool.and_eq_true, decide_eq_true_eq] at hdiffer
  obtain ⟨⟨hblanks, hwords⟩, hread⟩ := hdiffer
  obtain ⟨tree, other, halike⟩ | ⟨fault, -, hrefused, -⟩ :=
    ofTokens_blind_to_texts hblanks hwords ""
  · exact ⟨tokens, others, tree, other, htokens, hothers, halike⟩
  · simp [hrefused, Except.toOption] at hread

/-- Right behind a point the text of a string decides: a reserved word is taken for the name of a
member, which any other text is not. -/
theorem word_after_point_decides :
    ∃ tokens others, Lexer.tokenize "a.'if';" = .ok tokens ∧
      Lexer.tokenize "a.'of';" = .ok others ∧
      others.map Token.blank = tokens.map Token.blank ∧
      (∃ tree, ofTokens tokens "" = .ok tree) ∧ ¬ ∃ tree, ofTokens others "" = .ok tree := by
  obtain ⟨tokens, others, htokens, hothers, hdiffer⟩ := exists_tokens_of_any "a.'if';" "a.'of';"
    (fun tokens others =>
      decide (others.map Token.blank = tokens.map Token.blank) &&
        (ofTokens tokens "").toOption.isSome && (ofTokens others "").toOption.isNone)
    (by decide +kernel)
  simp only [Bool.and_eq_true, decide_eq_true_eq] at hdiffer
  obtain ⟨⟨hblanks, hread⟩, hrefused⟩ := hdiffer
  refine ⟨tokens, others, htokens, hothers, hblanks, ?_, ?_⟩
  · cases hrun : ofTokens tokens "" with
    | error halt => simp [hrun, Except.toOption] at hread
    | ok tree => exact ⟨tree, rfl⟩
  · rintro ⟨tree, hrun⟩
    simp [hrun, Except.toOption] at hrefused

end Tree

end ScriptCheck
