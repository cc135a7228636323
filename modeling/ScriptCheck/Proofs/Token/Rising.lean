import ScriptCheck.Proofs.Grammar.Strung
import ScriptCheck.Token.Lexer

/-!
# Tokens in the order of the text

The tokens of a text take up stretches of it that follow one another, and none of them is
empty.  A stream of some of the first tokens ends with an end mark behind them.
-/

namespace ScriptCheck

/-- Some tokens take up stretches of the text, none of them empty, that follow one another. -/
structure Rising (tokens : List Token) : Prop where
  nonempty : ∀ token ∈ tokens, token.span.start.offset < token.span.stop.offset
  pairwise : tokens.Pairwise fun token later => token.span.stop.offset ≤ later.span.start.offset

theorem Rising.take {tokens : List Token} (h : Rising tokens) (n : Nat) : Rising (tokens.take n) :=
  ⟨fun token hmem => h.nonempty token (List.mem_of_mem_take hmem),
    h.pairwise.sublist (List.take_sublist n tokens)⟩

namespace Lexer

theorem byteSize_pos (c : Char) (text : List Char) : 0 < byteSize (c :: text) := by
  have := c.utf8Size_pos
  simp only [byteSize_cons]
  omega

theorem nameKind_ne_endOfInput (text : String) : nameKind text ≠ .endOfInput := by
  unfold nameKind
  split <;> simp

/-- A lexeme gives at most one token, which takes up the lexeme and is no end mark. -/
theorem token?_eq_some {role : Role} {text : List Char} {span : Span} {token : Token}
    (h : token? role text span = some token) : token.span = span ∧ token.kind ≠ .endOfInput := by
  cases role with
  | gap => cases h
  | name =>
      cases h
      exact ⟨rfl, nameKind_ne_endOfInput _⟩
  | _ =>
      cases h
      exact ⟨rfl, by simp⟩

/-- What is scanned from a position on lies behind it, in order, and the end mark last. -/
theorem scan_eq_ok {position : Position} {text : List Char} {tokens : List Token}
    (h : scan position text = .ok tokens) :
    ∃ read stop, tokens = read ++ [Token.endOfInput stop] ∧ Rising read ∧
      ∀ token ∈ read, token.kind ≠ .endOfInput ∧ position.offset ≤ token.span.start.offset := by
  fun_induction scan position text generalizing tokens with
  | case1 position =>
      cases h
      exact ⟨[], position, rfl, ⟨by simp, .nil⟩, by simp⟩
  | case2 => cases h
  | case3 => cases h
  | case4 position c rest lexeme _ text stop later hrest =>
      rename_i ih
      cases h
      obtain ⟨read, stop', rfl, hrising, hread⟩ := ih hrest
      have hstop : position.offset < stop.offset := by
        have := byteSize_pos c (rest.take lexeme.tail)
        simp only [stop, text, Position.offset_advance]
        omega
      have hbehind : ∀ token ∈ read, position.offset ≤ token.span.start.offset :=
        fun token hmem => Nat.le_trans (Nat.le_of_lt hstop) (hread token hmem).2
      cases htoken : token? lexeme.role text ⟨position, stop⟩ with
      | none =>
          exact ⟨read, stop', rfl, hrising, fun token hmem =>
            ⟨(hread token hmem).1, hbehind token hmem⟩⟩
      | some token =>
          obtain ⟨hspan, hkind⟩ := token?_eq_some htoken
          refine ⟨token :: read, stop', rfl, ⟨fun other hmem => ?_, ?_⟩, fun other hmem => ?_⟩
          · rcases List.mem_cons.mp hmem with rfl | hmem
            · rwa [hspan]
            · exact hrising.nonempty other hmem
          · refine List.pairwise_cons.mpr ⟨fun later hmem => ?_, hrising.pairwise⟩
            rw [hspan]
            exact (hread later hmem).2
          · rcases List.mem_cons.mp hmem with rfl | hmem
            · exact ⟨hkind, Nat.le_of_eq (congrArg (·.start.offset) hspan).symm⟩
            · exact ⟨(hread other hmem).1, hbehind other hmem⟩

end Lexer

namespace TokenStream

variable {stream : TokenStream} {read : List Token} {stop : Position}

structure OfRising (stream : TokenStream) (read : List Token) (stop : Position) : Prop where
  toList_eq : stream.tokens.toList = read ++ [Token.endOfInput stop]
  rising : Rising read
  kind_ne : ∀ token ∈ read, token.kind ≠ .endOfInput

namespace OfRising

theorem size_eq (h : stream.OfRising read stop) : stream.size = read.length + 1 := by
  rw [size, ← Array.length_toList, h.toList_eq]
  simp

theorem get_of_lt (h : stream.OfRising read stop) {index : Nat} (hindex : index < read.length) :
    stream.get index = read[index] := by
  have hsize := h.size_eq
  unfold size at hsize
  rw [TokenStream.get_of_lt (by omega), ← Array.getElem_toList]
  simp [h.toList_eq, hindex]

theorem get_of_ge (h : stream.OfRising read stop) {index : Nat} (hindex : read.length ≤ index) :
    stream.get index = .endOfInput stop := by
  have hsize := h.size_eq
  unfold size at hsize
  have hmin : min index (stream.tokens.size - 1) = read.length := by omega
  simp only [get, hmin]
  rw [← Array.getElem_toList]
  simp [h.toList_eq]

theorem closed (h : stream.OfRising read stop) : stream.Closed where
  last := by
    rw [h.get_of_ge (by rw [h.size_eq]; omega)]
    rfl
  value index hkind := by
    by_cases hindex : index < read.length
    · rw [h.get_of_lt hindex] at hkind
      exact absurd hkind (h.kind_ne _ (List.getElem_mem hindex))
    · rw [h.get_of_ge (Nat.not_lt.mp hindex)]
      rfl

/-- A token before the end mark is not empty. -/
theorem start_lt_stop (h : stream.OfRising read stop) {index : Nat}
    (hindex : index + 1 < stream.size) :
    (stream.get index).span.start.offset < (stream.get index).span.stop.offset := by
  rw [h.size_eq] at hindex
  have hlt : index < read.length := by omega
  rw [h.get_of_lt hlt]
  exact h.rising.nonempty _ (List.getElem_mem hlt)

/-- Of two tokens before the end mark the first ends before the other begins. -/
theorem stop_le_start (h : stream.OfRising read stop) {index later : Nat} (hlt : index < later)
    (hlater : later + 1 < stream.size) :
    (stream.get index).span.stop.offset ≤ (stream.get later).span.start.offset := by
  rw [h.size_eq] at hlater
  have hlater : later < read.length := by omega
  rw [h.get_of_lt hlater, h.get_of_lt (Nat.lt_trans hlt hlater)]
  exact List.pairwise_iff_getElem.mp h.rising.pairwise _ _ _ _ hlt

end OfRising

/-- The stream of tokens that may lack their end mark. -/
theorem ofTokens_ofRising (hrising : Rising read) (hkind : ∀ token ∈ read, token.kind ≠ .endOfInput)
    {tokens : List Token} (h : tokens = read ∨ tokens = read ++ [Token.endOfInput stop]) :
    ∃ stop', (ofTokens tokens).OfRising read stop' := by
  rcases h with h | h <;> rw [h]
  · cases hlast : read.getLast? with
    | none =>
        have hnil : read = [] := List.getLast?_eq_none_iff.mp hlast
        subst hnil
        exact ⟨.nowhere, rfl, hrising, hkind⟩
    | some last =>
        have hne := hkind last (List.mem_of_getLast? hlast)
        refine ⟨last.span.stop, ?_, hrising, hkind⟩
        unfold ofTokens
        split
        · simp_all
        · rename_i other hother
          cases hlast.symm.trans hother
          simp [hne]
  · refine ⟨stop, ?_, hrising, hkind⟩
    unfold ofTokens
    split
    · simp_all
    · rename_i other hother
      rw [List.getLast?_concat] at hother
      cases hother
      simp [Token.endOfInput]

/-- The first tokens of a text, any number of them, make such a stream. -/
theorem ofRising_of_tokenize {source : String} {all : List Token}
    (h : Lexer.tokenize source = .ok all) (n : Nat) :
    ∃ read stop, (ofTokens (all.take n)).OfRising read stop := by
  obtain ⟨read, stop, rfl, hrising, hread⟩ := Lexer.scan_eq_ok h
  rcases Nat.lt_or_ge read.length n with hn | hn
  · have htake : (read ++ [Token.endOfInput stop]).take n = read ++ [Token.endOfInput stop] :=
      List.take_of_length_le (by simp; omega)
    rw [htake]
    exact ⟨read, ofTokens_ofRising hrising (fun token hmem => (hread token hmem).1) (.inr rfl)⟩
  · rw [List.take_append_of_le_length hn]
    have hkind : ∀ token ∈ read.take n, token.kind ≠ .endOfInput :=
      fun token hmem => (hread token (List.mem_of_mem_take hmem)).1
    exact ⟨read.take n, ofTokens_ofRising (hrising.take n) hkind
      (.inl rfl : _ ∨ _ = _ ++ [Token.endOfInput stop])⟩

end TokenStream

end ScriptCheck
