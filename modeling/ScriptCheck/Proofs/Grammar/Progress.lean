import ScriptCheck.Proofs.Grammar.Paired

/-!
# Reading to an end

The depth of the grammar and the rounds of its loops are bounds that no list of tokens reaches.
Each expression and each statement takes a token at least, and the cursor stays on the tokens; so
a reading that is not stopped by a fault gets through its tokens, and the bounds play no part in
what it gives.
-/

namespace ScriptCheck

open Parse

/-! ## The stream of a list of tokens -/

namespace TokenStream

def lackedEnd : Option Token → Option Token
  | none => some (.endOfInput .nowhere)
  | some last => if last.kind = .endOfInput then none else some (.endOfInput last.span.stop)

theorem toList_ofTokens (tokens : List Token) :
    (ofTokens tokens).tokens.toList = tokens ++ (lackedEnd tokens.getLast?).toList := by
  unfold ofTokens
  split
  case h_1 hfound => simp [List.getLast?_eq_none_iff.mp hfound, lackedEnd]
  case h_2 last hfound =>
    simp only [hfound, lackedEnd]
    split <;> simp

theorem getElem?_toList (stream : TokenStream) (index : Nat) :
    stream.tokens.toList[min index (stream.size - 1)]? = some (stream.get index) := by
  have hinside : min index (stream.size - 1) < stream.tokens.size :=
    Nat.lt_of_le_of_lt (Nat.min_le_right _ _) (Nat.sub_lt stream.size_pos Nat.one_pos)
  rw [Array.getElem?_toList]
  exact Array.getElem?_eq_getElem hinside

theorem kind_last_ofTokens (tokens : List Token) :
    ((ofTokens tokens).get ((ofTokens tokens).size - 1)).kind = .endOfInput := by
  have hlast : (ofTokens tokens).tokens.toList.getLast? =
      some ((ofTokens tokens).get ((ofTokens tokens).size - 1)) := by
    simpa [List.getLast?_eq_getElem?, size] using
      getElem?_toList (ofTokens tokens) ((ofTokens tokens).size - 1)
  rw [toList_ofTokens] at hlast
  generalize (ofTokens tokens).get ((ofTokens tokens).size - 1) = token at hlast ⊢
  cases hfound : tokens.getLast? with
  | none =>
      obtain rfl := List.getLast?_eq_none_iff.mp hfound
      cases hlast
      rfl
  | some before =>
      rw [hfound, lackedEnd] at hlast
      split at hlast
      case isTrue hends =>
        cases (by simpa [hfound] using hlast : before = token)
        exact hends
      case isFalse =>
        cases (by simpa using hlast : Token.endOfInput before.span.stop = token)
        rfl

end TokenStream

/-! ## One stream read twice -/

theorem TokenStream.alike_self (tokens : List Token) :
    (ofTokens tokens).Alike (ofTokens tokens) where
  size_eq := rfl
  token _ := ⟨rfl, rfl, fun _ => rfl⟩
  isReserved_eq _ _ := rfl
  kind_last := kind_last_ofTokens tokens

section

variable {stream : TokenStream}

theorem Fault.Alike.eq_of_same {fault other : Fault}
    (h : Fault.Alike stream stream fault other) : other = fault := by
  obtain ⟨hposition, hcause⟩ := h
  cases fault
  cases other
  cases hcause <;> simp_all

theorem ArenasAlike.eq_of_same {nodes others : Array Node}
    (h : ArenasAlike stream stream nodes others) : others = nodes := by
  refine Array.ext h.size_eq fun id hinside hinside' => ?_
  have halike := h.node id
  rw [Array.getD_eq_getD_getElem?, Array.getD_eq_getD_getElem?, Array.getElem?_eq_getElem hinside,
    Array.getElem?_eq_getElem hinside', Option.getD_some, Option.getD_some] at halike
  obtain ⟨hspan, hkind⟩ := halike
  generalize nodes[id] = node, others[id] = other at hspan hkind ⊢
  cases node
  cases other
  cases hkind <;> simp_all

end

namespace Parse

variable {α : Type} {stream : TokenStream}

/-- A run gives a result at a place of the stream that meets a condition, or it ends in a
fault. -/
def Ends (stream : TokenStream) (reached : Nat → Prop) (run : Except Halt (α × ParseState)) :
    Prop :=
  (∃ result next, run = .ok (result, next) ∧ next.cursor < stream.size ∧ reached next.cursor) ∨
    ∃ fault, run = .error (.fault fault)

/-- Parsers that do the same on one stream come to an end, and to the same one. -/
theorem Paired.ends {parser other : Parse α} {Q : α → α → Nat → Prop} {reached : Nat → Prop}
    {state : ParseState} (h : Paired stream stream state.cursor parser other Q)
    (hsame : ∀ result result' next, Q result result' next → result' = result ∧ reached next) :
    parser stream state = other stream state ∧ Ends stream reached (parser stream state) := by
  have hruns := h state.nodes state.nodes (.refl _)
  generalize parser stream ⟨_, _⟩ = run, other stream ⟨_, _⟩ = run' at hruns ⊢
  cases hruns with
  | ok hinside harenas hrelated =>
      obtain ⟨rfl, hreached⟩ := hsame _ _ _ hrelated
      obtain rfl := harenas.eq_of_same
      exact ⟨rfl, .inl ⟨_, _, rfl, hinside, hreached⟩⟩
  | fault halike =>
      obtain rfl := halike.eq_of_same
      exact ⟨rfl, .inr ⟨_, rfl⟩⟩

/-- A token is read from within the stream, and the cursor stays there. -/
theorem advance_of_lt {state : ParseState} (hinside : state.cursor < stream.size) :
    advance stream state = .ok (stream.get state.cursor,
      { state with cursor := min (state.cursor + 1) (stream.size - 1) }) := by
  change Except.ok (stream.get state.cursor, if state.cursor < stream.size - 1 then
    { state with cursor := state.cursor + 1 } else state) = _
  split
  case isTrue hmore => rw [Nat.min_eq_left hmore]
  case isFalse hlast =>
    have hstays : min (state.cursor + 1) (stream.size - 1) = state.cursor := by omega
    rw [hstays]

end Parse

/-! ## Every list of tokens -/

namespace Grammar

variable {stream : TokenStream} (h : stream.Alike stream) {depth depth' : Nat} {state : ParseState}

include h

/-- An expression ends behind the place where it begins, or in a fault, and in the same way for
every depth that is enough for the tokens from that place on. -/
theorem ends_expression (hinside : state.cursor < stream.size)
    (henough : 2 * (stream.size - state.cursor) ≤ depth)
    (henough' : 2 * (stream.size - state.cursor) ≤ depth') (power : Power) :
    (upTo depth).expression power stream state = (upTo depth').expression power stream state ∧
      Ends stream (state.cursor < ·) ((upTo depth).expression power stream state) :=
  have hpairs : Pairs stream stream (upTo depth) (upTo depth') state.cursor state.cursor :=
    pairs_upTo h (by omega) (by omega)
  (hpairs.expression (Nat.le_refl _) hinside power).ends fun _ _ _ hmoved => hmoved

theorem ends_statement (hinside : state.cursor < stream.size)
    (henough : 2 * (stream.size - state.cursor) ≤ depth)
    (henough' : 2 * (stream.size - state.cursor) ≤ depth') :
    (upTo depth).statement stream state = (upTo depth').statement stream state ∧
      Ends stream (state.cursor < ·) ((upTo depth).statement stream state) :=
  have hpairs : Pairs stream stream (upTo depth) (upTo depth') state.cursor state.cursor :=
    pairs_upTo h (by omega) (by omega)
  (hpairs.statement (Nat.le_refl _) hinside).ends fun _ _ _ hmoved => hmoved

/-- A program ends where the input does, or in a fault. -/
theorem ends_program (henough : 2 * stream.size ≤ depth) (henough' : 2 * stream.size ≤ depth') :
    program (upTo depth) stream {} = program (upTo depth') stream {} ∧
      Ends stream (fun next => (stream.get next).kind = .endOfInput)
        (program (upTo depth) stream {}) :=
  have hpairs : Pairs stream stream (upTo depth) (upTo depth') 0 0 :=
    pairs_upTo h (by omega) (by omega)
  Paired.ends (paired_program h hpairs) fun _ _ _ hsame => hsame

end Grammar

namespace Tree

theorem ofTokens_eq (tokens : List Token) (file : String) :
    ofTokens tokens file =
      (Grammar.program (.upTo (2 * (TokenStream.ofTokens tokens).size + 2))
        (TokenStream.ofTokens tokens) {}).map fun run => ⟨run.2.nodes, run.1, file⟩ := by
  change Except.bind (Grammar.program _ _ _) _ = _
  cases Grammar.program (.upTo (2 * (TokenStream.ofTokens tokens).size + 2))
    (TokenStream.ofTokens tokens) {} <;> rfl

/-- Every list of tokens is read to an end: it gives a tree or a fault, whatever depth the grammar
has from twice the number of tokens on.  Each expression and each statement that is read within it
takes a token at least and stops on a token, and no token is read past the last. -/
theorem ofTokens_reads_to_end (tokens : List Token) (file : String) :
    let stream := TokenStream.ofTokens tokens
    ((∃ tree, ofTokens tokens file = .ok tree) ∨
        ∃ fault, ofTokens tokens file = .error (.fault fault)) ∧
      (∀ depth, 2 * stream.size ≤ depth →
        Grammar.program (.upTo depth) stream {} =
            Grammar.program (.upTo (2 * stream.size)) stream {} ∧
          Ends stream (fun next => (stream.get next).kind = .endOfInput)
            (Grammar.program (.upTo depth) stream {})) ∧
      (∀ state depth, state.cursor < stream.size → 2 * (stream.size - state.cursor) ≤ depth →
        (∀ power,
          (Grammar.upTo depth).expression power stream state =
              (Grammar.upTo (2 * stream.size)).expression power stream state ∧
            Ends stream (state.cursor < ·)
              ((Grammar.upTo depth).expression power stream state)) ∧
          (Grammar.upTo depth).statement stream state =
              (Grammar.upTo (2 * stream.size)).statement stream state ∧
            Ends stream (state.cursor < ·) ((Grammar.upTo depth).statement stream state)) ∧
      ∀ state, state.cursor < stream.size →
        advance stream state = .ok (stream.get state.cursor,
          { state with cursor := min (state.cursor + 1) (stream.size - 1) }) := by
  intro stream
  have h : stream.Alike stream := TokenStream.alike_self tokens
  have hdepths : ∀ state : ParseState,
    2 * (stream.size - state.cursor) ≤ 2 * stream.size := by omega
  refine ⟨?_, fun depth henough => Grammar.ends_program h henough (Nat.le_refl _),
    fun state depth hinside henough => ⟨fun power => ?_, ?_⟩, fun state => advance_of_lt⟩
  · rw [ofTokens_eq]
    obtain ⟨-, ⟨root, next, hrun, -⟩ | ⟨fault, hrun⟩⟩ :=
      Grammar.ends_program h (by omega : _ ≤ 2 * stream.size + 2) (Nat.le_refl _)
    · exact .inl ⟨⟨next.nodes, root, file⟩, by rw [hrun]; rfl⟩
    · exact .inr ⟨fault, by rw [hrun]; rfl⟩
  · exact Grammar.ends_expression h hinside henough (hdepths state) power
  · exact Grammar.ends_statement h hinside henough (hdepths state)

def brokenOffCall : List Token :=
  [⟨.identifier, "f", .point .nowhere⟩, ⟨.mark .openParen, "(", .point .nowhere⟩,
    .endOfInput .nowhere, ⟨.identifier, "a", .point .nowhere⟩]

/-- The call ends in a fault at the end mark in its middle, and no depth from ten on changes that;
the name behind it is read from depth four on. -/
theorem ofTokens_reads_to_end_brokenOffCall :
    let stream := TokenStream.ofTokens brokenOffCall
    stream.size = 5 ∧
      ofTokens brokenOffCall "" = .error (.fault ⟨.unexpectedToken "EOF", .nowhere⟩) ∧
      Grammar.program (.upTo 40) stream {} = Grammar.program (.upTo 10) stream {} ∧
      Ends stream (3 < ·) ((Grammar.upTo 4).expression .lowest stream ⟨3, #[]⟩) := by
  obtain ⟨-, hprograms, hcalls, -⟩ := ofTokens_reads_to_end brokenOffCall ""
  exact ⟨rfl, by rfl, (hprograms 40 (by decide)).1,
    ((hcalls ⟨3, #[]⟩ 4 (by decide) (by decide)).1 .lowest).2⟩

end Tree

end ScriptCheck
