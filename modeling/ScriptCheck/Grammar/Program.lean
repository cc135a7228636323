import ScriptCheck.Grammar.Statement

/-!
# Programs

The grammar ties expressions and statements to one another up to a depth of
nesting.  A nested statement begins later than the one around it, and an
expression no earlier than the statement that it belongs to; so a depth of twice
the number of tokens is more than any stream can reach.
-/

namespace ScriptCheck.Grammar

open Parse

def upTo : Nat → Grammar
  | 0 =>
      { expression := fun _ => throw .depthExceeded
        statement := throw .depthExceeded }
  | depth + 1 =>
      { expression := fun power stream state => expressionAt (upTo depth) power stream state
        statement := fun stream state => statementAt (upTo depth) stream state }

def program (g : Grammar) : Parse NodeId := do
  let start ← position
  let body ← loop (fun body => do
    if ← isAt .endOfInput then return .inr body.reverse
    else return .inl ((← g.statement) :: body)) []
  push (.program body) start

end ScriptCheck.Grammar

namespace ScriptCheck

/-- The tree of a list of tokens, which may lack the end mark. -/
def Tree.ofTokens (tokens : List Token) (file : String) : Except Halt Tree := do
  let stream := TokenStream.ofTokens tokens
  let grammar := Grammar.upTo (2 * stream.size + 2)
  let (root, state) ← (Grammar.program grammar).run stream |>.run {}
  return ⟨state.nodes, root, file⟩

/-- A tree that is read is the arena of a run of the grammar, and its root the result. -/
theorem Tree.ofTokens_eq_ok {tokens : List Token} {file : String} {tree : Tree}
    (h : Tree.ofTokens tokens file = .ok tree) :
    ∃ root state, Grammar.program (Grammar.upTo (2 * (TokenStream.ofTokens tokens).size + 2))
        (TokenStream.ofTokens tokens) {} = .ok (root, state) ∧
      tree = ⟨state.nodes, root, file⟩ := by
  simp only [Tree.ofTokens] at h
  change Except.bind (Grammar.program _ _ _) _ = _ at h
  cases hrun : Grammar.program (Grammar.upTo (2 * (TokenStream.ofTokens tokens).size + 2))
      (TokenStream.ofTokens tokens) {} with
  | error halt => simp [hrun, Except.bind] at h
  | ok pair =>
      rw [hrun] at h
      cases h
      exact ⟨pair.1, pair.2, rfl, rfl⟩

end ScriptCheck
