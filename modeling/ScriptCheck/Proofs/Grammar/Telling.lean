import ScriptCheck.Proofs.Grammar.Strung

/-!
# Parsers that string pieces

What a run of a parser tells of the state that it leaves, and the parsers that only put
what they read behind the pieces that are there.
-/

namespace ScriptCheck

namespace Parse

variable {α β σ : Type} {stream : TokenStream}

/-- If a state meets `P` and the parser gives a result on the stream, the state that it
leaves meets `Q`. -/
def Tells (stream : TokenStream) (P : ParseState → Prop) (parser : Parse α)
    (Q : α → ParseState → Prop) : Prop :=
  ∀ state result next, P state → parser stream state = .ok (result, next) → Q result next

namespace Tells

variable {P P' : ParseState → Prop} {Q Q' : α → ParseState → Prop} {R : β → ParseState → Prop}
  {parser : Parse α}

theorem bind {f : α → Parse β} (hparser : Tells stream P parser Q)
    (hf : ∀ a, Tells stream (Q a) (f a) R) : Tells stream P (parser >>= f) R := by
  intro state result next hP h
  obtain ⟨first, between, hfirst, hrest⟩ := bind_eq_ok h
  exact hf first between result next (hparser state first between hP hfirst) hrest

theorem pure {a : α} (h : ∀ state, P state → Q a state) : Tells stream P (Pure.pure a) Q := by
  intro state result next hP hrun
  cases hrun
  exact h _ hP

theorem consequence (h : Tells stream P parser Q) (hP : ∀ state, P' state → P state)
    (hQ : ∀ a state, Q a state → Q' a state) : Tells stream P' parser Q' :=
  fun state result next hstart hrun =>
    hQ result next (h state result next (hP state hstart) hrun)

theorem weaken (h : Tells stream P parser Q) (hP : ∀ state, P' state → P state) :
    Tells stream P' parser Q :=
  h.consequence hP fun _ _ hQ => hQ

theorem ite {c : Prop} [Decidable c] {other : Parse α} (hthen : c → Tells stream P parser Q)
    (helse : ¬ c → Tells stream P other Q) :
    Tells stream P (if c then parser else other) Q := by
  split
  · exact hthen ‹_›
  · exact helse ‹_›

/-- What a state fixes besides may be taken as given. -/
theorem given {ι : Type} {p : ι → Prop} {P : ι → ParseState → Prop}
    (h : ∀ i, p i → Tells stream (P i) parser Q) :
    Tells stream (fun state => ∃ i, p i ∧ P i state) parser Q := by
  intro state result next hstate hrun
  obtain ⟨i, hp, hP⟩ := hstate
  exact h i hp state result next hP hrun

theorem iterate {step : σ → Parse (σ ⊕ β)} {I : σ → ParseState → Prop}
    (hstep : ∀ s, Tells stream (I s) (step s) (fun outcome state =>
      match outcome with
      | .inl next => I next state
      | .inr result => R result state)) (rounds : Nat) (s : σ) :
    Tells stream (I s) (Parse.iterate step rounds s) R := by
  induction rounds generalizing s with
  | zero =>
      intro _ _ _ _ hrun
      cases hrun
  | succ rounds ih =>
      refine (hstep s).bind fun outcome => ?_
      cases outcome with
      | inl next => exact ih next
      | inr result => exact .pure fun _ h => h

/-- What every round of a loop keeps holds when the loop ends. -/
theorem loop {step : σ → Parse (σ ⊕ β)} {I : σ → ParseState → Prop} {start : σ}
    (hstart : ∀ state, P state → I start state)
    (hstep : ∀ s, Tells stream (I s) (step s) (fun outcome state =>
      match outcome with
      | .inl next => I next state
      | .inr result => R result state)) :
    Tells stream P (Parse.loop step start) R := by
  intro state result next hP hrun
  exact iterate hstep _ start state result next (hstart state hP) hrun

end Tells

/-! ## Looking at tokens -/

section Look

variable {P : ParseState → Prop}

theorem tells_throw (halt : Halt) (Q : α → ParseState → Prop) :
    Tells stream P (throw halt) Q := by
  intro state result next _ h
  cases h

theorem tells_current : Tells stream P current
    (fun token state => P state ∧ token = stream.get state.cursor) := by
  intro state result next hP h
  cases h
  exact ⟨hP, rfl⟩

theorem tells_currentKind : Tells stream P currentKind
    (fun kind state => P state ∧ kind = (stream.get state.cursor).kind) := by
  intro state result next hP h
  cases h
  exact ⟨hP, rfl⟩

theorem tells_peek (offset : Nat) : Tells stream P (peek offset) (fun _ => P) := by
  intro state result next hP h
  cases h
  exact hP

theorem tells_isAt (kind : TokenKind) : Tells stream P (isAt kind)
    (fun here state => P state ∧ (here = true → (stream.get state.cursor).kind = kind)) := by
  intro state result next hP h
  cases h
  exact ⟨hP, of_decide_eq_true⟩

theorem tells_isArrowAhead : Tells stream P isArrowAhead (fun _ => P) := by
  intro state result next hP h
  cases h
  exact hP

theorem tells_nodeAt (id : NodeId) : Tells stream P (nodeAt id)
    (fun node state => P state ∧ node = state.nodes.getD id default) := by
  intro state result next hP h
  cases h
  exact ⟨hP, rfl⟩

theorem tells_previousEnd : Tells stream P previousEnd (fun stop state => P state ∧
    (0 < state.cursor → stop = (stream.get (state.cursor - 1)).span.stop)) := by
  intro state result next hP h
  obtain ⟨cursor, nodes⟩ := state
  cases cursor with
  | zero =>
      cases h
      exact ⟨hP, fun h => absurd h (Nat.lt_irrefl 0)⟩
  | succ cursor =>
      cases h
      exact ⟨hP, fun _ => rfl⟩

theorem tells_onNewLine : Tells stream P onNewLine (fun _ => P) := by
  intro state result next hP h
  obtain ⟨cursor, nodes⟩ := state
  cases cursor with
  | zero =>
      cases h
      exact hP
  | succ cursor =>
      cases h
      exact hP

theorem tells_fail (cause : Fault.Cause) (position : Position) (Q : α → ParseState → Prop) :
    Tells stream P (fail cause position) Q :=
  tells_throw _ Q

theorem tells_unexpected (Q : α → ParseState → Prop) : Tells stream P unexpected Q :=
  tells_current.bind fun _ => tells_fail _ _ Q

theorem tells_expected (message : String) (Q : α → ParseState → Prop) :
    Tells stream P (expected message) Q :=
  tells_current.bind fun _ => tells_fail _ _ Q

end Look

/-! ## Reading tokens -/

variable {items rest : List Piece} {start : Position} {kind : TokenKind}

theorem tells_position : Tells stream (Parsed stream items) position
    (fun start => Parsed stream (items ++ [Piece.begun start])) := by
  intro state result next h hrun
  cases hrun
  exact h.begin

/-- Reading a token moves the cursor on, unless it is the last. -/
theorem advance_ok {state next : ParseState} {token : Token}
    (h : advance stream state = .ok (token, next)) :
    token = stream.get state.cursor ∧ next.nodes = state.nodes ∧
      next.cursor = if state.cursor < stream.size - 1 then state.cursor + 1 else state.cursor := by
  cases h
  refine ⟨rfl, ?_⟩
  dsimp only
  split <;> exact ⟨rfl, rfl⟩

theorem tells_pass : Tells stream (Parsed stream items) advance (fun _ => Parsed stream items) := by
  intro state token next h hrun
  obtain ⟨-, hnodes, hcursor⟩ := advance_ok hrun
  obtain ⟨cursor, nodes⟩ := next
  cases hnodes
  obtain rfl : cursor = _ := hcursor
  have := h.inside
  refine Parsed.moved h ?_ ?_ <;> split <;> omega

theorem tells_advance_begun (hclosed : stream.Closed) :
    Tells stream (Ahead stream (items ++ [Piece.begun start])) advance
      (fun _ => Parsed stream (items ++ [Piece.opened start])) := by
  intro state token next h hrun
  obtain ⟨-, hnodes, hcursor⟩ := advance_ok hrun
  obtain ⟨cursor, nodes⟩ := next
  cases hnodes
  have hlt := hclosed.succ_lt h.inside h.ahead
  rw [if_pos (by omega)] at hcursor
  obtain rfl : cursor = state.cursor + 1 := hcursor
  exact h.toParsed.open_begun (Nat.lt_succ_self _) hlt

/-- A token is read that something may begin with. -/
theorem tells_advance (hclosed : stream.Closed) :
    Tells stream (Ahead stream items) advance
      (fun token => Parsed stream (items ++ [Piece.opened token.span.start])) := by
  intro state token next h hrun
  obtain ⟨rfl, -, -⟩ := advance_ok hrun
  exact tells_advance_begun hclosed state _ next ⟨h.toParsed.begin, h.ahead⟩ hrun

theorem tells_expect_begun (hclosed : stream.Closed) (hkind : kind ≠ .endOfInput) :
    Tells stream (Parsed stream (items ++ [Piece.begun start])) (expect kind)
      (fun _ => Parsed stream (items ++ [Piece.opened start])) :=
  (tells_isAt kind).bind fun _ => .ite
    (fun here => (tells_advance_begun hclosed).weaken fun _ h => .of_isAt h here hkind)
    fun _ => tells_unexpected _

theorem tells_expect (hclosed : stream.Closed) (hkind : kind ≠ .endOfInput) :
    Tells stream (Parsed stream items) (expect kind)
      (fun token => Parsed stream (items ++ [Piece.opened token.span.start])) :=
  (tells_isAt kind).bind fun _ => .ite
    (fun here => (tells_advance hclosed).weaken fun _ h => .of_isAt h here hkind)
    fun _ => tells_unexpected _

theorem tells_pass_expected (kind : TokenKind) : Tells stream (Parsed stream items) (expect kind)
    (fun _ => Parsed stream items) :=
  (tells_isAt kind).bind fun _ => .ite (fun _ => tells_pass.weaken fun _ h => h.1)
    fun _ => tells_unexpected _

theorem tells_expectName (hclosed : stream.Closed) (message : String) :
    Tells stream (Parsed stream (items ++ [Piece.begun start])) (expectName message)
      (fun _ => Parsed stream (items ++ [Piece.opened start])) := by
  refine (tells_isAt _).bind fun _ => .ite (fun here => ?_) fun _ => tells_expected _ _
  refine Tells.bind ?_ fun _ => .pure fun _ h => h
  exact (tells_advance_begun hclosed).weaken fun _ h => .of_isAt h here (by simp)

theorem tells_endStatement : Tells stream (Parsed stream items) endStatement
    (fun _ => Parsed stream items) := by
  refine tells_currentKind.bind fun kind => ?_
  split
  · exact (tells_pass.weaken fun _ h => h.1).bind fun _ => .pure fun _ h => h
  · exact .pure fun _ h => h.1
  · exact .pure fun _ h => h.1
  · exact (tells_onNewLine.weaken fun _ h => h.1).bind fun _ =>
      .ite (fun _ => .pure fun _ h => h) fun _ => tells_unexpected _

/-! ## Nodes -/

theorem tells_startOf (id : NodeId) : Tells stream (Parsed stream (items ++ [Piece.node id]))
    (startOf id) (fun start => Parsed stream (items ++ [Piece.held id start])) := by
  refine (tells_nodeAt id).bind fun node => .pure fun state h => ?_
  rw [h.2]
  exact h.1.hold

theorem tells_push_held {all : List Piece} {kind : NodeKind} (items : List Piece) (first : Piece)
    (rest : List Piece) (hall : all = items ++ first :: rest) (hstart : first.start? = some start)
    (hread : (first :: rest).any Piece.isRead)
    (hchildren : (first :: rest).filterMap Piece.node? = kind.children) :
    Tells stream (Parsed stream all) (push kind start)
      (fun id => Parsed stream (items ++ [Piece.held id start])) := by
  subst hall
  refine tells_previousEnd.bind fun stop => ?_
  intro state id next ⟨h, hstop⟩ hrun
  obtain ⟨mid, -, hown⟩ := Strung.append_iff.mp h.strung
  have hpos : 0 < state.cursor := Nat.lt_of_le_of_lt (Nat.zero_le mid) (hown.lt hread)
  cases hrun
  rw [hstop hpos]
  exact h.push hstart hread hchildren

theorem tells_push {all : List Piece} {kind : NodeKind} (items : List Piece) (first : Piece)
    (rest : List Piece) (hall : all = items ++ first :: rest) (hstart : first.start? = some start)
    (hread : (first :: rest).any Piece.isRead)
    (hchildren : (first :: rest).filterMap Piece.node? = kind.children) :
    Tells stream (Parsed stream all) (push kind start)
      (fun id => Parsed stream (items ++ [Piece.node id])) :=
  (tells_push_held items first rest hall hstart hread hchildren).consequence (fun _ h => h)
    fun _ _ h => h.release

/-! ## What parsers add -/

/-- The parser reads pieces and puts them behind those that were there. -/
def Strings (stream : TokenStream) (parser : Parse α) (pieces : α → List Piece) : Prop :=
  ∀ items, Tells stream (Parsed stream items) parser
    (fun a => Parsed stream (items ++ pieces a))

/-- The parser does so where there is a token to read. -/
def StringsAhead (stream : TokenStream) (parser : Parse α) (pieces : α → List Piece) : Prop :=
  ∀ items, Tells stream (Ahead stream items) parser
    (fun a => Parsed stream (items ++ pieces a))

def Restrings (stream : TokenStream) (left : NodeId) (parser : Parse NodeId) : Prop :=
  ∀ items, Tells stream (Parsed stream (items ++ [Piece.node left])) parser
    (fun id => Parsed stream (items ++ [Piece.node id]))

theorem strings_pure {a : α} {pieces : α → List Piece} (h : pieces a = []) :
    Strings stream (pure a) pieces := by
  intro items
  refine .pure fun state hparsed => ?_
  rwa [h, List.append_nil]

end Parse

end ScriptCheck
