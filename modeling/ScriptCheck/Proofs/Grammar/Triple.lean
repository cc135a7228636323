import ScriptCheck.Grammar.Parse
import ScriptCheck.Proofs.Tree.Layout

/-!
# What parsers do to the arena

A parser meets a condition on arenas before and after: nothing is said about
parsers that end in a fault.  Most parsers only read tokens and leave the arena
alone; the others append nodes.
-/

namespace ScriptCheck.Parse

variable {α β σ : Type}

/-- If the arena meets `P` and the parser gives a result, the arena meets `Q` then. -/
def Builds (P : Array Node → Prop) (parser : Parse α) (Q : α → Array Node → Prop) : Prop :=
  ∀ stream state result next, P state.nodes →
    parser stream state = .ok (result, next) → Q result next.nodes

/-- The parser appends no node. -/
def Reads (parser : Parse α) : Prop :=
  ∀ stream state result next, parser stream state = .ok (result, next) →
    next.nodes = state.nodes

/-- A sequence that gives a result gives one at each of its two steps. -/
theorem bind_eq_ok {parser : Parse α} {f : α → Parse β} {stream : TokenStream}
    {state next : ParseState} {result : β}
    (h : (parser >>= f) stream state = .ok (result, next)) :
    ∃ first between, parser stream state = .ok (first, between) ∧
      f first stream between = .ok (result, next) := by
  change Except.bind (parser stream state) (fun pair => f pair.1 stream pair.2) = _ at h
  cases hfirst : parser stream state with
  | error halt => simp [hfirst, Except.bind] at h
  | ok pair => exact ⟨pair.1, pair.2, rfl, by simpa [hfirst, Except.bind] using h⟩

namespace Builds

variable {P P' : Array Node → Prop} {Q Q' : α → Array Node → Prop} {R : β → Array Node → Prop}
  {parser : Parse α}

theorem bind {f : α → Parse β} (hparser : Builds P parser Q) (hf : ∀ a, Builds (Q a) (f a) R) :
    Builds P (parser >>= f) R := by
  intro stream state result next hP h
  obtain ⟨first, between, hfirst, hrest⟩ := bind_eq_ok h
  exact hf first stream between result next (hparser stream state first between hP hfirst) hrest

theorem pure {a : α} (h : ∀ nodes, P nodes → Q a nodes) : Builds P (Pure.pure a) Q := by
  intro stream state result next hP hrun
  cases hrun
  exact h _ hP

theorem consequence (h : Builds P parser Q) (hP : ∀ nodes, P' nodes → P nodes)
    (hQ : ∀ a nodes, Q a nodes → Q' a nodes) : Builds P' parser Q' :=
  fun stream state result next hstart hrun =>
    hQ result next.nodes (h stream state result next (hP state.nodes hstart) hrun)

theorem ite {c : Prop} [Decidable c] {other : Parse α} (hthen : c → Builds P parser Q)
    (helse : ¬ c → Builds P other Q) : Builds P (if c then parser else other) Q := by
  split
  · exact hthen ‹_›
  · exact helse ‹_›

end Builds

/-- What only reads tokens keeps every condition on the arena. -/
theorem Reads.builds {parser : Parse α} (h : Reads parser) (P : Array Node → Prop) :
    Builds P parser (fun _ => P) := by
  intro stream state result next hP hrun
  rw [h stream state result next hrun]
  exact hP

/-- A step that only reads tokens may stand in front. -/
theorem Reads.andThen {parser : Parse α} {f : α → Parse β} {P : Array Node → Prop}
    {R : β → Array Node → Prop} (h : Reads parser) (hf : ∀ a, Builds P (f a) R) :
    Builds P (parser >>= f) R :=
  (h.builds P).bind hf

namespace Reads

theorem pure (a : α) : Reads (Pure.pure a : Parse α) := by
  intro stream state result next h
  cases h
  rfl

theorem bind {parser : Parse α} {f : α → Parse β} (hparser : Reads parser)
    (hf : ∀ a, Reads (f a)) : Reads (parser >>= f) := by
  intro stream state result next h
  obtain ⟨first, between, hfirst, hrest⟩ := bind_eq_ok h
  rw [hf first stream between result next hrest, hparser stream state first between hfirst]

theorem ite {c : Prop} [Decidable c] {parser other : Parse α} (hthen : Reads parser)
    (helse : Reads other) : Reads (if c then parser else other) := by
  split
  · exact hthen
  · exact helse

end Reads

/-! ## Reading tokens -/

theorem reads_read : Reads (read : Parse TokenStream) := by
  intro stream state result next h
  cases h
  rfl

theorem reads_get : Reads (get : Parse ParseState) := by
  intro stream state result next h
  cases h
  rfl

theorem builds_throw (halt : Halt) (P : Array Node → Prop) (Q : α → Array Node → Prop) :
    Builds P (throw halt : Parse α) Q := by
  intro stream state result next _ h
  cases h

theorem reads_fail (cause : Fault.Cause) (position : Position) :
    Reads (fail cause position : Parse α) := by
  intro stream state result next h
  cases h

theorem reads_peek (offset : Nat) : Reads (peek offset) :=
  reads_read.bind fun _ => reads_get.bind fun _ => .pure _

theorem reads_current : Reads current := reads_peek 0

theorem reads_currentKind : Reads currentKind :=
  reads_current.bind fun _ => .pure _

theorem reads_position : Reads position :=
  reads_current.bind fun _ => .pure _

theorem reads_advance : Reads advance := by
  refine reads_read.bind fun stream => reads_current.bind fun token => .bind ?_ fun _ => .pure _
  intro _ state result next h
  cases h
  dsimp only
  split <;> rfl

theorem reads_unexpected : Reads (unexpected : Parse α) :=
  reads_current.bind fun _ => reads_fail _ _

theorem reads_expected (message : String) : Reads (expected message : Parse α) :=
  reads_current.bind fun _ => reads_fail _ _

theorem reads_isAt (kind : TokenKind) : Reads (isAt kind) :=
  reads_currentKind.bind fun _ => .pure _

theorem reads_expect (kind : TokenKind) : Reads (expect kind) :=
  (reads_isAt kind).bind fun _ => .ite reads_advance reads_unexpected

theorem reads_expectName (message : String) : Reads (expectName message) :=
  (reads_isAt _).bind fun _ => .ite (reads_advance.bind fun _ => .pure _) (reads_expected message)

theorem reads_previousEnd : Reads previousEnd := by
  refine reads_get.bind fun state => ?_
  split
  · exact reads_position
  · exact reads_read.bind fun _ => .pure _

theorem reads_onNewLine : Reads onNewLine := by
  refine reads_get.bind fun state => .ite (.pure _) ?_
  exact reads_previousEnd.bind fun _ => reads_position.bind fun _ => .pure _

theorem reads_endStatement : Reads endStatement := by
  refine reads_currentKind.bind fun kind => ?_
  split
  · exact reads_advance.bind fun _ => .pure _
  · exact .pure _
  · exact .pure _
  · exact reads_onNewLine.bind fun _ => .ite (.pure _) reads_unexpected

theorem reads_nodeAt (id : NodeId) : Reads (nodeAt id) :=
  reads_get.bind fun _ => .pure _

theorem reads_startOf (id : NodeId) : Reads (startOf id) :=
  (reads_nodeAt id).bind fun _ => .pure _

theorem reads_isArrowAhead : Reads isArrowAhead :=
  reads_read.bind fun _ => reads_get.bind fun _ => .pure _

/-! ## Faults -/

theorem builds_fail (cause : Fault.Cause) (position : Position) (P : Array Node → Prop)
    (Q : α → Array Node → Prop) : Builds P (fail cause position) Q :=
  builds_throw _ P Q

theorem builds_unexpected (P : Array Node → Prop) (Q : α → Array Node → Prop) :
    Builds P unexpected Q :=
  reads_current.andThen fun _ => builds_fail _ _ P Q

theorem builds_expected (message : String) (P : Array Node → Prop) (Q : α → Array Node → Prop) :
    Builds P (expected message) Q :=
  reads_current.andThen fun _ => builds_fail _ _ P Q

/-! ## Loops -/

theorem Builds.iterate {step : σ → Parse (σ ⊕ β)} {I : σ → Array Node → Prop}
    {R : β → Array Node → Prop}
    (hstep : ∀ s, Builds (I s) (step s) (fun outcome nodes =>
      match outcome with
      | .inl next => I next nodes
      | .inr result => R result nodes)) (rounds : Nat) (s : σ) :
    Builds (I s) (Parse.iterate step rounds s) R := by
  induction rounds generalizing s with
  | zero => exact builds_throw _ _ _
  | succ rounds ih =>
      refine (hstep s).bind fun outcome => ?_
      cases outcome with
      | inl next => exact ih next
      | inr result => exact .pure fun _ h => h

/-- What every round of a loop keeps holds when the loop ends. -/
theorem Builds.loop {step : σ → Parse (σ ⊕ β)} {I : σ → Array Node → Prop}
    {R : β → Array Node → Prop} {P : Array Node → Prop} {start : σ}
    (hstart : ∀ nodes, P nodes → I start nodes)
    (hstep : ∀ s, Builds (I s) (step s) (fun outcome nodes =>
      match outcome with
      | .inl next => I next nodes
      | .inr result => R result nodes)) :
    Builds P (Parse.loop step start) R :=
  (reads_read.andThen fun _ => Builds.iterate hstep _ start).consequence hstart
    fun _ _ h => h

/-! ## Laying out nodes -/

/-- From `lo` on, the arena holds the subtrees of `roots` and nothing else. -/
def Lays (lo : Nat) (roots : List (Nat × Part)) (nodes : Array Node) : Prop :=
  Forest nodes lo nodes.size roots

theorem builds_push (lo : Nat) (roots : List (Nat × Part)) (kind : NodeKind) {part : Part}
    (start : Position) (hsuits : part.admits kind) :
    Builds (Lays lo (roots ++ kind.parts)) (push kind start)
      (fun id => Lays lo (roots ++ [(id, part)])) := by
  refine reads_previousEnd.andThen fun stop => ?_
  intro stream state result next hlays hrun
  cases hrun
  obtain ⟨mid, hroots, hparts⟩ := Forest.split hlays
  have hkind : kindAt (state.nodes.push ⟨kind, ⟨start, stop⟩⟩) state.nodes.size = kind := by
    simp [kindAt]
  unfold Lays
  rw [Array.size_push]
  refine .snoc (hroots.push hparts.le _) ?_ (by rw [Array.size_push]; omega) (by rwa [hkind])
  rw [hkind]
  exact hparts.push (Nat.le_refl _) _

end ScriptCheck.Parse
