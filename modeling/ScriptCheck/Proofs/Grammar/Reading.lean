import ScriptCheck.Grammar.Program
import ScriptCheck.Proofs.Grammar.Standing

/-!
# Reading words

What a parser does on words that are known: it gives a result, leaves the cursor behind
the words and keeps the nodes that were there.  Expressions are read in rounds; the rules
here say how an operand begins one, how a continuation adds to it and when it ends.
-/

namespace ScriptCheck

/-! ## Words of a stream -/

/-- The tokens from `c` on and before `stop` are these words, and there are more after each. -/
def TokenStream.Spells (stream : TokenStream) : Nat → Nat → List Word → Prop
  | c, stop, [] => stop = c
  | c, stop, word :: words =>
      c + 1 < stream.size ∧ (stream.get c).word = word ∧ stream.Spells (c + 1) stop words

namespace TokenStream

variable {stream : TokenStream} {c stop : Nat} {word : Word} {words more : List Word}

theorem spells_append : stream.Spells c stop (words ++ more) ↔
    ∃ mid, stream.Spells c mid words ∧ stream.Spells mid stop more := by
  induction words generalizing c with
  | nil => simp [Spells]
  | cons word words ih => simp [Spells, ih, and_assoc]

namespace Spells

theorem lt (h : stream.Spells c stop (word :: words)) : c + 1 < stream.size := h.1

theorem kind (h : stream.Spells c stop (word :: words)) : (stream.get c).kind = word.kind := by
  rw [← h.2.1]
  rfl

theorem value (h : stream.Spells c stop (word :: words)) :
    (stream.get c).value = word.value := by
  rw [← h.2.1]
  rfl

theorem tail (h : stream.Spells c stop (word :: words)) : stream.Spells (c + 1) stop words :=
  h.2.2

theorem stop_eq (h : stream.Spells c stop words) : stop = c + words.length := by
  induction words generalizing c with
  | nil => exact h
  | cons word words ih =>
      have := ih h.tail
      simp only [List.length_cons]
      omega

theorem le (h : stream.Spells c stop words) : c ≤ stop := by
  have := h.stop_eq
  omega

theorem stop_lt_size (h : stream.Spells c stop words) (hc : c < stream.size) :
    stop < stream.size := by
  induction words generalizing c with
  | nil => exact h ▸ hc
  | cons word words ih => exact ih h.tail h.lt

/-- The kinds of the tokens ahead are those of the words and those after them. -/
theorem map_kind_drop (h : stream.Spells c stop words) :
    (stream.tokens.toList.drop c).map Token.kind =
      words.map Word.kind ++ (stream.tokens.toList.drop stop).map Token.kind := by
  induction words generalizing c with
  | nil =>
      cases h
      rfl
  | cons word words ih =>
      have hlt : c < stream.tokens.size := Nat.lt_of_succ_lt h.lt
      have hget : stream.tokens.toList[c] = stream.get c := by
        rw [get_of_lt hlt, Array.getElem_toList]
      rw [List.drop_eq_getElem_cons (by simpa using hlt), List.map_cons, hget, h.kind,
        ih h.tail, List.map_cons, List.cons_append]

end Spells

/-- The kind of a token is the first of those from its index on. -/
theorem head?_map_kind_drop (h : c < stream.size) :
    ((stream.tokens.toList.drop c).map Token.kind).head? = some (stream.get c).kind := by
  have hlt : c < stream.tokens.size := h
  rw [List.drop_eq_getElem_cons (by simpa using hlt), List.map_cons, List.head?_cons,
    get_of_lt hlt, Array.getElem_toList]

end TokenStream

namespace Parse

variable {α β σ : Type} {stream : TokenStream} {nodes : Array Node} {c mid stop : Nat}

/-! ## Runs -/

/-- From a cursor and an arena the parser gives a result; it moves the cursor to `stop`
and keeps the nodes, and then `P` holds. -/
def Yields (stream : TokenStream) (parser : Parse α) (c stop : Nat) (nodes : Array Node)
    (P : Array Node → α → Prop) : Prop :=
  ∃ result after, parser stream ⟨c, nodes⟩ = .ok (result, ⟨stop, after⟩) ∧
    Appends nodes after ∧ P after result

theorem bind_of_eq_ok {parser : Parse α} {f : α → Parse β} {state next : ParseState} {a : α}
    (h : parser stream state = .ok (a, next)) :
    (parser >>= f) stream state = f a stream next := by
  change Except.bind (parser stream state) (fun pair => f pair.1 stream pair.2) = _
  rw [h]
  rfl

namespace Yields

variable {P P' : Array Node → α → Prop} {Q : Array Node → β → Prop} {parser : Parse α}

theorem pure {a : α} (h : P nodes a) : Yields stream (Pure.pure a) c c nodes P :=
  ⟨a, nodes, rfl, .refl nodes, h⟩

/-- A step that appends no node may stand in front. -/
theorem step {f : α → Parse β} {a : α} (h : parser stream ⟨c, nodes⟩ = .ok (a, ⟨mid, nodes⟩))
    (hf : Yields stream (f a) mid stop nodes Q) : Yields stream (parser >>= f) c stop nodes Q := by
  obtain ⟨result, after, hrun, hkept, hQ⟩ := hf
  exact ⟨result, after, (bind_of_eq_ok h).trans hrun, hkept, hQ⟩

theorem bind {f : α → Parse β} (h : Yields stream parser c mid nodes P)
    (hf : ∀ a after, Appends nodes after → P after a → Yields stream (f a) mid stop after Q) :
    Yields stream (parser >>= f) c stop nodes Q := by
  obtain ⟨a, between, hfirst, hbetween, hP⟩ := h
  obtain ⟨result, after, hrun, hkept, hQ⟩ := hf a between hbetween hP
  exact ⟨result, after, (bind_of_eq_ok hfirst).trans hrun, hbetween.trans hkept, hQ⟩

theorem mono (h : Yields stream parser c stop nodes P)
    (hP : ∀ after a, Appends nodes after → P after a → P' after a) :
    Yields stream parser c stop nodes P' := by
  obtain ⟨a, after, hrun, hkept, ha⟩ := h
  exact ⟨a, after, hrun, hkept, hP after a hkept ha⟩

end Yields

/-! ## Tokens -/

theorem current_eq : current stream ⟨c, nodes⟩ = .ok (stream.get c, ⟨c, nodes⟩) := rfl

theorem peek_eq (offset : Nat) :
    peek offset stream ⟨c, nodes⟩ = .ok (stream.get (c + offset), ⟨c, nodes⟩) := rfl

theorem currentKind_eq : currentKind stream ⟨c, nodes⟩ = .ok ((stream.get c).kind, ⟨c, nodes⟩) :=
  rfl

theorem isAt_eq (kind : TokenKind) :
    isAt kind stream ⟨c, nodes⟩ = .ok (decide ((stream.get c).kind = kind), ⟨c, nodes⟩) := rfl

theorem isArrowAhead_eq : isArrowAhead stream ⟨c, nodes⟩ =
    .ok (arrowFollows 0 ((stream.tokens.toList.drop c).map Token.kind), ⟨c, nodes⟩) := rfl

theorem nodeAt_eq (id : NodeId) :
    nodeAt id stream ⟨c, nodes⟩ = .ok (nodes.getD id default, ⟨c, nodes⟩) := rfl

theorem startOf_eq (id : NodeId) :
    startOf id stream ⟨c, nodes⟩ = .ok ((nodes.getD id default).span.start, ⟨c, nodes⟩) := rfl

theorem advance_eq (h : c + 1 < stream.size) :
    advance stream ⟨c, nodes⟩ = .ok (stream.get c, ⟨c + 1, nodes⟩) := by
  have hlt : c < stream.size - 1 := by omega
  change Except.ok (stream.get c, if c < stream.size - 1 then ParseState.mk (c + 1) nodes
    else ⟨c, nodes⟩) = _
  rw [if_pos hlt]

theorem expect_eq {kind : TokenKind} (hkind : (stream.get c).kind = kind)
    (h : c + 1 < stream.size) :
    expect kind stream ⟨c, nodes⟩ = .ok (stream.get c, ⟨c + 1, nodes⟩) := by
  refine (bind_of_eq_ok (isAt_eq kind)).trans ?_
  simp only [hkind, decide_true, if_true]
  exact advance_eq h

/-- The cursor is at a token of the kind that is asked for. -/
theorem Yields.here {kind : TokenKind} {parser other : Parse β} {Q : Array Node → β → Prop}
    (hkind : (stream.get c).kind = kind) (h : Yields stream parser c stop nodes Q) :
    Yields stream (isAt kind >>= fun here => if here then parser else other) c stop nodes Q := by
  refine .step (isAt_eq kind) ?_
  rwa [decide_eq_true hkind, if_pos rfl]

/-- The cursor is at a token of another kind than the one asked for. -/
theorem Yields.elsewhere {kind : TokenKind} {parser other : Parse β} {Q : Array Node → β → Prop}
    (hkind : (stream.get c).kind ≠ kind) (h : Yields stream other c stop nodes Q) :
    Yields stream (isAt kind >>= fun here => if here then parser else other) c stop nodes Q := by
  refine .step (isAt_eq kind) ?_
  rwa [decide_eq_false hkind, if_neg Bool.false_ne_true]

theorem previousEnd_eq : ∃ position, previousEnd stream ⟨c, nodes⟩ =
    .ok (position, ⟨c, nodes⟩) := by
  cases c with
  | zero => exact ⟨_, rfl⟩
  | succ c => exact ⟨_, rfl⟩

theorem Yields.push {kind : NodeKind} {start : Position} {P : Array Node → NodeId → Prop}
    (h : ∀ span, P (nodes.push ⟨kind, span⟩) nodes.size) :
    Yields stream (Parse.push kind start) c c nodes P := by
  obtain ⟨position, hposition⟩ := @previousEnd_eq stream nodes c
  exact ⟨nodes.size, nodes.push ⟨kind, ⟨start, position⟩⟩, bind_of_eq_ok hposition, .push _ _, h _⟩

/-! ## Rounds -/

theorem iterate_succ_of_inl {step : σ → Parse (σ ⊕ β)} {s s' : σ} {state next : ParseState}
    (rounds : Nat) (h : step s stream state = .ok (.inl s', next)) :
    iterate step (rounds + 1) s stream state = iterate step rounds s' stream next :=
  bind_of_eq_ok h

theorem iterate_succ_of_inr {step : σ → Parse (σ ⊕ β)} {s : σ} {state next : ParseState}
    {result : β} (rounds : Nat) (h : step s stream state = .ok (.inr result, next)) :
    iterate step (rounds + 1) s stream state = .ok (result, next) :=
  bind_of_eq_ok h

theorem Yields.round {step : σ → Parse (σ ⊕ β)} {rounds : Nat} {s : σ}
    {I : Array Node → σ → Prop} {Q : Array Node → β → Prop}
    (h : Yields stream (step s) c mid nodes fun after outcome => ∃ s', outcome = .inl s' ∧
    I after s')
    (hrest : ∀ s' after, Appends nodes after → I after s' →
      Yields stream (iterate step rounds s') mid stop after Q) :
    Yields stream (iterate step (rounds + 1) s) c stop nodes Q := by
  refine h.bind fun outcome after hkept hI => ?_
  obtain ⟨s', rfl, hI⟩ := hI
  exact hrest s' after hkept hI

theorem Yields.last {step : σ → Parse (σ ⊕ β)} {rounds : Nat} {s : σ} {result : β}
    {Q : Array Node → β → Prop} (h : step s stream ⟨c, nodes⟩ = .ok (.inr result, ⟨c, nodes⟩))
    (hQ : Q nodes result) : Yields stream (iterate step (rounds + 1) s) c c nodes Q :=
  ⟨result, nodes, iterate_succ_of_inr rounds h, .refl nodes, hQ⟩

theorem Yields.loop {step : σ → Parse (σ ⊕ β)} {s : σ} {Q : Array Node → β → Prop}
    (h : Yields stream (iterate step (stream.size + 1) s) c stop nodes Q) :
    Yields stream (Parse.loop step s) c stop nodes Q := h

end Parse

/-! ## Lists -/

namespace Grammar

open Parse

variable {ι : Type} {stream : TokenStream} {c mid stop depth rounds : Nat} {nodes : Array Node}
  {words : ι → List Word} {Stands : Array Node → ι → NodeId → Prop}

/-- One round of a list: it ends, or an item is read and the comma after it. -/
def listRound {α : Type} (close : TokenKind) (item : Parse α) (items : List α) :
    Parse (List α ⊕ List α) := do
  if ← isAt close then return .inr items.reverse
  let next ← item
  if ← isAt (.mark .comma) then
    let _ ← advance
  else if !(← isAt close) then
    unexpected
  return .inl (next :: items)

theorem commaList_eq {α : Type} (close : TokenKind) (item : Parse α) :
    commaList close item = (do
      let items ← loop (listRound close item) []
      let _ ← expect close
      return items) := rfl

/-- The words of an item are read by a parser, if a comma or the end of the list follows. -/
def ReadsItem (stream : TokenStream) (depth : Nat) (close : Punctuator) (item : Parse NodeId)
    (words : List Word) (P : Array Node → NodeId → Prop) : Prop :=
  (∃ first rest, words = first :: rest ∧ first.kind ≠ .mark close) ∧
    ∀ c stop nodes, stream.Spells c stop words → stop ≤ c + depth →
      (stream.get stop).kind = .mark .comma ∨ (stream.get stop).kind = .mark close →
        Yields stream item c stop nodes P

theorem commaSeparated_cons_cons (first second : List Word) (rest : List (List Word)) :
    commaSeparated (first :: second :: rest) =
      first ++ Word.mark .comma :: commaSeparated (second :: rest) := by
  simp [commaSeparated]

theorem length_le_flatMap (word : Word) (stretches : List (List Word)) :
    stretches.length ≤ (stretches.flatMap (word :: ·)).length := by
  induction stretches with
  | nil => exact Nat.zero_le _
  | cons first rest ih =>
      simp only [List.flatMap_cons, List.length_append, List.length_cons]
      omega

theorem length_le_commaSeparated {stretches : List (List Word)}
    (h : ∀ words ∈ stretches, words ≠ []) :
    stretches.length ≤ (commaSeparated stretches).length := by
  induction stretches with
  | nil => exact Nat.zero_le _
  | cons first rest ih =>
      have hfirst := List.length_pos_iff.mpr (h first (by simp))
      have hrest := ih fun words hmem => h words (List.mem_cons_of_mem first hmem)
      cases rest with
      | nil => simpa [commaSeparated] using Nat.succ_le_of_lt hfirst
      | cons second rest =>
          rw [commaSeparated_cons_cons]
          simp only [List.length_append, List.length_cons] at *
          omega

theorem yields_listRound {close : Punctuator} {item : Parse NodeId} {w : List Word}
    {P : Array Node → NodeId → Prop} {items : List NodeId} (hclose : close ≠ .comma)
    (hitem : ReadsItem stream depth close item w P) (hspells : stream.Spells c mid w)
    (hdepth : mid ≤ c + depth)
    (hnext : ((stream.get mid).kind = .mark .comma ∧ mid + 1 < stream.size ∧ stop = mid + 1) ∨
      ((stream.get mid).kind = .mark close ∧ stop = mid)) :
    Yields stream (listRound (.mark close) item items) c stop nodes (fun after outcome =>
      ∃ items', outcome = .inl items' ∧ ∃ id, items' = id :: items ∧ P after id) := by
  obtain ⟨⟨first, rest, rfl, hfirst⟩, hreads⟩ := hitem
  refine .elsewhere (by rwa [hspells.kind]) ?_
  have hread := hreads c mid nodes hspells hdepth (hnext.imp And.left And.left)
  refine hread.bind fun id after hkept hP => ?_
  rcases hnext with ⟨hcomma, hlt, rfl⟩ | ⟨hend, rfl⟩
  · refine .here hcomma (.step (advance_eq hlt) (.pure ⟨_, rfl, id, rfl, hP⟩))
  · refine .elsewhere (by simp [hend, hclose]) (.step (isAt_eq _) ?_)
    rw [decide_eq_true hend]
    exact .pure ⟨_, rfl, id, rfl, hP⟩

theorem yields_listRounds {close : Punctuator} {item : Parse NodeId} (hclose : close ≠ .comma)
    (hkept : ∀ before after x id, Appends before after → Stands before x id → Stands after x id)
    {items : List ι} (hitems : ∀ x ∈ items,
      ReadsItem stream depth close item (words x) (fun after id => Stands after x id))
    (hspells : stream.Spells c stop (commaSeparated (items.map words)))
    (hdepth : stop ≤ c + depth) (hend : (stream.get stop).kind = .mark close)
    (hrounds : items.length < rounds) (read : List NodeId) :
    Yields stream (iterate (listRound (.mark close) item) rounds read) c stop nodes
      (fun after ids => ∃ new, ids = read.reverse ++ new ∧
        List.Forall₂ (Stands after) items new) := by
  induction items generalizing c nodes rounds read with
  | nil =>
      obtain ⟨rounds, rfl⟩ := Nat.exists_eq_add_of_lt hrounds
      obtain rfl : stop = c := hspells
      have hlast : listRound (.mark close) item read stream ⟨stop, nodes⟩ =
          .ok (.inr read.reverse, ⟨stop, nodes⟩) := by
        refine (bind_of_eq_ok (isAt_eq _)).trans ?_
        rw [decide_eq_true hend]
        rfl
      exact .last hlast ⟨[], by simp⟩
  | cons x rest ih =>
      obtain ⟨rounds, rfl⟩ := Nat.exists_eq_add_of_lt (Nat.zero_lt_of_lt hrounds)
      rw [Nat.zero_add]
      simp only [List.length_cons] at hrounds
      have hx := hitems x (by simp)
      have hrest := fun y hy => hitems y (List.mem_cons_of_mem x hy)
      have hsplit : ∃ mid next, stream.Spells c mid (words x) ∧
          stream.Spells next stop (commaSeparated (rest.map words)) ∧
          (((stream.get mid).kind = .mark .comma ∧ mid + 1 < stream.size ∧ next = mid + 1) ∨
            ((stream.get mid).kind = .mark close ∧ next = mid)) := by
        cases rest with
        | nil =>
            refine ⟨stop, stop, by simpa [commaSeparated] using hspells, rfl, .inr ⟨hend, rfl⟩⟩
        | cons y ys =>
            rw [List.map_cons, List.map_cons, commaSeparated_cons_cons,
              TokenStream.spells_append] at hspells
            obtain ⟨mid, hx, hmore⟩ := hspells
            exact ⟨mid, mid + 1, hx, hmore.tail, .inl ⟨hmore.kind, hmore.lt, rfl⟩⟩
      obtain ⟨mid, next, hspellsx, hspellsRest, hnext⟩ := hsplit
      have hle := hspellsRest.le
      have hle' := hspellsx.le
      have hmid : mid ≤ next ∧ next ≤ stop := by omega
      refine Yields.round (yields_listRound hclose hx hspellsx (by omega) hnext)
        fun items' after hafter hstands => ?_
      obtain ⟨id, rfl, hid⟩ := hstands
      refine (ih hrest hspellsRest (by omega) (by omega) (id :: read)).mono
        fun final ids hfinal hids => ?_
      obtain ⟨new, rfl, hnew⟩ := hids
      exact ⟨id :: new, by simp, .cons (hkept _ _ _ _ hfinal hid) hnew⟩

theorem yields_commaList {close : Punctuator} {item : Parse NodeId} (hclose : close ≠ .comma)
    (hkept : ∀ before after x id, Appends before after → Stands before x id → Stands after x id)
    {items : List ι} (hitems : ∀ x ∈ items,
      ReadsItem stream depth close item (words x) (fun after id => Stands after x id))
    (hspells : stream.Spells c stop (commaSeparated (items.map words) ++ [Word.mark close]))
    (hdepth : stop ≤ c + depth + 1) :
    Yields stream (commaList (.mark close) item) c stop nodes
      (fun after ids => List.Forall₂ (Stands after) items ids) := by
  obtain ⟨mid, hlist, hend⟩ := TokenStream.spells_append.mp hspells
  obtain rfl : stop = mid + 1 := hend.tail
  have hne : ∀ w ∈ items.map words, w ≠ [] := by
    intro w hw
    obtain ⟨x, hx, rfl⟩ := List.mem_map.mp hw
    obtain ⟨⟨first, rest, hfirst, -⟩, -⟩ := hitems x hx
    simp [hfirst]
  have hcount := length_le_commaSeparated hne
  rw [List.length_map] at hcount
  have hrounds : items.length < stream.size + 1 := by
    have := hlist.stop_eq
    have := hend.lt
    omega
  have hmid : mid ≤ c + depth := by omega
  rw [commaList_eq]
  refine Yields.bind (.loop (yields_listRounds hclose hkept hitems hlist hmid hend.kind hrounds []))
    fun ids after hafter hids => ?_
  obtain ⟨new, rfl, hnew⟩ := hids
  exact .step (expect_eq hend.kind hend.lt) (.pure (by simpa using hnew))

end Grammar

/-! ## Rounds of an expression -/

namespace Grammar

open Parse

variable {g : Grammar} {power : Power} {stream : TokenStream} {nodes : Array Node}
  {c mid stop : Nat} {P Q : Array Node → NodeId → Prop}

/-- One round of an expression: it ends, or the token at the cursor continues it. -/
def continueRound (g : Grammar) (power : Power) (left : NodeId) : Parse (NodeId ⊕ NodeId) := do
  let kind ← currentKind
  if Power.ofToken kind ≤ power then return .inr left
  else return .inl (← continuation g left kind)

def expressionWithin (g : Grammar) (power : Power) (rounds : Nat) : Parse NodeId := do
  iterate (continueRound g power) rounds (← operand g)

/-- After some rounds, fewer than tokens, an expression has come from `c` to `mid`, and `P`
holds of what it has read; as many rounds as one likes may follow. -/
def Begins (stream : TokenStream) (g : Grammar) (power : Power) (c mid : Nat) (nodes : Array Node)
    (P : Array Node → NodeId → Prop) : Prop :=
  ∃ rounds left after, c + rounds < mid ∧ Appends nodes after ∧ P after left ∧
    ∀ more, expressionWithin g power (more + rounds) stream ⟨c, nodes⟩ =
      iterate (continueRound g power) more left stream ⟨mid, after⟩

namespace Begins

theorem of_operand (h : Yields stream (operand g) c stop nodes P) (hlt : c < stop) :
    Begins stream g power c stop nodes P := by
  obtain ⟨left, after, hrun, hkept, hP⟩ := h
  exact ⟨0, left, after, hlt, hkept, hP, fun _ => bind_of_eq_ok hrun⟩

/-- A token that holds on strongly enough continues the expression. -/
theorem continued (h : Begins stream g power c mid nodes P)
    (hpower : power.rank < (Power.ofToken (stream.get mid).kind).rank) (hlt : mid < stop)
    (hcontinue : ∀ left after, Appends nodes after → P after left →
      Yields stream (continuation g left (stream.get mid).kind) mid stop after Q) :
    Begins stream g power c stop nodes Q := by
  obtain ⟨rounds, left, between, hrounds, hbetween, hP, hrun⟩ := h
  obtain ⟨next, after, hnext, hkept, hQ⟩ := hcontinue left between hbetween hP
  refine ⟨rounds + 1, next, after, by omega, hbetween.trans hkept, hQ, fun more => ?_⟩
  have hgoes : ¬ Power.ofToken (stream.get mid).kind ≤ power := Nat.not_le.mpr hpower
  have hround : continueRound g power left stream ⟨mid, between⟩ =
      .ok (.inl next, ⟨stop, after⟩) := by
    refine (bind_of_eq_ok currentKind_eq).trans ?_
    rw [if_neg hgoes]
    exact bind_of_eq_ok hnext
  rw [show more + (rounds + 1) = more + 1 + rounds by omega, hrun,
    iterate_succ_of_inl more hround]

/-- A token that does not hold on strongly enough ends the expression. -/
theorem ended (h : Begins stream g power c stop nodes P)
    (hpower : Power.ofToken (stream.get stop).kind ≤ power) (hstop : stop ≤ stream.size) :
    Yields stream (expressionAt g power) c stop nodes P := by
  obtain ⟨rounds, left, after, hrounds, hkept, hP, hrun⟩ := h
  refine ⟨left, after, ?_, hkept, hP⟩
  change expressionWithin g power (stream.size + 1) stream ⟨c, nodes⟩ = _
  rw [show stream.size + 1 = stream.size - rounds + 1 + rounds by omega, hrun]
  refine iterate_succ_of_inr _ ((bind_of_eq_ok currentKind_eq).trans ?_)
  rw [if_pos hpower]
  rfl

end Begins

end Grammar

end ScriptCheck
