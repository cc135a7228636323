import ScriptCheck.Proofs.Check.Growing
import ScriptCheck.Proofs.Types.Lead
import ScriptCheck.Proofs.Types.Compute

/-!
# One visit for every choice of variants

A call whose arguments are unions visits the body of the callee once for every way to choose a
variant of each argument, the first argument varying slowest.  Between two visits nothing happens
but that results are joined.  Visits only add frames, so whether the function is being called
already is the same for all of them: either each choice is visited or each is cut.
-/

namespace ScriptCheck

namespace Ty

/-- Every way to choose a variant of each of some types, the first type varying slowest. -/
def choices : List Ty → List (List TypeId)
  | [] => [[]]
  | ty :: rest => ty.variants.flatMap fun id => (choices rest).map (id :: ·)

theorem mem_choices_iff {arguments : List Ty} {choice : List TypeId} :
    choice ∈ choices arguments ↔ List.Forall₂ (fun id ty => id ∈ ty.variants) choice arguments := by
  induction arguments generalizing choice with
  | nil => simp [choices]
  | cons ty rest ih =>
      cases choice with
      | nil => simp [choices]
      | cons id choice => simp [choices, ih]

/-- Where variants are listed in some order, choices are listed in its lexicographic order. -/
theorem pairwise_choices {before : TypeId → TypeId → Prop} {arguments : List Ty}
    (hordered : ∀ ty ∈ arguments, ty.variants.Pairwise before) :
    (choices arguments).Pairwise (List.Lex before) := by
  induction arguments with
  | nil => exact List.pairwise_singleton _ _
  | cons ty rest ih =>
      have htails := ih fun other hmem => hordered other (List.mem_cons_of_mem ty hmem)
      refine List.pairwise_flatMap.mpr ⟨fun id _ => ?_, ?_⟩
      · exact List.pairwise_map.mpr (htails.imp fun hlt => .cons hlt)
      · refine (hordered ty List.mem_cons_self).imp fun hlt first hmem next hmem' => ?_
        obtain ⟨_, -, rfl⟩ := List.mem_map.mp hmem
        obtain ⟨_, -, rfl⟩ := List.mem_map.mp hmem'
        exact .rel hlt

/-! ## Unknown types -/

open JoinM (Leads)
open TypeStore (Computes)

variable {store next : TypeStore}

theorem isUnknown_of_computes {ty : Ty} (hlater : Computes store next)
    (hunknown : (ty.isUnknown store).1 = true) : (ty.isUnknown next).1 = true := by
  cases ty with
  | union variants => cases hunknown
  | plain id =>
      have hkind : (store.shape id).kind = .unknown := Option.some.inj (of_decide_eq_true hunknown)
      have hlt : id < store.shapes.size := by
        by_contra hbeyond
        rw [TypeStore.shape_of_size_le (Nat.le_of_not_lt hbeyond)] at hkind
        cases hkind
      exact decide_eq_true (congrArg some ((hlater.later.kind hlt).trans hkind))

theorem leads_unknown : unknown.Leads Computes store fun ty next => (ty.isUnknown next).1 = true :=
  ⟨computes_unknown store, decide_eq_true (congrArg (some ·.kind) (TypeStore.shape_add_self _ _))⟩

/-- Nothing is known of the join of an unknown type with another. -/
theorem leads_join_of_isUnknown (bound : Nat) {a : Ty} (b : Ty)
    (hunknown : (a.isUnknown store).1 = true) :
    (join bound a b).Leads Computes store fun joined last => (joined.isUnknown last).1 = true := by
  have hlooks : ∀ ty : Ty, (JoinM.ofTypes ty.isUnknown).Leads Computes store fun found next =>
      next = store ∧ found = (ty.isUnknown store).1 :=
    fun ty => .ofTypes ⟨follows_isUnknown store ty, by cases ty <;> rfl, rfl⟩
  apply (hlooks a).bind
  rintro found next - ⟨rfl, rfl⟩
  apply (hlooks b).bind
  rintro found next - ⟨rfl, -⟩
  rw [hunknown, Bool.true_or, if_pos rfl]
  exact .ofTypes leads_unknown

theorem leads_joinAll_of_isUnknown (bound : Nat) {first : Ty} (rest : List Ty)
    (hunknown : (first.isUnknown store).1 = true) :
    (joinAll bound (first :: rest)).Leads Computes store fun joined last =>
      ∀ ty ∈ joined, (ty.isUnknown last).1 = true := by
  refine Leads.bind (.foldlM hunknown fun joined ty _ next _ hfound => ?_)
    fun joined next _ hfound => .pure fun ty hsame => Option.some.inj hsame ▸ hfound
  exact leads_join_of_isUnknown bound ty hfound

end Ty

/-- Frames and types are added, and types are not changed otherwise than by computing with them. -/
structure CheckState.Advances (before after : CheckState) : Prop where
  grows : before.Grows after
  computes : before.types.Computes after.types

instance : IsPreorder CheckState CheckState.Advances where
  refl _ := ⟨refl_of CheckState.Grows _, refl_of TypeStore.Computes _⟩
  trans _ _ _ hfirst hnext := ⟨trans_of CheckState.Grows hfirst.grows hnext.grows,
    trans_of TypeStore.Computes hfirst.computes hnext.computes⟩

/-! ## Parameters -/

namespace Frame

variable {graph : ScopeGraph} {parameters : List NodeId} {arguments : List TypeId}
  {before after : Frame} {symbol : SymbolId}

/-- What a frame has for the parameters that received an argument: a plain type, and that of the
argument unless a later parameter has the same name. -/
structure Takes (graph : ScopeGraph) (parameters : List NodeId) (arguments : List TypeId)
    (frame : Frame) : Prop where
  plain : ∀ {position : Nat} {symbol : SymbolId}, position < arguments.length →
    parameters[position]?.bind graph.declared? = some symbol →
      ∃ id, frame.get? symbol = some (.plain id)
  own : ∀ {position : Nat} {symbol : SymbolId} {id : TypeId}, arguments[position]? = some id →
    parameters[position]?.bind graph.declared? = some symbol →
      (∀ later > position, parameters[later]?.bind graph.declared? ≠ some symbol) →
        frame.get? symbol = some (.plain id)

inductive Receives (graph : ScopeGraph) :
    List NodeId → List TypeId → Frame → Frame → Prop
  | done {arguments frame} : Receives graph [] arguments frame frame
  | skip {parameter rest arguments before after} (absent : graph.declared? parameter = none)
      (later : Receives graph rest arguments.tail before after) :
      Receives graph (parameter :: rest) arguments before after
  | bind {parameter rest arguments before after symbol bound}
      (declared : graph.declared? parameter = some symbol)
      (own : ∀ id ∈ arguments.head?, bound = id)
      (later : Receives graph rest arguments.tail (before.bind symbol (.plain bound)) after) :
      Receives graph (parameter :: rest) arguments before after

namespace Receives

theorem get?_eq (h : Receives graph parameters arguments before after)
    (habsent : ∀ position : Nat, parameters[position]?.bind graph.declared? ≠ some symbol) :
    after.get? symbol = before.get? symbol := by
  induction h with
  | done => rfl
  | skip _ _ ih => exact ih fun position => habsent (position + 1)
  | bind hdeclared _ _ ih =>
      have hother : symbol ≠ _ := fun hsame => habsent 0 (hsame ▸ hdeclared)
      rw [ih fun position => habsent (position + 1), get?_bind_of_ne hother]

theorem exists_plain (h : Receives graph parameters arguments before after)
    (hbound : ∃ id, before.get? symbol = some (.plain id)) :
    ∃ id, after.get? symbol = some (.plain id) := by
  induction h with
  | done => exact hbound
  | skip _ _ ih => exact ih hbound
  | @bind _ _ _ _ _ name _ hdeclared _ _ ih =>
      refine ih ?_
      by_cases hsame : symbol = name
      · exact hsame ▸ ⟨_, get?_bind_self _ _ _⟩
      · rwa [get?_bind_of_ne hsame]

theorem takes (h : Receives graph parameters arguments before after) :
    after.Takes graph parameters arguments := by
  induction h with
  | done => exact ⟨fun _ hfound => by simp at hfound, fun _ hfound => by simp at hfound⟩
  | skip habsent _ ih =>
      constructor
      case plain =>
        rintro (_ | position) symbol hwithin hfound
        · cases habsent.symm.trans hfound
        · exact ih.plain (by rw [List.length_tail]; omega) hfound
      case own =>
        rintro (_ | position) symbol id hgiven hfound honly
        · cases habsent.symm.trans hfound
        · exact ih.own (by simpa using hgiven) hfound fun later hlt => honly (later + 1) (by omega)
  | bind hdeclared hown hlater ih =>
      constructor
      case plain =>
        rintro (_ | position) symbol hwithin hfound
        · cases hdeclared.symm.trans hfound
          exact hlater.exists_plain ⟨_, get?_bind_self _ _ _⟩
        · exact ih.plain (by rw [List.length_tail]; omega) hfound
      case own =>
        rintro (_ | position) symbol id hgiven hfound honly
        · cases hdeclared.symm.trans hfound
          have habsent := hlater.get?_eq fun position => honly (position + 1) (by omega)
          rw [habsent, get?_bind_self, hown id (by rwa [List.head?_eq_getElem?])]
        · exact ih.own (by simpa using hgiven) hfound fun later hlt => honly (later + 1) (by omega)

end Receives

end Frame

namespace Check

open CheckM
open FrameStore (size_modify frame_modify_self)

variable {context : CheckContext} {state next last : CheckState} {callee : FrameId}

theorem frames_of_bind {symbol : SymbolId} {ty : Ty} {result : Unit}
    (hended : frames (FrameM.bind callee symbol ty) context state = .ok (result, next)) :
    next.frames = state.frames.modify callee (·.bind symbol ty) :=
  (congrArg Prod.snd (run_of_frames hended).1).symm

theorem receives_of_bindParameters {parameters : List NodeId} {arguments : List TypeId}
    (hlt : callee < state.frames.frames.size)
    (hended : bindParameters callee parameters (arguments.map .plain) context state =
      .ok ((), last)) :
    Frame.Receives context.graph parameters arguments (state.frames.frame callee)
      (last.frames.frame callee) := by
  induction parameters generalizing arguments state with
  | nil =>
      cases hended
      exact .done
  | cons parameter rest ih =>
      obtain ⟨graph, _, hread, hended⟩ := exists_of_bind hended
      cases hread
      cases hdeclared : context.graph.declared? parameter with
      | none =>
          simp only [hdeclared, ← List.map_tail] at hended
          exact .skip hdeclared (ih hlt hended)
      | some symbol =>
          have hgoesOn {start : CheckState} {bound : TypeId} (hsame : start.frames = state.frames)
              (hown : ∀ id ∈ arguments.head?, bound = id)
              (hended : (do
                frames (FrameM.bind callee symbol (.plain bound))
                bindParameters callee rest (arguments.tail.map .plain)) context start =
                  .ok ((), last)) :
              Frame.Receives context.graph (parameter :: rest) arguments (state.frames.frame callee)
                (last.frames.frame callee) := by
            obtain ⟨_, next, hrun, hended⟩ := exists_of_bind hended
            have hchanged := frames_of_bind hrun
            rw [hsame] at hchanged
            have hlater := ih (by rwa [hchanged, size_modify]) hended
            rw [hchanged, frame_modify_self hlt] at hlater
            exact .bind hdeclared hown hlater
          simp only [hdeclared, ← List.map_tail] at hended
          cases arguments with
          | nil =>
              obtain ⟨undefined, _, hmade, hended⟩ := exists_of_bind hended
              cases hmade
              refine hgoesOn ?_ nofun hended
              rfl
          | cons id arguments =>
              obtain ⟨argument, _, htaken, hended⟩ := exists_of_bind hended
              cases htaken
              exact hgoesOn rfl (fun _ hsame => Option.some.inj hsame) hended

end Check

/-! ## One call -/

/-- A call of a function: the frame and the node it stands in, the type, node and origin of the
function, and what becomes `this`. -/
structure Invocation where
  frame : FrameId
  site : NodeId
  function : TypeId
  node : NodeId
  origin : FrameId
  receiver : Ty

namespace FrameM

/-- Recursion is detected where the function is among those that are being called. -/
theorem exists_run_detectRecursion (store : FrameStore) (current : FrameId) (callee : NodeId) :
    ∃ next, (detectRecursion current callee).run store =
        (.ok (decide (callee ∈ store.calls current)), next) ∧
      (callee ∉ store.calls current → next = store) := by
  let calls := (store.callStack current).filter fun id => (store.frame id).isCall
  have hrun : (detectRecursion current callee).run store =
      (if calls.any fun id => (store.frame id).node = callee then do
          calls.head?.forM fun innermost => update innermost ({ · with recursive := true })
          return true
        else return false : FrameM Bool).run store := rfl
  have hdetects : (calls.any fun id => (store.frame id).node = callee) =
      decide (callee ∈ store.calls current) := by
    rw [Bool.eq_iff_iff, List.any_eq_true, decide_eq_true_iff]
    simp only [FrameStore.calls, List.mem_map, decide_eq_true_eq]
    rfl
  rw [hrun, hdetects]
  by_cases hcalled : callee ∈ store.calls current
  · simp only [hcalled, decide_true, if_true, not_true, false_implies, and_true]
    cases calls.head? <;> exact ⟨_, rfl⟩
  · simp only [hcalled, decide_false]
    exact ⟨store, rfl, fun _ => rfl⟩

end FrameM

namespace Invocation

open CheckM

variable {context : CheckContext} {state next last entered : CheckState} {eval : Evaluator}
  {call : Invocation} {choice : List TypeId} {result : Ty}

/-- The call is one of a function that is being called already. -/
def CutIn (call : Invocation) (store : FrameStore) : Prop :=
  ((FrameM.detectRecursion call.frame call.node).run store).1 = .ok true

theorem cutIn_iff {store : FrameStore} :
    call.CutIn store ↔ call.node ∈ store.calls call.frame := by
  obtain ⟨next, hrun, -⟩ := FrameM.exists_run_detectRecursion store call.frame call.node
  rw [CutIn, hrun]
  simp

def enter (call : Invocation) (arguments : List Ty) : CheckM (FrameId × FunctionShape) := do
  let tree ← tree
  let graph ← graph
  match tree.function? call.node with
  | none => missingChild call.site "Function"
  | some shape =>
      let callee ← frames
        (FrameM.enterCallee tree graph call.frame call.site call.node call.origin)
      let scope := graph.scopeOf call.node
      Check.bindReceiver callee shape scope call.receiver arguments
      Check.bindOwnName callee shape scope (.plain call.function)
      Check.bindParameters callee shape.parameters arguments
      return (callee, shape)

/-- What a call gives, from what the body gives. -/
def leave (callee : FrameId) (result : Ty) : CheckM Ty := do
  if (← frames (FrameM.frameOf callee)).recursive then
    joins fun bound => Ty.widen bound result
  else
    return result

/-- A call is cut, or it enters a frame, follows the body there and leaves. -/
theorem enterFunction_eq (eval : Evaluator) (call : Invocation) (arguments : List Ty) :
    Check.enterFunction eval call.frame call.site (.plain call.function) call.node call.origin
        call.receiver arguments =
      (do
        if ← frames (FrameM.detectRecursion call.frame call.node) then types Ty.unknown
        else
          let (callee, shape) ← call.enter arguments
          leave callee (← Check.runBody eval callee shape)) := by
  unfold Check.enterFunction enter leave
  refine congrArg _ (funext fun cut => ?_)
  split
  · rfl
  · simp only [bind_assoc]
    refine congrArg _ (funext fun tree => congrArg _ (funext fun graph => ?_))
    cases tree.function? call.node with
    | none => rfl
    | some shape => simp only [bind_assoc, pure_bind]

theorem spec_of_enter {callee : FrameId} {shape : FunctionShape}
    (hended : call.enter (choice.map .plain) context state = .ok ((callee, shape), entered)) :
    context.tree.function? call.node = some shape ∧ callee = state.frames.frames.size ∧
      (entered.frames.frame callee).Takes context.graph shape.parameters choice := by
  obtain ⟨tree, _, hread, hended⟩ := exists_of_bind hended
  cases hread
  obtain ⟨graph, _, hread, hended⟩ := exists_of_bind hended
  cases hread
  cases hfound : context.tree.function? call.node with
  | none =>
      simp only [hfound] at hended
      cases hended
  | some shape =>
      simp only [hfound] at hended
      obtain ⟨callee, inside, hrun, hended⟩ := exists_of_bind hended
      obtain ⟨_, received, hreceiver, hended⟩ := exists_of_bind hended
      obtain ⟨_, named, hown, hended⟩ := exists_of_bind hended
      obtain ⟨_, bound, hparameters, hended⟩ := exists_of_bind hended
      cases hended
      have hgrows : inside.Grows named :=
        trans_of CheckState.Grows (Check.grows_bindReceiver _ _ _ _ _ _ _ _ _ hreceiver)
          (Check.grows_bindOwnName _ _ _ _ _ _ _ _ hown)
      have hadded : callee = state.frames.frames.size ∧ callee < inside.frames.frames.size := by
        have hran := (run_of_frames hrun).1
        rcases FrameM.run_enterCallee context.tree context.graph call.frame call.site call.node
          call.origin state.frames with ⟨fault, hfails⟩ | ⟨-, henters⟩
        · cases hfails.symm.trans hran
        · obtain ⟨hsame, hframes⟩ := Prod.mk.inj (henters.symm.trans hran)
          rw [← hframes, FrameStore.size_add, ← Except.ok.inj hsame]
          exact ⟨rfl, Nat.lt_succ_self _⟩
      have hreceives := Check.receives_of_bindParameters
        (Nat.lt_of_lt_of_le hadded.2 hgrows.size_le) hparameters
      exact ⟨rfl, hadded.1, hreceives.takes⟩

/-- The body of a function is followed once in a frame.  An expression gives its type, statements
give what was returned to the frame when they are done. -/
inductive FollowsBody (context : CheckContext) (eval : Evaluator) (callee : FrameId)
    (shape : FunctionShape) (entered : CheckState) : Ty → CheckState → Prop
  | expression {ty : Ty} {left : CheckState} (kind : shape.expressionBody = true)
    (follows : eval.expression callee shape.body context entered = .ok (ty, left)) :
    FollowsBody context eval callee shape entered ty left
  | statement {ty : Ty} {followed left : CheckState} (kind : shape.expressionBody = false)
    (follows : eval.statement callee shape.body context entered = .ok ((), followed))
    (gives : Check.joinOr (followed.frames.frame callee).returned Ty.undefined context followed =
      .ok (ty, left)) :
    FollowsBody context eval callee shape entered ty left

theorem runBody_eq_ok_iff {callee : FrameId} {shape : FunctionShape} {body : Ty}
    {left : CheckState} : Check.runBody eval callee shape context entered = .ok (body, left) ↔
      FollowsBody context eval callee shape entered body left := by
  unfold Check.runBody
  cases hkind : shape.expressionBody with
  | true =>
      refine ⟨fun hfollows => .expression hkind hfollows, fun h => ?_⟩
      cases h with
      | expression _ hfollows => exact hfollows
      | statement hother => cases hkind.symm.trans hother
  | false =>
      refine ⟨fun hended => ?_, fun h => ?_⟩
      · obtain ⟨_, followed, hfollows, hended⟩ := exists_of_bind hended
        exact .statement hkind hfollows hended
      · cases h with
        | expression hother => cases hkind.symm.trans hother
        | statement _ hfollows hgives =>
            rw [if_neg Bool.false_ne_true, bind_apply, hfollows]
            exact hgives

/-- A visit: the call is not cut, its frame is entered, the body is followed there, and it is
left.  When the body begins, the frame is a new one that has for the parameters what was given. -/
inductive Visit (context : CheckContext) (eval : Evaluator) (call : Invocation)
    (choice : List TypeId) (start next : CheckState) : Prop
  | intro {shape : FunctionShape} {callee : FrameId} {entered left : CheckState} {body result : Ty}
    (uncut : ¬ call.CutIn start.frames)
    (function : context.tree.function? call.node = some shape)
    (enters : call.enter (choice.map .plain) context start = .ok ((callee, shape), entered))
    (fresh : callee = start.frames.frames.size)
    (takes : (entered.frames.frame callee).Takes context.graph shape.parameters choice)
    (follows : FollowsBody context eval callee shape entered body left)
    (leaves : leave callee body context left = .ok (result, next))

/-- A call that is cut: nothing is entered, and nothing is known of what it gives. -/
def Cut (context : CheckContext) (call : Invocation) (start next : CheckState) : Prop :=
  ∃ marked unknown, call.CutIn start.frames ∧
    frames (FrameM.detectRecursion call.frame call.node) context start = .ok (true, marked) ∧
      types Ty.unknown context marked = .ok (unknown, next)

variable {arguments : List Ty}

/-- A call whose arguments are no unions is a visit if it is not cut. -/
theorem visit_of_enterFunction (huncut : ¬ call.CutIn state.frames)
    (hended : Check.enterFunction eval call.frame call.site (.plain call.function) call.node
      call.origin call.receiver (choice.map .plain) context state = .ok (result, next)) :
    call.Visit context eval choice state next := by
  rw [enterFunction_eq] at hended
  obtain ⟨cut, checked, hdetected, hended⟩ := exists_of_bind hended
  have habsent := mt cutIn_iff.mpr huncut
  obtain ⟨_, hrun, hstays⟩ :=
    FrameM.exists_run_detectRecursion state.frames call.frame call.node
  rw [decide_eq_false habsent, hstays habsent] at hrun
  cases hdetected.symm.trans (frames_of_run hrun)
  obtain ⟨⟨callee, shape⟩, entered, henters, hended⟩ := exists_of_bind hended
  obtain ⟨body, left, hfollows, hleaves⟩ := exists_of_bind hended
  obtain ⟨hfunction, hfresh, htakes⟩ := spec_of_enter henters
  exact ⟨huncut, hfunction, henters, hfresh, htakes, runBody_eq_ok_iff.mp hfollows, hleaves⟩

/-- A call of a function that is being called already is cut, and gives something unknown. -/
theorem cut_of_enterFunction (hcut : call.CutIn state.frames)
    (hended : Check.enterFunction eval call.frame call.site (.plain call.function) call.node
      call.origin call.receiver arguments context state = .ok (result, next)) :
    call.Cut context state next ∧ state.Advances next ∧
      (result.isUnknown next.types).1 = true := by
  rw [enterFunction_eq] at hended
  obtain ⟨found, marked, hdetected, hended⟩ := exists_of_bind hended
  have hfinds := hcut
  rw [CutIn, (run_of_frames hdetected).1] at hfinds
  cases hfinds
  refine ⟨⟨marked, result, hcut, hdetected, hended⟩, ?_⟩
  have hgrows : state.Grows marked := Follows.frames (.detectRecursion _ _) _ _ _ _ hdetected
  have hsame : marked.types = state.types := by rw [(run_of_frames hdetected).2]
  have hunknown : TypeM.Leads TypeStore.Computes marked.types Ty.unknown _ := Ty.leads_unknown
  cases hended
  exact ⟨⟨hgrows, hsame ▸ hunknown.1⟩, hunknown.2⟩

end Invocation

/-! ## Trips -/

/-- Steps for some items, one after the other, from state to state.  Between them nothing happens
but that results are joined. -/
inductive Trip {α : Type} (context : CheckContext) (Step : α → CheckState → CheckState → Prop) :
    List α → CheckState → CheckState → Prop
  | done {state} : Trip context Step [] state state
  | step {item items state next last} (first : Step item state next)
      (rest : Trip context Step items next last) : Trip context Step (item :: items) state last
  | join {results ty items state next last}
      (joined : Check.joinOr results Ty.unknown context state = .ok (ty, next))
      (rest : Trip context Step items next last) : Trip context Step items state last

theorem Trip.append {α : Type} {context : CheckContext}
    {Step : α → CheckState → CheckState → Prop} {items items' : List α}
    {state next last : CheckState} (h : Trip context Step items state next)
    (h' : Trip context Step items' next last) : Trip context Step (items ++ items') state last := by
  induction h with
  | done => exact h'
  | step hfirst _ ih => exact .step hfirst (ih h')
  | join hjoined _ ih => exact .join hjoined (ih h')

namespace CheckM

variable {α β ι : Type} {context : CheckContext} {R : CheckState → CheckState → Prop}
  {Step : ι → CheckState → CheckState → Prop} {items items' : List ι} {state : CheckState}
  {post : α → CheckState → Prop} {rest : β → CheckState → Prop}

/-- A computation that succeeds takes a trip to a state that is related to the one it began in,
and to a result as described. -/
def Tours (context : CheckContext) (R : CheckState → CheckState → Prop)
    (Step : ι → CheckState → CheckState → Prop) (items : List ι) (state : CheckState)
    (computation : CheckM α) (post : α → CheckState → Prop) : Prop :=
  ∀ result last, computation context state = .ok (result, last) →
    Trip context Step items state last ∧ R state last ∧ post result last

namespace Tours

variable [IsPreorder CheckState R]

theorem pure {result : α} (h : post result state) :
    Tours context R Step [] state (Pure.pure result) post := by
  intro _ _ hended
  cases hended
  exact ⟨.done, refl_of R state, h⟩

theorem bind {computation : CheckM α} {f : α → CheckM β}
    (h : Tours context R Step items state computation post)
    (hf : ∀ result next, R state next → post result next →
      Tours context R Step items' next (f result) rest) :
    Tours context R Step (items ++ items') state (computation >>= f) rest := by
  intro result last hended
  obtain ⟨first, next, hrun, hended⟩ := exists_of_bind hended
  obtain ⟨htrip, hrelated, holds⟩ := h first next hrun
  obtain ⟨htrip', hrelated', holds'⟩ := hf first next hrelated holds result last hended
  exact ⟨htrip.append htrip', trans_of R hrelated hrelated', holds'⟩

/-- Of the results of a list of computations the first is as described still in the end, if what
is described lasts. -/
theorem mapM {list : List β} {f : β → CheckM α} {parts : β → List ι}
    (hlasts : ∀ result state next, post result state → R state next → post result next)
    (hf : ∀ item next, R state next → Tours context R Step (parts item) next (f item) post) :
    Tours context R Step (list.flatMap parts) state (list.mapM f) fun results last =>
      ∀ first ∈ results.head?, post first last := by
  induction list generalizing state with
  | nil =>
      rw [List.mapM_nil]
      exact .pure nofun
  | cons item list ih =>
      rw [List.mapM_cons, List.flatMap_cons]
      refine (hf item state (refl_of R state)).bind fun first next hrelated holds => ?_
      rw [← List.append_nil (list.flatMap parts)]
      refine (ih fun other later hrelated' => hf other later (trans_of R hrelated hrelated')).bind
        fun results last hrelated' _ => .pure ?_
      intro _ hsame
      cases hsame
      exact hlasts _ _ _ holds hrelated'

end Tours

end CheckM

namespace Check

open CheckM

variable {context : CheckContext} {R : CheckState → CheckState → Prop} [IsPreorder CheckState R]
  {Step : List TypeId → CheckState → CheckState → Prop} {Yields : Ty → CheckState → Prop}

theorem tours_splitArguments {enter : List Ty → CheckM Ty} {state : CheckState}
    (hlasts : ∀ result state next, Yields result state → R state next → Yields result next)
    (hjoins : ∀ results next, R state next → (∀ first ∈ results.head?, Yields first next) →
      Tours context R Step [] next (joinOr results Ty.unknown) Yields)
    (hsteps : ∀ choice next, R state next →
      Tours context R Step [choice] next (enter (choice.map .plain)) Yields)
    (chosen : List TypeId) (arguments : List Ty) :
    Tours context R Step ((Ty.choices arguments).map (chosen.reverse ++ ·)) state
      (splitArguments enter (chosen.map .plain) arguments) Yields := by
  induction arguments generalizing chosen state with
  | nil =>
      have hbase := hsteps chosen.reverse state (refl_of R state)
      simpa [Ty.choices, splitArguments] using hbase
  | cons argument rest ih =>
      cases argument with
      | plain id =>
          have hdeeper := ih hjoins hsteps (id :: chosen)
          simpa [Ty.choices, Ty.variants, splitArguments, Function.comp_def] using hdeeper
      | union variants =>
          have hparts : (Ty.choices (.union variants :: rest)).map (chosen.reverse ++ ·) =
              (variants.flatMap fun id =>
                (Ty.choices rest).map ((id :: chosen).reverse ++ ·)) ++ [] := by
            simp [Ty.choices, Ty.variants, List.map_flatMap, Function.comp_def]
          have heach : Tours context R Step
              (variants.flatMap fun id => (Ty.choices rest).map ((id :: chosen).reverse ++ ·)) state
              (variants.mapM fun id => splitArguments enter (.plain id :: chosen.map .plain) rest)
              fun results last => ∀ first ∈ results.head?, Yields first last :=
            .mapM hlasts fun id next hrelated =>
              ih (fun results later hrelated' =>
                hjoins results later (trans_of R hrelated hrelated'))
                (fun choice later hrelated' => hsteps choice later (trans_of R hrelated hrelated'))
                (id :: chosen)
          rw [hparts]
          exact heach.bind hjoins

variable {state : CheckState}

theorem tours_joinOr (results : List Ty) :
    Tours context CheckState.Grows Step [] state (joinOr results Ty.unknown) fun _ _ => True :=
  fun _ _ hended => ⟨.join hended .done,
    Follows.of_still (still_joinOr _ _) _ _ _ _ hended, trivial⟩

/-- Nothing is known of a join of results where nothing is known of the first. -/
theorem tours_joinOr_of_isUnknown {results : List Ty}
    (hunknown : ∀ first ∈ results.head?, (first.isUnknown state.types).1 = true) :
    Tours context CheckState.Advances Step [] state (joinOr results Ty.unknown)
      fun ty last => (ty.isUnknown last.types).1 = true := by
  intro result last hended
  refine ⟨.join hended .done, ?_⟩
  have hgrows : state.Grows last := Follows.of_still (still_joinOr _ _) _ _ _ _ hended
  obtain ⟨joined, next, hrun, hended⟩ := exists_of_bind hended
  obtain ⟨hrun, -⟩ := run_of_joins hrun
  have hleads : (Ty.joinAll context.joinBound results).Leads TypeStore.Computes state.types
      fun joined last => ∀ ty ∈ joined, (ty.isUnknown last).1 = true := by
    cases results with
    | nil => exact .pure nofun
    | cons first rest => exact Ty.leads_joinAll_of_isUnknown _ rest (hunknown first rfl)
  obtain ⟨hcomputes, hfound⟩ := hleads joined next.types hrun
  cases joined with
  | some ty =>
      cases hended
      exact ⟨⟨hgrows, hcomputes⟩, hfound _ rfl⟩
  | none =>
      have hmade : TypeM.Leads TypeStore.Computes next.types Ty.unknown _ := Ty.leads_unknown
      cases hended
      exact ⟨⟨hgrows, trans_of TypeStore.Computes hcomputes hmade.1⟩, hmade.2⟩

end Check

namespace Invocation

open CheckM

variable {context : CheckContext} {state last : CheckState} {eval : Evaluator}
  {call : Invocation}

/-- Frames that are added do not change whether a call is cut. -/
theorem cutIn_of_grows {next : CheckState} (hgrows : state.Grows next)
    (hlt : call.frame < state.frames.frames.size) :
    call.CutIn next.frames ↔ call.CutIn state.frames := by
  rw [cutIn_iff, cutIn_iff, hgrows.calls hlt]

/-- Calling one variant of a callee splits the arguments, if it is a function that came about
while code ran. -/
theorem splitArguments_of_invokePlain {arguments : List Ty} {result : Ty} {tag : Nat}
    (hclosure : (state.types.shape call.function).callable =
      some ⟨tag, call.node, some call.origin⟩)
    (hended : Check.invokePlain eval call.frame call.site call.receiver arguments call.function
      context state = .ok (result, last)) :
    Check.splitArguments (Check.enterFunction eval call.frame call.site (.plain call.function)
      call.node call.origin call.receiver) [] arguments context state = .ok (result, last) := by
  have hreads : types (Ty.plain call.function).callable? context state =
      .ok ((state.types.shape call.function).callable, state) := rfl
  rw [hclosure] at hreads
  obtain ⟨callable, next, hread, hended⟩ := exists_of_bind hended
  cases hreads.symm.trans hread
  exact hended

theorem tours_visits (hgrows : eval.Grows) (hlt : call.frame < state.frames.frames.size)
    (huncut : ¬ call.CutIn state.frames) (arguments : List Ty) :
    Tours context CheckState.Grows (call.Visit context eval) (Ty.choices arguments) state
      (Check.splitArguments (Check.enterFunction eval call.frame call.site (.plain call.function)
        call.node call.origin call.receiver) [] arguments) fun _ _ => True := by
  have hsteps (choice : List TypeId) (next : CheckState) (hlater : state.Grows next) :
      Tours context CheckState.Grows (call.Visit context eval) [choice] next
        (Check.enterFunction eval call.frame call.site (.plain call.function) call.node
          call.origin call.receiver (choice.map .plain)) fun _ _ => True := by
    intro result after hended
    have hvisit := visit_of_enterFunction (mt (cutIn_of_grows hlater hlt).mp huncut) hended
    have hadded := Check.grows_enterFunction hgrows _ _ _ _ _ _ _ _ _ _ _ hended
    exact ⟨.step hvisit .done, hadded, trivial⟩
  simpa using Check.tours_splitArguments (fun _ _ _ h _ => h)
    (fun results _ _ _ => Check.tours_joinOr results) hsteps [] arguments

theorem tours_cuts (hlt : call.frame < state.frames.frames.size) (hcut : call.CutIn state.frames)
    (arguments : List Ty) :
    Tours context CheckState.Advances (fun _ => call.Cut context) (Ty.choices arguments) state
      (Check.splitArguments (Check.enterFunction eval call.frame call.site (.plain call.function)
        call.node call.origin call.receiver) [] arguments)
      fun ty last => (ty.isUnknown last.types).1 = true := by
  have hsteps (choice : List TypeId) (next : CheckState) (hlater : state.Advances next) :
      Tours context CheckState.Advances (fun _ => call.Cut context) [choice] next
        (Check.enterFunction eval call.frame call.site (.plain call.function) call.node
          call.origin call.receiver (choice.map .plain))
        fun ty last => (ty.isUnknown last.types).1 = true := by
    intro result after hended
    obtain ⟨hisCut, hadvances, hunknown⟩ :=
      cut_of_enterFunction ((cutIn_of_grows hlater.grows hlt).mpr hcut) hended
    exact ⟨.step hisCut .done, hadvances, hunknown⟩
  have hlasts (ty : Ty) (state next : CheckState) (hunknown : (ty.isUnknown state.types).1 = true)
      (hlater : state.Advances next) : (ty.isUnknown next.types).1 = true :=
    Ty.isUnknown_of_computes hlater.computes hunknown
  simpa using Check.tours_splitArguments hlasts
    (fun _ _ _ hunknown => Check.tours_joinOr_of_isUnknown hunknown) hsteps [] arguments

/-- A call of a function that ends visits its body once for every choice of variants of the
arguments, in lexicographic order, and each visit begins with no union bound to a parameter that
received an argument.  If the function is being called already, the call is cut for every choice,
and nothing is known of what it gives. -/
theorem invokePlain_each_choice {arguments : List Ty} {result : Ty} {tag : Nat} (depth : Nat)
    (hlt : call.frame < state.frames.frames.size)
    (hclosure : (state.types.shape call.function).callable =
      some ⟨tag, call.node, some call.origin⟩)
    (hended : Check.invokePlain (.upTo depth) call.frame call.site call.receiver arguments
      call.function context state = .ok (result, last)) :
    (¬ call.CutIn state.frames →
      Trip context (call.Visit context (.upTo depth)) (Ty.choices arguments) state last) ∧
    (call.CutIn state.frames →
      Trip context (fun _ => call.Cut context) (Ty.choices arguments) state last ∧
        (result.isUnknown last.types).1 = true) := by
  have hsplit := splitArguments_of_invokePlain hclosure hended
  constructor
  · intro huncut
    have hgrows := Evaluator.grows_upTo depth
    exact (tours_visits hgrows hlt huncut arguments result last hsplit).1
  · intro hcut
    obtain ⟨htrip, -, hunknown⟩ := tours_cuts hlt hcut arguments result last hsplit
    exact ⟨htrip, hunknown⟩

/-- A program that is a function of two parameters. -/
def pairTree : Tree :=
  let tokens := (Lexer.tokenize "(x, y) => x;").toOption.getD []
  (Tree.ofTokens tokens "").toOption.getD ⟨#[], 0, ""⟩

def pairContext : CheckContext where
  tree := pairTree
  graph := (ScopeGraph.build pairTree [] (.empty true)).1
  options := {}
  joinBound := 8

def pairState : CheckState where
  types := {
    shapes := #[{ kind := .function, callable := some ⟨0, 3, some 0⟩ }, { kind := .number },
      { kind := .string }, { kind := .boolean }] }
  frames := ((FrameM.root pairContext.graph pairTree.root).run {}).2.add
    (.ofCall pairContext.graph 0 4 3 0)
  diagnostics := .empty true
  memo := Folding.Memo.empty pairTree

def pairCall (frame : FrameId) : Invocation := ⟨frame, 4, 0, 3, 0, .plain 3⟩

/-- With two unions of two there are four visits from the outermost frame, and four cuts from
inside of the function. -/
theorem invokePlain_each_choice_pair :
    let arguments : List Ty := [.union [1, 2], .union [2, 3]]
    let choices := [[1, 2], [1, 3], [2, 2], [2, 3]]
    (∃ result last,
      Check.invokePlain (.upTo 2) 0 4 (.plain 3) arguments 0 pairContext pairState =
        .ok (result, last) ∧
      Trip pairContext ((pairCall 0).Visit pairContext (.upTo 2)) choices pairState last) ∧
    ∃ result last,
      Check.invokePlain (.upTo 2) 1 4 (.plain 3) arguments 0 pairContext pairState =
        .ok (result, last) ∧
      Trip pairContext (fun _ => (pairCall 1).Cut pairContext) choices pairState last ∧
        (result.isUnknown last.types).1 = true := by
  intro arguments choices
  have hclosure (frame : FrameId) : (pairState.types.shape (pairCall frame).function).callable =
      some ⟨0, (pairCall frame).node, some (pairCall frame).origin⟩ := rfl
  have hsucceeds : ∀ frame ∈ [0, 1], (Check.invokePlain (.upTo 2) frame 4 (.plain 3) arguments 0
      pairContext pairState).toOption.isSome = true := by
    decide +kernel
  have hends (frame : FrameId) (hmem : frame ∈ [0, 1]) : ∃ result last,
      Check.invokePlain (.upTo 2) frame 4 (.plain 3) arguments 0 pairContext pairState =
        .ok (result, last) := by
    cases hrun : Check.invokePlain (.upTo 2) frame 4 (.plain 3) arguments 0 pairContext
        pairState with
    | error halt => simpa [hrun, Except.toOption] using hsucceeds frame hmem
    | ok pair => exact ⟨pair.1, pair.2, rfl⟩
  obtain ⟨result, last, hended⟩ := hends 0 (by decide)
  obtain ⟨result', last', hended'⟩ := hends 1 (by decide)
  have houtside := invokePlain_each_choice 2 (by decide +kernel) (hclosure 0) hended
  have hinside := invokePlain_each_choice 2 (by decide +kernel) (hclosure 1) hended'
  refine ⟨⟨result, last, hended, houtside.1 ?_⟩, result', last', hended', hinside.2 ?_⟩
  · rw [cutIn_iff]
    decide +kernel
  · rw [cutIn_iff]
    decide +kernel

end Invocation

end ScriptCheck
