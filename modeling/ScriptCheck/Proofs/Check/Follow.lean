import Mathlib.Order.Defs.Unbundled
import ScriptCheck.Check.Monad

/-!
# Where following a script leads

A step in following a script leads from one state to another, if it does not end the check.  What
it can do to the state is said by a preorder on states, and whatever is put together from steps
that respect the preorder respects it.
-/

namespace ScriptCheck

namespace CheckM

variable {α β : Type}

theorem bind_apply (computation : CheckM α) (f : α → CheckM β) (context : CheckContext)
    (state : CheckState) :
    (computation >>= f) context state =
      (computation context state).bind fun next => f next.1 context next.2 := rfl

/-- A run of two steps is one of the first and, from where that leads, one of the second. -/
theorem exists_of_bind {computation : CheckM α} {f : α → CheckM β} {context : CheckContext}
    {state last : CheckState} {result : β}
    (hended : (computation >>= f) context state = .ok (result, last)) :
    ∃ first next, computation context state = .ok (first, next) ∧
      f first context next = .ok (result, last) := by
  rw [bind_apply] at hended
  cases hrun : computation context state with
  | error halt =>
      rw [hrun] at hended
      cases hended
  | ok pair =>
      rw [hrun] at hended
      exact ⟨pair.1, pair.2, rfl, hended⟩

/-- A computation on frames that does not end the check changes nothing else. -/
theorem run_of_frames {computation : FrameM α} {context : CheckContext} {state next : CheckState}
    {result : α} (hended : frames computation context state = .ok (result, next)) :
    computation.run state.frames = (.ok result, next.frames) ∧
      next = { state with frames := next.frames } := by
  unfold frames at hended
  dsimp only at hended
  split at hended
  · rename_i hrun
    cases hended
    exact ⟨hrun, rfl⟩
  · cases hended

/-- A computation on frames ends if it does on its own. -/
theorem frames_of_run {computation : FrameM α} {context : CheckContext} {state : CheckState}
    {result : α} {store : FrameStore}
    (hrun : computation.run state.frames = (.ok result, store)) :
    frames computation context state = .ok (result, { state with frames := store }) := by
  unfold frames
  dsimp only
  rw [hrun]

theorem joins_eq_ok {computation : Nat → JoinM α} {context : CheckContext} {state : CheckState}
    {result : α} {types : TypeStore}
    (hrun : computation context.joinBound state.types = some (result, types)) :
    joins computation context state = .ok (result, { state with types }) := by
  unfold joins
  dsimp only [StateT.run]
  rw [hrun]

theorem joins_eq_error {computation : Nat → JoinM α} {context : CheckContext} {state : CheckState}
    (hrun : computation context.joinBound state.types = none) :
    joins computation context state = .error .joinExceeded := by
  unfold joins
  dsimp only [StateT.run]
  rw [hrun]

/-- A join of types that does not exceed its bound changes nothing but the types. -/
theorem run_of_joins {computation : Nat → JoinM α} {context : CheckContext}
    {state next : CheckState} {result : α}
    (hended : joins computation context state = .ok (result, next)) :
    computation context.joinBound state.types = some (result, next.types) ∧
      next = { state with types := next.types } := by
  cases hrun : computation context.joinBound state.types with
  | none =>
      rw [joins_eq_error hrun] at hended
      cases hended
  | some pair =>
      rw [joins_eq_ok hrun] at hended
      cases hended
      exact ⟨rfl, rfl⟩

variable {R : CheckState → CheckState → Prop}

/-- A computation that succeeds leads to a state that is related to the one it began in. -/
def Follows (R : CheckState → CheckState → Prop) (computation : CheckM α) : Prop :=
  ∀ context state result next, computation context state = .ok (result, next) → R state next

namespace Follows

theorem throw (halt : Halt) : Follows R (MonadExcept.throw halt : CheckM α) :=
  fun _ _ _ _ hended => by cases hended

theorem ite {c : Prop} [Decidable c] {first second : CheckM α} (h : Follows R first)
    (h' : Follows R second) : Follows R (if c then first else second) := by
  split
  · exact h
  · exact h'

variable [IsPreorder CheckState R]

theorem pure (result : α) : Follows R (Pure.pure result) :=
  fun _ state _ _ hended => by cases hended; exact refl_of R state

theorem bind {computation : CheckM α} {f : α → CheckM β} (h : Follows R computation)
    (hrest : ∀ result, Follows R (f result)) : Follows R (computation >>= f) := by
  intro context state result last hended
  obtain ⟨first, next, hrun, hgoesOn⟩ := exists_of_bind hended
  exact trans_of R (h context state first next hrun) (hrest first context next result last hgoesOn)

theorem read_bind {f : CheckContext → CheckM β} (h : ∀ context, Follows R (f context)) :
    Follows R (read >>= f) :=
  bind (fun _ state _ _ hended => by cases hended; exact refl_of R state) h

theorem tree_bind {f : Tree → CheckM β} (h : ∀ tree, Follows R (f tree)) :
    Follows R (tree >>= f) :=
  bind (fun _ state _ _ hended => by cases hended; exact refl_of R state) h

theorem graph_bind {f : ScopeGraph → CheckM β} (h : ∀ graph, Follows R (f graph)) :
    Follows R (graph >>= f) :=
  bind (fun _ state _ _ hended => by cases hended; exact refl_of R state) h

theorem forM {items : List α} {f : α → CheckM Unit} (h : ∀ item, Follows R (f item)) :
    Follows R (items.forM f) := by
  induction items with
  | nil => exact .pure ()
  | cons item rest ih => exact (h item).bind fun _ => ih

theorem optionForM {item : Option α} {f : α → CheckM Unit} (h : ∀ item, Follows R (f item)) :
    Follows R (item.forM f) := by
  cases item with
  | none => exact .pure ()
  | some item => exact h item

theorem mapM {items : List α} {f : α → CheckM β} (h : ∀ item, Follows R (f item)) :
    Follows R (items.mapM f) := by
  induction items with
  | nil =>
      rw [List.mapM_nil]
      exact .pure []
  | cons item rest ih =>
      rw [List.mapM_cons]
      exact (h item).bind fun _ => ih.bind fun _ => .pure _

theorem foldlM {items : List α} {f : β → α → CheckM β} (h : ∀ b item, Follows R (f b item))
    (start : β) : Follows R (items.foldlM f start) := by
  induction items generalizing start with
  | nil => exact .pure start
  | cons item rest ih =>
      rw [List.foldlM_cons]
      exact (h start item).bind ih

end Follows

end CheckM

end ScriptCheck
