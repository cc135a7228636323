import ScriptCheck.Proofs.Types.Follow

/-!
# Where computations on types lead, and to what

Next to where a computation leads one often has to say what it results in.  What is said of the
result is said of the store that is reached, so every rule hands on both.
-/

namespace ScriptCheck

open TypeStore

/-- A computation on types leads to a store that is related to where it began, and to a result
as described. -/
def TypeM.Leads {α : Type} (R : TypeStore → TypeStore → Prop) (store : TypeStore)
    (computation : TypeM α) (post : α → TypeStore → Prop) : Prop :=
  R store (computation store).2 ∧ post (computation store).1 (computation store).2

/-- A computation that may exceed its bound leads to a related store and to a result as
described, if to any. -/
def JoinM.Leads {α : Type} (R : TypeStore → TypeStore → Prop) (store : TypeStore)
    (computation : JoinM α) (post : α → TypeStore → Prop) : Prop :=
  ∀ result next, computation store = some (result, next) → R store next ∧ post result next

variable {α β : Type} {R : TypeStore → TypeStore → Prop} {store : TypeStore}
  {post : α → TypeStore → Prop} {rest : β → TypeStore → Prop}

namespace TypeM.Leads

theorem follows {computation : TypeM α} (h : Leads R store computation post) :
    Follows R store computation :=
  h.1

theorem mono {computation : TypeM α} {weak : α → TypeStore → Prop}
    (h : Leads R store computation post)
    (himp : ∀ result next, R store next → post result next → weak result next) :
    Leads R store computation weak :=
  ⟨h.1, himp _ _ h.1 h.2⟩

theorem of_follows {computation : TypeM α} (h : Follows R store computation) :
    Leads R store computation fun _ _ => True :=
  ⟨h, trivial⟩

theorem shapeOf_bind {f : Shape → TypeM β} {id : TypeId}
    (hf : Leads R store (f (store.shape id)) rest) : Leads R store (shapeOf id >>= f) rest :=
  hf

variable [IsPreorder TypeStore R]

theorem pure {result : α} (h : post result store) : Leads R store (Pure.pure result) post :=
  ⟨refl_of R store, h⟩

theorem bind {computation : TypeM α} {f : α → TypeM β} (h : Leads R store computation post)
    (hf : ∀ result next, R store next → post result next → Leads R next (f result) rest) :
    Leads R store (computation >>= f) rest := by
  obtain ⟨hnext, hrest⟩ := hf _ _ h.1 h.2
  exact ⟨trans_of R h.1 hnext, hrest⟩

/-- What each step of a loop keeps up holds in the end. -/
theorem foldlM {items : List β} {f : α → β → TypeM α} {start : α} (hstart : post start store)
    (hf : ∀ result, ∀ item ∈ items, ∀ next, R store next → post result next →
      Leads R next (f result item) post) : Leads R store (items.foldlM f start) post := by
  induction items generalizing store start with
  | nil => exact pure hstart
  | cons item items ih =>
      rw [List.foldlM_cons]
      apply (hf start item List.mem_cons_self store (refl_of R store) hstart).bind
      intro result next hnext hresult
      apply ih hresult
      intro result item hitem last hlast
      exact hf result item (List.mem_cons_of_mem _ hitem) last (trans_of R hnext hlast)

theorem anyM {items : List α} {f : α → TypeM Bool} {P : α → Prop}
    (hf : ∀ item ∈ items, ∀ next, R store next →
      Leads R next (f item) fun found _ => found = false → P item) :
    Leads R store (items.anyM f) fun found _ => found = false → ∀ item ∈ items, P item := by
  induction items generalizing store with
  | nil => exact pure fun _ _ hitem => (nomatch hitem)
  | cons item items ih =>
      apply (hf item List.mem_cons_self store (refl_of R store)).bind
      intro found next hnext hfound
      cases found with
      | true => exact pure fun h => (nomatch h)
      | false =>
          refine (ih fun other hother last hlast =>
            hf other (List.mem_cons_of_mem _ hother) last (trans_of R hnext hlast)).mono ?_
          intro found' last hlast hothers hfalse
          rw [List.forall_mem_cons]
          exact ⟨hfound rfl, hothers hfalse⟩

end TypeM.Leads

namespace JoinM.Leads

theorem mono {computation : JoinM α} {weak : α → TypeStore → Prop}
    (h : Leads R store computation post)
    (himp : ∀ result next, R store next → post result next → weak result next) :
    Leads R store computation weak := by
  intro result next hrun
  obtain ⟨hnext, hpost⟩ := h result next hrun
  exact ⟨hnext, himp result next hnext hpost⟩

theorem fail : Leads R store (failure : JoinM α) post := by
  intro _ _ hrun
  cases hrun

theorem ofTypes {computation : TypeM α} (h : TypeM.Leads R store computation post) :
    Leads R store (JoinM.ofTypes computation) post := by
  intro result next hrun
  have hpair : computation store = (result, next) := Option.some.inj hrun
  unfold TypeM.Leads at h
  rwa [hpair] at h

theorem get_bind {f : TypeStore → JoinM β} (hf : Leads R store (f store) rest) :
    Leads R store (get >>= f) rest :=
  hf

variable [IsPreorder TypeStore R]

theorem pure {result : α} (h : post result store) : Leads R store (Pure.pure result) post := by
  intro _ _ hrun
  cases hrun
  exact ⟨refl_of R store, h⟩

theorem bind {computation : JoinM α} {f : α → JoinM β} (h : Leads R store computation post)
    (hf : ∀ result next, R store next → post result next → Leads R next (f result) rest) :
    Leads R store (computation >>= f) rest := by
  intro last after hrun
  obtain ⟨⟨result, next⟩, hfirst, hrest⟩ := Option.bind_eq_some_iff.mp hrun
  obtain ⟨hnext, hpost⟩ := h result next hfirst
  obtain ⟨hafter, hlast⟩ := hf result next hnext hpost last after hrest
  exact ⟨trans_of R hnext hafter, hlast⟩

/-- What each step of a loop keeps up holds in the end. -/
theorem foldlM {items : List β} {f : α → β → JoinM α} {start : α} (hstart : post start store)
    (hf : ∀ result, ∀ item ∈ items, ∀ next, R store next → post result next →
      Leads R next (f result item) post) : Leads R store (items.foldlM f start) post := by
  induction items generalizing store start with
  | nil => exact pure hstart
  | cons item items ih =>
      rw [List.foldlM_cons]
      apply (hf start item List.mem_cons_self store (refl_of R store) hstart).bind
      intro result next hnext hresult
      apply ih hresult
      intro result item hitem last hlast
      exact hf result item (List.mem_cons_of_mem _ hitem) last (trans_of R hnext hlast)

end JoinM.Leads

end ScriptCheck
