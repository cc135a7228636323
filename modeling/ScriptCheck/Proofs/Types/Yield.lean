import ScriptCheck.Proofs.Types.Merge
import ScriptCheck.Proofs.Types.Names
import ScriptCheck.Proofs.Types.Sight

/-!
# Joins cover what they join

What a join yields covers both of its parts along the paths one cares about, wherever one
looks later on, provided that the objects it keeps for others cover these along the rest
of such a path.
-/

namespace ScriptCheck

open TypeStore

/-- From a store, a computation leads to a lawful later store and to a result as
described, if to any. -/
def JoinM.Yields {α : Type} (store : TypeStore) (computation : JoinM α)
    (post : α → TypeStore → Prop) : Prop :=
  ∀ result next, computation store = some (result, next) →
    next.Lawful ∧ Later store next ∧ post result next

namespace JoinM.Yields

variable {α β : Type} {store : TypeStore} {post : α → TypeStore → Prop}
  {rest : β → TypeStore → Prop}

theorem pure (hlawful : store.Lawful) {result : α} (h : post result store) :
    Yields store (Pure.pure result) post := by
  intro _ _ hrun
  cases hrun
  exact ⟨hlawful, .refl store, h⟩

theorem fail : Yields store (failure : JoinM α) post := by
  intro _ _ hrun
  cases hrun

theorem bind {computation : JoinM α} {f : α → JoinM β} (h : Yields store computation post)
    (hf : ∀ result next, next.Lawful → Later store next → post result next →
      Yields next (f result) rest) : Yields store (computation >>= f) rest := by
  intro last after hrun
  obtain ⟨⟨result, next⟩, hfirst, hrest⟩ := Option.bind_eq_some_iff.mp hrun
  obtain ⟨hlawful, hlater, hpost⟩ := h result next hfirst
  obtain ⟨hlawful', hlater', hrest'⟩ := hf result next hlawful hlater hpost last after hrest
  exact ⟨hlawful', hlater.trans hlater', hrest'⟩

theorem mono {computation : JoinM α} {weak : α → TypeStore → Prop}
    (h : Yields store computation post)
    (himp : ∀ result next, Later store next → post result next → weak result next) :
    Yields store computation weak := by
  intro result next hrun
  obtain ⟨hlawful, hlater, hpost⟩ := h result next hrun
  exact ⟨hlawful, hlater, himp result next hlater hpost⟩

theorem ofTypes {computation : TypeM α} (hlawful : store.Lawful)
    (hlooks : TypeM.Follows Looks store computation)
    (h : post (computation store).1 (computation store).2) :
    Yields store (JoinM.ofTypes computation) post := by
  intro result next hrun
  have hpair : computation store = (result, next) := Option.some.inj hrun
  unfold TypeM.Follows at hlooks
  rw [hpair] at hlooks h
  exact ⟨hlawful.of_looks hlooks, hlooks.later, h⟩

theorem looks {computation : TypeM α} (hlawful : store.Lawful)
    (hlooks : TypeM.Follows Looks store computation) :
    Yields store (JoinM.ofTypes computation) (fun _ _ => True) :=
  ofTypes hlawful hlooks trivial

theorem ofTypes_bind {computation : TypeM α} {f : α → TypeM β}
    (h : Yields store (JoinM.ofTypes computation >>= fun result => JoinM.ofTypes (f result)) rest) :
    Yields store (JoinM.ofTypes (computation >>= f)) rest :=
  h

theorem guard_bind {condition : Bool} {computation : JoinM β}
    (h : condition = true → Yields store computation rest) :
    Yields store (guard condition >>= fun _ => computation) rest := by
  cases condition with
  | true => exact h rfl
  | false =>
      intro _ _ hrun
      cases hrun

end JoinM.Yields

/-! ## What is covered -/

def TypeStore.Retains (final : TypeStore) (along : List String → Prop) (store : TypeStore)
    (whole : Ty) (id : TypeId) : Prop :=
  Later store final → final.Lawful → ∀ path, along path → final.Covers path whole (.plain id)

namespace TypeStore.Retains

variable {final store next : TypeStore} {along : List String → Prop} {whole other : Ty}
  {id : TypeId}

theorem self (h : id ∈ whole.variants) : Retains final along store whole id :=
  fun _ _ _ _ => .of_mem h (.refl _)

theorem of_mem {part : TypeId} (hpart : part ∈ whole.variants)
    (h : Retains final along store (.plain part) id) : Retains final along store whole id :=
  fun hfinal hlawful path hpath => .of_mem hpart (h hfinal hlawful path hpath)

theorem widen (h : Retains final along store other id) (hlater : Later store next)
    (hwhole : ∀ part ∈ other.variants, Retains final along next whole part) :
    Retains final along next whole id := by
  intro hfinal hlawful path hpath
  have hcovers : final.Covers path whole other :=
    .of_variants fun part hpart => hwhole part hpart hfinal hlawful path hpath
  exact hcovers.trans (h (hlater.trans hfinal) hlawful path hpath)

theorem of_unknown {unknown : Nat} (hlt : unknown < store.shapes.size)
    (hkind : (store.shape unknown).kind = .unknown) :
    Retains final along store (.plain unknown) id := by
  intro hfinal _ path _ sight _
  have hlast : (final.shape unknown).kind = .unknown := by rw [hfinal.kind hlt, hkind]
  exact ⟨.unknown, sees_plain.mpr (seesAt_of_unknown hlast), trivial⟩

end TypeStore.Retains

namespace Ty

open JoinM (ofTypes Yields)

variable {final : TypeStore} {along : List String → Prop} {store : TypeStore}

/-- A plain type stands for two others. -/
structure Merged (final : TypeStore) (along : List String → Prop) (store : TypeStore) (a b : TypeId)
    (merged : Nat) : Prop where
  lt : merged < store.shapes.size
  known : (store.shape a).kind ≠ .unknown → (store.shape b).kind ≠ .unknown →
    (store.shape merged).kind ≠ .unknown
  left : TypeStore.Retains final along store (plain merged) a
  right : TypeStore.Retains final along store (plain merged) b

def Merger.Retains (final : TypeStore) (along : List String → Prop) (merger : Merger) : Prop :=
  ∀ store a b, store.Lawful → a < store.shapes.size → b < store.shapes.size →
    (merger a b).Yields store fun result next => ∀ merged, result = some merged →
      Merged final along next a b merged

variable {merger deeper restart : Merger}

theorem yields_absorb (h : merger.Retains final along) (hlawful : store.Lawful)
    {incoming : TypeId} (hincoming : store.Knows incoming) {variants : List TypeId}
    (hvariants : store.Has (union variants)) :
    (absorb merger incoming variants).Yields store fun result next =>
      next.Has (union result) ∧ ∀ id ∈ incoming :: variants,
        TypeStore.Retains final along next (union result) id := by
  induction variants generalizing store with
  | nil =>
      refine Yields.pure hlawful ⟨?_, fun id hid => .self hid⟩
      exact has_union_cons.mpr ⟨hincoming, hvariants⟩
  | cons existing rest ih =>
      obtain ⟨hexisting, hrest⟩ := has_union_cons.mp hvariants
      apply (h store existing incoming hlawful hexisting.1 hincoming.1).bind
      intro merged? next hnext hlater hmerged
      have hexisting := hexisting.of_later hlater
      have hincoming := hincoming.of_later hlater
      have hrest := hrest.of_later hlater
      cases merged? with
      | some merged =>
          have hmerged := hmerged merged rfl
          refine Yields.pure hnext ⟨?_, ?_⟩
          · exact has_union_cons.mpr
              ⟨⟨hmerged.lt, hmerged.known hexisting.2 hincoming.2⟩, hrest⟩
          · intro id hid
            rcases List.mem_cons.mp hid with rfl | hid
            · exact .of_mem List.mem_cons_self hmerged.right
            · rcases List.mem_cons.mp hid with rfl | hid
              · exact .of_mem List.mem_cons_self hmerged.left
              · exact .self (List.mem_cons_of_mem _ hid)
      | none =>
          apply (ih hnext hincoming hrest).bind
          rintro variants after hafter hlater' ⟨hhas, hretains⟩
          refine Yields.pure hafter ⟨?_, ?_⟩
          · exact has_union_cons.mpr ⟨hexisting.of_later hlater', hhas⟩
          · intro id hid
            have hmore : ∀ part ∈ variants, TypeStore.Retains final along after
                (union (existing :: variants)) part :=
              fun part hpart => .self (List.mem_cons_of_mem _ hpart)
            rcases List.mem_cons.mp hid with rfl | hid
            · exact (hretains id List.mem_cons_self).widen (.refl _) hmore
            · rcases List.mem_cons.mp hid with rfl | hid
              · exact .self List.mem_cons_self
              · exact (hretains id (List.mem_cons_of_mem _ hid)).widen (.refl _) hmore

theorem yields_foldlM_absorb (h : merger.Retains final along) (hlawful : store.Lawful)
    (incoming variants : List TypeId) (hincoming : store.Has (union incoming))
    (hvariants : store.Has (union variants)) :
    (incoming.foldlM (fun variants id => absorb merger id variants) variants).Yields store
      fun result next => next.Has (union result) ∧ ∀ id ∈ variants ++ incoming,
        TypeStore.Retains final along next (union result) id := by
  induction incoming generalizing store variants with
  | nil =>
      refine Yields.pure hlawful ⟨hvariants, fun id hid => .self ?_⟩
      rwa [List.append_nil] at hid
  | cons first rest ih =>
      rw [List.foldlM_cons]
      obtain ⟨hfirst, hrest⟩ := has_union_cons.mp hincoming
      apply (yields_absorb h hlawful hfirst hvariants).bind
      rintro absorbed next hnext hlater ⟨hhas, hretains⟩
      apply (ih hnext absorbed (hrest.of_later hlater) hhas).mono
      rintro result last hlater' ⟨hhas', hretains'⟩
      refine ⟨hhas', fun id hid => ?_⟩
      have habsorbed : ∀ part ∈ absorbed,
          TypeStore.Retains final along last (union result) part :=
        fun part hpart => hretains' part (List.mem_append_left _ hpart)
      rcases List.mem_append.mp hid with hid | hid
      · exact (hretains id (List.mem_cons_of_mem _ hid)).widen hlater' habsorbed
      · rcases List.mem_cons.mp hid with rfl | hid
        · exact (hretains id List.mem_cons_self).widen hlater' habsorbed
        · exact hretains' id (List.mem_append_right _ hid)

/-- The variants of a type of which something is known are all known. -/
theorem has_variants {ty : Ty} (h : store.Has ty) (hknown : (ty.isUnknown store).1 = false) :
    store.Has (union ty.variants) := by
  cases ty with
  | union variants => exact h
  | plain id =>
      refine has_union.mpr fun other hother => ⟨h.lt hother, ?_⟩
      rw [List.mem_singleton.mp hother]
      intro hunknown
      have hkind : ((plain id).isUnknown store).1 =
          decide (some (store.shape id).kind = some .unknown) := rfl
      rw [hkind, hunknown] at hknown
      cases hknown

theorem has_ofVariants {variants : List TypeId} (h : store.Has (union variants)) :
    store.Has (ofVariants variants) where
  lt hid := by
    rw [variants_ofVariants] at hid
    exact h.lt hid
  known _ id hid := by
    rw [variants_ofVariants] at hid
    exact h.known rfl hid

theorem yields_joinWith (h : merger.Retains final along) (hlawful : store.Lawful) {a b : Ty}
    (ha : store.Has a) (hb : store.Has b) :
    (joinWith merger a b).Yields store fun joined next =>
      next.Has joined ∧ ∀ id ∈ a.variants ++ b.variants,
        TypeStore.Retains final along next joined id := by
  have hunknown : ∀ ty store, store.Lawful → (ofTypes (isUnknown ty)).Yields store
      fun found next => found = false → store.Has ty → next.Has (union ty.variants) := by
    intro ty store hlawful
    apply Yields.ofTypes hlawful (follows_isUnknown store ty)
    intro hfound hhas
    exact (has_variants hhas hfound).of_later (Looks.later (follows_isUnknown store ty))
  apply (hunknown a store hlawful).bind
  intro leftUnknown next hnext hlater hleft
  apply (hunknown b next hnext).bind
  intro rightUnknown after hafter hlater' hright
  split
  · apply Yields.ofTypes hafter (Makes.looks (makes_unknown after))
    have hlt : after.shapes.size < (unknown after).2.shapes.size := by
      change _ < (after.shapes.push _).size
      simp
    refine ⟨has_plain hlt, fun id _ => .of_unknown hlt ?_⟩
    change ((after.add _).shape _).kind = _
    rw [shape_add_self]
  · rename_i hneither
    obtain ⟨hleftKnown, hrightKnown⟩ := Bool.or_eq_false_iff.mp (Bool.eq_false_iff.mpr hneither)
    apply (yields_foldlM_absorb h hafter b.variants a.variants
      (hright hrightKnown (hb.of_later hlater)) ((hleft hleftKnown ha).of_later hlater')).bind
    rintro variants last hlast _ ⟨hhas, hretains⟩
    refine Yields.pure hlast ⟨has_ofVariants hhas, fun id hid => ?_⟩
    apply (hretains id hid).widen (.refl _)
    intro part hpart
    apply TypeStore.Retains.self
    rwa [variants_ofVariants]

theorem yields_joinMemberWith (hdeeper : deeper.Retains final along)
    (hrestart : restart.Retains final along) (hlawful : store.Lawful) {x y : Ty}
    (hx : store.Has x) (hy : store.Has y) :
    (joinMemberWith deeper restart x y).Yields store fun joined next =>
      next.Has joined ∧ ∀ id ∈ x.variants ++ y.variants,
        TypeStore.Retains final along next joined id := by
  unfold joinMemberWith
  split
  · rename_i x y
    apply (hdeeper store x y hlawful (hx.lt List.mem_cons_self) (hy.lt List.mem_cons_self)).bind
    intro merged? next hnext hlater hmerged
    cases merged? with
    | some merged =>
        have hmerged := hmerged merged rfl
        refine Yields.pure hnext ⟨has_plain hmerged.lt, fun id hid => ?_⟩
        simp only [variants, List.cons_append, List.nil_append, List.mem_cons,
          List.not_mem_nil, or_false] at hid
        rcases hid with rfl | rfl
        · exact hmerged.left
        · exact hmerged.right
    | none => exact yields_joinWith hrestart hnext (hx.of_later hlater) (hy.of_later hlater)
  · exact yields_joinWith hrestart hlawful hx hy

end Ty

end ScriptCheck
