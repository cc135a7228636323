import ScriptCheck.Proofs.Types.View

/-!
# What comparisons decide

A comparison of types comes down to comparisons of what is inside them.  Where these decide what
their views tell, so does the whole.  General types of values have no members, and comparing them
leaves the store as it is.
-/

namespace ScriptCheck

open TypeStore

/-! ## Loops -/

namespace TypeM

variable {α : Type} {R : TypeStore → TypeStore → Prop} [IsPreorder TypeStore R]
  {store : TypeStore} {items : List α} {f : α → TypeM Bool} {P : α → Prop}

theorem pure_apply (result : α) (store : TypeStore) :
    (pure result : TypeM α) store = (result, store) := rfl

theorem allM_iff (hf : ∀ a ∈ items, ∀ next, R store next →
    Follows R next (f a) ∧ ((f a next).1 = true ↔ P a)) :
    (items.allM f store).1 = true ↔ ∀ a ∈ items, P a := by
  induction items generalizing store with
  | nil => exact ⟨fun _ _ ha => (nomatch ha), fun _ => rfl⟩
  | cons item rest ih =>
      obtain ⟨hnext, hitem⟩ := hf item List.mem_cons_self store (refl_of R store)
      have hrest := ih fun a ha next hafter =>
        hf a (List.mem_cons_of_mem _ ha) next (trans_of R hnext hafter)
      rw [List.allM, bind_apply, List.forall_mem_cons, ← hitem, ← hrest]
      cases (f item store).1 with
      | true => exact (and_iff_right rfl).symm
      | false => exact ⟨fun h => (nomatch h), fun h => (nomatch h.1)⟩

theorem anyM_iff (hf : ∀ a ∈ items, ∀ next, R store next →
    Follows R next (f a) ∧ ((f a next).1 = true ↔ P a)) :
    (items.anyM f store).1 = true ↔ ∃ a ∈ items, P a := by
  induction items generalizing store with
  | nil => exact ⟨fun h => (nomatch h), fun ⟨_, ha, _⟩ => (nomatch ha)⟩
  | cons item rest ih =>
      obtain ⟨hnext, hitem⟩ := hf item List.mem_cons_self store (refl_of R store)
      have hrest := ih fun a ha next hafter =>
        hf a (List.mem_cons_of_mem _ ha) next (trans_of R hnext hafter)
      simp only [List.mem_cons, exists_eq_or_imp]
      rw [List.anyM, bind_apply, ← hitem, ← hrest]
      cases (f item store).1 with
      | true => exact iff_of_true rfl (.inl rfl)
      | false => exact (or_iff_right fun h => (nomatch h)).symm

end TypeM

namespace Ty

open TypeM (Follows)

variable {read : MemberReader} {nested : Ty → Ty → TypeM Bool} {store : TypeStore}
  {target source : TypeId} {depth : Nat}

/-! ## Plain types -/

/-- A comparison of plain types goes through their kinds, their elements and their members. -/
theorem plainAssignable_iff :
    (plainAssignable read nested target source store).1 = true ↔
      target = source ∨ (store.shape target).kind = .unknown ∨
      (store.shape source).kind = .unknown ∨
      ((store.shape target).kind = (store.shape source).kind ∧
        ((store.shape target).mutable = true → (store.shape source).mutable = true) ∧
        (elementsAssignable nested (store.shape target) (store.shape source) store).1 = true ∧
        let next := (elementsAssignable nested (store.shape target) (store.shape source) store).2
        (membersAssignable read nested target source (next.shape target).memberNames next).1 =
          true) := by
  unfold plainAssignable
  by_cases hsame : target = source
  · rw [if_pos hsame]
    exact iff_of_true rfl (.inl hsame)
  rw [if_neg hsame, or_iff_right hsame, shapeOf_bind, shapeOf_bind]
  by_cases hunknown : (store.shape target).kind = .unknown ∨ (store.shape source).kind = .unknown
  · rw [if_pos hunknown]
    exact iff_of_true rfl (or_assoc.mp (.inl hunknown))
  rw [if_neg hunknown, ← or_assoc, or_iff_right hunknown]
  by_cases hkind : (store.shape target).kind = (store.shape source).kind
  swap
  · rw [if_pos hkind]
    exact ⟨fun h => (nomatch h), fun h => absurd h.1 hkind⟩
  rw [if_neg (not_not.mpr hkind)]
  by_cases hmutable :
      (store.shape target).mutable = true → (store.shape source).mutable = true
  swap
  · rw [if_pos (by simpa using hmutable)]
    exact ⟨fun h => (nomatch h), fun h => absurd h.2.1 hmutable⟩
  rw [if_neg (by simpa using hmutable), TypeM.bind_apply]
  split
  · rename_i helements
    exact ⟨fun h => ⟨hkind, hmutable, helements, h⟩, fun h => h.2.2.2⟩
  · rename_i helements
    exact ⟨fun h => (nomatch h), fun h => absurd h.2.2.1 helements⟩

theorem elementsAssignable_iff {R : Choice (View depth) → Choice (View depth) → Prop}
    (hkind : (store.shape target).kind = (store.shape source).kind)
    (hnested : ∀ {key key' expected actual}, (store.shape target).kind = .object →
      (store.shape target).indexer = some ⟨key, some expected⟩ →
      (store.shape source).indexer = some ⟨key', some actual⟩ →
        ((nested expected actual store).1 = true ↔
          R (store.view depth expected) (store.view depth actual))) :
    (elementsAssignable nested (store.shape target) (store.shape source) store).1 = true ↔
      ∀ expected, (store.viewAt (depth + 1) target).element = some (some expected) →
        ∃ found, (store.viewAt (depth + 1) source).element = some found ∧
          ∀ actual, found = some actual → R expected actual := by
  simp only [viewAt, ← hkind]
  by_cases hobject : (store.shape target).kind = .object
  · simp only [elementsAssignable, hobject]
    cases hexpected : (store.shape target).indexer with
    | none => simp [TypeM.pure_apply]
    | some indexer =>
        obtain ⟨key, _ | expected⟩ := indexer
        · simp [TypeM.pure_apply]
        · cases hactual : (store.shape source).indexer with
          | none => simp [TypeM.pure_apply]
          | some indexer =>
              obtain ⟨key', _ | actual⟩ := indexer
              · simp [TypeM.pure_apply]
              · simpa [TypeStore.view] using hnested hobject hexpected hactual
  · have hnothing : elementsAssignable nested (store.shape target) (store.shape source) =
        pure true := by
      unfold elementsAssignable
      split
      · exact absurd ‹_› hobject
      · rfl
    simp [hnothing, hobject, TypeM.pure_apply]

theorem plainAssignable_iff_suits
    (helements : (store.shape target).kind = (store.shape source).kind →
      ((elementsAssignable nested (store.shape target) (store.shape source) store).1 = true ↔
        ∀ expected, (store.viewAt (depth + 1) target).element = some (some expected) →
          ∃ found, (store.viewAt (depth + 1) source).element = some found ∧
            ∀ actual, found = some actual → Admits depth expected actual))
    (hmembers : let next := (elementsAssignable nested (store.shape target)
        (store.shape source) store).2
      ((membersAssignable read nested target source (next.shape target).memberNames next).1 =
          true ↔
        ∀ name expected, (store.viewAt (depth + 1) target).named name →
          (store.viewAt (depth + 1) target).slot name = some expected →
            ∃ actual, (store.viewAt (depth + 1) source).slot name = some actual ∧
              Admits depth expected actual)) :
    (plainAssignable read nested target source store).1 = true ↔
      Admits (depth + 1) (store.view (depth + 1) (plain target))
        (store.view (depth + 1) (plain source)) := by
  rw [plainAssignable_iff]
  constructor
  · rintro (rfl | hunknown | hunknown | ⟨hkind, hmutable, hfound, hnext⟩)
    · exact .refl _
    · exact .inl hunknown
    · exact .inr (.inl hunknown)
    · exact .inr (.inr ⟨hkind, hmutable, (helements hkind).mp hfound, hmembers.mp hnext⟩)
  · rintro (hunknown | hunknown | hfits)
    · exact .inr (.inl hunknown)
    · exact .inr (.inr (.inl hunknown))
    · exact .inr (.inr (.inr ⟨hfits.kind, hfits.mutable, (helements hfits.kind).mpr hfits.element,
        hmembers.mpr hfits.slot⟩))

/-! ## General types -/

end Ty

/-- No plain type in a view declares anything. -/
def View.Bare : {depth : Nat} → View depth → Prop
  | 0, _ => True
  | _ + 1, view => (∀ name, ¬ view.named name) ∧
      ∀ choice, view.element = some (some choice) → ∀ inner ∈ choice.items, View.Bare inner

theorem Vista.bare_bare {kind : Kind} {mutable : Bool} {element : Option (Option (Choice Vista))}
    (h : ∀ choice, element = some (some choice) → ∀ vista ∈ choice.items, ∀ depth,
      (vista depth).Bare) (depth : Nat) : (bare kind mutable element depth).Bare := by
  cases depth with
  | zero => trivial
  | succ depth =>
      refine ⟨fun _ hnamed => hnamed, fun choice hchoice inner hinner => ?_⟩
      obtain ⟨found, hfound, hmap⟩ := Option.map_eq_some_iff.mp hchoice
      obtain ⟨vistas, rfl, rfl⟩ := Option.map_eq_some_iff.mp hmap
      rw [Choice.items_map] at hinner
      obtain ⟨vista, hvista, rfl⟩ := List.mem_map.mp hinner
      exact h vistas hfound vista hvista depth

namespace Value

mutual

theorem bare_general (value : Value) (depth : Nat) : (value.general depth).Bare := by
  cases value with
  | array tag elements =>
      unfold general
      refine Vista.bare_bare (fun choice hchoice vista hvista depth => ?_) depth
      exact bare_generals elements vista
        (Vista.mem_of_mem_general (Option.some.inj hchoice) hvista) depth
  | undefined | null | bool b | number x | string s | object tag members =>
      unfold general
      exact Vista.bare_bare (fun choice hchoice => by cases hchoice) depth

theorem bare_generals (values : List Value) :
    ∀ vista ∈ generals values, ∀ depth, (vista depth).Bare := by
  cases values with
  | nil =>
      unfold generals
      intro vista hvista
      cases hvista
  | cons value rest =>
      unfold generals
      intro vista hvista
      rcases List.mem_cons.mp hvista with rfl | hvista
      · exact bare_general value
      · exact bare_generals rest vista hvista

end

end Value

namespace Ty

theorem bare_element {store : TypeStore} {id : TypeId} {key : Kind} {element : Ty}
    (h : ∀ depth, (store.viewAt depth id).Bare) (hkind : (store.shape id).kind = .object)
    (hindexer : (store.shape id).indexer = some ⟨key, some element⟩) :
    ∀ inner ∈ element.variants, ∀ depth, (store.viewAt depth inner).Bare := by
  intro inner hinner depth
  have hview : (store.viewAt (depth + 1) id).element = some (some (store.view depth element)) := by
    simp [viewAt, hkind, hindexer, TypeStore.view]
  refine (h (depth + 1)).2 _ hview _ ?_
  rw [TypeStore.view, Choice.items_map, items_choice]
  exact List.mem_map_of_mem hinner

theorem memberNames_of_bare {store : TypeStore} {id : TypeId}
    (h : ∀ depth, (store.viewAt depth id).Bare) : (store.shape id).memberNames = [] :=
  List.eq_nil_iff_forall_not_mem.mpr (h 1).1

/-- Comparing types without members decides what their views tell. -/
theorem assignableWithin_noMembers_iff {store : TypeStore} {target : Ty} (depth : Nat)
    (htarget : ∀ id ∈ target.variants, ∀ depth, (store.viewAt depth id).Bare) (source : Ty) :
    (assignableWithin noMembers depth target source store).1 = true ↔
      Admits depth (store.view depth target) (store.view depth source) := by
  have hstay : ∀ (depth : Nat) (store : TypeStore) (x y : Ty),
      TypeM.Follows Eq store (assignableWithin noMembers depth x y) := fun depth store x y =>
    follows_assignableWithin store (fun _ _ _ => .pure _) depth x y
  induction depth generalizing target source with
  | zero => exact iff_of_true rfl trivial
  | succ depth ih =>
      cases source with
      | union variants =>
          rw [admits_union_source]
          apply TypeM.allM_iff (R := Eq)
          rintro variant - next rfl
          exact ⟨hstay _ _ _ _, ih htarget _⟩
      | plain source =>
          cases target with
          | union variants =>
              rw [admits_union_target]
              apply TypeM.anyM_iff (R := Eq)
              rintro variant hvariant next rfl
              refine ⟨hstay _ _ _ _, ih (fun id hid => ?_) _⟩
              rw [List.mem_singleton.mp hid]
              exact htarget variant hvariant
          | plain target =>
              have hbare := htarget target List.mem_cons_self
              have hnext := follows_elementsAssignable (R := Eq) store (hstay depth)
                (store.shape target) (store.shape source)
              apply plainAssignable_iff_suits
              · intro hkind
                apply elementsAssignable_iff hkind
                intro key key' expected actual hobject hexpected _
                exact ih (bare_element hbare hobject hexpected) actual
              · dsimp only
                rw [← hnext, memberNames_of_bare hbare]
                refine iff_of_true rfl fun name _ hnamed => ?_
                exact absurd hnamed ((hbare (depth + 1)).1 name)

end Ty

end ScriptCheck
