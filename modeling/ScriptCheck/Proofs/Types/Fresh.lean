import ScriptCheck.Proofs.Types.Look
import ScriptCheck.Proofs.Value.Identity

/-!
# Identities made since

Identities are handed out in ascending order.  A plain type is fresh since some point when all
identities in its constant and in those of its members were made from then on, however deep.
Making types and looking at them keeps fresh what is fresh, so values that are computed one
after the other share no identity.
-/

namespace ScriptCheck

namespace TypeStore

/-- Some plain types are in the store, together with the types of their members, and the
identities in their constants are handed out from `first` on. -/
structure MadeFrom (store : TypeStore) (first : Nat) (made : Nat → Prop) : Prop where
  lt : ∀ {id : Nat}, made id → id < store.shapes.size
  identity : ∀ {id : Nat} {constant : Value}, made id →
    (store.shape id).constant = some constant →
      ∀ tag ∈ constant.identities, first ≤ tag ∧ tag < store.nextTag
  member : ∀ {id : Nat} {name : String} {member : Ty}, made id →
    Record.get? name (store.shape id).members = some member →
      ∃ inner, member = .plain inner ∧ made inner

/-- All identities in a plain type and in what its members lead to are handed out from `first`
on. -/
def Fresh (store : TypeStore) (first id : Nat) : Prop :=
  ∃ made, store.MadeFrom first made ∧ made id

variable {store next last : TypeStore} {first id : Nat}

theorem madeFrom_fresh (store : TypeStore) (first : Nat) :
    store.MadeFrom first (store.Fresh first) where
  lt := by
    rintro id ⟨made, hmade, hid⟩
    exact hmade.lt hid
  identity := by
    rintro id constant ⟨made, hmade, hid⟩ hconstant
    exact hmade.identity hid hconstant
  member := by
    rintro id name member ⟨made, hmade, hid⟩ hmember
    obtain ⟨inner, hinner, hmem⟩ := hmade.member hid hmember
    exact ⟨inner, hinner, made, hmade, hmem⟩

structure Evolves (before after : TypeStore) : Prop where
  later : Later before after
  tag_le : before.nextTag ≤ after.nextTag
  fresh : ∀ {first id : Nat}, before.Fresh first id → after.Fresh first id

namespace Evolves

instance : IsPreorder TypeStore Evolves where
  refl store := ⟨.refl store, Nat.le_refl _, fun hfresh => hfresh⟩
  trans _ _ _ h hlast := ⟨h.later.trans hlast.later, Nat.le_trans h.tag_le hlast.tag_le,
    fun hfresh => hlast.fresh (h.fresh hfresh)⟩

theorem of_shape_eq (hsize : store.shapes.size ≤ next.shapes.size)
    (htag : store.nextTag ≤ next.nextTag)
    (h : ∀ {id : Nat}, id < store.shapes.size → next.shape id = store.shape id) :
    Evolves store next := by
  refine ⟨.of_shape_eq hsize h, htag, ?_⟩
  rintro first id ⟨made, hmade, hid⟩
  refine ⟨made, ⟨fun hother => Nat.lt_of_lt_of_le (hmade.lt hother) hsize, ?_, ?_⟩, hid⟩
  · intro other constant hother hconstant tag htagMem
    rw [h (hmade.lt hother)] at hconstant
    have hbounds := hmade.identity hother hconstant tag htagMem
    exact ⟨hbounds.1, Nat.lt_of_lt_of_le hbounds.2 htag⟩
  · intro other name member hother hmember
    rw [h (hmade.lt hother)] at hmember
    exact hmade.member hother hmember

theorem add (store : TypeStore) (shape : Shape) : Evolves store (store.add shape) :=
  of_shape_eq (by simp [TypeStore.add]) (Nat.le_refl _) fun hid => shape_add_of_lt hid shape

end Evolves

theorem Make.tag_le (h : Make store next) : store.nextTag ≤ next.nextTag := by
  cases h with
  | tag => exact Nat.le_succ _
  | bare => exact Nat.le_refl _
  | widened => exact Nat.le_refl _

theorem Makes.evolves (h : Makes store next) : Evolves store next := by
  induction h with
  | refl => exact refl_of Evolves store
  | tail _ hstep ih =>
      exact trans_of Evolves ih (.of_shape_eq hstep.size_le hstep.tag_le hstep.shape_eq)

theorem fresh_add {shape : Shape}
    (hidentity : ∀ constant, shape.constant = some constant →
      ∀ tag ∈ constant.identities, first ≤ tag ∧ tag < store.nextTag)
    (hmember : ∀ name member, Record.get? name shape.members = some member →
      ∃ inner, member = .plain inner ∧ store.Fresh first inner) :
    (store.add shape).Fresh first store.shapes.size := by
  have hfresh := madeFrom_fresh store first
  refine ⟨fun id => store.Fresh first id ∨ id = store.shapes.size, ⟨?_, ?_, ?_⟩, .inr rfl⟩
  · rintro id (hid | rfl)
    · have hlt := hfresh.lt hid
      simp only [TypeStore.add, Array.size_push]
      omega
    · simp [TypeStore.add]
  · rintro id constant (hid | rfl) hconstant
    · rw [shape_add_of_lt (hfresh.lt hid)] at hconstant
      exact hfresh.identity hid hconstant
    · rw [shape_add_self] at hconstant
      exact hidentity constant hconstant
  · rintro id name member (hid | rfl) hfound
    · rw [shape_add_of_lt (hfresh.lt hid)] at hfound
      obtain ⟨inner, hinner, hmem⟩ := hfresh.member hid hfound
      exact ⟨inner, hinner, .inl hmem⟩
    · rw [shape_add_self] at hfound
      obtain ⟨inner, hinner, hmem⟩ := hmember name member hfound
      exact ⟨inner, hinner, .inl hmem⟩

structure IsCopy (store : TypeStore) (identities : List Nat) (next : TypeStore) (id : Nat) :
    Prop where
  lt : id < next.shapes.size
  members : (next.shape id).members = []
  constant : ∃ constant, (next.shape id).constant = some constant ∧
    ∀ tag ∈ constant.identities, tag ∈ identities ∨ store.nextTag ≤ tag ∧ tag < next.nextTag

theorem IsCopy.fresh {identities : List Nat} (h : store.IsCopy identities next id)
    (hidentities : ∀ tag ∈ identities, first ≤ tag ∧ tag < store.nextTag)
    (hfirst : first ≤ store.nextTag) (htag : store.nextTag ≤ next.nextTag) :
    next.Fresh first id := by
  obtain ⟨constant, hconstant, hnew⟩ := h.constant
  refine ⟨fun other => other = id, ⟨?_, ?_, ?_⟩, rfl⟩
  · rintro other rfl
    exact h.lt
  · rintro other found rfl hfound tag hmem
    rw [hconstant] at hfound
    cases hfound
    rcases hnew tag hmem with hold | hbounds
    · have hbounds := hidentities tag hold
      omega
    · omega
  · rintro other name member rfl hmember
    rw [h.members] at hmember
    cases hmember

theorem IsCopy.of_makes {identities : List Nat} (h : store.IsCopy identities next id)
    (hmakes : Makes next last) : store.IsCopy identities last id := by
  obtain ⟨constant, hconstant, hnew⟩ := h.constant
  have hshape := hmakes.shape_eq h.lt
  have htag := hmakes.evolves.tag_le
  refine ⟨Nat.lt_of_lt_of_le h.lt hmakes.size_le, by rw [hshape, h.members], constant, ?_, ?_⟩
  · rw [hshape, hconstant]
  · intro tag hmem
    rcases hnew tag hmem with hold | hbounds
    · exact .inl hold
    · exact .inr ⟨hbounds.1, Nat.lt_of_lt_of_le hbounds.2 htag⟩

theorem Fresh.identities_of_known {name : String} {value : Value} (h : store.Fresh first id)
    (hslot : (store.shape id).slot? name = some (.known value)) :
    ∀ tag ∈ value.identities, first ≤ tag ∧ tag < store.nextTag := by
  obtain ⟨constant, hconstant, hget⟩ : ∃ constant, (store.shape id).constant = some constant ∧
      constant.get? name = some value := by
    have hvalue := (Shape.slot?_eq_known_iff.mp hslot).2
    unfold Shape.value? at hvalue
    split at hvalue
    · exact Option.bind_eq_some_iff.mp hvalue
    · cases hvalue
  intro tag htag
  exact (madeFrom_fresh store first).identity h hconstant tag
    (Value.mem_identities_of_get? hget htag)

/-- A known object has an identity of its own, so one that is new tells that `first` is not
ahead of the store. -/
theorem Fresh.le_nextTag (h : store.Fresh first id)
    (hrecord : (store.shape id).isRecord = true) : first ≤ store.nextTag := by
  unfold Shape.isRecord at hrecord
  split at hrecord
  · rename_i own members hconstant
    have hown := (madeFrom_fresh store first).identity h hconstant own List.mem_cons_self
    omega
  · cases hrecord

theorem Evolves.declare {name : String} {value : Value} {inner : Nat}
    (hslot : (store.shape id).slot? name = some (.known value))
    (hrecord : (store.shape id).isRecord = true) (hmakes : Makes store next)
    (hcopies : store.IsCopy value.identities next inner)
    (hmirrors : next.Mirrors (.plain inner) value) :
    Evolves store (next.declare id name (.plain inner)) := by
  have hid := lt_of_slot? hslot
  have hlt : id < next.shapes.size := Nat.lt_of_lt_of_le hid hmakes.size_le
  have hshape := hmakes.shape_eq hid
  have hevolves := hmakes.evolves
  refine ⟨hevolves.later.trans (.declare ?_ ?_ hmirrors), hevolves.tag_le, ?_⟩
  · rw [hshape, hslot]
  · rw [hshape, hrecord]
  intro first other hother
  have hfresh := madeFrom_fresh store first
  have hinner : store.Fresh first id → next.Fresh first inner := fun hfreshId =>
    hcopies.fresh (hfreshId.identities_of_known hslot) (hfreshId.le_nextTag hrecord) hevolves.tag_le
  have hnew := madeFrom_fresh next first
  refine ⟨fun found => store.Fresh first found ∨ store.Fresh first id ∧ found = inner,
    ⟨?_, ?_, ?_⟩, .inl hother⟩
  · rintro found (hfound | ⟨hfreshId, rfl⟩)
    · exact Nat.lt_of_lt_of_eq (hnew.lt (hevolves.fresh hfound)) size_declare.symm
    · exact Nat.lt_of_lt_of_eq (hnew.lt (hinner hfreshId)) size_declare.symm
  · intro found constant hfound hconstant
    rw [constant_declare hlt] at hconstant
    rcases hfound with hfound | ⟨hfreshId, rfl⟩
    · exact hnew.identity (hevolves.fresh hfound) hconstant
    · exact hnew.identity (hinner hfreshId) hconstant
  · intro found key member hfound hmember
    rcases get?_declare hlt hmember with hold | ⟨rfl, rfl, rfl⟩
    · rcases hfound with hfound | ⟨hfreshId, rfl⟩
      · rw [hmakes.shape_eq (hfresh.lt hfound)] at hold
        obtain ⟨deeper, hdeeper, hmem⟩ := hfresh.member hfound hold
        exact ⟨deeper, hdeeper, .inl hmem⟩
      · rw [hcopies.members] at hold
        cases hold
    · rcases hfound with hfound | ⟨hfreshId, rfl⟩
      · exact ⟨inner, rfl, .inr ⟨hfound, rfl⟩⟩
      · exact ⟨found, rfl, .inr ⟨hfreshId, rfl⟩⟩

end TypeStore

open TypeStore

namespace Ty

open TypeM (Follows)

theorem exists_of_mem_mapM {α β : Type} {f : α → Option β} {items : List α} {results : List β}
    (h : items.mapM f = some results) {result : β} (hmem : result ∈ results) :
    ∃ item ∈ items, f item = some result := by
  induction items generalizing results with
  | nil =>
      cases h
      cases hmem
  | cons item rest ih =>
      rw [List.mapM_cons] at h
      obtain ⟨first, hfirst, hrest⟩ := Option.bind_eq_some_iff.mp h
      obtain ⟨others, hothers, hresults⟩ := Option.bind_eq_some_iff.mp hrest
      cases hresults
      rcases List.mem_cons.mp hmem with rfl | hmem
      · exact ⟨item, List.mem_cons_self, hfirst⟩
      · obtain ⟨found, hfound, hresult⟩ := ih hothers hmem
        exact ⟨found, List.mem_cons_of_mem _ hfound, hresult⟩

mutual

theorem copies_ofValue (start : TypeStore) (value : Value) :
    ∃ id, (ofValue value start).1 = plain id ∧
      start.IsCopy value.identities (ofValue value start).2 id := by
  cases value with
  | undefined | null | bool b | number x | object tag members =>
      unfold ofValue
      refine ⟨start.shapes.size, rfl, ?_, ?_, ?_⟩
      · exact Nat.lt_of_lt_of_eq (Nat.lt_succ_self _) (Array.size_push _).symm
      · exact congrArg Shape.members (shape_add_self start _)
      · exact ⟨_, congrArg Shape.constant (shape_add_self start _), fun tag hmem => .inl hmem⟩
  | string s =>
      unfold ofValue
      let element := (new { kind := .string, lenient := true } start).2
      refine ⟨element.shapes.size, rfl, ?_, ?_, ?_⟩
      · exact Nat.lt_of_lt_of_eq (Nat.lt_succ_self _) (Array.size_push _).symm
      · exact congrArg Shape.members (shape_add_self element _)
      · exact ⟨_, congrArg Shape.constant (shape_add_self element _), fun tag hmem => .inl hmem⟩
  | array tag values =>
      unfold ofValue
      let made := (ofValues values start).2
      let elements := (ofValues values start).1
      let tagged := (elementConstants elements made).2
      let general := (generalElement elements tagged).2
      obtain ⟨constants, hconstants, -⟩ := mapM_constant_of_mirrors (mirrors_ofValues start values)
      have hcopies := copies_ofValues start values
      have htagged : made.nextTag < general.nextTag :=
        Nat.lt_of_lt_of_le (Nat.lt_succ_self _)
          (makes_generalElement tagged elements).evolves.tag_le
      have hmade := (makes_ofValues start values).evolves.tag_le
      have hconstant : (elementConstants elements made).1 =
        some (.array made.nextTag constants) := by
        rw [elementConstants_apply, hconstants]
        rfl
      refine ⟨general.shapes.size, rfl, ?_, ?_, .array made.nextTag constants, ?_, ?_⟩
      · exact Nat.lt_of_lt_of_eq (Nat.lt_succ_self _) (Array.size_push _).symm
      · exact congrArg Shape.members (shape_add_self general _)
      · exact (congrArg Shape.constant (shape_add_self general _)).trans hconstant
      · intro found hmem
        rcases List.mem_cons.mp hmem with rfl | hmem
        · exact .inr ⟨hmade, htagged⟩
        · obtain ⟨constant, hin, hfound⟩ := Value.mem_elementIdentities.mp hmem
          obtain ⟨ty, hty, hread⟩ := exists_of_mem_mapM hconstants hin
          obtain ⟨id, rfl, hcopy⟩ := hcopies ty hty
          obtain ⟨other, hother, hnew⟩ := hcopy.constant
          have hsame : some other = some constant := hother.symm.trans hread
          cases hsame
          rcases hnew found hfound with hold | hbounds
          · exact .inl (List.mem_cons_of_mem _ hold)
          · exact .inr ⟨hbounds.1, Nat.lt_trans hbounds.2 htagged⟩

theorem copies_ofValues (start : TypeStore) (values : List Value) :
    ∀ ty ∈ (ofValues values start).1, ∃ id, ty = plain id ∧
      start.IsCopy (Value.elementIdentities values) (ofValues values start).2 id := by
  cases values with
  | nil =>
      unfold ofValues
      intro ty hty
      cases hty
  | cons value rest =>
      unfold ofValues
      let next := (ofValue value start).2
      have hnext := (makes_ofValue start value).evolves.tag_le
      intro ty hty
      rcases List.mem_cons.mp hty with rfl | hty
      · obtain ⟨id, hid, hcopy⟩ := copies_ofValue start value
        have hlater := hcopy.of_makes (makes_ofValues next rest)
        obtain ⟨constant, hconstant, hnew⟩ := hlater.constant
        refine ⟨id, hid, hlater.lt, hlater.members, constant, hconstant, fun tag hmem => ?_⟩
        exact (hnew tag hmem).imp_left (List.mem_append_left _)
      · obtain ⟨id, rfl, hcopy⟩ := copies_ofValues next rest ty hty
        obtain ⟨constant, hconstant, hnew⟩ := hcopy.constant
        refine ⟨id, rfl, hcopy.lt, hcopy.members, constant, hconstant, fun tag hmem => ?_⟩
        rcases hnew tag hmem with hold | hbounds
        · exact .inl (List.mem_append_right _ hold)
        · exact .inr ⟨Nat.le_trans hnext hbounds.1, hbounds.2⟩

end

variable (store : TypeStore)

theorem evolves_declaredMember (id : TypeId) (name : String) :
    Follows Evolves store (declaredMember id name) := by
  unfold Follows
  cases hslot : (store.shape id).slot? name with
  | none =>
      rw [declaredMember_of_none hslot]
      exact refl_of Evolves store
  | some slot =>
      cases slot with
      | declared member =>
          rw [declaredMember_of_declared hslot]
          exact refl_of Evolves store
      | known value =>
          have hmakes : Makes store (ofValue value store).2 := makes_ofValue store value
          cases hrecord : (store.shape id).isRecord with
          | false =>
              rw [declaredMember_of_not_record hslot hrecord]
              exact hmakes.evolves
          | true =>
              rw [declaredMember_of_record hslot hrecord]
              obtain ⟨inner, hinner, hcopies⟩ := copies_ofValue store value
              have hmirrors := mirrors_ofValue store value
              rw [hinner] at hmirrors ⊢
              exact .declare hslot hrecord hmakes hcopies hmirrors

theorem evolves_equivalent (a b : Ty) : Follows Evolves store (equivalent a b) :=
  follows_equivalent store evolves_declaredMember a b

theorem evolves_incompatible (a b : Ty) : Follows Evolves store (incompatible a b) :=
  follows_incompatible store evolves_declaredMember a b

end Ty

end ScriptCheck
