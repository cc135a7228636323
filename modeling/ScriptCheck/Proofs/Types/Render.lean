import ScriptCheck.Proofs.Types.Steady

/-!
# Types of values show what the values do

In a closed store the type that is made for a value has the view that the value has, whatever else
is in the store.  The general type of the elements of an array is a choice between the general
types of the elements.
-/

namespace ScriptCheck

open TypeStore

/-! ## Types with a constant -/

/-- What can be told of the type of a value. -/
noncomputable def Value.vista (value : Value) : Vista := fun depth => value.view depth

/-- Values of kinds without members have nothing but their general types. -/
theorem Value.vista_of_not_hasMembers {value : Value} (h : Ty.hasMembers value.kind = false) :
    value.vista = value.general := by
  funext depth
  cases depth with
  | zero => rfl
  | succ depth =>
      refine eq_general rfl rfl rfl (fun name hdeclares => ?_) fun name => ?_
      · obtain ⟨⟨tag, members, rfl⟩, -⟩ := hdeclares
        cases h
      · simp [vista, view, h]

theorem Shape.memberNames_of_general {shape : Shape} (hconstant : shape.constant = none) :
    shape.memberNames = Record.keys shape.members := by
  rw [memberNames, hconstant]

theorem Shape.slot?_of_members {shape : Shape} (hmembers : shape.members = [])
    (hconstant : shape.constant = none) (name : String) : shape.slot? name = none := by
  refine slot?_eq_none_iff.mpr ⟨by rw [hmembers]; rfl, ?_⟩
  rw [value?, hconstant, Option.bind_none, ite_self]

theorem Shape.mem_memberNames_of_constant {shape : Shape} {value : Value}
    (hmembers : shape.members = []) (hconstant : shape.constant = some value) {name : String} :
    name ∈ shape.memberNames ↔ value.Declares name := by
  unfold memberNames Value.Declares
  rw [hconstant, hmembers]
  cases value with
  | object tag members =>
      simp only [Record.keys, List.map_nil, List.nil_append, List.contains_nil, Bool.not_false,
        List.filter_true]
      rw [← Record.keys, Record.mem_keys_iff, ← Option.ne_none_iff_exists']
      exact ⟨fun hfound => ⟨⟨tag, members, rfl⟩, hfound⟩, fun hdeclares => hdeclares.2⟩
  | undefined | null | bool b | number x | string s | array tag elements =>
      simp [Record.keys]

theorem Shape.slot?_of_constant {shape : Shape} {value : Value} (hmembers : shape.members = [])
    (hconstant : shape.constant = some value) (name : String) :
    shape.slot? name =
      if Ty.hasMembers shape.kind then (value.get? name).map .known else none := by
  have hnone : Record.get? name shape.members = none := by
    rw [hmembers]
    rfl
  by_cases hhas : Ty.hasMembers shape.kind = true
  · have hvalue : shape.value? name = value.get? name := by
      rw [value?, if_pos hhas, hconstant, Option.bind_some]
    rw [if_pos hhas, ← hvalue]
    cases hfound : shape.value? name with
    | none => exact slot?_eq_none_iff.mpr ⟨hnone, hfound⟩
    | some found => exact slot?_eq_known_iff.mpr ⟨hnone, hfound⟩
  · rw [if_neg hhas]
    exact slot?_eq_none_iff.mpr ⟨hnone, by rw [value?, if_neg hhas]⟩

namespace TypeStore

variable {store next last : TypeStore} {id : Nat} {value : Value}

/-- Without declared members a plain type shows what its constant does. -/
theorem vista_of_constant (hmembers : (store.shape id).members = [])
    (hconstant : (store.shape id).constant = some value)
    (hgeneral : ∀ depth,
      (store.viewAt (depth + 1) id).kind = (value.general (depth + 1)).kind ∧
      (store.viewAt (depth + 1) id).mutable = (value.general (depth + 1)).mutable ∧
      (store.viewAt (depth + 1) id).element = (value.general (depth + 1)).element) :
    store.vista id = value.vista := by
  funext depth
  cases depth with
  | zero => rfl
  | succ depth =>
      obtain ⟨hkind, hmutable, helement⟩ := hgeneral depth
      refine Aspect.ext hkind hmutable helement (funext fun name => ?_) (funext fun name => ?_)
      · exact propext (Shape.mem_memberNames_of_constant hmembers hconstant)
      · change Option.map _ ((store.shape id).slot? name) = ite _ _ _
        change (store.shape id).kind = _ at hkind
        rw [Shape.slot?_of_constant hmembers hconstant, hkind, value.kind_general]
        split
        · rw [Option.map_map]
          rfl
        · rfl

end TypeStore

namespace Ty

open TypeM (Follows)

/-- A plain type was made for a value and has declared nothing since. -/
structure Depicts (store : TypeStore) (id : Nat) (value : Value) : Prop where
  lt : id < store.shapes.size
  members : (store.shape id).members = []
  constant : (store.shape id).constant ≠ none
  vista : store.vista id = value.vista

theorem depicts_add {store : TypeStore} {shape : Shape} {value constant : Value}
    (hmembers : shape.members = [])
    (hconstant : shape.constant = some constant) (hsame : constant.untagged = value.untagged)
    (hgeneral : ∀ depth,
      ((store.add shape).viewAt (depth + 1) store.shapes.size).kind =
        (value.general (depth + 1)).kind ∧
      ((store.add shape).viewAt (depth + 1) store.shapes.size).mutable =
        (value.general (depth + 1)).mutable ∧
      ((store.add shape).viewAt (depth + 1) store.shapes.size).element =
        (value.general (depth + 1)).element) :
    Depicts (store.add shape) store.shapes.size value := by
  have hvista : constant.vista = value.vista :=
    funext fun depth => Value.view_eq_of_untagged hsame depth
  refine ⟨by simp [TypeStore.add], by rw [shape_add_self, hmembers],
    by simp [hconstant], ?_⟩
  rw [← hvista]
  apply vista_of_constant
  · rw [shape_add_self, hmembers]
  · rw [shape_add_self, hconstant]
  · intro depth
    rw [Value.general_eq_of_untagged hsame]
    exact hgeneral depth

theorem Depicts.of_makes {store next : TypeStore} {id : Nat} {value : Value}
    (h : Depicts store id value) (hmakes : Makes store next) (hsteady : Steady store next)
    (hclosed : store.Closed) : Depicts next id value := by
  have hshape := hmakes.shape_eq h.lt
  refine ⟨Nat.lt_of_lt_of_le h.lt hmakes.size_le, ?_, ?_, ?_⟩
  · rw [hshape, h.members]
  · rw [hshape]
    exact h.constant
  · rw [(hsteady hclosed).2.2 h.lt, h.vista]

/-! ## The general type of elements -/

variable {store : TypeStore}

theorem same_interchangeable (a b : TypeId) : Follows Eq store (interchangeable a b) := by
  have hread : ReaderFollows Eq noMembers := fun _ _ _ => .pure _
  apply (follows_assignableWithin store hread _ _ _).bind
  rintro found next rfl
  split
  · exact follows_assignableWithin store hread _ _ _
  · exact .pure _

theorem interchangeable_iff {a b : TypeId} (ha : ∀ depth, (store.viewAt depth a).Bare)
    (hb : ∀ depth, (store.viewAt depth b).Bare) :
    (interchangeable a b store).1 = true ↔ (store.vista a).Interchangeable (store.vista b) := by
  have hread : ReaderFollows Eq noMembers := fun _ _ _ => .pure _
  have hstay : store = _ := follows_assignableWithin store hread (structuralDepth + 1) (plain a)
    (plain b)
  have hbare : ∀ {id : TypeId}, (∀ depth, (store.viewAt depth id).Bare) →
      ∀ inner ∈ (plain id).variants, ∀ depth, (store.viewAt depth inner).Bare := by
    intro id hid inner hinner
    rwa [List.mem_singleton.mp hinner]
  have hleft := assignableWithin_noMembers_iff (structuralDepth + 1) (hbare ha) (plain b)
  have hright := assignableWithin_noMembers_iff (structuralDepth + 1) (hbare hb) (plain a)
  unfold interchangeable
  rw [TypeM.bind_apply, ← hstay]
  split
  · rename_i hfound
    exact ⟨fun h => ⟨hleft.mp hfound, hright.mp h⟩, fun h => hright.mpr h.2⟩
  · rename_i hfound
    exact ⟨fun h => (nomatch h), fun h => absurd (hleft.mpr h.1) hfound⟩

theorem addGeneral_gathers {variants : List TypeId} {incoming : TypeId}
    (hbare : ∀ id ∈ incoming :: variants, ∀ depth, (store.viewAt depth id).Bare) :
    ∃ result, addGeneral variants incoming store = (result, store) ∧
      result.map store.vista = Vista.gather (variants.map store.vista) (store.vista incoming) ∧
      ∀ id ∈ result, id ∈ incoming :: variants := by
  have hstay : store = (variants.anyM (fun existing => interchangeable existing incoming)
    store).2 :=
    Follows.anyM (R := Eq) fun existing next _ => same_interchangeable existing incoming
  have hfound : (variants.anyM (fun existing => interchangeable existing incoming) store).1 = true ↔
      ∃ existing ∈ variants, (store.vista existing).Interchangeable (store.vista incoming) := by
    apply TypeM.anyM_iff (R := Eq)
    rintro existing hexisting next rfl
    exact ⟨same_interchangeable existing incoming, interchangeable_iff
      (hbare existing (List.mem_cons_of_mem _ hexisting)) (hbare incoming List.mem_cons_self)⟩
  by_cases hexists : ∃ existing ∈ variants,
      (store.vista existing).Interchangeable (store.vista incoming)
  · refine ⟨variants, ?_, ?_, fun id hid => List.mem_cons_of_mem _ hid⟩
    · rw [addGeneral, TypeM.bind_apply, ← hstay, hfound.mpr hexists]
      rfl
    · exact (if_pos (by simpa using hexists)).symm
  · refine ⟨variants ++ [incoming], ?_, ?_, fun id hid => by simpa [or_comm] using hid⟩
    · rw [addGeneral, TypeM.bind_apply, ← hstay, if_neg (fun h => hexists (hfound.mp h))]
      rfl
    · rw [List.map_append]
      exact (if_neg (by simpa using hexists)).symm

theorem Depicts.general {next : TypeStore} {id other : Nat} {value : Value}
    (h : Depicts store id value) (hclosed : store.Closed) (hsteady : Steady store next)
    (houtline : (next.shape other).outline = (store.shape id).outline)
    (hmembers : (next.shape other).members = []) (hconstant : (next.shape other).constant = none) :
    next.vista other = value.general := by
  funext depth
  cases depth with
  | zero => rfl
  | succ depth =>
      have hview : store.viewAt (depth + 1) id = value.view (depth + 1) :=
        congrFun h.vista (depth + 1)
      obtain ⟨hkind, hmutable, helement⟩ := aspects_of_outline
        (fun hinner => congrFun ((hsteady hclosed).2.2 hinner) depth) (hclosed id) houtline
      rw [hview] at hkind hmutable helement
      refine Value.eq_general hkind hmutable helement (fun name hnamed => ?_) fun name => ?_
      · change name ∈ (next.shape other).memberNames at hnamed
        rw [Shape.memberNames_of_general hconstant, hmembers] at hnamed
        cases hnamed
      · change Option.map _ ((next.shape other).slot? name) = none
        rw [Shape.slot?_of_members hmembers hconstant]
        rfl

theorem widenPlain_general (hclosed : store.Closed) {id : Nat} {value : Value}
    (h : Depicts store id value) :
    Steady store (widenPlain id store).2 ∧
      (widenPlain id store).1 < (widenPlain id store).2.shapes.size ∧
      (widenPlain id store).2.vista (widenPlain id store).1 = value.general := by
  obtain ⟨constant, hconstant⟩ := Option.ne_none_iff_exists'.mp h.constant
  by_cases hnull : (store.shape id).kind = .null ∨ (store.shape id).kind = .undefined
  · rw [widenPlain_of_null hnull]
    refine ⟨refl_of Steady store, h.lt, h.vista.trans ?_⟩
    have hkind : (store.shape id).kind = value.kind :=
      (congrArg Aspect.kind (congrFun h.vista 1)).trans (value.kind_general 0)
    rw [hkind] at hnull
    apply Value.vista_of_not_hasMembers
    rcases hnull with hnull | hnull <;> rw [hnull] <;> rfl
  · obtain ⟨hnull, hundefined⟩ := not_or.mp hnull
    rw [widenPlain_of_some hconstant hnull hundefined]
    have hsteady : Steady store (store.add { store.shape id with constant := none }) :=
      steady_add fun hclosed => ⟨(hclosed id).member, (hclosed id).element, fun h => (nomatch h)⟩
    refine ⟨hsteady, by simp [TypeStore.add], h.general hclosed hsteady ?_ ?_ ?_⟩
    · rw [shape_add_self]
      rfl
    · rw [shape_add_self]
      exact h.members
    · rw [shape_add_self]

theorem depicts_after {next : TypeStore} {ids : List Nat} {values : List Value}
    (h : List.Forall₂ (Depicts store) ids values) (hmakes : Makes store next)
    (hsteady : Steady store next) (hclosed : store.Closed) :
    List.Forall₂ (Depicts next) ids values :=
  h.imp fun _ _ hdepicts => hdepicts.of_makes hmakes hsteady hclosed

/-- Widening and gathering types that were made for values leads to a choice between the general
types of these values. -/
theorem foldlM_gathers {ids : List Nat} {values : List Value} {variants : List TypeId}
    (h : List.Forall₂ (Depicts store) ids values) (hclosed : store.Closed)
    (hlt : ∀ id ∈ variants, id < store.shapes.size)
    (hbare : ∀ id ∈ variants, ∀ depth, (store.viewAt depth id).Bare) :
    ∃ result next, (ids.foldlM (fun variants id => do
        addGeneral variants (← widenPlain id)) variants : TypeM _) store = (result, next) ∧
      Steady store next ∧ (∀ id ∈ result, id < next.shapes.size) ∧
      result.map next.vista =
        (Value.generals values).foldl Vista.gather (variants.map store.vista) := by
  induction ids generalizing store values variants with
  | nil =>
      cases h
      exact ⟨variants, store, rfl, refl_of Steady store, hlt, rfl⟩
  | cons id ids ih =>
      obtain ⟨value, values, hfirst, hrest, rfl⟩ := List.forall₂_cons_left_iff.mp h
      obtain ⟨hsteady, hwidened, hgeneral⟩ := widenPlain_general hclosed hfirst
      have hmakes : Makes store _ := makes_widenPlain store id
      rcases hrun : widenPlain id store with ⟨widened, next⟩
      rw [hrun] at hsteady hwidened hgeneral hmakes
      dsimp only at hsteady hwidened hgeneral hmakes
      obtain ⟨hnext, hsize, hsame⟩ := hsteady hclosed
      have hbare' : ∀ id ∈ widened :: variants, ∀ depth, (next.viewAt depth id).Bare := by
        intro other hother depth
        rcases List.mem_cons.mp hother with rfl | hother
        · rw [show next.viewAt depth other = value.general depth from congrFun hgeneral depth]
          exact value.bare_general depth
        · rw [show next.viewAt depth other = store.viewAt depth other from
            congrFun (hsame (hlt other hother)) depth]
          exact hbare other hother depth
      obtain ⟨gathered, hadd, hvistas, hmem⟩ := addGeneral_gathers hbare'
      have hlt' : ∀ id ∈ gathered, id < next.shapes.size := by
        intro other hother
        rcases List.mem_cons.mp (hmem other hother) with rfl | hother
        · exact hwidened
        · exact Nat.lt_of_lt_of_le (hlt other hother) hsize
      obtain ⟨result, last, hlast, hsteady', hresult, hfold⟩ := ih
        (depicts_after hrest hmakes hsteady hclosed) hnext hlt'
        fun other hother => hbare' other (hmem other hother)
      refine ⟨result, last, ?_, trans_of Steady hsteady hsteady', hresult, ?_⟩
      · rw [List.foldlM_cons, TypeM.bind_apply, TypeM.bind_apply, hrun]
        dsimp only
        rw [hadd]
        exact hlast
      · rw [hfold, hvistas, hgeneral, Value.generals, List.foldl_cons]
        congr 2
        exact List.map_congr_left fun other hother => hsame (hlt other hother)

theorem choice_ofVariants (variants : List TypeId) :
    (ofVariants variants).choice = .ofList variants := by
  rcases variants with _ | ⟨first, _ | rest⟩ <;> rfl

theorem holds_ofVariants {variants : List TypeId} (h : ∀ id ∈ variants, id < store.shapes.size) :
    store.Holds (ofVariants variants) := by
  unfold ofVariants
  split
  · exact holds_plain (h _ List.mem_cons_self)
  · rename_i hmany
    refine ⟨fun hid => h _ hid, fun _ hone => ?_⟩
    obtain ⟨id, rfl⟩ := List.length_eq_one_iff.mp hone
    exact hmany id rfl

theorem generalElement_general {ids : List Nat} {values : List Value}
    (h : List.Forall₂ (Depicts store) ids values) (hclosed : store.Closed) :
    ∃ element? next, generalElement (ids.map plain) store = (element?, next) ∧
      Steady store next ∧ (∀ element, element? = some element → next.Holds element) ∧
      ∀ depth, element?.map (next.view depth) =
        (Vista.general (Value.generals values)).map (Choice.map (· depth)) := by
  obtain ⟨variants, next, hrun, hsteady, hlt, hvistas⟩ :=
    foldlM_gathers h hclosed (fun _ hid => absurd hid List.not_mem_nil)
      fun _ hid => absurd hid List.not_mem_nil
  have hids : (ids.map plain).flatMap Ty.variants = ids := by
    simp [List.flatMap_map, Ty.variants]
  rw [List.map_nil] at hvistas
  refine ⟨if variants.isEmpty then none else some (ofVariants variants), next, ?_, hsteady, ?_, ?_⟩
  · rw [generalElement, hids, TypeM.bind_apply, hrun]
    rfl
  · intro element helement
    split at helement
    · cases helement
    · cases helement
      exact holds_ofVariants hlt
  · intro depth
    unfold Vista.general
    rw [← hvistas]
    cases variants with
    | nil => rfl
    | cons first rest =>
        simp only [List.isEmpty_cons, Bool.false_eq_true, if_false, Option.map_some,
          List.map_cons, TypeStore.view, choice_ofVariants]
        rw [← List.map_cons, ← Choice.map_ofList, Choice.map_map]
        rfl

/-! ## Types of values -/

theorem depicts_arrayOf {constant : Value} {tag : Nat} {values : List Value} {element? : Option Ty}
    (harray : (Shape.isRecord { kind := .object, constant := some constant }) = false)
    (hsame : constant.untagged = (Value.array tag values).untagged) (hclosed : store.Closed)
    (hholds : ∀ element, element? = some element → store.Holds element)
    (hviews : ∀ depth, element?.map (store.view depth) =
      (Vista.general (Value.generals values)).map (Choice.map (· depth))) :
    Steady store (arrayOf (some constant) element? store).2 ∧
      Depicts (arrayOf (some constant) element? store).2 store.shapes.size (.array tag values) := by
  let shape : Shape := {
    kind := .object, mutable := true, lenient := true, indexer := some ⟨.number, element?⟩,
    constant := some constant }
  have hsupports : store.Supports shape := by
    refine supports_bare rfl (fun {key element} helement => ?_) harray
    cases element? with
    | none => cases helement
    | some found =>
        cases helement
        exact hholds _ rfl
  have hsteady : Steady store (store.add shape) := steady_add fun _ => hsupports
  refine ⟨hsteady, depicts_add rfl rfl hsame fun depth => ?_⟩
  have helement : element?.map ((store.add shape).view depth) =
    element?.map (store.view depth) := by
    cases element? with
    | none => rfl
    | some element => exact congrArg some (hsteady.view hclosed (hholds element rfl) depth)
  simp only [viewAt, shape_add_self, Value.general, Vista.bare, if_true, Option.map_some]
  exact ⟨trivial, trivial, congrArg some (helement.trans (hviews depth))⟩

mutual

/-- The type made for a value shows what the value does, and nothing else changes. -/
theorem depicts_ofValue {start : TypeStore} (hclosed : start.Closed) (value : Value) :
    Steady start (ofValue value start).2 ∧
      ∃ id, (ofValue value start).1 = plain id ∧ Depicts (ofValue value start).2 id value := by
  cases value with
  | undefined | null | bool b | number x | object tag members =>
      unfold ofValue
      refine ⟨steady_add fun _ => ⟨?_, ?_, ?_⟩, start.shapes.size, rfl, depicts_add rfl rfl rfl ?_⟩
      · intro name member hmember
        cases hmember
      · intro key element helement
        cases helement
      · intro hrecord
        first | rfl | cases hrecord
      · intro depth
        simp [viewAt, Value.general, Vista.bare, Value.kind]
  | string s =>
      unfold ofValue
      let text := start.add { kind := .string, lenient := true }
      have htext : Steady start text := steady_add fun _ =>
        supports_bare rfl (fun helement => by cases helement) rfl
      refine ⟨trans_of Steady htext (steady_add fun _ => supports_bare rfl ?_ rfl),
        text.shapes.size, rfl, depicts_add rfl rfl rfl ?_⟩
      · intro key element helement
        cases helement
        exact holds_plain (by simp [text, TypeStore.add])
      · intro depth
        simp [viewAt, Value.general, Vista.bare, Value.kind]
  | array tag values =>
      unfold ofValue
      obtain ⟨hsteady, ids, hids, hdepicts⟩ := depicts_ofValues hclosed values
      obtain ⟨constants, hconstants, halike⟩ :=
        mapM_constant_of_mirrors (mirrors_ofValues start values)
      rcases hrun : ofValues values start with ⟨elements, made⟩
      rw [hrun] at hsteady hids hdepicts hconstants
      dsimp only at hsteady hids hdepicts hconstants
      let tagged : TypeStore := { made with nextTag := made.nextTag + 1 }
      have hmade := (hsteady hclosed).1
      have htag : Steady made tagged := steady_tag made
      have htagged := (htag hmade).1
      obtain ⟨element?, general, hgeneral, hsteady', hholds, hviews⟩ :=
        generalElement_general (depicts_after hdepicts (.single (.tag made)) htag hmade) htagged
      have hconstant : elementConstants elements made =
          (some (.array made.nextTag constants), tagged) := by
        rw [elementConstants_apply, hconstants]
        rfl
      rw [TypeM.bind_apply, hrun]
      dsimp only
      rw [TypeM.bind_apply, hconstant]
      dsimp only
      rw [TypeM.bind_apply, hids, hgeneral]
      have hsame : (Value.array made.nextTag constants).untagged =
          (Value.array tag values).untagged := by
        simp only [Value.untagged, Value.untaggedElements_eq_map, halike]
      have harray := depicts_arrayOf rfl hsame (hsteady' htagged).1 hholds hviews
      refine ⟨?_, general.shapes.size, rfl, harray.2⟩
      exact trans_of Steady hsteady (trans_of Steady htag (trans_of Steady hsteady' harray.1))

theorem depicts_ofValues {start : TypeStore} (hclosed : start.Closed) (values : List Value) :
    Steady start (ofValues values start).2 ∧
      ∃ ids : List Nat, (ofValues values start).1 = ids.map plain ∧
        List.Forall₂ (Depicts (ofValues values start).2) ids values := by
  cases values with
  | nil =>
      unfold ofValues
      exact ⟨refl_of Steady start, [], rfl, .nil⟩
  | cons value rest =>
      unfold ofValues
      obtain ⟨hsteady, id, hid, hfirst⟩ := depicts_ofValue hclosed value
      obtain ⟨hsteady', ids, hids, hrest⟩ := depicts_ofValues (hsteady hclosed).1 rest
      have hmakes := makes_ofValues (ofValue value start).2 rest
      refine ⟨trans_of Steady hsteady hsteady', id :: ids, ?_, ?_⟩
      · rw [TypeM.bind_apply, TypeM.bind_apply, hid, hids]
        rfl
      · exact .cons (hfirst.of_makes hmakes hsteady' (hsteady hclosed).1) hrest

end

end Ty

end ScriptCheck
