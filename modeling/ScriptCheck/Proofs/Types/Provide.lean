import ScriptCheck.Proofs.Types.Canonical

/-!
# What is made and read is in canonical form

Plain types of one primitive kind are always assignable to one another, so general types of
values that are kept side by side are apart.  Hence whatever is made for a value or a kind, put
together from types or read from a type is in canonical form.
-/

namespace ScriptCheck

open TypeStore

abbrev TypeM.Provides (shared : Nat → Prop) (store : TypeStore) (computation : TypeM Ty) : Prop :=
  computation.Leads (Keeps shared) store fun ty next => next.Canonical ty

abbrev TypeM.MayProvide (shared : Nat → Prop) (store : TypeStore)
    (computation : TypeM (Option Ty)) : Prop :=
  computation.Leads (Keeps shared) store fun found next => ∀ ty, found = some ty → next.Canonical ty

variable {shared : Nat → Prop}

theorem TypeM.MayProvide.none {store : TypeStore} : TypeM.MayProvide shared store (pure none) :=
  TypeM.Leads.pure fun _ h => (nomatch h)

theorem TypeM.MayProvide.some {store : TypeStore} {ty : Ty} (h : store.Canonical ty) :
    TypeM.MayProvide shared store (pure (some ty)) :=
  TypeM.Leads.pure fun _ hother => Option.some.inj hother ▸ h

theorem TypeM.Provides.some {store : TypeStore} {computation : TypeM Ty}
    (h : TypeM.Provides shared store computation) :
    TypeM.MayProvide shared store (do return some (← computation)) :=
  h.bind fun _ _ _ hcanonical => MayProvide.some hcanonical

namespace Ty

open TypeM (Follows Leads Provides MayProvide)

variable {store : TypeStore}

/-! ## General types -/

theorem provides_new {shape : Shape} (h : Keeps shared store (store.add shape)) :
    Provides shared store (new shape) :=
  ⟨h, Nat.lt_of_lt_of_eq (Nat.lt_succ_self _) (Array.size_push _).symm⟩

theorem provides_data {shape : Shape} (hcarries : store.Carries shape)
    (hkind : shape.kind ≠ .function) : Provides shared store (new shape) :=
  provides_new (keeps_add_data hcarries hkind)

/-- A new type without members, elements and a function. -/
theorem provides_bare {shape : Shape} (hlawful : shape.Lawful) (hmembers : shape.members = [])
    (hconstant : ∀ {value : Value}, shape.constant = some value → value.kind = shape.kind)
    (hindexer : shape.indexer = none) (hkind : shape.kind ≠ .function) :
    Provides shared store (new shape) := by
  have hcarries : store.Carries shape := by
    refine carries_bare hlawful hmembers hconstant fun helement => ?_
    rw [hindexer] at helement
    cases helement
  exact provides_data hcarries hkind

theorem provides_unknown : Provides shared store unknown :=
  provides_bare (by constructor <;> simp) rfl nofun rfl nofun

theorem provides_number : Provides shared store number :=
  provides_bare (by constructor <;> simp) rfl nofun rfl nofun

theorem provides_boolean : Provides shared store boolean :=
  provides_bare (by constructor <;> simp) rfl nofun rfl nofun

theorem provides_null : Provides shared store null :=
  provides_bare (by constructor <;> simp) rfl (fun h => by cases h; rfl) rfl nofun

theorem provides_undefined : Provides shared store undefined :=
  provides_bare (by constructor <;> simp) rfl (fun h => by cases h; rfl) rfl nofun

theorem provides_text (constant : Option Value)
    (hconstant : ∀ {value : Value}, constant = some value → value.kind = .string) :
    Provides shared store (do
      let shape ← stringShape
      new { shape with constant }) := by
  let text (element : Ty) : Shape :=
    { kind := .string, lenient := true, indexer := some ⟨.number, some element⟩, constant }
  change Provides shared store (new { kind := .string, lenient := true } >>= fun element =>
    new (text element))
  have helement : Provides shared store (new { kind := .string, lenient := true }) :=
    provides_bare (by constructor <;> simp) rfl nofun rfl nofun
  apply helement.bind
  intro element next _ helement
  have hcarries : next.Carries (text element) := by
    refine carries_bare (by constructor <;> simp [text]) rfl hconstant fun hfound => ?_
    cases hfound
    exact helement
  exact provides_data hcarries nofun

theorem provides_string : Provides shared store string := provides_text none nofun

/-! ## Objects and functions -/

theorem keeps_freshTag : Follows (Keeps shared) store freshTag := keeps_tag store

theorem provides_object (horderly : store.Orderly) {members : List (String × Ty)}
    (hmembers : store.CanonicalMembers members) : Provides shared store (object members) := by
  apply (Leads.of_follows keeps_freshTag).bind
  intro tag tagged htagged _
  apply (Leads.of_follows (follows_memberConstants tagged members)).bind
  intro values last hlast _
  have hkeeps := trans_of (Keeps shared) htagged hlast
  have hcarries : last.Carries
      { kind := .object
        mutable := true
        indexer := some ⟨.string, none⟩
        members
        constant := values.map (Value.object tag) } := by
    refine ⟨by constructor <;> simp [hasMembers], fun hconstant => ?_,
      fun hmember => hkeeps.canonical horderly (hmembers hmember), nofun⟩
    obtain ⟨contents, -, rfl⟩ := Option.map_eq_some_iff.mp hconstant
    rfl
  exact provides_data hcarries nofun

theorem provides_function (horderly : store.Orderly) {callable : Callable}
    (hcalls : shared callable.tag ∨ store.Uncalled callable.tag) :
    Provides shared store (function callable) := by
  have hobject : Provides shared store (object []) := provides_object horderly nofun
  have hgrows : Grows (fun _ => False) store (object [] store).2 := grows_object store []
  have hcarries : (object [] store).2.Carries
      { kind := .function
        mutable := true
        lenient := true
        members := [("prototype", (object [] store).1)]
        callable := some callable } := by
    refine ⟨by constructor <;> simp [hasMembers], nofun, fun hmember => ?_, nofun⟩
    cases List.mem_singleton.mp (Record.mem_of_get? hmember)
    exact hobject.2
  have hfunction : Provides shared _ (new _) := provides_new (keeps_add hcarries fun f hf =>
    hcalls.imp (Option.some.inj hf ▸ ·) fun huncalled =>
      Option.some.inj hf ▸ huncalled.of_grows hgrows fun _ => False.elim)
  exact ⟨trans_of (Keeps shared) hobject.1 hfunction.1, hfunction.2⟩

theorem provides_ofKind (horderly : store.Orderly) (kind : Kind) :
    Provides shared store (ofKind kind) := by
  cases kind with
  | string => exact provides_string
  | number => exact provides_number
  | boolean => exact provides_boolean
  | null => exact provides_null
  | undefined => exact provides_undefined
  | object => exact provides_object horderly nofun
  | function | unknown => exact provides_unknown

/-- A type without its constant is as it was otherwise. -/
theorem leads_widenPlain (horderly : store.Orderly) {id : Nat} (hid : id < store.shapes.size) :
    (widenPlain id).Leads (Keeps shared) store fun widened next =>
      widened < next.shapes.size ∧ (next.shape widened).outline = (store.shape id).outline ∧
        (widened = id ∨ store.shapes.size ≤ widened) := by
  have hself : widenPlain id store = (id, store) →
      (widenPlain id).Leads (Keeps shared) store fun widened next =>
        widened < next.shapes.size ∧ (next.shape widened).outline = (store.shape id).outline ∧
          (widened = id ∨ store.shapes.size ≤ widened) := by
    intro hsame
    unfold Leads
    rw [hsame]
    exact ⟨refl_of (Keeps shared) store, hid, rfl, .inl rfl⟩
  by_cases hnull : (store.shape id).kind = .null ∨ (store.shape id).kind = .undefined
  · exact hself (widenPlain_of_null hnull)
  obtain ⟨hnull, hundefined⟩ := not_or.mp hnull
  cases hconstant : (store.shape id).constant with
  | none => exact hself (widenPlain_of_none hconstant)
  | some constant =>
      have hold := horderly id
      have hcarries : store.Carries { store.shape id with constant := none } :=
        ⟨hold.lawful.general hnull hundefined hold.lawful.members, nofun, hold.member, hold.element⟩
      unfold Leads
      rw [widenPlain_of_some hconstant hnull hundefined]
      refine ⟨keeps_add_data hcarries (hold.kind_ne_function hconstant), ?_, ?_,
        .inr (Nat.le_refl _)⟩
      · simp [TypeStore.add]
      · rw [shape_add_self]
        rfl

/-! ## Comparing primitives -/

theorem memberNames_of_primitive (horderly : store.Orderly) {id : Nat}
    (hprimitive : (store.shape id).kind.isPrimitive = true) :
    (store.shape id).memberNames = [] := by
  have hnone := Kind.hasMembers_of_primitive hprimitive
  unfold Shape.memberNames
  rw [(horderly id).lawful.members hnone]
  split
  · rename_i constant tag members hconstant
    have hkind := (horderly id).constant hconstant
    rw [← hkind] at hnone
    cases hnone
  · rfl

theorem assignableWithin_of_primitive (horderly : store.Orderly) (read : MemberReader)
    (depth : Nat) {a b : Nat} (hkind : (store.shape a).kind = (store.shape b).kind)
    (hprimitive : (store.shape a).kind.isPrimitive = true) :
    assignableWithin read (depth + 1) (plain a) (plain b) store = (true, store) := by
  have hunknown : ¬ ((store.shape a).kind = .unknown ∨ (store.shape b).kind = .unknown) := by
    rw [← hkind, or_self]
    intro h
    rw [h] at hprimitive
    cases hprimitive
  have hmutable : (store.shape a).mutable = false := by
    by_contra htrue
    rw [Bool.not_eq_false] at htrue
    rcases (horderly a).lawful.mutable htrue with h | h
    · exact hunknown (.inl h)
    · rw [Kind.hasMembers_of_primitive hprimitive] at h
      cases h
  have helements : ∀ nested, elementsAssignable nested (store.shape a) (store.shape b) =
      pure true := by
    intro nested
    unfold elementsAssignable
    split
    · rename_i hobject _
      rw [hobject] at hprimitive
      cases hprimitive
    · rfl
  rw [assignableWithin, plainAssignable]
  split
  · rfl
  · rw [shapeOf_bind, shapeOf_bind, if_neg hunknown, if_neg (not_not.mpr hkind), hmutable,
      helements]
    change membersAssignable read _ a b (store.shape a).memberNames store = _
    rw [memberNames_of_primitive horderly hprimitive]
    rfl

theorem equivalent_of_primitive (horderly : store.Orderly) {a b : Nat}
    (hkind : (store.shape a).kind = (store.shape b).kind)
    (hprimitive : (store.shape a).kind.isPrimitive = true) :
    equivalent (plain a) (plain b) store = (true, store) := by
  rw [equivalent, TypeM.bind_apply, assignable,
    assignableWithin_of_primitive horderly _ _ hkind hprimitive]
  exact assignableWithin_of_primitive horderly _ _ hkind.symm (by rwa [← hkind])

theorem interchangeable_of_primitive (horderly : store.Orderly) {a b : Nat}
    (hkind : (store.shape a).kind = (store.shape b).kind)
    (hprimitive : (store.shape a).kind.isPrimitive = true) :
    interchangeable a b store = (true, store) := by
  rw [interchangeable, TypeM.bind_apply,
    assignableWithin_of_primitive horderly _ _ hkind hprimitive]
  exact assignableWithin_of_primitive horderly _ _ hkind.symm (by rwa [← hkind])

/-! ## Types of values -/

theorem keeps_interchangeable (a b : TypeId) :
    Follows (Keeps shared) store (interchangeable a b) := by
  have hread : ReaderFollows (Keeps shared) noMembers := fun _ _ _ => .pure _
  apply (follows_assignableWithin store hread _ _ _).bind
  intro _ next _
  split
  · exact follows_assignableWithin next hread _ _ _
  · exact .pure _

theorem interchangeable_self (id : TypeId) (store : TypeStore) :
    interchangeable id id store = (true, store) := by
  rw [interchangeable, TypeM.bind_apply, assignableWithin, plainAssignable, if_pos rfl]
  rfl

/-- Variants that are apart stay apart when another type is put with them. -/
theorem leads_addGeneral (horderly : store.Orderly) {variants : List TypeId}
    (hvariants : store.Assorted variants) {incoming : Nat} (hincoming : store.Knows incoming) :
    (addGeneral variants incoming).Leads (Keeps shared) store fun result next =>
      next.Assorted result := by
  have hsearch : (variants.anyM fun existing => interchangeable existing incoming).Leads
      (Keeps shared) store fun found _ => found = false → ∀ existing ∈ variants,
        store.Apart existing incoming := by
    refine .anyM fun existing hexisting next hnext => ⟨keeps_interchangeable existing incoming, ?_⟩
    have hgrows := hnext.grows horderly
    have hkind := hgrows.kind (hvariants.lt existing hexisting)
    have hkind' := hgrows.kind hincoming.1
    refine fun hfound => ⟨?_, fun hprimitive hsame => ?_⟩
    · rintro rfl
      rw [interchangeable_self] at hfound
      cases hfound
    · rw [interchangeable_of_primitive (hnext.orderly horderly) (by rw [hkind, hkind', hsame])
        (by rwa [hkind])] at hfound
      cases hfound
  apply hsearch.bind
  intro found next hnext happart
  have hgrows := hnext.grows horderly
  cases found with
  | true => exact .pure (hvariants.of_grows hgrows)
  | false =>
      have hassorted : store.Assorted (variants ++ [incoming]) := by
        refine ⟨fun id hid => ?_, fun id hid => ?_, List.pairwise_append.mpr
          ⟨hvariants.apart, List.pairwise_singleton _ _, fun a ha b hb => ?_⟩⟩
        · rcases List.mem_append.mp hid with hid | hid
          · exact hvariants.lt id hid
          · rw [List.mem_singleton.mp hid]
            exact hincoming.1
        · rcases List.mem_append.mp hid with hid | hid
          · exact hvariants.known id hid
          · rw [List.mem_singleton.mp hid]
            exact hincoming.2
        · rw [List.mem_singleton.mp hb]
          exact happart rfl a ha
      exact .pure (hassorted.of_grows hgrows)

/-- Variants of which there is at least one are a type in canonical form. -/
theorem canonical_ofVariants {variants : List TypeId} (h : store.Assorted variants)
    (hne : variants ≠ []) : store.Canonical (ofVariants variants) := by
  unfold ofVariants
  split
  · rename_i id
    exact h.lt id List.mem_cons_self
  · rename_i hsingle
    refine ⟨?_, h⟩
    match variants with
    | [] => exact absurd rfl hne
    | [id] => exact absurd rfl (hsingle id)
    | _ :: _ :: _ => exact Nat.le_add_left _ _

theorem leads_generalOutlines (horderly : store.Orderly) {ids : List Nat}
    (hids : ∀ id ∈ ids, store.Knows id) :
    (ids.foldlM (fun variants id => do addGeneral variants (← widenPlain id)) []).Leads
      (Keeps shared) store fun variants next => next.Assorted variants := by
  refine .foldlM ⟨nofun, nofun, .nil⟩ fun variants id hid next hnext hassorted => ?_
  obtain ⟨hnextOrderly, hgrows, -⟩ := hnext horderly
  have hdata := (hids id hid).of_grows hgrows
  apply (leads_widenPlain hnextOrderly hdata.1).bind
  rintro widened last hlast ⟨hlt, houtline, -⟩
  obtain ⟨hlastOrderly, hgrows', -⟩ := hlast hnextOrderly
  refine leads_addGeneral hlastOrderly (hassorted.of_grows hgrows') ⟨hlt, ?_⟩
  rw [kind_of_outline houtline]
  exact hdata.2

theorem mayProvide_generalElement (horderly : store.Orderly) {elements : List Ty}
    (helements : ∀ id ∈ elements.flatMap variants, store.Knows id) :
    MayProvide shared store (generalElement elements) := by
  apply (leads_generalOutlines horderly helements).bind
  intro variants next hnext hassorted
  split
  · exact MayProvide.none
  · rename_i hempty
    exact MayProvide.some (canonical_ofVariants hassorted fun h => hempty (by rw [h]; rfl))

theorem leads_elementConstants (elements : List Ty) :
    (elementConstants elements).Leads (Keeps shared) store fun constant _ =>
      ∀ value, constant = some value → value.kind = .object := by
  refine ⟨keeps_freshTag.bind fun _ _ _ => .pure _, fun value hconstant => ?_⟩
  rw [elementConstants_apply] at hconstant
  obtain ⟨values, -, rfl⟩ := Option.map_eq_some_iff.mp hconstant
  rfl

theorem provides_arrayOf {constant : Option Value} {element : Option Ty}
    (hconstant : ∀ value, constant = some value → value.kind = .object)
    (helement : ∀ ty, element = some ty → store.Canonical ty) :
    Provides shared store (arrayOf constant element) := by
  have hcarries : store.Carries
      { kind := .object
        mutable := true
        lenient := true
        indexer := some ⟨.number, element⟩
        constant } := by
    refine carries_bare (by constructor <;> simp [hasMembers]) rfl (hconstant _) fun hfound => ?_
    cases hfound
    exact helement _ rfl
  exact provides_data hcarries nofun

theorem knows_of_mirrors {types : List Ty} {values : List Value}
    (h : List.Forall₂ store.Mirrors types values) :
    ∀ id ∈ types.flatMap variants, store.Knows id := by
  induction h with
  | nil => exact fun _ hid => (nomatch hid)
  | @cons ty value _ _ hfirst _ ih =>
      obtain ⟨inner, rfl, hreflects⟩ := hfirst.exists_reflects
      intro id hid
      rw [List.flatMap_cons] at hid
      rcases List.mem_append.mp hid with hid | hid
      · cases List.mem_singleton.mp hid
        refine ⟨hreflects.lt, ?_⟩
        rw [hreflects.kind]
        exact value.kind_ne_unknown
      · exact ih id hid

mutual

theorem keeps_ofValue (start : TypeStore) (horderly : start.Orderly) (value : Value) :
    Follows (Keeps shared) start (ofValue value) := by
  cases value with
  | undefined =>
      unfold ofValue
      exact provides_undefined.follows
  | null =>
      unfold ofValue
      exact provides_null.follows
  | bool b =>
      unfold ofValue
      exact (provides_bare (by constructor <;> simp) rfl (fun h => by cases h; rfl) rfl
        (by simp)).follows
  | number x =>
      unfold ofValue
      exact (provides_bare (by constructor <;> simp) rfl (fun h => by cases h; rfl) rfl
        (by simp)).follows
  | string s =>
      unfold ofValue
      exact (provides_text _ fun h => by cases h; rfl).follows
  | array tag values =>
      unfold ofValue
      have hvalues : (ofValues values).Leads (Keeps shared) start fun types next =>
          ∀ id ∈ types.flatMap variants, next.Knows id :=
        ⟨keeps_ofValues start horderly values, knows_of_mirrors (mirrors_ofValues start values)⟩
      have harray : Provides shared start (ofValues values >>= fun elements =>
          elementConstants elements >>= fun constant =>
            generalElement elements >>= fun element => arrayOf constant element) := by
        refine hvalues.bind fun elements next hnext helements => ?_
        have hnextOrderly := hnext.orderly horderly
        refine (leads_elementConstants elements).bind fun constant last hlast hconstant => ?_
        obtain ⟨hlastOrderly, hgrows, -⟩ := hlast hnextOrderly
        refine (mayProvide_generalElement hlastOrderly fun id hid =>
          (helements id hid).of_grows hgrows).bind fun _ _ _ helement => ?_
        exact provides_arrayOf hconstant helement
      exact harray.follows
  | object tag members =>
      unfold ofValue
      have hcarries : start.Carries
          { kind := .object
            mutable := true
            indexer := some ⟨.string, none⟩
            constant := some (.object tag members) } :=
        carries_bare (by constructor <;> simp [hasMembers]) rfl (fun h => by cases h; rfl) nofun
      exact (provides_data hcarries nofun).follows

theorem keeps_ofValues (start : TypeStore) (horderly : start.Orderly) (values : List Value) :
    Follows (Keeps shared) start (ofValues values) := by
  cases values with
  | nil =>
      unfold ofValues
      exact .pure _
  | cons value rest =>
      unfold ofValues
      have hfirst := keeps_ofValue start horderly value
      refine hfirst.bind fun first next hnext => ?_
      exact (keeps_ofValues next (hnext.orderly horderly) rest).bind fun _ _ _ => .pure _

end

theorem provides_ofValue (horderly : store.Orderly) (value : Value) :
    Provides shared store (ofValue value) := by
  refine ⟨keeps_ofValue store horderly value, ?_⟩
  obtain ⟨id, hid, hreflects⟩ := (mirrors_ofValue store value).exists_reflects
  rw [hid]
  exact hreflects.lt

theorem kind_of_holds {kind : Kind} {value : Value} (h : holds kind value = true) :
    value.kind = kind := by
  unfold holds at h
  split at h <;> first | rfl | cases h

theorem provides_toConstant (horderly : store.Orderly) (ty : Ty) (value : Value) :
    Provides shared store (ty.toConstant value) := by
  cases ty with
  | union variants => exact provides_ofValue horderly value
  | plain id =>
      apply Leads.shapeOf_bind
      split
      · rename_i hholds
        have hkind := kind_of_holds hholds
        have hold := horderly id
        have hcarries : store.Carries { store.shape id with constant := some value } := by
          refine ⟨⟨hold.lawful.callable, hold.lawful.members, ?_, ?_, ?_, hold.lawful.mutable⟩,
            fun h => by cases h; exact hkind, hold.member, hold.element⟩
          all_goals
            intro hsame
            rw [show (store.shape id).kind = _ from hsame] at hholds
            cases hholds
        refine provides_data hcarries ?_
        change (store.shape id).kind ≠ .function
        rw [← hkind]
        exact value.kind_ne_function
      · exact provides_ofValue horderly value

/-! ## Reading members -/

theorem keeps_declare {id : Nat} (name : String) {member : Ty}
    (hhas : hasMembers (store.shape id).kind = true) (hmember : store.Canonical member) :
    Keeps shared store (store.declare id name member) := by
  intro horderly
  have hold := horderly id
  refine keeps_modify (fun _ => rfl) ⟨{ hold.lawful with members := fun hnone => ?_ },
    hold.constant, CanonicalMembers.insert hold.member hmember, hold.element⟩ horderly
  rw [show hasMembers (store.shape id).kind = false from hnone] at hhas
  cases hhas

theorem mayProvide_declaredMember (horderly : store.Orderly) (id : Nat) (name : String) :
    MayProvide shared store (declaredMember id name) := by
  unfold MayProvide Leads
  cases hslot : (store.shape id).slot? name with
  | none =>
      rw [declaredMember_of_none hslot]
      exact ⟨refl_of (Keeps shared) store, nofun⟩
  | some slot =>
      cases slot with
      | declared member =>
          rw [declaredMember_of_declared hslot]
          refine ⟨refl_of (Keeps shared) store, fun ty hty => ?_⟩
          cases hty
          exact (horderly id).member (Shape.slot?_eq_declared_iff.mp hslot)
      | known value =>
          obtain ⟨hkeeps, hcanonical⟩ := provides_ofValue horderly value
          obtain ⟨-, hgrows, -⟩ := hkeeps horderly
          cases hrecord : (store.shape id).isRecord with
          | false =>
              rw [declaredMember_of_not_record hslot hrecord]
              refine ⟨hkeeps, fun ty hty => ?_⟩
              cases hty
              exact hcanonical
          | true =>
              rw [declaredMember_of_record hslot hrecord]
              have hhas := Shape.hasMembers_of_known hslot
              rw [← hgrows.kind (lt_of_slot? hslot)] at hhas
              have hdeclare : Keeps shared _ _ := keeps_declare name hhas hcanonical
              refine ⟨trans_of (Keeps shared) hkeeps hdeclare, fun ty hty => ?_⟩
              cases hty
              exact hdeclare.canonical (hkeeps horderly).1 hcanonical

theorem keeps_declaredMember : ReaderFollows (Keeps shared) declaredMember :=
  fun _ id name horderly => (mayProvide_declaredMember horderly id name).1 horderly

theorem mayProvide_ownMember (horderly : store.Orderly) (id : Nat) (name : String) :
    MayProvide shared store (ownMember id name) := by
  apply (mayProvide_declaredMember horderly id name).bind
  intro declared? next hnext hdeclared
  cases declared? with
  | some member => exact MayProvide.some (hdeclared member rfl)
  | none =>
      apply Leads.shapeOf_bind
      split
      · split
        · exact (provides_ofValue (hnext.orderly horderly) _).some
        · exact provides_number.some
      · exact MayProvide.none

theorem mayProvide_namedMember (horderly : store.Orderly) (id : Nat) (name : String) :
    MayProvide shared store (namedMember id name) := by
  apply (mayProvide_ownMember horderly id name).bind
  intro own? next hnext hown
  cases own? with
  | some member => exact MayProvide.some (hown member rfl)
  | none =>
      apply Leads.shapeOf_bind
      unfold textMember
      split
      · exact (provides_ofValue (hnext.orderly horderly) _).some
      · exact MayProvide.none

theorem mayProvide_indexedMember (horderly : store.Orderly) (id : Nat) (key : Ty) :
    MayProvide shared store (indexedMember id key) := by
  apply Leads.shapeOf_bind
  split
  · exact MayProvide.none
  · rename_i indexer hindexer
    obtain ⟨kind, element?⟩ := indexer
    apply (Leads.of_follows (follows_accepts store _ key)).bind
    intro accepted next hnext _
    split
    · cases element? with
      | some element =>
          exact MayProvide.some (hnext.canonical horderly ((horderly id).element hindexer))
      | none => exact provides_unknown.some
    · exact MayProvide.none

theorem mayProvide_plainMember (horderly : store.Orderly) (id : Nat) (key : Ty) :
    MayProvide shared store (plainMember id key) := by
  apply Leads.shapeOf_bind
  split
  · exact provides_unknown.some
  apply (Leads.of_follows (follows_keyName? store key)).bind
  intro name? next hnext _
  have hnextOrderly := hnext.orderly horderly
  cases name? with
  | none => exact mayProvide_indexedMember hnextOrderly id key
  | some name =>
      apply (mayProvide_namedMember hnextOrderly id name).bind
      intro named? last hlast hnamed
      cases named? with
      | some member => exact MayProvide.some (hnamed member rfl)
      | none => exact mayProvide_indexedMember (hlast hnextOrderly).1 id key

theorem leads_variantMembers (horderly : store.Orderly) (key : Ty) (variants : List TypeId) :
    (variantMembers key variants).Leads (Keeps shared) store fun members next =>
      ∀ member ∈ members, next.Canonical member := by
  induction variants generalizing store with
  | nil => exact .pure fun member hmember => (nomatch hmember)
  | cons id rest ih =>
      apply (mayProvide_plainMember horderly id key).bind
      intro member? next hnext hmember
      have hnextOrderly := hnext.orderly horderly
      have hrest : ∀ {member : Ty} {last : TypeStore}, Keeps shared next last →
          last.Canonical member →
          (do return member :: (← variantMembers key rest)).Leads (Keeps shared) last
            fun members next => ∀ member ∈ members, next.Canonical member := by
        intro member last hlast hcanonical
        have hlastOrderly := (hlast hnextOrderly).1
        refine (ih hlastOrderly).bind fun members after hafter hmembers => .pure ?_
        rw [List.forall_mem_cons]
        exact ⟨hafter.canonical hlastOrderly hcanonical, hmembers⟩
      cases member? with
      | some member => exact hrest (refl_of (Keeps shared) next) (hmember member rfl)
      | none => exact provides_unknown.bind fun _ _ hlast hcanonical => hrest hlast hcanonical

theorem leads_declaredMembers (horderly : store.Orderly) (id : Nat) (names : List String) :
    (declaredMembers id names).Leads (Keeps shared) store fun members next =>
      ∀ member ∈ members, next.Canonical member.2 := by
  induction names generalizing store with
  | nil => exact .pure fun member hmember => (nomatch hmember)
  | cons name rest ih =>
      apply (mayProvide_declaredMember horderly id name).bind
      intro member? next hnext hmember
      have hnextOrderly := hnext.orderly horderly
      cases member? with
      | none => exact ih hnextOrderly
      | some member =>
          apply (ih hnextOrderly).bind
          intro members last hlast hmembers
          refine .pure ?_
          rw [List.forall_mem_cons]
          exact ⟨hlast.canonical hnextOrderly (hmember member rfl), hmembers⟩

theorem leads_members (horderly : store.Orderly) (ty : Ty) :
    ty.members.Leads (Keeps shared) store fun members next =>
      ∀ member ∈ members, next.Canonical member.2 := by
  cases ty with
  | union variants => exact .pure fun member hmember => (nomatch hmember)
  | plain id =>
      apply Leads.shapeOf_bind
      refine (leads_declaredMembers horderly id _).bind fun members next _ hmembers => .pure ?_
      exact fun member hmember => hmembers member (Record.mem_of_mem_ofList hmember)

theorem keeps_plainLacks (horderly : store.Orderly) (id : Nat) (key : Ty) :
    Follows (Keeps shared) store (plainLacks id key) :=
  follows_plainLacks fun name => (mayProvide_ownMember horderly id name).follows

theorem keeps_lacks (horderly : store.Orderly) (ty key : Ty) :
    Follows (Keeps shared) store (ty.lacks key) :=
  .anyM fun id _ hnext => keeps_plainLacks (hnext.orderly horderly) id key

/-! ## Writing members -/

theorem lawful_write {shape : Shape} (h : shape.Lawful) (hhas : hasMembers shape.kind = true)
    (constant : Option Value) (members : List (String × Ty)) :
    ({ shape with constant, members } : Shape).Lawful := by
  refine ⟨h.callable, fun hnone => ?_, ?_, ?_, ?_, h.mutable⟩
  · rw [show hasMembers shape.kind = false from hnone] at hhas
    cases hhas
  all_goals
    intro hkind
    rw [show shape.kind = _ from hkind] at hhas
    cases hhas

theorem lt_of_mutable {id : Nat} (h : (store.shape id).mutable = true) :
    id < store.shapes.size := by
  by_contra hge
  rw [shape_of_size_le (Nat.le_of_not_lt hge)] at h
  cases h

/-- A shape whose members can be written gets another member, and with it another constant of
its kind or none. -/
theorem carries_write {shape : Shape} (h : store.Carries shape)
    (hhas : hasMembers shape.kind = true) {constant : Option Value}
    (hconstant : ∀ value, constant = some value → value.kind = shape.kind) {name : String}
    {member : Ty} (hmember : store.Canonical member) :
    store.Carries { shape with constant, members := Record.insert name member shape.members } where
  lawful := lawful_write h.lawful hhas _ _
  constant := hconstant _
  member := CanonicalMembers.insert h.member hmember
  element := h.element

theorem keeps_setMember (horderly : store.Orderly) {id : Nat}
    (hhas : hasMembers (store.shape id).kind = true) (hid : id < store.shapes.size)
    (name : String) {member : Ty} (hmember : store.Canonical member) :
    Follows (Keeps shared) store (setMember id name member) := by
  apply (follows_constant? store member).bind
  intro value next hnext
  have hfresh : Follows (Keeps shared) next freshTag := keeps_freshTag
  apply hfresh.bind
  intro tag after hafter
  have hkeeps := trans_of (Keeps shared) hnext hafter
  obtain ⟨hafterOrderly, hgrows, -⟩ := hkeeps horderly
  rw [← hgrows.kind hid] at hhas
  refine keeps_modify (fun _ => rfl) (carries_write (hafterOrderly id) hhas ?_
    (hkeeps.canonical horderly hmember))
  intro constant hconstant
  split at hconstant
  · rename_i hobject
    cases hconstant
    exact ((hafterOrderly id).constant hobject :)
  · cases hconstant

theorem keeps_setPlain (horderly : store.Orderly) (id : Nat) (key : Ty) {value : Ty}
    (hvalue : store.Canonical value) : Follows (Keeps shared) store (setPlain id key value) := by
  have hcarries := horderly id
  have hhas : (store.shape id).kind ≠ .unknown → (store.shape id).mutable = true →
      hasMembers (store.shape id).kind = true := fun hknown hmutable =>
    (hcarries.lawful.mutable hmutable).resolve_left hknown
  apply follows_setPlain
  · intro hknown hmutable name
    exact keeps_setMember horderly (hhas hknown hmutable) (lt_of_mutable hmutable) name hvalue
  · intro hknown hmutable
    have hlawful := lawful_write hcarries.lawful (hhas hknown hmutable) none
      (store.shape id).members
    exact keeps_modify (fun _ => rfl) ⟨hlawful, nofun, hcarries.member, hcarries.element⟩

theorem keeps_trySet (horderly : store.Orderly) (ty key : Ty) {value : Ty}
    (hvalue : store.Canonical value) : Follows (Keeps shared) store (ty.trySet key value) :=
  .foldlM fun _ id _ hnext =>
    (keeps_setPlain (hnext.orderly horderly) id key (hnext.canonical horderly hvalue)).bind
      fun _ _ _ => .pure _

end Ty

end ScriptCheck
