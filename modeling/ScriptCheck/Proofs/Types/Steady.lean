import ScriptCheck.Proofs.Types.Comparison

/-!
# Types that stay what they are

The shapes of a closed store lead to types of that store only.  Adding types to such a store
changes nothing that can be told of the types that are there.
-/

namespace ScriptCheck

namespace TypeStore

/-! ## Closed stores -/

/-- A store has the variants of a type, and not just one where the type is a union. -/
structure Holds (store : TypeStore) (ty : Ty) : Prop where
  lt : ∀ {id : Nat}, id ∈ ty.variants → id < store.shapes.size
  flat : ty.isUnion = true → ty.variants.length ≠ 1

/-- A store has the types that a shape leads to, and only a shape of a kind that has members is
that of a known object. -/
structure Supports (store : TypeStore) (shape : Shape) : Prop where
  member : ∀ {name : String} {member : Ty}, Record.get? name shape.members = some member →
    store.Holds member
  element : ∀ {key : Kind} {element : Ty}, shape.indexer = some ⟨key, some element⟩ →
    store.Holds element
  record : shape.isRecord = true → Ty.hasMembers shape.kind = true

/-- A store has all types that its shapes lead to. -/
def Closed (store : TypeStore) : Prop := ∀ id, store.Supports (store.shape id)

variable {store next last : TypeStore} {id : Nat}

theorem holds_plain (h : id < store.shapes.size) : store.Holds (.plain id) where
  lt hother := by rwa [List.mem_singleton.mp hother]
  flat hunion := by cases hunion

theorem Holds.of_size_le {ty : Ty} (h : store.Holds ty)
    (hsize : store.shapes.size ≤ next.shapes.size) : next.Holds ty :=
  ⟨fun hid => Nat.lt_of_lt_of_le (h.lt hid) hsize, h.flat⟩

theorem Supports.of_size_le {shape : Shape} (h : store.Supports shape)
    (hsize : store.shapes.size ≤ next.shapes.size) : next.Supports shape :=
  ⟨fun hmember => (h.member hmember).of_size_le hsize,
    fun helement => (h.element helement).of_size_le hsize, h.record⟩

theorem supports_bare {shape : Shape} (hmembers : shape.members = [])
    (helement : ∀ {key : Kind} {element : Ty}, shape.indexer = some ⟨key, some element⟩ →
      store.Holds element) (hrecord : shape.isRecord = false) : store.Supports shape where
  member hmember := by
    rw [hmembers] at hmember
    cases hmember
  element := helement
  record htrue := by
    rw [hrecord] at htrue
    cases htrue

theorem supports_default (store : TypeStore) : store.Supports default :=
  supports_bare rfl (fun helement => by cases helement) rfl

theorem Supports.slot?_ne_none {shape : Shape} (h : store.Supports shape) {name : String}
    (hname : name ∈ shape.memberNames) : shape.slot? name ≠ none := by
  cases hhas : Ty.hasMembers shape.kind with
  | true => exact Shape.slot?_ne_none_of_mem hhas hname
  | false =>
      intro hnone
      have hrecord : shape.isRecord ≠ true := fun hrecord => by
        rw [h.record hrecord] at hhas
        cases hhas
      have hkeys : shape.memberNames = Record.keys shape.members := by
        unfold Shape.memberNames
        split
        · exact absurd (Shape.isRecord_iff.mpr ⟨_, _, ‹_›⟩) hrecord
        · rfl
      rw [hkeys] at hname
      obtain ⟨member, hmember⟩ := Record.mem_keys_iff.mp hname
      rw [(Shape.slot?_eq_none_iff.mp hnone).1] at hmember
      cases hmember

theorem closed_empty : ({} : TypeStore).Closed := by
  intro id
  rw [shape_of_size_le (Nat.zero_le _)]
  exact supports_default _

theorem size_le_add (store : TypeStore) (shape : Shape) :
    store.shapes.size ≤ (store.add shape).shapes.size := by
  simp [TypeStore.add]

theorem Closed.add (h : store.Closed) {shape : Shape} (hshape : store.Supports shape) :
    (store.add shape).Closed := by
  intro id
  rcases shape_add_cases store shape id with hold | hnew
  · rw [hold]
    exact (h id).of_size_le (size_le_add store shape)
  · rw [hnew]
    exact hshape.of_size_le (size_le_add store shape)

/-! ## Views that stay -/

noncomputable def vista (store : TypeStore) (id : TypeId) : Vista :=
  fun depth => store.viewAt depth id

theorem slot_viewAt_ne_none (h : store.Supports (store.shape id)) {name : String}
    (hname : name ∈ (store.shape id).memberNames) (depth : Nat) :
    (store.viewAt (depth + 1) id).slot name ≠ none := by
  simp only [viewAt, ne_eq, Option.map_eq_none_iff]
  exact h.slot?_ne_none hname

/-- From a closed store a closed one is reached, in which the types that were there are no
different. -/
def Steady (before after : TypeStore) : Prop :=
  before.Closed → after.Closed ∧ before.shapes.size ≤ after.shapes.size ∧
    ∀ {id : Nat}, id < before.shapes.size → after.vista id = before.vista id

instance : IsPreorder TypeStore Steady where
  refl _ h := ⟨h, Nat.le_refl _, fun _ => rfl⟩
  trans _ _ _ hfirst hnext h := by
    obtain ⟨hclosed, hsize, hview⟩ := hfirst h
    obtain ⟨hclosed', hsize', hview'⟩ := hnext hclosed
    refine ⟨hclosed', Nat.le_trans hsize hsize', fun hid => ?_⟩
    exact (hview' (Nat.lt_of_lt_of_le hid hsize)).trans (hview hid)

namespace Steady

theorem view (h : Steady store next) (hclosed : store.Closed) {ty : Ty} (hty : store.Holds ty)
    (depth : Nat) : next.view depth ty = store.view depth ty := by
  apply Choice.map_congr
  intro id hid
  rw [Ty.items_choice] at hid
  exact congrFun ((h hclosed).2.2 (hty.lt hid)) depth

theorem holds (h : Steady store next) (hclosed : store.Closed) {ty : Ty} (hty : store.Holds ty) :
    next.Holds ty :=
  hty.of_size_le (h hclosed).2.1

end Steady

section inside

variable {depth : Nat} (hinside : ∀ {inner : Nat}, inner < store.shapes.size →
  next.viewAt depth inner = store.viewAt depth inner)

include hinside

theorem view_eq_of_inside {ty : Ty} (hty : store.Holds ty) :
    next.view depth ty = store.view depth ty := by
  refine Choice.map_congr fun inner hinner => hinside (hty.lt ?_)
  rwa [Ty.items_choice] at hinner

/-- Types with the same indexer show the same elements. -/
theorem element_viewAt_eq {other : Nat} (hsupports : store.Supports (store.shape id))
    (hkind : (next.shape other).kind = (store.shape id).kind)
    (hindexer : (next.shape other).indexer = (store.shape id).indexer) :
    (next.viewAt (depth + 1) other).element = (store.viewAt (depth + 1) id).element := by
  simp only [viewAt, hkind, hindexer]
  split
  · cases hfound : (store.shape id).indexer with
    | none => rfl
    | some indexer =>
        obtain ⟨key, _ | element⟩ := indexer
        · rfl
        · exact congrArg (some ∘ some)
            (view_eq_of_inside hinside (hsupports.element hfound))
  · rfl

/-- Of types with the same outline the same is told but for their members. -/
theorem aspects_of_outline {other : Nat} (hsupports : store.Supports (store.shape id))
    (houtline : (next.shape other).outline = (store.shape id).outline) :
    (next.viewAt (depth + 1) other).kind = (store.viewAt (depth + 1) id).kind ∧
      (next.viewAt (depth + 1) other).mutable = (store.viewAt (depth + 1) id).mutable ∧
      (next.viewAt (depth + 1) other).element = (store.viewAt (depth + 1) id).element := by
  have hkind := kind_of_outline houtline
  have hmutable : (next.shape other).mutable = (store.shape id).mutable :=
    (congrArg Shape.mutable houtline :)
  have hindexer : (next.shape other).indexer = (store.shape id).indexer :=
    (congrArg Shape.indexer houtline :)
  exact ⟨hkind, hmutable, element_viewAt_eq hinside hsupports hkind hindexer⟩

/-- What types have under a name shows alike where it is the same. -/
theorem slot_viewAt_eq {other : Nat} {name : String} (hsupports : store.Supports (store.shape id))
    (hslot : (next.shape other).slot? name = (store.shape id).slot? name) :
    (next.viewAt (depth + 1) other).slot name = (store.viewAt (depth + 1) id).slot name := by
  simp only [viewAt, hslot]
  cases hfound : (store.shape id).slot? name with
  | none => rfl
  | some slot =>
      cases slot with
      | known value => rfl
      | declared member =>
          have hmember := Shape.slot?_eq_declared_iff.mp hfound
          exact congrArg some (view_eq_of_inside hinside (hsupports.member hmember))

/-- The view of a plain type follows from its shape and the views of what this leads to. -/
theorem viewAt_succ_of_shape_eq (hshape : next.shape id = store.shape id)
    (hsupports : store.Supports (store.shape id)) :
    next.viewAt (depth + 1) id = store.viewAt (depth + 1) id := by
  obtain ⟨hkind, hmutable, helement⟩ :=
    aspects_of_outline hinside hsupports (congrArg Shape.outline hshape)
  refine Aspect.ext hkind hmutable helement ?_ (funext fun name => ?_)
  · simp only [viewAt, hshape]
  · exact slot_viewAt_eq hinside hsupports (by rw [hshape])

end inside

theorem steady_of_shape_eq (hclosed : store.Closed → next.Closed)
    (hsize : store.shapes.size ≤ next.shapes.size)
    (hshape : ∀ {id : Nat}, id < store.shapes.size → next.shape id = store.shape id) :
    Steady store next := by
  refine fun h => ⟨hclosed h, hsize, fun {id} hid => funext fun depth => ?_⟩
  induction depth generalizing id with
  | zero => rfl
  | succ depth ih => exact viewAt_succ_of_shape_eq ih (hshape hid) (h id)

theorem steady_add {shape : Shape} (hshape : store.Closed → store.Supports shape) :
    Steady store (store.add shape) :=
  steady_of_shape_eq (fun h => h.add (hshape h)) (size_le_add store shape)
    fun hid => shape_add_of_lt hid shape

theorem steady_tag (store : TypeStore) :
    Steady store { store with nextTag := store.nextTag + 1 } :=
  steady_of_shape_eq (fun h id => (h id).of_size_le (Nat.le_refl _)) (Nat.le_refl _) fun _ => rfl

end TypeStore

end ScriptCheck
