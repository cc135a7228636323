import ScriptCheck.Proofs.Types.InStep
import ScriptCheck.Proofs.Types.Lacking

/-!
# Reading what was written

A write by a name declares a member, which is what is read under that name from then on, and leaves
the other members what they were.  A write by a number declares none, although a number names a
member when it is read: it goes by the indexer, which may refuse it, and only takes the constant
away.  So what is read by that number need not be what was written.
-/

namespace ScriptCheck

open TypeStore

namespace Shape

/-- Whether what a shape has under a name is still there when another member is set to a type with
this constant, if any.  What is declared is; a value that is known stays with a known object that
remains known. -/
def Outlasts (shape : Shape) (constant : Option Value) : Slot → Prop
  | .declared _ => True
  | .known _ => shape.isRecord = true ∧ constant.isSome = true

/-- Whether a shape can be written to by a number. -/
def takesNumbers (shape : Shape) : Bool :=
  match shape.indexer with
  | none => true
  | some indexer => indexer.key = .number

end Shape

namespace Ty

/-- What is read of a plain type by a key is what the type has under some name: the type that is
declared, or a type for the value that is known. -/
def ReadsAs (store : TypeStore) (id : TypeId) (key : Ty) : Slot → Prop
  | .declared member => ∀ bound, member? bound (plain id) key store = some (some member, store)
  | .known value => ∀ bound, ∃ member next,
    member? bound (plain id) key store = some (some member, next) ∧ next.Tells member value

variable {store next : TypeStore} {id : TypeId} {key : Ty} {name : String} {slot : Slot}

theorem kind_ne_of_hasMembers (hmembers : hasMembers (store.shape id).kind = true) {kind : Kind}
    (hwithout : hasMembers kind = false) : (store.shape id).kind ≠ kind := by
  rintro rfl
  rw [hwithout] at hmembers
  cases hmembers

/-! ## Reading by a name -/

theorem member?_of_declaredMember (hknown : (store.shape id).kind ≠ .unknown)
    (hspells : store.Spells key name) {member : Ty}
    (hfound : declaredMember id name store = (some member, next)) (bound : Nat) :
    member? bound (plain id) key store = some (some member, next) := by
  rw [← shownMember_of_known hknown] at hfound
  exact congrArg some (plainMember_of_shown hspells.names hfound)

/-- A name leads to what a plain type has under it. -/
theorem readsAs_of_slot? (hknown : (store.shape id).kind ≠ .unknown)
    (hspells : store.Spells key name)
    (held : (store.shape id).slot? name = some slot) : ReadsAs store id key slot := by
  cases slot with
  | declared member =>
      exact member?_of_declaredMember hknown hspells (declaredMember_of_declared held)
  | known value =>
      intro bound
      have htells := (mirrors_ofValue store value).tells
      cases hrecord : (store.shape id).isRecord with
      | true =>
          refine ⟨_, _, member?_of_declaredMember hknown hspells
            (declaredMember_of_record held hrecord) bound, ?_⟩
          have hshape := (makes_ofValue store value).shape_eq (lt_of_slot? held)
          exact htells.of_later (.declare (by rw [hshape, held]) (by rw [hshape, hrecord])
            (mirrors_ofValue store value))
      | false =>
          exact ⟨_, _, member?_of_declaredMember hknown hspells
            (declaredMember_of_not_record held hrecord) bound, htells⟩

/-! ## Writing by a name -/

section

variable {shape : Shape} {other : String} {member : Ty} {constant : Option Value} {tag : Nat}

theorem slot?_setShape_self :
    (setShape name member constant tag shape).slot? name = some (.declared member) :=
  Shape.slot?_eq_declared_iff.mpr (Record.get?_insert_self name member shape.members)

/-- Setting a member leaves what a shape has under other names, as far as it outlasts that. -/
theorem slot?_setShape_of_ne (hne : other ≠ name) (held : shape.slot? other = some slot)
    (houtlasts : shape.Outlasts constant slot) :
    (setShape name member constant tag shape).slot? other = some slot := by
  have hmembers : Record.get? other (setShape name member constant tag shape).members =
      Record.get? other shape.members := Record.get?_insert_of_ne hne member shape.members
  cases slot with
  | declared old =>
      rw [Shape.slot?_eq_declared_iff] at held ⊢
      rw [hmembers, held]
  | known value =>
      obtain ⟨hundeclared, hknown⟩ := Shape.slot?_eq_known_iff.mp held
      obtain ⟨hrecord, hsome⟩ := houtlasts
      obtain ⟨old, contents, hobject⟩ := Shape.isRecord_iff.mp hrecord
      obtain ⟨written, rfl⟩ := Option.isSome_iff_exists.mp hsome
      have has := Shape.hasMembers_of_known held
      rw [Shape.value?, if_pos has, hobject] at hknown
      refine Shape.slot?_eq_known_iff.mpr ⟨by rw [hmembers, hundeclared], ?_⟩
      have hremains : (setShape name member (Option.some written) tag shape).constant =
          Option.some (.object tag (Record.insert name written contents)) := by
        simp only [setShape, hobject]
      rw [Shape.value?, if_pos (show hasMembers (setShape _ _ _ _ shape).kind = true from has),
        hremains]
      exact (Record.get?_insert_of_ne hne written contents).trans hknown

end

theorem setPlain_of_spells (hknown : (store.shape id).kind ≠ .unknown)
    (hmutable : (store.shape id).mutable = true) (hspells : store.Spells key name) (value : Ty) :
    setPlain id key value store = (true, (setMember id name value store).2) := by
  rw [setPlain, shapeOf_bind, if_neg hknown, hmutable]
  change (key.isKind .string >>= _ : TypeM Bool) store = _
  rw [TypeM.bind_apply, hspells.isKind, TypeM.bind_apply, hspells.names]
  rfl

theorem lacks_of_declared (hmembers : hasMembers (store.shape id).kind = true)
    (hspells : store.Spells key name) {member : Ty}
    (held : (store.shape id).slot? name = some (.declared member)) :
    (lacks (plain id) key store).1 = false := by
  have hslot : (store.shape id).lacksName name = false := by
    rw [Shape.lacksName_of_known (kind_ne_of_hasMembers hmembers rfl)
      (kind_ne_of_hasMembers hmembers rfl) (kind_ne_of_hasMembers hmembers rfl), held]
    rfl
  have hlt : ∀ other ∈ (plain id).variants, other < store.shapes.size := fun other hmem => by
    rw [List.mem_singleton.mp hmem]
    exact lt_of_slot? held
  rw [Bool.eq_false_iff, ne_eq, lacks_iff_of_spells hspells _ hlt]
  rintro ⟨other, hmem, hlacking⟩
  rw [List.mem_singleton.mp hmem, hslot] at hlacking
  cases hlacking

/-! ## Writing by a number -/

section

variable {inner : TypeId}

theorem isKind_of_number (hkind : (store.shape inner).kind = .number) :
    (plain inner).isKind .string store = (false, store) := by
  change (decide (some (store.shape inner).kind = some .string), store) = _
  rw [hkind]
  rfl

theorem keyName?_of_number {x : Float}
    (hconstant : (store.shape inner).constant = some (.number x)) :
    (plain inner).keyName? store = (some (Value.number x).text, store) := by
  have hknown : (plain inner).constant? store = (some (.number x), store) := Prod.ext hconstant rfl
  rw [keyName?, TypeM.bind_apply, hknown]
  rfl

theorem accepts_of_number (hkind : (store.shape inner).kind = .number) (indexer : Indexer) :
    indexer.accepts (plain inner) store = (decide (indexer.key = .number), store) := by
  change (!(((store.shape inner).kind != .unknown && (store.shape inner).kind != indexer.key) ||
    false), store) = _
  rw [hkind]
  cases indexer.key <;> rfl

theorem setPlain_of_number {x : Float} (hknown : (store.shape id).kind ≠ .unknown)
    (hmutable : (store.shape id).mutable = true)
    (hconstant : (store.shape inner).constant = some (.number x))
    (hkind : (store.shape inner).kind = .number) (value : Ty) :
    setPlain id (plain inner) value store = ((store.shape id).takesNumbers,
      if (store.shape id).takesNumbers then store.forget id else store) := by
  rw [setPlain, shapeOf_bind, if_neg hknown, hmutable]
  change ((plain inner).isKind .string >>= _ : TypeM Bool) store = _
  rw [TypeM.bind_apply, isKind_of_number hkind, TypeM.bind_apply, keyName?_of_number hconstant,
    Shape.takesNumbers]
  cases (store.shape id).indexer with
  | none => rfl
  | some indexer =>
      change (indexer.accepts (plain inner) >>= _ : TypeM Bool) store =
        (decide (indexer.key = .number), if decide (indexer.key = .number) then _ else _)
      rw [TypeM.bind_apply, accepts_of_number hkind]
      cases decide (indexer.key = .number) <;> rfl

/-- What can be written to by a number does not miss an indexer for numbers. -/
theorem notIndexed_of_takesNumbers {shape : Shape} (htakes : shape.takesNumbers = true)
    (hkind : (store.shape inner).kind = .number) :
    (notIndexed shape.indexer (plain inner) store).1 = false := by
  unfold Shape.takesNumbers at htakes
  cases hindexer : shape.indexer with
  | none => rfl
  | some found =>
      rw [hindexer] at htakes
      have haccepted := congrArg Prod.fst (accepts_of_number hkind found)
      exact (congrArg not haccepted).trans (congrArg not htakes)

/-- What can be written to by a number lacks nothing under it. -/
theorem lacks_of_takesNumbers {x : Float} (hmembers : hasMembers (store.shape id).kind = true)
    (htakes : (store.shape id).takesNumbers = true)
    (hconstant : (store.shape inner).constant = some (.number x))
    (hkind : (store.shape inner).kind = .number) :
    (lacks (plain id) (plain inner) store).1 = false := by
  have hlt : inner < store.shapes.size := by
    by_contra hge
    rw [shape_of_size_le (Nat.le_of_not_lt hge)] at hconstant
    cases hconstant
  have hsingle : (plainLacks id (plain inner) store).1 = false := by
    have hlater := (computes_ownMember store id (Value.number x).text).later
    have hstill := (hlater.kind hlt).trans hkind
    rw [plainLacks_of_known (kind_ne_of_hasMembers hmembers rfl)
      (kind_ne_of_hasMembers hmembers rfl) (kind_ne_of_hasMembers hmembers rfl),
      TypeM.bind_apply, keyName?_of_number hconstant]
    dsimp only
    rw [TypeM.bind_apply, TypeM.bind_apply, isKind_of_number hstill]
    cases (ownMember id (Value.number x).text store).1.isSome with
    | true => rfl
    | false => exact notIndexed_of_takesNumbers htakes hstill
  change ((plainLacks id (plain inner) >>= _ : TypeM Bool) store).1 = false
  rw [TypeM.bind_apply, hsingle]
  rfl

end

/-! ## What comes of a write -/

theorem trySet_plain (id : TypeId) (key value : Ty) (store : TypeStore) :
    trySet (plain id) key value store = setPlain id key value store := by
  change (do return (← setPlain id key value) && true : TypeM Bool) store = _
  rw [TypeM.bind_apply, Bool.and_true]
  rfl

/-- A key other than the type that is written to is what it was. -/
theorem spells_of_shape_eq (hmembers : hasMembers (store.shape id).kind = true)
    (hspells : store.Spells key name)
    (hsame : ∀ other : Nat, other ≠ id → next.shape other = store.shape other) :
    next.Spells key name := by
  obtain ⟨inner, rfl, htext, hkind⟩ := hspells
  have hne : inner ≠ id := by
    rintro rfl
    exact kind_ne_of_hasMembers hmembers rfl hkind
  exact ⟨inner, rfl, by rw [hsame inner hne, htext], by rw [hsame inner hne, hkind]⟩

theorem shape_setMember_self (hlt : id < store.shapes.size) (name : String) (member : Ty) :
    (setMember id name member store).2.shape id =
      setShape name member (member.constant? store).1 store.nextTag (store.shape id) := by
  rw [setMember_apply]
  exact shape_modify_self hlt _

theorem shape_setMember_of_ne {other : Nat} (hne : other ≠ id) (name : String) (member : Ty) :
    (setMember id name member store).2.shape other = store.shape other := by
  rw [setMember_apply]
  exact shape_modify_of_ne hne _ _

theorem hasMembers_setMember (hmembers : hasMembers (store.shape id).kind = true)
    (hlt : id < store.shapes.size) (name : String) (member : Ty) :
    hasMembers ((setMember id name member store).2.shape id).kind = true := by
  rw [shape_setMember_self hlt]
  exact hmembers

theorem readsAs_setMember (hmembers : hasMembers (store.shape id).kind = true)
    (hlt : id < store.shapes.size) (hspells : store.Spells key name) (value : Ty) :
    ReadsAs (setMember id name value store).2 id key (.declared value) ∧
      (lacks (plain id) key (setMember id name value store).2).1 = false := by
  have hafter := hasMembers_setMember hmembers hlt name value
  have hspells' := spells_of_shape_eq hmembers hspells fun other hne =>
    shape_setMember_of_ne hne name value
  have held : ((setMember id name value store).2.shape id).slot? name = some (.declared value) := by
    rw [shape_setMember_self hlt]
    exact slot?_setShape_self
  exact ⟨readsAs_of_slot? (kind_ne_of_hasMembers hafter rfl) hspells' held,
    lacks_of_declared hafter hspells' held⟩

/-- What a type has under another name is read as before, if it outlasts the setting. -/
theorem readsAs_setMember_of_ne (hmembers : hasMembers (store.shape id).kind = true)
    (hlt : id < store.shapes.size) {other : String} (hne : other ≠ name) (value : Ty)
    (hspells : store.Spells key other) (held : (store.shape id).slot? other = some slot)
    (houtlasts : (store.shape id).Outlasts (value.constant? store).1 slot) :
    ReadsAs (setMember id name value store).2 id key slot := by
  have hafter := hasMembers_setMember hmembers hlt name value
  have hspells' := spells_of_shape_eq hmembers hspells fun other hne =>
    shape_setMember_of_ne hne name value
  refine readsAs_of_slot? (kind_ne_of_hasMembers hafter rfl) hspells' ?_
  rw [shape_setMember_self hlt]
  exact slot?_setShape_of_ne hne held houtlasts

theorem shape_forget_self (hlt : id < store.shapes.size) :
    (store.forget id).shape id = { store.shape id with constant := none } :=
  shape_modify_self hlt _

theorem shape_forget_of_ne {other : Nat} (hne : other ≠ id) :
    (store.forget id).shape other = store.shape other :=
  shape_modify_of_ne hne _ store

/-- A write by a number only takes the constant away, which leaves what is declared. -/
theorem readsAs_forget (hmembers : hasMembers (store.shape id).kind = true)
    (hlt : id < store.shapes.size) (hspells : store.Spells key name) {member : Ty}
    (hdeclared : Record.get? name (store.shape id).members = some member) :
    ReadsAs (store.forget id) id key (.declared member) := by
  have hknown : ((store.forget id).shape id).kind ≠ .unknown := by
    rw [shape_forget_self hlt]
    exact kind_ne_of_hasMembers hmembers rfl
  have hspells' := spells_of_shape_eq hmembers hspells fun other hne => shape_forget_of_ne hne
  refine readsAs_of_slot? hknown hspells' ?_
  rw [Shape.slot?_eq_declared_iff, shape_forget_self hlt]
  exact hdeclared

/-- What was written to by a number lacks nothing under it. -/
theorem lacks_forget {inner : TypeId} {x : Float}
    (hmembers : hasMembers (store.shape id).kind = true) (hlt : id < store.shapes.size)
    (htakes : (store.shape id).takesNumbers = true)
    (hconstant : (store.shape inner).constant = some (.number x))
    (hkind : (store.shape inner).kind = .number) :
    (lacks (plain id) (plain inner) (store.forget id)).1 = false := by
  have hsame : (store.forget id).shape inner = store.shape inner := by
    refine shape_forget_of_ne ?_
    rintro rfl
    exact kind_ne_of_hasMembers hmembers rfl hkind
  refine lacks_of_takesNumbers ?_ ?_ (hsame ▸ hconstant) (hsame ▸ hkind)
  · rw [shape_forget_self hlt]
    exact hmembers
  · rw [shape_forget_self hlt]
    exact htakes

/-- A write by a name to an object or function that may be written to succeeds.  What was written
is then read by the name, and reading it is no mistake.  By any other name what the type has is
read after the write as before, if it outlasts the write, and no other type changes.  A write by a
number is accepted by a type that has no indexer or one for numbers.  It only takes the constant
away, so reading by the number is no mistake, and what is declared is read as before; what is
refused changes nothing. -/
theorem write_then_read (hfit : store.ConstantsFit) (id : TypeId)
    (hmembers : hasMembers (store.shape id).kind = true)
    (hmutable : (store.shape id).mutable = true) (key value : Ty) :
    (∀ name, (key.constant? store).1 = some (.string name) →
      ∃ next, trySet (plain id) key value store = (true, next) ∧
        ReadsAs next id key (.declared value) ∧ (lacks (plain id) key next).1 = false ∧
        (∀ other another slot, (other.constant? store).1 = some (.string another) →
          another ≠ name → (store.shape id).slot? another = some slot →
          (store.shape id).Outlasts (value.constant? store).1 slot →
          ReadsAs store id other slot ∧ ReadsAs next id other slot) ∧
        ∀ other, other ≠ id → next.shape other = store.shape other) ∧
    ∀ x, (key.constant? store).1 = some (.number x) →
      ∃ next, trySet (plain id) key value store = ((store.shape id).takesNumbers, next) ∧
        (next = if (store.shape id).takesNumbers then store.forget id else store) ∧
        ((store.shape id).takesNumbers = true → (lacks (plain id) key next).1 = false) ∧
        ∀ other another member, (other.constant? store).1 = some (.string another) →
          Record.get? another (store.shape id).members = some member →
          ReadsAs store id other (.declared member) ∧ ReadsAs next id other (.declared member) := by
  have hknown : (store.shape id).kind ≠ .unknown := kind_ne_of_hasMembers hmembers rfl
  have hlt := lt_of_mutable hmutable
  rw [trySet_plain]
  refine ⟨fun name htext => ?_, fun x hconstant => ?_⟩
  · have hspells := hfit.spells htext
    obtain ⟨hreads, hlacking⟩ := readsAs_setMember hmembers hlt hspells value
    refine ⟨_, setPlain_of_spells hknown hmutable hspells value, hreads, hlacking, ?_,
      fun other hne => shape_setMember_of_ne hne name value⟩
    intro other another slot hotherText hne held houtlasts
    have hothers := hfit.spells hotherText
    exact ⟨readsAs_of_slot? hknown hothers held,
      readsAs_setMember_of_ne hmembers hlt hne value hothers held houtlasts⟩
  · obtain ⟨inner, rfl, hconstant, hkind⟩ := hfit.exists_plain hconstant
    refine ⟨_, setPlain_of_number hknown hmutable hconstant hkind value, rfl, fun htakes => ?_, ?_⟩
    · rw [if_pos htakes]
      exact lacks_forget hmembers hlt htakes hconstant hkind
    · intro other another member hotherText hdeclared
      have hothers := hfit.spells hotherText
      have hbefore := readsAs_of_slot? hknown hothers (Shape.slot?_eq_declared_iff.mpr hdeclared)
      refine ⟨hbefore, ?_⟩
      split
      · exact readsAs_forget hmembers hlt hothers hdeclared
      · exact hbefore

/-- An object with one member, two texts, a number and the type of all numbers. -/
def keyedStore : TypeStore where
  shapes := #[
    { kind := .boolean },
    { kind := .object, mutable := true, indexer := some ⟨.string, none⟩,
      members := [("b", plain 0)] },
    { kind := .string, lenient := true },
    { kind := .string, lenient := true, indexer := some ⟨.number, some (plain 2)⟩,
      constant := some (.string "a") },
    { kind := .string, lenient := true },
    { kind := .string, lenient := true, indexer := some ⟨.number, some (plain 4)⟩,
      constant := some (.string "b") },
    { kind := .number, lenient := true, constant := some (.number 4) },
    { kind := .number, lenient := true }]
  nextTag := 1

theorem obtained_keyedStore : Obtained (Operation.Checked fun _ => False) keyedStore
    [plain 0, plain 1, plain 3, plain 5, plain 6, plain 7] := by
  have hboolean : Obtained (Operation.Checked fun _ => False) _ _ :=
    .step .start (.general .boolean) 0 nofun trivial rfl
  have hobject := hboolean.step (.object [("b", plain 0)]) 0 (by decide) trivial rfl
  have hfirst := hobject.step (.known (.string "a")) 0 nofun trivial rfl
  have hsecond := hfirst.step (.known (.string "b")) 0 nofun trivial rfl
  have hindex := hsecond.step (.known (.number 4)) 0 nofun trivial rfl
  exact hindex.step (.general .number) 0 nofun trivial rfl

theorem write_then_read_keyedStore : keyedStore.ConstantsFit ∧
    hasMembers (keyedStore.shape 1).kind = true ∧ (keyedStore.shape 1).mutable = true ∧
    ∃ next, trySet (plain 1) (plain 3) (plain 7) keyedStore = (true, next) ∧
      ReadsAs next 1 (plain 3) (.declared (plain 7)) ∧
      ReadsAs next 1 (plain 5) (.declared (plain 0)) := by
  have hfit : keyedStore.ConstantsFit :=
    (canonical_of_obtained obtained_keyedStore).1.1.constantsFit
  obtain ⟨hnamed, -⟩ := write_then_read hfit 1 rfl rfl (plain 3) (plain 7)
  obtain ⟨next, hwritten, hread, -, hothers, -⟩ := hnamed "a" rfl
  exact ⟨hfit, rfl, rfl, next, hwritten, hread,
    (hothers (plain 5) "b" (.declared (plain 0)) rfl (by decide) rfl trivial).2⟩

/-- An object refuses a write by a number, although it may be written to. -/
theorem number_refused_keyedStore :
    Obtained (Operation.Checked fun _ => False) keyedStore
      [plain 0, plain 1, plain 3, plain 5, plain 6, plain 7] ∧
    (keyedStore.shape 1).kind = .object ∧ (keyedStore.shape 1).mutable = true ∧
    ((plain 6).constant? keyedStore).1 = some (.number 4) ∧
    trySet (plain 1) (plain 6) (plain 7) keyedStore = (false, keyedStore) :=
  ⟨obtained_keyedStore, rfl, rfl, rfl, rfl⟩

end Ty

end ScriptCheck
