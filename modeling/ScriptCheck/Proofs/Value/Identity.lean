import ScriptCheck.Proofs.Value.Alike
import ScriptCheck.Proofs.Value.Loose
import ScriptCheck.Value.Operators

/-!
# Identities in values

The identities of the arrays and objects that a value is made of.  Operators look at them in
one case only, when they compare two arrays or two objects.  Where values share no identity,
an operator gives the same for all values with the same contents.
-/

namespace ScriptCheck.Value

mutual

def identities : Value → List Nat
  | array tag elements => tag :: elementIdentities elements
  | object tag members => tag :: memberIdentities members
  | _ => []

def elementIdentities : List Value → List Nat
  | [] => []
  | value :: rest => value.identities ++ elementIdentities rest

def memberIdentities : List (String × Value) → List Nat
  | [] => []
  | (_, value) :: rest => value.identities ++ memberIdentities rest

end

def Apart (v w : Value) : Prop := ∀ tag ∈ v.identities, tag ∉ w.identities

theorem mem_elementIdentities {tag : Nat} {values : List Value} :
    tag ∈ elementIdentities values ↔ ∃ value ∈ values, tag ∈ value.identities := by
  induction values with
  | nil => simp [elementIdentities]
  | cons value rest ih => simp [elementIdentities, ih]

theorem mem_memberIdentities {tag : Nat} {members : List (String × Value)} :
    tag ∈ memberIdentities members ↔ ∃ member ∈ members, tag ∈ member.2.identities := by
  induction members with
  | nil => simp [memberIdentities]
  | cons member rest ih =>
      obtain ⟨name, value⟩ := member
      simp [memberIdentities, ih]

theorem identities_of_isPrimitive {value : Value} (h : value.isPrimitive = true) :
    value.identities = [] := by
  cases value <;> first | rfl | cases h

theorem mem_identities_of_get? {value inner : Value} {name : String}
    (h : value.get? name = some inner) {tag : Nat} (htag : tag ∈ inner.identities) :
    tag ∈ value.identities := by
  cases value with
  | object own members =>
      have hmem := Record.mem_of_get? h
      exact List.mem_cons_of_mem _ (mem_memberIdentities.mpr ⟨_, hmem, htag⟩)
  | array own elements =>
      rw [get?] at h
      split at h
      · cases h
        cases htag
      · obtain ⟨index, -, helement⟩ := Option.bind_eq_some_iff.mp h
        have hmem := List.mem_of_getElem? helement
        exact List.mem_cons_of_mem _ (mem_elementIdentities.mpr ⟨inner, hmem, htag⟩)
  | string s =>
      rw [get?] at h
      split at h
      · cases h
        cases htag
      · obtain ⟨index, -, hfound⟩ := Option.bind_eq_some_iff.mp h
        obtain ⟨c, -, rfl⟩ := Option.map_eq_some_iff.mp hfound
        cases htag
  | undefined | null | bool | number => cases h

/-! ## Operators on contents -/

section

variable (value : Value)

@[simp] theorem truthy_untagged : value.untagged.truthy = value.truthy := by
  cases value <;> rfl

@[simp] theorem isPrimitive_untagged : value.untagged.isPrimitive = value.isPrimitive := by
  cases value <;> rfl

theorem untagged_of_isPrimitive {value : Value} (h : value.isPrimitive = true) :
    value.untagged = value := by
  cases value <;> first | rfl | cases h

end

mutual

@[simp] theorem text_untagged (value : Value) : value.untagged.text = value.text := by
  cases value with
  | array tag elements =>
      rw [untagged, text, text, elementTexts_untagged elements]
  | object tag members => rfl
  | undefined | null | bool | number | string => rfl

theorem elementTexts_untagged (elements : List Value) :
    elementTexts (untaggedElements elements) = elementTexts elements := by
  cases elements with
  | nil => rfl
  | cons element rest =>
      have hrest := elementTexts_untagged rest
      cases element with
      | array tag elements =>
          have hfirst := text_untagged (array tag elements)
          rw [untagged] at hfirst
          rw [untaggedElements, untagged, elementTexts, elementTexts, hrest, hfirst]
          all_goals simp
      | object tag members =>
          rw [untaggedElements, untagged, elementTexts, elementTexts, hrest]
          · rfl
          all_goals simp
      | undefined | null | bool | number | string =>
          simp [untaggedElements, untagged, elementTexts, hrest]

end

@[simp] theorem toNumber_untagged (value : Value) : value.untagged.toNumber = value.toNumber := by
  cases value with
  | array tag elements =>
      have htext := text_untagged (array tag elements)
      rw [untagged] at htext ⊢
      rw [toNumber, toNumber, htext]
  | undefined | null | bool | number | string | object => rfl

@[simp] theorem toPrimitive_untagged (value : Value) :
    value.untagged.toPrimitive = value.toPrimitive := by
  cases hprimitive : value.isPrimitive with
  | true => rw [untagged_of_isPrimitive hprimitive]
  | false => simp [toPrimitive, hprimitive]

/-- Values that share no identity are equal by their contents, and only if they are no arrays or
objects. -/
theorem strictEquals_of_apart {v w : Value} (h : v.Apart w) :
    v.strictEquals w = (v.isPrimitive && v.untagged.strictEquals w.untagged) := by
  cases v with
  | array tag elements =>
      cases w with
      | array other _ =>
          have hne : tag ≠ other := by
            rintro rfl
            exact h tag List.mem_cons_self List.mem_cons_self
          simp [strictEquals, isPrimitive, hne]
      | _ => rfl
  | object tag members =>
      cases w with
      | object other _ =>
          have hne : tag ≠ other := by
            rintro rfl
            exact h tag List.mem_cons_self List.mem_cons_self
          simp [strictEquals, isPrimitive, hne]
      | _ => rfl
  | undefined | null | bool | number | string =>
        cases w <;> simp [strictEquals, isPrimitive, untagged]

section

variable {a b c d : Value} (ha : a.untagged = c.untagged) (hb : b.untagged = d.untagged)
include ha hb

theorem compare_of_untagged (comparison : Comparison) :
    compare comparison a b = compare comparison c d := by
  rw [compare, ← toPrimitive_untagged a, ← toPrimitive_untagged b, ha, hb, toPrimitive_untagged,
    toPrimitive_untagged, ← compare]

theorem add_of_untagged : add a b = add c d := by
  rw [add, ← toPrimitive_untagged a, ← toPrimitive_untagged b, ha, hb, toPrimitive_untagged,
    toPrimitive_untagged, ← add]

theorem toNumber_of_untagged : a.toNumber = c.toNumber ∧ b.toNumber = d.toNumber := by
  rw [← toNumber_untagged a, ← toNumber_untagged b, ha, hb, toNumber_untagged, toNumber_untagged]
  exact ⟨rfl, rfl⟩

theorem strictEquals_of_untagged (hab : a.Apart b) (hcd : c.Apart d) :
    a.strictEquals b = c.strictEquals d := by
  rw [strictEquals_of_apart hab, strictEquals_of_apart hcd, ← isPrimitive_untagged a,
    ← isPrimitive_untagged c, ha, hb]

theorem looseEquals_of_untagged (hab : a.Apart b) (hcd : c.Apart d) :
    a.looseEquals b = c.looseEquals d := by
  have hleft : a.isPrimitive = c.isPrimitive := by
    rw [← isPrimitive_untagged, ha, isPrimitive_untagged]
  have hright : b.isPrimitive = d.isPrimitive := by
    rw [← isPrimitive_untagged, hb, isPrimitive_untagged]
  by_cases h : a.isPrimitive = true ∨ b.isPrimitive = true
  · have h' : c.isPrimitive = true ∨ d.isPrimitive = true := by rwa [← hleft, ← hright]
    rw [← looseEquals_toPrimitive h, ← looseEquals_toPrimitive h', ← toPrimitive_untagged a,
      ← toPrimitive_untagged b, ha, hb, toPrimitive_untagged, toPrimitive_untagged]
  · obtain ⟨ha', hb'⟩ := not_or.mp h
    rw [Bool.not_eq_true] at ha' hb'
    rw [looseEquals_of_identities ha' hb',
      looseEquals_of_identities (hleft ▸ ha') (hright ▸ hb'),
        strictEquals_of_untagged ha hb hab hcd]

/-- An operator between values that share no identity looks at their contents only. -/
theorem binary_of_untagged (op : BinaryOp) (hab : a.Apart b) (hcd : c.Apart d) :
    binary op a b = binary op c d := by
  obtain ⟨hleft, hright⟩ := toNumber_of_untagged ha hb
  have hloose := looseEquals_of_untagged ha hb hab hcd
  have hstrict := strictEquals_of_untagged ha hb hab hcd
  cases op with
  | add => rw [binary, binary, add_of_untagged ha hb]
  | eq | notEq => rw [binary, binary, hloose]
  | strictEq | strictNotEq => rw [binary, binary, hstrict]
  | less | lessEq | greater | greaterEq => rw [binary, binary, compare_of_untagged ha hb]
  | sub | mul | div | rem | pow => rw [binary, binary, onNumbers, onNumbers, hleft, hright]
  | bitAnd | bitOr | bitXor | shl | shr => rw [binary, binary, onInt32, onInt32, hleft, hright]
  | ushr => rw [binary, binary, shiftUnsigned, shiftUnsigned, hleft, hright]
  | in_ | instanceof => rfl

end

theorem isPrimitive_of_binary {op : BinaryOp} {a b value : Value}
    (h : binary op a b = some value) : value.isPrimitive = true := by
  cases op with
  | add =>
      cases h
      unfold add
      split <;> rfl
  | in_ | instanceof => cases h
  | _ =>
      cases h
      rfl

theorem isPrimitive_of_unary {op : UnaryOp} {argument value : Value}
    (h : unary op argument = some value) : value.isPrimitive = true := by
  cases op with
  | delete => cases h
  | _ =>
      cases h
      rfl

theorem typeofName?_kind (value : Value) : value.kind.typeofName? = some value.typeName := by
  cases value <;> rfl

end ScriptCheck.Value
