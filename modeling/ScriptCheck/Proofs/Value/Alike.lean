import Mathlib.Logic.Relation
import ScriptCheck.Types.Kind
import ScriptCheck.Value.Equality

/-!
# Values up to identity

Arrays get a new identity whenever a type is made for them, and equal contents are
compared without regard to identities.  Two values are alike when one leads to the other
by either.
-/

namespace ScriptCheck.Value

/-- The kind of a value. -/
def kind : Value → Kind
  | undefined => .undefined
  | null => .null
  | bool _ => .boolean
  | number _ => .number
  | string _ => .string
  | array .. | object .. => .object

theorem kind_ne_function (value : Value) : value.kind ≠ .function := by
  cases value <;> simp [kind]

theorem kind_ne_unknown (value : Value) : value.kind ≠ .unknown := by
  cases value <;> simp [kind]

mutual

/-- A value without identities. -/
def untagged : Value → Value
  | array _ elements => array 0 (untaggedElements elements)
  | object _ members => object 0 (untaggedMembers members)
  | value => value

def untaggedElements : List Value → List Value
  | [] => []
  | value :: rest => value.untagged :: untaggedElements rest

def untaggedMembers : List (String × Value) → List (String × Value)
  | [] => []
  | (name, value) :: rest => (name, value.untagged) :: untaggedMembers rest

end

theorem untaggedElements_eq_map (values : List Value) :
    untaggedElements values = values.map untagged := by
  induction values with
  | nil => rfl
  | cons value rest ih => rw [untaggedElements, ih, List.map_cons]

theorem get?_untaggedMembers (name : String) (members : List (String × Value)) :
    Record.get? name (untaggedMembers members) = (Record.get? name members).map untagged := by
  induction members with
  | nil => rfl
  | cons member rest ih =>
      obtain ⟨key, value⟩ := member
      rw [untaggedMembers, Record.get?, Record.get?]
      split
      · rfl
      · exact ih

/-- Identities have no part in what a value has under a name. -/
theorem get?_untagged (value : Value) (name : String) :
    value.untagged.get? name = (value.get? name).map untagged := by
  cases value with
  | object tag members => exact get?_untaggedMembers name members
  | array tag elements =>
      rw [untagged, untaggedElements_eq_map]
      simp only [get?, List.length_map]
      split
      · rfl
      · cases index? name with
        | none => rfl
        | some index => simp
  | string s =>
      simp only [untagged, get?]
      split
      · rfl
      · cases index? name with
        | none => rfl
        | some index =>
            simp only [Option.bind_some, Option.map_map]
            cases s.toList[index]? <;> rfl
  | _ => rfl

theorem kind_eq_of_untagged {v w : Value} (h : v.untagged = w.untagged) : v.kind = w.kind := by
  cases v <;> cases w <;> simp_all [untagged, kind]

/-- Values that differ in identities only have the same under every name, up to
identities. -/
theorem get?_of_untagged {v w inner : Value} {name : String} (h : v.untagged = w.untagged)
    (hinner : v.get? name = some inner) :
    ∃ other, w.get? name = some other ∧ inner.untagged = other.untagged := by
  have hsame : (w.get? name).map untagged = some inner.untagged := by
    rw [← get?_untagged, ← h, get?_untagged, hinner, Option.map_some]
  obtain ⟨other, hother, halike⟩ := Option.map_eq_some_iff.mp hsame
  exact ⟨other, hother, halike.symm⟩

/-- Two values are the same up to identities. -/
def Alike : Value → Value → Prop :=
  Relation.ReflTransGen fun v w => v.sameContent w = true ∨ v.untagged = w.untagged

namespace Alike

theorem refl (value : Value) : Alike value value := Relation.ReflTransGen.refl

theorem trans {u v w : Value} (h : Alike u v) (hnext : Alike v w) : Alike u w :=
  Relation.ReflTransGen.trans h hnext

theorem of_sameContent {v w : Value} (h : v.sameContent w = true) : Alike v w :=
  .single (.inl h)

theorem of_untagged {v w : Value} (h : v.untagged = w.untagged) : Alike v w :=
  .single (.inr h)

theorem eq_of_bool {b : Bool} {value : Value} (h : Alike (bool b) value) : value = bool b := by
  induction h with
  | refl => rfl
  | @tail _ last _ hstep ih =>
      subst ih
      rcases hstep with hsame | huntagged
      · cases last <;> simp_all [sameContent]
      · cases last <;> simp_all [untagged]

end Alike

end ScriptCheck.Value
