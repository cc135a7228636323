import ScriptCheck.Proofs.Types.Look

/-!
# What a path of names leads to

From a type, a path of names leads through declared members and known values to plain
types, several where there are unions on the way.  Of each of them we see whether its
value is known and what it calls.  One type covers another along a path when it shows no
constant that the other has not, and calls whatever the other calls, unless nothing at all
is known of it.
-/

namespace ScriptCheck

/-- What is seen at the end of a path. -/
inductive Sight where
  | missing
  | unknown
  | known (constant : Option Value) (callable : Option Callable)

namespace Sight

/-- Whether it is seen that nothing is called. -/
def CallsNothing : Sight → Prop
  | missing => True
  | unknown => False
  | known _ callable => callable = none

/-- A sight shows no constant that the other has not, and calls what the other calls. -/
def Covers : Sight → Sight → Prop
  | unknown, _ => True
  | missing, sight => sight.CallsNothing
  | known .., missing | known .., unknown => False
  | known constant callable, known constant' callable' =>
      (∀ value, constant = some value → ∃ other, constant' = some other ∧ value.Alike other) ∧
        ∀ called, callable' = some called →
          ∃ other, callable = some other ∧ other.tag = called.tag

theorem Covers.refl (sight : Sight) : sight.Covers sight := by
  cases sight with
  | missing => trivial
  | unknown => trivial
  | known constant callable =>
      exact ⟨fun value h => ⟨value, h, .refl value⟩, fun called h => ⟨called, h, rfl⟩⟩

theorem CallsNothing.of_covers {wide narrow : Sight} (h : wide.CallsNothing)
    (hcovers : wide.Covers narrow) : narrow.CallsNothing := by
  cases wide with
  | missing => exact hcovers
  | unknown => exact h.elim
  | known constant callable =>
      cases narrow with
      | missing => trivial
      | unknown => exact hcovers.elim
      | known constant' callable' =>
          cases hcalled : callable' with
          | none => rfl
          | some called =>
              obtain ⟨other, hother, -⟩ := hcovers.2 called hcalled
              rw [show callable = none from h] at hother
              cases hother

theorem Covers.trans {first second third : Sight} (h : first.Covers second)
    (hnext : second.Covers third) : first.Covers third := by
  cases first with
  | unknown => trivial
  | missing => exact CallsNothing.of_covers h hnext
  | known constant callable =>
      cases second with
      | missing => exact h.elim
      | unknown => exact h.elim
      | known constant' callable' =>
          cases third with
          | missing => exact hnext.elim
          | unknown => exact hnext.elim
          | known constant'' callable'' =>
              constructor
              · intro value hvalue
                obtain ⟨middle, hmiddle, halike⟩ := h.1 value hvalue
                obtain ⟨other, hother, halike'⟩ := hnext.1 middle hmiddle
                exact ⟨other, hother, halike.trans halike'⟩
              · intro called hcalled
                obtain ⟨middle, hmiddle, htag⟩ := hnext.2 called hcalled
                obtain ⟨other, hother, htag'⟩ := h.2 middle hmiddle
                exact ⟨other, hother, htag'.trans htag⟩

end Sight

/-- What is seen of a plain type. -/
def Shape.sight (shape : Shape) : Sight :=
  if shape.kind = .unknown then .unknown else .known shape.constant shape.callable

/-- What is seen of a known value at the end of a path. -/
def Value.sight : List String → Value → Sight
  | [], value => .known (some value) none
  | name :: path, value =>
      if Ty.hasMembers value.kind then
        match value.get? name with
        | some inner => inner.sight path
        | none => .missing
      else .missing

theorem Value.sight_cons_of_some {name : String} {path : List String} {value inner : Value}
    (hhas : Ty.hasMembers value.kind = true) (hinner : value.get? name = some inner) :
    value.sight (name :: path) = inner.sight path := by
  rw [sight, if_pos hhas, hinner]

theorem Value.sight_cons_of_none {name : String} {path : List String} {value : Value}
    (h : Ty.hasMembers value.kind = true → value.get? name = none) :
    value.sight (name :: path) = .missing := by
  rw [sight]
  split
  · rename_i hhas
    rw [h hhas]
  · rfl

theorem Value.callsNothing_sight (value : Value) (path : List String) :
    (value.sight path).CallsNothing := by
  induction path generalizing value with
  | nil => rfl
  | cons name path ih =>
      rw [sight]
      split
      · split
        · exact ih _
        · trivial
      · trivial

/-- Values that differ in identities only are seen alike. -/
theorem Value.sight_covers_of_untagged {v w : Value} (h : v.untagged = w.untagged)
    (path : List String) : (v.sight path).Covers (w.sight path) := by
  induction path generalizing v w with
  | nil =>
      constructor
      · intro value hvalue
        cases hvalue
        exact ⟨w, rfl, .of_untagged h⟩
      · intro called hcalled
        cases hcalled
  | cons name path ih =>
      have hkind := Value.kind_eq_of_untagged h
      by_cases hhas : Ty.hasMembers v.kind = true
      · cases hget : v.get? name with
        | none =>
            rw [sight_cons_of_none fun _ => hget]
            exact callsNothing_sight w _
        | some inner =>
            obtain ⟨other, hother, hsame⟩ := Value.get?_of_untagged h hget
            rw [sight_cons_of_some hhas hget, sight_cons_of_some (hkind ▸ hhas) hother]
            exact ih hsame
      · rw [sight_cons_of_none fun htrue => absurd htrue hhas]
        exact callsNothing_sight w _

namespace TypeStore

/-- What is seen of a plain type at the end of a path. -/
def SeesAt (store : TypeStore) : List String → TypeId → Sight → Prop
  | [], id, sight => sight = (store.shape id).sight
  | name :: path, id, sight =>
      if (store.shape id).kind = .unknown then sight = .unknown
      else match (store.shape id).slot? name with
        | none => sight = .missing
        | some (.declared member) => ∃ inner ∈ member.variants, store.SeesAt path inner sight
        | some (.known value) => sight = value.sight path

/-- What is seen of a type at the end of a path. -/
def Sees (store : TypeStore) (path : List String) (ty : Ty) (sight : Sight) : Prop :=
  ∃ id ∈ ty.variants, store.SeesAt path id sight

/-- Whatever is seen of the second type along a path is covered by something that is seen
of the first. -/
def Covers (store : TypeStore) (path : List String) (wide narrow : Ty) : Prop :=
  ∀ sight, store.Sees path narrow sight → ∃ other, store.Sees path wide other ∧ other.Covers sight

variable {store : TypeStore} {path : List String}

theorem sees_plain {id : TypeId} {sight : Sight} :
    store.Sees path (.plain id) sight ↔ store.SeesAt path id sight := by
  simp [Sees, Ty.variants]

namespace Covers

theorem refl (ty : Ty) : store.Covers path ty ty :=
  fun sight h => ⟨sight, h, .refl sight⟩

theorem trans {first second third : Ty} (h : store.Covers path first second)
    (hnext : store.Covers path second third) : store.Covers path first third := by
  intro sight hsight
  obtain ⟨middle, hmiddle, hcovers⟩ := hnext sight hsight
  obtain ⟨other, hother, hcovers'⟩ := h middle hmiddle
  exact ⟨other, hother, hcovers'.trans hcovers⟩

theorem of_variants {wide narrow : Ty}
    (h : ∀ id ∈ narrow.variants, store.Covers path wide (.plain id)) :
    store.Covers path wide narrow := by
  rintro sight ⟨id, hid, hsight⟩
  exact h id hid sight (sees_plain.mpr hsight)

theorem of_mem {wide narrow : Ty} {id : TypeId} (hid : id ∈ wide.variants)
    (h : store.Covers path (.plain id) narrow) : store.Covers path wide narrow := by
  intro sight hsight
  obtain ⟨other, hother, hcovers⟩ := h sight hsight
  exact ⟨other, ⟨id, hid, sees_plain.mp hother⟩, hcovers⟩

end Covers

section cons

variable {id : TypeId} {name : String}

theorem seesAt_of_none (hkind : (store.shape id).kind ≠ .unknown)
    (h : (store.shape id).slot? name = none) {sight : Sight} :
    store.SeesAt (name :: path) id sight ↔ sight = .missing := by
  rw [SeesAt, if_neg hkind, h]

theorem seesAt_of_declared {member : Ty} (hkind : (store.shape id).kind ≠ .unknown)
    (h : (store.shape id).slot? name = some (.declared member)) {sight : Sight} :
    store.SeesAt (name :: path) id sight ↔ store.Sees path member sight := by
  rw [SeesAt, if_neg hkind, h, Sees]

theorem seesAt_of_known {value : Value} (hkind : (store.shape id).kind ≠ .unknown)
    (h : (store.shape id).slot? name = some (.known value)) {sight : Sight} :
    store.SeesAt (name :: path) id sight ↔ sight = value.sight path := by
  rw [SeesAt, if_neg hkind, h]

theorem seesAt_of_unknown (hkind : (store.shape id).kind = .unknown) :
    store.SeesAt path id .unknown := by
  cases path with
  | nil => rw [SeesAt, Shape.sight, if_pos hkind]
  | cons name path => rw [SeesAt, if_pos hkind]

end cons

theorem sight_of_known {shape : Shape} (hkind : shape.kind ≠ .unknown) :
    shape.sight = .known shape.constant shape.callable := by
  rw [Shape.sight, if_neg hkind]

theorem Lawful.slot?_eq_none (h : store.Lawful) {id : TypeId}
    (hhas : Ty.hasMembers (store.shape id).kind = false) (name : String) :
    (store.shape id).slot? name = none := by
  apply Shape.slot?_eq_none_iff.mpr
  constructor
  · rw [h.shape.members hhas]
    rfl
  · rw [Shape.value?, hhas]
    rfl

theorem Reflects.kind_ne_unknown {inside : Ty → Value → Prop} {id : TypeId} {value : Value}
    (h : store.Reflects inside id value) : (store.shape id).kind ≠ .unknown := by
  rw [h.kind]
  exact value.kind_ne_unknown

/-- All that is seen of a value is seen of a type that mirrors it. -/
theorem Mirrors.sees (hlawful : store.Lawful) {ty : Ty} {value : Value}
    (h : store.Mirrors ty value) (path : List String) :
    ∃ other, store.Sees path ty other ∧ other.Covers (value.sight path) := by
  induction path generalizing ty value with
  | nil =>
      obtain ⟨id, rfl, hreflects⟩ := h.exists_reflects
      obtain ⟨constant, hconstant, halike⟩ := hreflects.constant
      have hkind := hreflects.kind_ne_unknown
      refine ⟨(store.shape id).sight, sees_plain.mpr rfl, ?_⟩
      rw [sight_of_known hkind, hconstant, hreflects.callable]
      exact Value.sight_covers_of_untagged halike []
  | cons name path ih =>
      obtain ⟨id, rfl, hreflects⟩ := h.exists_reflects
      obtain ⟨constant, hconstant, halike⟩ := hreflects.constant
      have hkind := hreflects.kind_ne_unknown
      cases hslot : (store.shape id).slot? name with
      | none =>
          exact ⟨.missing, sees_plain.mpr ((seesAt_of_none hkind hslot).mpr rfl),
            value.callsNothing_sight _⟩
      | some slot =>
          have hhas : Ty.hasMembers value.kind = true := by
            rw [← hreflects.kind]
            by_contra hnone
            rw [hlawful.slot?_eq_none (Bool.eq_false_iff.mpr hnone)] at hslot
            cases hslot
          cases slot with
          | declared member =>
              have hmember := Shape.slot?_eq_declared_iff.mp hslot
              obtain ⟨inner, hinner, hmirrors⟩ := hreflects.member name member hmember
              obtain ⟨other, hother, hcovers⟩ := ih hmirrors
              rw [Value.sight_cons_of_some hhas hinner]
              exact ⟨other, sees_plain.mpr ((seesAt_of_declared hkind hslot).mpr hother), hcovers⟩
          | known found =>
              have hfound : constant.get? name = some found := by
                have hvalue := (Shape.slot?_eq_known_iff.mp hslot).2
                rwa [Shape.value?, hreflects.kind, if_pos hhas, hconstant] at hvalue
              obtain ⟨inner, hinner, hsame⟩ := Value.get?_of_untagged halike hfound
              rw [Value.sight_cons_of_some hhas hinner]
              exact ⟨_, sees_plain.mpr ((seesAt_of_known hkind hslot).mpr rfl),
                Value.sight_covers_of_untagged hsame path⟩

/-- What is seen of a plain type is covered by what is seen of it later. -/
theorem Later.seesAt {last : TypeStore} (hlater : Later store last) (hlawful : store.Lawful)
    (hlast : last.Lawful) {id : Nat} (hid : id < store.shapes.size) {sight : Sight}
    (h : store.SeesAt path id sight) :
    ∃ other, last.SeesAt path id other ∧ other.Covers sight := by
  induction path generalizing id with
  | nil =>
      refine ⟨sight, ?_, .refl sight⟩
      rw [SeesAt, Shape.sight, hlater.kind hid, hlater.constant hid, hlater.callable hid]
      exact h
  | cons name path ih =>
      by_cases hkind : (store.shape id).kind = .unknown
      · exact ⟨.unknown, seesAt_of_unknown (by rw [hlater.kind hid, hkind]), trivial⟩
      have hkind' : (last.shape id).kind ≠ .unknown := by rwa [hlater.kind hid]
      cases hslot : (store.shape id).slot? name with
      | none =>
          have hnone := (hlater.slot?_eq_none_iff hid name).mpr hslot
          rw [(seesAt_of_none hkind hslot).mp h]
          exact ⟨.missing, (seesAt_of_none hkind' hnone).mpr rfl, .refl _⟩
      | some slot =>
          cases slot with
          | declared member =>
              obtain ⟨inner, hinner, hsight⟩ := (seesAt_of_declared hkind hslot).mp h
              have hmember := Shape.slot?_eq_declared_iff.mp hslot
              obtain ⟨other, hother, hcovers⟩ := ih ((hlawful.has hmember).lt hinner) hsight
              exact ⟨other, (seesAt_of_declared hkind' (hlater.slot?_of_declared hslot)).mpr
                ⟨inner, hinner, hother⟩, hcovers⟩
          | known value =>
              rw [(seesAt_of_known hkind hslot).mp h]
              obtain ⟨hnew, hvalue⟩ := Shape.slot?_eq_known_iff.mp hslot
              cases hdeclared : Record.get? name (last.shape id).members with
              | none =>
                  have hslot' : (last.shape id).slot? name = some (.known value) :=
                    Shape.slot?_eq_known_iff.mpr ⟨hdeclared, by rw [hlater.value? hid, hvalue]⟩
                  exact ⟨_, (seesAt_of_known hkind' hslot').mpr rfl, .refl _⟩
              | some member =>
                  obtain ⟨-, found, hfound, hmirrors⟩ := hlater.mirrors hid hnew hdeclared
                  have hsame : found = value := Option.some.inj (hfound.symm.trans hvalue)
                  subst hsame
                  obtain ⟨other, hother, hcovers⟩ := hmirrors.sees hlast path
                  have hslot' := Shape.slot?_eq_declared_iff.mpr hdeclared
                  exact ⟨other, (seesAt_of_declared hkind' hslot').mpr hother, hcovers⟩

theorem Mirrors.callsNothing {ty : Ty} {value : Value} (h : store.Mirrors ty value)
    {sight : Sight} (hsees : store.Sees path ty sight) : sight.CallsNothing := by
  induction path generalizing ty value with
  | nil =>
      obtain ⟨id, rfl, hreflects⟩ := h.exists_reflects
      have hkind := hreflects.kind_ne_unknown
      have hsight : sight = (store.shape id).sight := sees_plain.mp hsees
      rw [hsight, sight_of_known hkind]
      exact hreflects.callable
  | cons name path ih =>
      obtain ⟨id, rfl, hreflects⟩ := h.exists_reflects
      have hkind := hreflects.kind_ne_unknown
      have hseesAt := sees_plain.mp hsees
      cases hslot : (store.shape id).slot? name with
      | none =>
          rw [(seesAt_of_none hkind hslot).mp hseesAt]
          trivial
      | some slot =>
          cases slot with
          | declared member =>
              have hmember := Shape.slot?_eq_declared_iff.mp hslot
              obtain ⟨inner, -, hmirrors⟩ := hreflects.member name member hmember
              exact ih hmirrors ((seesAt_of_declared hkind hslot).mp hseesAt)
          | known found =>
              rw [(seesAt_of_known hkind hslot).mp hseesAt]
              exact found.callsNothing_sight path

end TypeStore

end ScriptCheck
