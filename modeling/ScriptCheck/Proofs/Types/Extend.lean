import ScriptCheck.Proofs.Types.Decision

/-!
# Types that extend others

Assignability is not transitive, since everything may be assigned to and from a type of which
nothing is known.  One type extends another when whatever is assignable to the other, at any
depth, is assignable to it; this is transitive, and what extends a type that accepts another
accepts the other, too.
-/

namespace ScriptCheck

open TypeStore

/-! ## Extending types -/

/-- Nothing but what is assignable to every type is assignable to a choice between nothing. -/
theorem Admits.of_empty {depth : Nat} {source : Choice (View depth)}
    (h : Admits depth (.several []) source) (target : Choice (View depth)) :
    Admits depth target source := by
  induction depth with
  | zero => trivial
  | succ depth ih =>
      cases source with
      | one source =>
          obtain ⟨other, hother, -⟩ := h
          cases hother
      | several sources =>
          intro source hsource
          exact ih (h source hsource) _

namespace TypeStore

/-- Whatever is assignable to one type is assignable to another, at any depth. -/
def Extends (store : TypeStore) (wider narrower : Ty) : Prop :=
  ∀ depth source, Admits depth (store.view depth narrower) source →
    Admits depth (store.view depth wider) source

/-- One type is assignable to another as far as types are compared. -/
def Accepts (store : TypeStore) (target source : Ty) : Prop :=
  Admits (Ty.structuralDepth + 1) (store.view _ target) (store.view _ source)

variable {store next : TypeStore} {a b : Nat}

theorem Extends.refl (store : TypeStore) (ty : Ty) : store.Extends ty ty := fun _ _ h => h

theorem Extends.trans {x y z : Ty} (h : store.Extends x y) (hnext : store.Extends y z) :
    store.Extends x z :=
  fun depth source hadmits => h depth source (hnext depth source hadmits)

theorem Extends.of_steady {x y : Ty} (h : store.Extends x y) (hsteady : Steady store next)
    (hclosed : store.Closed) (hx : store.Holds x) (hy : store.Holds y) : next.Extends x y := by
  intro depth source
  rw [hsteady.view hclosed hx, hsteady.view hclosed hy]
  exact h depth source

theorem Accepts.of_steady {x y : Ty} (h : store.Accepts x y) (hsteady : Steady store next)
    (hclosed : store.Closed) (hx : store.Holds x) (hy : store.Holds y) : next.Accepts x y := by
  unfold Accepts
  rwa [hsteady.view hclosed hx, hsteady.view hclosed hy]

theorem accepts_refl (store : TypeStore) (ty : Ty) : store.Accepts ty ty := .refl _

theorem extends_of_suits (h : ∀ depth source,
    Aspect.Suits (Admits depth) (store.viewAt (depth + 1) a) source →
      Aspect.Suits (Admits depth) (store.viewAt (depth + 1) b) source) :
    store.Extends (.plain b) (.plain a) := by
  intro depth
  induction depth with
  | zero => exact fun _ _ => trivial
  | succ depth ih =>
      intro source hadmits
      cases source with
      | one source => exact h depth source hadmits
      | several sources =>
          intro source hsource
          have hbefore := hadmits source hsource
          rw [cut_view] at hbefore ⊢
          exact ih _ hbefore

theorem extends_of_unknown (h : (store.shape b).kind = .unknown) (narrower : Ty) :
    store.Extends (.plain b) narrower := by
  intro depth source _
  cases depth with
  | zero => trivial
  | succ depth => exact .of_unknown h source

theorem steady_unknown (store : TypeStore) :
    Steady store (store.add { kind := .unknown, mutable := true, lenient := true }) :=
  steady_add fun _ => supports_bare rfl (fun helement => by cases helement) rfl

theorem extends_unknown (store : TypeStore) (narrower : Ty) :
    (store.add { kind := .unknown, mutable := true, lenient := true }).Extends
      (.plain store.shapes.size) narrower :=
  extends_of_unknown (by rw [shape_add_self]) narrower

theorem extends_of_mem {ty : Ty} {id : Nat} (h : id ∈ ty.variants) :
    store.Extends ty (.plain id) := by
  intro depth source hadmits
  cases ty with
  | plain other =>
      rw [← List.mem_singleton.mp h]
      exact hadmits
  | union variants => exact hadmits.of_mem (List.mem_map_of_mem h)

/-- A type extends another if its variants extend those of the other. -/
theorem extends_of_variants {wider narrower : Ty}
    (hunion : narrower.isUnion = true → narrower.variants = [] ∨ wider.isUnion = true)
    (h : ∀ id ∈ narrower.variants, ∃ other ∈ wider.variants,
      store.Extends (.plain other) (.plain id)) : store.Extends wider narrower := by
  cases narrower with
  | plain id =>
      obtain ⟨other, hother, hextends⟩ := h id List.mem_cons_self
      exact (extends_of_mem hother).trans hextends
  | union variants =>
      rcases hunion rfl with hempty | hwider
      · intro depth source hadmits
        change variants = [] at hempty
        subst hempty
        exact hadmits.of_empty _
      cases wider with
      | plain id => cases hwider
      | union others =>
          intro depth
          induction depth with
          | zero => exact fun _ _ => trivial
          | succ depth ih =>
              intro source hadmits
              cases source with
              | one source =>
                  obtain ⟨target, htarget, hadmits⟩ := hadmits
                  obtain ⟨id, hid, rfl⟩ := List.mem_map.mp htarget
                  obtain ⟨other, hother, hextends⟩ := h id hid
                  refine ⟨store.viewAt (depth + 1) other, List.mem_map_of_mem hother, ?_⟩
                  rw [cut_viewAt] at hadmits ⊢
                  exact hextends depth _ hadmits
              | several sources =>
                  intro source hsource
                  have hbefore := hadmits source hsource
                  rw [cut_view] at hbefore ⊢
                  exact ih _ hbefore

/-- What extends a type that accepts another accepts it, too. -/
theorem Accepts.of_extends {x y z : Ty} (haccepts : store.Accepts y z) (h : store.Extends x y) :
    store.Accepts x z :=
  h _ _ haccepts

theorem accepts_of_variants {x y : Ty}
    (h : ∀ id ∈ y.variants, ∃ wider ∈ x.variants, store.Accepts (.plain wider) (.plain id)) :
    store.Accepts x y := by
  have hplain : ∀ id ∈ y.variants, store.Accepts x (.plain id) := by
    intro id hid
    obtain ⟨wider, hwider, haccepts⟩ := h id hid
    exact haccepts.of_extends (extends_of_mem hwider)
  cases y with
  | plain id => exact hplain id List.mem_cons_self
  | union variants =>
      apply admits_union_source.mpr
      intro id hid
      have hcut := Admits.cut (hplain id hid)
      rwa [cut_view, cut_view] at hcut

/-! ## Copies with other members -/

def ExtendsUnder (store : TypeStore) (a : Nat) (record : List (String × Ty)) : Prop :=
  ∀ name member, Record.get? name record = some member →
    store.Holds member ∧ name ∈ (store.shape a).memberNames ∧
      ∀ depth, ∃ declared, (store.viewAt (depth + 1) a).slot name = some declared ∧
        ∀ source, Admits depth declared source → Admits depth (store.view depth member) source

theorem Steady.mem_memberNames (h : Steady store next) (hclosed : store.Closed)
    (ha : a < store.shapes.size) {name : String} :
    name ∈ (next.shape a).memberNames ↔ name ∈ (store.shape a).memberNames :=
  iff_of_eq (congrArg (Aspect.named · name) (congrFun ((h hclosed).2.2 ha) 1))

theorem ExtendsUnder.of_steady {record : List (String × Ty)} (h : store.ExtendsUnder a record)
    (hsteady : Steady store next) (hclosed : store.Closed) (ha : a < store.shapes.size) :
    next.ExtendsUnder a record := by
  intro name member hmember
  obtain ⟨hholds, hname, hslot⟩ := h name member hmember
  refine ⟨hsteady.holds hclosed hholds, (hsteady.mem_memberNames hclosed ha).mpr hname, ?_⟩
  intro depth
  rw [show next.viewAt (depth + 1) a = store.viewAt (depth + 1) a from
    congrFun ((hsteady hclosed).2.2 ha) (depth + 1), hsteady.view hclosed hholds]
  exact hslot depth

theorem extendsUnder_members (hclosed : store.Closed) :
    store.ExtendsUnder a (store.shape a).members := by
  intro name member hmember
  refine ⟨(hclosed a).member hmember, ?_, fun depth => ⟨store.view depth member, ?_, fun _ h => h⟩⟩
  · unfold Shape.memberNames
    have hkey := Record.mem_keys_iff.mpr ⟨member, hmember⟩
    split
    · exact List.mem_append_left _ hkey
    · exact hkey
  · simp only [viewAt, Shape.slot?_eq_declared_iff.mpr hmember]
    rfl

theorem extends_copy {before : TypeStore} {shape : Shape} (hclosed : before.Closed)
    (hsteady : Steady before store) (ha : a < before.shapes.size)
    (houtline : shape.outline = (before.shape a).outline) (hconstant : shape.constant = none)
    (hmembers : store.ExtendsUnder a shape.members) :
    Steady store (store.add shape) ∧
      (store.add shape).Extends (.plain store.shapes.size) (.plain a) := by
  have hstore := (hsteady hclosed).1
  have ha' := Nat.lt_of_lt_of_le ha (hsteady hclosed).2.1
  have hindexer : shape.indexer = (before.shape a).indexer := (congrArg Shape.indexer houtline :)
  have hadd : Steady store (store.add shape) := by
    refine steady_add fun _ => ⟨fun hmember => (hmembers _ _ hmember).1, ?_, ?_⟩
    · intro key element helement
      rw [hindexer] at helement
      exact hsteady.holds hclosed ((hclosed a).element helement)
    · intro hrecord
      simp [Shape.isRecord, hconstant] at hrecord
  refine ⟨hadd, extends_of_suits fun depth source hsuits => ?_⟩
  have hall := trans_of Steady hsteady hadd
  obtain ⟨hkind, hmutable, helement⟩ := aspects_of_outline
    (fun hinner => congrFun ((hall hclosed).2.2 hinner) depth) (hclosed a)
    ((congrArg Shape.outline (shape_add_self store shape)).trans houtline)
  rw [← show (store.add shape).viewAt (depth + 1) a = before.viewAt (depth + 1) a from
    congrFun ((hall hclosed).2.2 ha) (depth + 1)] at hkind hmutable helement
  refine hsuits.of_target hkind hmutable helement fun name wider hnamed hwider => ?_
  change name ∈ ((store.add shape).shape store.shapes.size).memberNames at hnamed
  rw [shape_add_self, Shape.memberNames_of_general hconstant] at hnamed
  obtain ⟨member, hmember⟩ := Record.mem_keys_iff.mp hnamed
  have hslot : ((store.add shape).shape store.shapes.size).slot? name =
      some (.declared member) := by
    rw [shape_add_self, Shape.slot?_eq_declared_iff, hmember]
  obtain ⟨-, hname, hextends⟩ := hmembers.of_steady hadd hstore ha' name member hmember
  obtain ⟨declared, hdeclared, himp⟩ := hextends depth
  simp only [viewAt, hslot, Option.map_some, Option.some.injEq] at hwider
  rw [← hwider]
  exact ⟨declared, hname, hdeclared, himp⟩

end TypeStore

namespace Ty

/-- Comparing two types tells whether one accepts the other. -/
theorem assignable_iff {store : TypeStore} (hclosed : store.Closed) {target source : Ty}
    (htarget : store.Holds target)
    (hsource : store.Holds source) :
    (assignable target source store).1 = true ↔ store.Accepts target source :=
  decides_assignableWithin (structuralDepth + 1) hclosed htarget hsource

end Ty

end ScriptCheck
