import ScriptCheck.Proofs.Types.Render

/-!
# Assignability is told by views

Reading a member of a type declares it at most, which makes no difference to what can be told of
any type.  So comparing types decides, once and for all, what their views tell.
-/

namespace ScriptCheck

open TypeStore

namespace TypeStore

variable {store : TypeStore} {id : Nat} {name : String} {member : Ty} {value : Value}

theorem Closed.declare (h : store.Closed)
    (hslot : (store.shape id).slot? name = some (.known value))
    (hmember : store.Holds member) : (store.declare id name member).Closed := by
  have hid := lt_of_slot? hslot
  have hsize : store.shapes.size ≤ (store.declare id name member).shapes.size :=
    Nat.le_of_eq size_declare.symm
  intro other
  refine ⟨fun {key found} hfound => ?_, fun {key element} helement => ?_, fun hrecord => ?_⟩
  · rcases get?_declare hid hfound with hold | ⟨rfl, rfl, rfl⟩
    · exact ((h other).member hold).of_size_le hsize
    · exact hmember.of_size_le hsize
  · have hindexer : ((store.declare id name member).shape other).indexer =
        (store.shape other).indexer := (congrArg Shape.indexer (outline_declare hid other) :)
    rw [hindexer] at helement
    exact ((h other).element helement).of_size_le hsize
  · rw [kind_of_outline (outline_declare hid other)]
    rw [Shape.isRecord, constant_declare hid other] at hrecord
    exact (h other).record hrecord

theorem slot?_declare_of_ne (hid : id < store.shapes.size) {key : String} (hkey : key ≠ name) :
    ((store.declare id name member).shape id).slot? key = (store.shape id).slot? key := by
  rw [shape_declare_self hid]
  unfold Shape.slot? Shape.value?
  dsimp only
  rw [Record.get?_insert_of_ne hkey]

/-- Declaring a member that is known makes no difference. -/
theorem steady_declare (hslot : (store.shape id).slot? name = some (.known value))
    (hrecord : (store.shape id).isRecord = true) (hmirrors : store.Mirrors member value)
    (hmember : store.Holds member) (hview : ∀ depth, store.view depth member =
    .one (value.view depth)) :
    Steady store (store.declare id name member) := by
  have hid := lt_of_slot? hslot
  have hlater := Later.declare hslot hrecord hmirrors
  intro hclosed
  refine ⟨hclosed.declare hslot hmember, hlater.size_le,
    fun {other} hother => funext fun depth => ?_⟩
  induction depth generalizing other with
  | zero => rfl
  | succ depth ih =>
      by_cases heq : other = id
      swap
      · exact viewAt_succ_of_shape_eq ih (shape_declare_of_ne heq) (hclosed other)
      subst heq
      obtain ⟨hkind, hmutable, helement⟩ :=
        aspects_of_outline ih (hclosed other) (outline_declare hid other)
      refine Aspect.ext hkind hmutable helement (funext fun key => ?_) (funext fun key => ?_)
      · exact propext (hlater.mem_memberNames hother (Shape.hasMembers_of_known hslot))
      · by_cases hkey : key = name
        · subst hkey
          have hdeclared : ((store.declare other key member).shape other).slot? key =
              some (.declared member) := by
            rw [Shape.slot?_eq_declared_iff, shape_declare_self hid, Record.get?_insert_self]
          change Option.map _ (((store.declare other key member).shape other).slot? key) =
            Option.map _ ((store.shape other).slot? key)
          rw [hslot, hdeclared]
          exact congrArg some ((view_eq_of_inside ih hmember).trans (hview depth))
        · exact slot_viewAt_eq ih (hclosed other) (slot?_declare_of_ne hid hkey)

end TypeStore

namespace Ty

open TypeM (Follows)

variable {store : TypeStore}

/-- What is read shows what the type has under the name, and no type changes. -/
structure Reads (store : TypeStore) (id : Nat) (name : String) (result : Option Ty)
    (next : TypeStore) : Prop where
  steady : Steady store next
  holds : ∀ member, result = some member → next.Holds member
  view : ∀ depth, result.map (next.view depth) = (store.viewAt (depth + 1) id).slot name

theorem reads_declaredMember (hclosed : store.Closed) (id : Nat) (name : String) :
    Reads store id name (declaredMember id name store).1 (declaredMember id name store).2 := by
  cases hslot : (store.shape id).slot? name with
  | none =>
      rw [declaredMember_of_none hslot]
      refine ⟨refl_of Steady store, fun member hmember => (by cases hmember), fun depth => ?_⟩
      simp only [viewAt, hslot, Option.map_none]
  | some slot =>
      cases slot with
      | declared member =>
          rw [declaredMember_of_declared hslot]
          refine ⟨refl_of Steady store, ?_, fun depth => ?_⟩
          · rintro _ ⟨⟩
            exact (hclosed id).member (Shape.slot?_eq_declared_iff.mp hslot)
          · simp only [viewAt, hslot, Option.map_some]
            rfl
      | known value =>
          obtain ⟨hsteady, inner, hinner, hdepicts⟩ := depicts_ofValue hclosed value
          have hmirrors := mirrors_ofValue store value
          have hmakes : Makes store (ofValue value store).2 := makes_ofValue store value
          have hview : ∀ depth, (ofValue value store).2.view depth (plain inner) =
              .one (value.view depth) := fun depth =>
            congrArg Choice.one (congrFun hdepicts.vista depth)
          have hholds := holds_plain hdepicts.lt
          rw [hinner] at hmirrors
          cases hrecord : (store.shape id).isRecord with
          | false =>
              rw [declaredMember_of_not_record hslot hrecord, hinner]
              refine ⟨hsteady, ?_, fun depth => ?_⟩
              · rintro _ ⟨⟩
                exact hholds
              · simp only [viewAt, hslot, Option.map_some, hview]
          | true =>
              rw [declaredMember_of_record hslot hrecord, hinner]
              have hshape := hmakes.shape_eq (lt_of_slot? hslot)
              have hdeclare := steady_declare (by rw [hshape, hslot]) (by rw [hshape, hrecord])
                hmirrors hholds hview
              have hnext := (hsteady hclosed).1
              refine ⟨trans_of Steady hsteady hdeclare, ?_, fun depth => ?_⟩
              · rintro _ ⟨⟩
                exact hdeclare.holds hnext hholds
              · simp only [viewAt, hslot, Option.map_some, hdeclare.view hnext hholds, hview]

theorem steady_declaredMember : ReaderFollows Steady declaredMember :=
  fun _ id name hclosed => (reads_declaredMember hclosed id name).steady hclosed

def Decides (depth : Nat) (compare : Ty → Ty → TypeM Bool) : Prop :=
  ∀ {store : TypeStore} {target source : Ty}, store.Closed → store.Holds target →
    store.Holds source → ((compare target source store).1 = true ↔
      Admits depth (store.view depth target) (store.view depth source))

theorem memberAssignable_iff {nested : Ty → Ty → TypeM Bool} {depth : Nat} {target source : Nat}
    (hnested : Decides depth nested) (hclosed : store.Closed) (hsource : source < store.shapes.size)
    {name : String} (hname : (store.viewAt (depth + 1) target).slot name ≠ none) :
    (memberAssignable declaredMember nested target source name store).1 = true ↔
      ∀ expected, (store.viewAt (depth + 1) target).slot name = some expected →
        ∃ actual, (store.viewAt (depth + 1) source).slot name = some actual ∧
          Admits depth expected actual := by
  have hleft := reads_declaredMember hclosed target name
  rcases hexpected : declaredMember target name store with ⟨expected?, read⟩
  rw [hexpected] at hleft
  obtain ⟨hread, -, hreadView⟩ := hleft.steady hclosed
  have hright := reads_declaredMember hread source name
  rcases hactual : declaredMember source name read with ⟨actual?, after⟩
  rw [hactual] at hright
  have hafter := (hright.steady hread).1
  have hsourceView := hright.view depth
  rw [show read.viewAt (depth + 1) source = store.viewAt (depth + 1) source from
    congrFun (hreadView hsource) (depth + 1)] at hsourceView
  rw [memberAssignable, TypeM.bind_apply, hexpected, TypeM.bind_apply, hactual,
    ← hleft.view depth, ← hsourceView]
  dsimp only
  cases expected? with
  | none => exact absurd (hleft.view depth).symm hname
  | some expected =>
      have hexpectedHolds := hleft.holds expected rfl
      cases actual? with
      | none =>
          constructor
          · intro h
            cases h
          · intro h
            obtain ⟨actual, hnone, -⟩ := h _ rfl
            cases hnone
      | some actual =>
          have hdecides := hnested hafter (hright.steady.holds hread hexpectedHolds)
            (hright.holds actual rfl)
          rw [hright.steady.view hread hexpectedHolds] at hdecides
          simp only [Option.map_some, Option.some.injEq, forall_eq', exists_eq_left', ← hdecides]

theorem membersAssignable_iff {nested : Ty → Ty → TypeM Bool} {depth : Nat} {target source : Nat}
    (hnested : Decides depth nested) (hsteady : ∀ store x y, Follows Steady store (nested x y))
    (hclosed : store.Closed) (htarget : target < store.shapes.size)
    (hsource : source < store.shapes.size) {names : List String}
    (hnames : ∀ name ∈ names, (store.viewAt (depth + 1) target).slot name ≠ none) :
    (membersAssignable declaredMember nested target source names store).1 = true ↔
      ∀ name ∈ names, ∀ expected, (store.viewAt (depth + 1) target).slot name = some expected →
        ∃ actual, (store.viewAt (depth + 1) source).slot name = some actual ∧
          Admits depth expected actual := by
  rw [membersAssignable_eq_allM]
  apply TypeM.allM_iff (R := Steady)
  intro name hname next hnext
  obtain ⟨hclosed', hsize, hvistas⟩ := hnext hclosed
  have hviews : ∀ {id : Nat}, id < store.shapes.size →
      next.viewAt (depth + 1) id = store.viewAt (depth + 1) id := fun hid =>
    congrFun (hvistas hid) (depth + 1)
  refine ⟨follows_memberAssignable next steady_declaredMember hsteady target source name, ?_⟩
  rw [← hviews htarget, ← hviews hsource]
  refine memberAssignable_iff hnested hclosed' (Nat.lt_of_lt_of_le hsource hsize) ?_
  rw [hviews htarget]
  exact hnames name hname

theorem decides_assignableWithin (depth : Nat) :
    Decides depth (assignableWithin declaredMember depth) := by
  have hsteady : ∀ (depth : Nat) (store : TypeStore) (x y : Ty),
      Follows Steady store (assignableWithin declaredMember depth x y) := fun depth store =>
    follows_assignableWithin store steady_declaredMember depth
  induction depth with
  | zero => exact fun _ _ _ => iff_of_true rfl trivial
  | succ depth ih =>
      intro store target source hclosed htarget hsource
      have hlater : ∀ {next : TypeStore} {x y : Ty}, Steady store next → store.Holds x →
          store.Holds y → ((assignableWithin declaredMember depth x y next).1 = true ↔
            Admits depth (store.view depth x) (store.view depth y)) := by
        intro next x y hnext hx hy
        rw [← hnext.view hclosed hx, ← hnext.view hclosed hy]
        exact ih (hnext hclosed).1 (hnext.holds hclosed hx) (hnext.holds hclosed hy)
      cases source with
      | union variants =>
          rw [admits_union_source]
          apply TypeM.allM_iff (R := Steady)
          intro variant hvariant next hnext
          exact ⟨hsteady _ _ _ _, hlater hnext htarget (holds_plain (hsource.lt hvariant))⟩
      | plain source =>
          cases target with
          | union variants =>
              rw [admits_union_target]
              apply TypeM.anyM_iff (R := Steady)
              intro variant hvariant next hnext
              exact ⟨hsteady _ _ _ _, hlater hnext (holds_plain (htarget.lt hvariant)) hsource⟩
          | plain target =>
              have htarget' := htarget.lt List.mem_cons_self
              have hsource' := hsource.lt List.mem_cons_self
              have hnext : Steady store _ := follows_elementsAssignable store (hsteady depth)
                (store.shape target) (store.shape source)
              apply plainAssignable_iff_suits
              · intro hkind
                apply elementsAssignable_iff hkind
                intro key key' expected actual _ hexpected hactual
                exact ih hclosed ((hclosed target).element hexpected)
                  ((hclosed source).element hactual)
              · obtain ⟨hclosed', hsize, hvistas⟩ := hnext hclosed
                have htargetView := congrFun (hvistas htarget') (depth + 1)
                have hsourceView := congrFun (hvistas hsource') (depth + 1)
                have hmembers := membersAssignable_iff ih (hsteady depth) hclosed'
                  (Nat.lt_of_lt_of_le htarget' hsize) (Nat.lt_of_lt_of_le hsource' hsize)
                  fun name hname => slot_viewAt_ne_none (hclosed' target) hname depth
                unfold vista at htargetView hsourceView
                dsimp only
                rw [hmembers, htargetView, hsourceView]
                have hnamed : ∀ name, name ∈ (TypeStore.shape _ target).memberNames ↔
                    (store.viewAt (depth + 1) target).named name := fun name =>
                  iff_of_eq (congrArg (Aspect.named · name) htargetView)
                exact ⟨fun h name expected hname => h name ((hnamed name).mpr hname) expected,
                  fun h name hname expected => h name expected ((hnamed name).mp hname)⟩

end Ty

end ScriptCheck
