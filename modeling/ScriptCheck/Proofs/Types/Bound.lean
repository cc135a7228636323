import ScriptCheck.Proofs.Types.Extend
import ScriptCheck.Proofs.Types.Lead
import ScriptCheck.Proofs.Types.Merge

/-!
# Joins extend what they join

A merge of two plain types extends the first, and the second is assignable to it because it is
assignable to the first.  So a join extends its first part, however many variants are merged into
one another, and the second part is assignable to it.
-/

namespace ScriptCheck

open TypeStore

/-! ## Rules for joins -/

/-- From a store, a computation leads to a steady store and to a result as described, if to
any. -/
def JoinM.Ensures {α : Type} (store : TypeStore) (computation : JoinM α)
    (post : α → TypeStore → Prop) : Prop :=
  ∀ result next, computation store = some (result, next) → Steady store next ∧ post result next

namespace JoinM.Ensures

variable {α β : Type} {store : TypeStore} {post : α → TypeStore → Prop}
  {rest : β → TypeStore → Prop}

theorem pure {result : α} (h : post result store) : Ensures store (Pure.pure result) post :=
  Leads.pure (R := Steady) h

theorem fail : Ensures store (failure : JoinM α) post :=
  Leads.fail (R := Steady)

theorem bind {computation : JoinM α} {f : α → JoinM β} (h : Ensures store computation post)
    (hf : ∀ result next, Steady store next → post result next → Ensures next (f result) rest) :
    Ensures store (computation >>= f) rest :=
  Leads.bind (R := Steady) h hf

theorem ofTypes {computation : TypeM α} (hsteady : TypeM.Follows Steady store computation)
    (h : post (computation store).1 (computation store).2) :
    Ensures store (JoinM.ofTypes computation) post :=
  Leads.ofTypes (R := Steady) ⟨hsteady, h⟩

theorem shapeOf_bind {f : Shape → JoinM β} {id : TypeId}
    (hf : Ensures store (f (store.shape id)) rest) :
    Ensures store (JoinM.ofTypes (shapeOf id) >>= f) rest :=
  hf

end JoinM.Ensures

namespace Ty

open JoinM (ofTypes Ensures)

variable {store next : TypeStore}

structure Widens (store : TypeStore) (variants result : List TypeId) : Prop where
  lt : ∀ {id : Nat}, id ∈ result → id < store.shapes.size
  extend : ∀ id ∈ variants, ∃ wider ∈ result, store.Extends (plain wider) (plain id)
  length_le : variants.length ≤ result.length

structure Unites (store : TypeStore) (a b merged : Nat) : Prop where
  lt : merged < store.shapes.size
  left : store.Extends (plain merged) (plain a)
  right : store.Accepts (plain merged) (plain b)

/-- Whatever two plain types are merged into extends the first and accepts the second. -/
def Merger.Unites (merger : Merger) : Prop :=
  ∀ {store : TypeStore} {a b : Nat}, store.Closed → a < store.shapes.size → b < store.shapes.size →
    (merger a b).Ensures store fun result next => ∀ merged, result = some merged →
      Ty.Unites next a b merged

variable {merger deeper restart : Merger}

/-! ## Joining variants -/

theorem ensures_absorb (h : merger.Unites) (hclosed : store.Closed) {incoming : Nat}
    (hincoming : incoming < store.shapes.size) {variants : List TypeId}
    (hvariants : ∀ {id : Nat}, id ∈ variants → id < store.shapes.size) :
    (absorb merger incoming variants).Ensures store fun result next =>
      Widens next variants result ∧
        ∃ id ∈ result, next.Accepts (plain id) (plain incoming) := by
  induction variants generalizing store with
  | nil =>
      refine Ensures.pure ⟨⟨fun hid => ?_, fun id hid => absurd hid List.not_mem_nil,
        Nat.zero_le _⟩, incoming, List.mem_cons_self, accepts_refl _ _⟩
      rw [List.mem_singleton.mp hid]
      exact hincoming
  | cons existing rest ih =>
      have hexisting := hvariants List.mem_cons_self
      apply (h hclosed hexisting hincoming).bind
      intro merged? next hsteady hmerged
      obtain ⟨hnext, hsize, -⟩ := hsteady hclosed
      have hrest : ∀ {id : Nat}, id ∈ rest → id < next.shapes.size := fun hid =>
        Nat.lt_of_lt_of_le (hvariants (List.mem_cons_of_mem _ hid)) hsize
      cases merged? with
      | some merged =>
          have hunites := hmerged merged rfl
          refine Ensures.pure ⟨⟨?_, ?_, Nat.le_refl _⟩, merged, List.mem_cons_self, hunites.right⟩
          · intro id hid
            rcases List.mem_cons.mp hid with rfl | hid
            · exact hunites.lt
            · exact hrest hid
          · intro id hid
            rcases List.mem_cons.mp hid with rfl | hid
            · exact ⟨merged, List.mem_cons_self, hunites.left⟩
            · exact ⟨id, List.mem_cons_of_mem _ hid, .refl _ _⟩
      | none =>
          apply (ih hnext (Nat.lt_of_lt_of_le hincoming hsize) hrest).bind
          rintro result last hsteady' ⟨hwidens, found, hfound, haccepts⟩
          have hexisting' := Nat.lt_of_lt_of_le hexisting
            (Nat.le_trans hsize (hsteady' hnext).2.1)
          refine Ensures.pure ⟨⟨?_, ?_, Nat.succ_le_succ hwidens.length_le⟩,
            found, List.mem_cons_of_mem _ hfound, haccepts⟩
          · intro id hid
            rcases List.mem_cons.mp hid with rfl | hid
            · exact hexisting'
            · exact hwidens.lt hid
          · intro id hid
            rcases List.mem_cons.mp hid with rfl | hid
            · exact ⟨id, List.mem_cons_self, .refl _ _⟩
            · obtain ⟨wider, hwider, hextends⟩ := hwidens.extend id hid
              exact ⟨wider, List.mem_cons_of_mem _ hwider, hextends⟩

theorem ensures_absorbAll (h : merger.Unites) (hclosed : store.Closed) {incoming : List TypeId}
    (hincoming : ∀ {id : Nat}, id ∈ incoming → id < store.shapes.size) {variants : List TypeId}
    (hvariants : ∀ {id : Nat}, id ∈ variants → id < store.shapes.size) :
    (incoming.foldlM (fun variants next => absorb merger next variants) variants).Ensures store
      fun result next => Widens next variants result ∧
        ∀ id ∈ incoming, ∃ wider ∈ result, next.Accepts (plain wider) (plain id) := by
  induction incoming generalizing store variants with
  | nil =>
      refine Ensures.pure ⟨⟨hvariants, fun id hid => ⟨id, hid, .refl _ _⟩, Nat.le_refl _⟩, ?_⟩
      exact fun id hid => absurd hid List.not_mem_nil
  | cons first rest ih =>
      have hfirst := hincoming List.mem_cons_self
      rw [List.foldlM_cons]
      apply (ensures_absorb h hclosed hfirst hvariants).bind
      rintro result next hsteady ⟨hwidens, found, hfound, haccepts⟩
      obtain ⟨hnext, hsize, -⟩ := hsteady hclosed
      have hlt : ∀ {id : Nat}, id < store.shapes.size → next.Holds (plain id) :=
        fun hid => holds_plain (Nat.lt_of_lt_of_le hid hsize)
      intro last after hrun
      obtain ⟨hsteady', hwidens', haccepted⟩ := ih hnext
        (fun hid => (hlt (hincoming (List.mem_cons_of_mem _ hid))).lt List.mem_cons_self)
        hwidens.lt last after hrun
      refine ⟨hsteady', ⟨hwidens'.lt, ?_, Nat.le_trans hwidens.length_le hwidens'.length_le⟩, ?_⟩
      · intro id hid
        obtain ⟨middle, hmiddle, hextends⟩ := hwidens.extend id hid
        obtain ⟨wider, hwider, hextends'⟩ := hwidens'.extend middle hmiddle
        exact ⟨wider, hwider, hextends'.trans (hextends.of_steady hsteady' hnext
          (holds_plain (hwidens.lt hmiddle)) (hlt (hvariants hid)))⟩
      · intro id hid
        rcases List.mem_cons.mp hid with rfl | hid
        · obtain ⟨wider, hwider, hextends⟩ := hwidens'.extend found hfound
          exact ⟨wider, hwider, (haccepts.of_steady hsteady' hnext
            (holds_plain (hwidens.lt hfound)) (hlt hfirst)).of_extends hextends⟩
        · exact haccepted id hid

structure Joins (store : TypeStore) (a b joined : Ty) : Prop where
  holds : store.Holds joined
  left : store.Extends joined a
  right : store.Accepts joined b

theorem isUnion_ofVariants {a : Ty} {variants : List TypeId} (hflat : a.variants.length ≠ 1)
    (hle : a.variants.length ≤ variants.length) :
    a.variants = [] ∨ (ofVariants variants).isUnion = true := by
  cases hempty : a.variants with
  | nil => exact .inl rfl
  | cons first rest =>
      right
      unfold ofVariants
      split
      · simp_all
      · rfl

theorem ensures_joinWith (h : merger.Unites) (hclosed : store.Closed) {a b : Ty}
    (ha : store.Holds a) (hb : store.Holds b) :
    (joinWith merger a b).Ensures store fun joined next => Joins next a b joined := by
  have hlook : ∀ ty : Ty, (ofTypes ty.isUnknown).Ensures store fun _ next => next = store :=
    fun ty => .ofTypes (follows_isUnknown store ty) (by cases ty <;> rfl)
  apply (hlook a).bind
  intro _ next _ hnext
  rw [hnext]
  apply (hlook b).bind
  intro _ next _ hnext
  rw [hnext]
  split
  · have hunknown := extends_unknown store
    have hsteady : TypeM.Follows Steady store unknown := steady_unknown store
    refine Ensures.ofTypes hsteady ⟨holds_plain ?_, hunknown a, ?_⟩
    · exact Nat.lt_of_lt_of_eq (Nat.lt_succ_self _) (Array.size_push _).symm
    · exact (accepts_refl _ b).of_extends (hunknown b)
  · apply (ensures_absorbAll h hclosed hb.lt ha.lt).bind
    rintro result last hsteady ⟨hwidens, haccepts⟩
    refine Ensures.pure ⟨holds_ofVariants fun _ hid => hwidens.lt hid, ?_, ?_⟩
    · apply extends_of_variants
      · intro hunion
        exact isUnion_ofVariants (ha.flat hunion) hwidens.length_le
      · rw [variants_ofVariants]
        exact hwidens.extend
    · apply accepts_of_variants
      rw [variants_ofVariants]
      exact haccepts

/-! ## Joining members -/

theorem ensures_joinMemberWith (hdeeper : deeper.Unites) (hrestart : restart.Unites)
    (hclosed : store.Closed) {x y : Ty} (hx : store.Holds x) (hy : store.Holds y) :
    (joinMemberWith deeper restart x y).Ensures store fun joined next =>
      next.Holds joined ∧ next.Extends joined x := by
  have hjoin : ∀ {next : TypeStore}, Steady store next →
      (joinWith restart x y).Ensures next fun joined last =>
        last.Holds joined ∧ last.Extends joined x := by
    intro next hsteady joined last hrun
    obtain ⟨hsteady', hjoins⟩ := ensures_joinWith hrestart (hsteady hclosed).1
      (hsteady.holds hclosed hx) (hsteady.holds hclosed hy) joined last hrun
    exact ⟨hsteady', hjoins.holds, hjoins.left⟩
  cases x with
  | union variants => exact hjoin (refl_of Steady store)
  | plain x =>
      cases y with
      | union variants => exact hjoin (refl_of Steady store)
      | plain y =>
          apply (hdeeper hclosed (hx.lt List.mem_cons_self) (hy.lt List.mem_cons_self)).bind
          intro merged? next hsteady hmerged
          cases merged? with
          | none => exact hjoin hsteady
          | some merged =>
              have hunites := hmerged merged rfl
              exact Ensures.pure ⟨holds_plain hunites.lt, hunites.left⟩

theorem ensures_declaredMember (hclosed : store.Closed) (id : Nat) (name : String) :
    (ofTypes (declaredMember id name)).Ensures store fun result next =>
      Reads store id name result next :=
  .ofTypes (steady_declaredMember store id name) (reads_declaredMember hclosed id name)

theorem Reads.extendsUnder {read last : TypeStore} {a : Nat} {name : String} {left joined : Ty}
    (h : Reads store a name (some left) read) (hclosed : store.Closed)
    (ha : a < store.shapes.size) (hname : name ∈ (store.shape a).memberNames)
    (hlast : Steady read last) (hholds : last.Holds joined) (hextends : last.Extends joined left)
    {record : List (String × Ty)} (hrecord : last.ExtendsUnder a record) :
    last.ExtendsUnder a (Record.insert name joined record) := by
  have hall := trans_of Steady h.steady hlast
  have hread := (h.steady hclosed).1
  intro key member hmember
  by_cases hkey : key = name
  · subst hkey
    rw [Record.get?_insert_self] at hmember
    cases hmember
    refine ⟨hholds, (hall.mem_memberNames hclosed ha).mpr hname, fun depth => ?_⟩
    refine ⟨last.view depth left, ?_, hextends depth⟩
    rw [show last.viewAt (depth + 1) a = store.viewAt (depth + 1) a from
      congrFun ((hall hclosed).2.2 ha) (depth + 1), ← h.view depth,
      hlast.view hread (h.holds left rfl)]
    rfl
  · rw [Record.get?_insert_of_ne hkey] at hmember
    exact hrecord key member hmember

/-- Joining the members of two objects gives members that extend those of the first. -/
theorem ensures_joinMembers {join : Ty → Ty → JoinM Ty}
    (hjoin : ∀ {store : TypeStore} {x y : Ty}, store.Closed → store.Holds x → store.Holds y →
      (join x y).Ensures store fun joined next => next.Holds joined ∧ next.Extends joined x)
    {a b : Nat} (hclosed : store.Closed) (ha : a < store.shapes.size) {names : List String}
    (hnames : ∀ name ∈ names, name ∈ (store.shape a).memberNames) {record : List (String × Ty)}
    (hrecord : store.ExtendsUnder a record) :
    (joinMembers join a b names record).Ensures store fun result next =>
      next.ExtendsUnder a result := by
  induction names generalizing store record with
  | nil => exact Ensures.pure hrecord
  | cons name rest ih =>
      have hname := hnames name List.mem_cons_self
      apply (ensures_declaredMember hclosed a name).bind
      intro left read hread hleft
      obtain ⟨hclosed', hsize, -⟩ := hread hclosed
      apply (ensures_declaredMember hclosed' b name).bind
      intro right after hafter hright
      have hsteady := trans_of Steady hread hafter
      have hgo : ∀ {joined left' : Ty} {last : TypeStore}, left = some left' → Steady after last →
          last.Holds joined → last.Extends joined left' →
            (joinMembers join a b rest (Record.insert name joined record)).Ensures last
              fun result next => next.ExtendsUnder a result := by
        rintro joined left' last rfl hlast hholds hextends
        have hall := trans_of Steady hsteady hlast
        obtain ⟨hclosed'', hsize', -⟩ := hall hclosed
        apply ih hclosed'' (Nat.lt_of_lt_of_le ha hsize')
        · intro other hother
          exact (hall.mem_memberNames hclosed ha).mpr (hnames other (List.mem_cons_of_mem _ hother))
        · exact hleft.extendsUnder hclosed ha hname (trans_of Steady hafter hlast) hholds hextends
            (hrecord.of_steady hall hclosed ha)
      cases left with
      | none => exact absurd (hleft.view 0).symm (slot_viewAt_ne_none (hclosed a) hname 0)
      | some left =>
          have hholds := hafter.holds hclosed' (hleft.holds left rfl)
          cases right with
          | none => exact hgo rfl (refl_of Steady after) hholds (.refl _ _)
          | some right =>
              apply (hjoin (hafter hclosed').1 hholds (hright.holds right rfl)).bind
              rintro joined last hlast ⟨hjoined, hextends⟩
              exact hgo rfl hlast hjoined hextends

/-! ## Merging -/

theorem ensures_equivalent (hclosed : store.Closed) {a b : Ty} (ha : store.Holds a)
    (hb : store.Holds b) :
    (ofTypes (equivalent a b)).Ensures store fun found next =>
      found = true → next.Accepts a b := by
  have hsteady : Steady store _ := follows_equivalent store steady_declaredMember a b
  refine Ensures.ofTypes hsteady fun hfound => ?_
  rw [equivalent, TypeM.bind_apply] at hfound
  split at hfound
  · rename_i hassignable
    exact ((assignable_iff hclosed ha hb).mp hassignable).of_steady hsteady hclosed ha hb
  · cases hfound

theorem ensures_widenPlain (hclosed : store.Closed) {a : Nat} (ha : a < store.shapes.size) :
    (ofTypes (widenPlain a)).Ensures store fun widened next =>
      widened < next.shapes.size ∧ next.Extends (plain widened) (plain a) := by
  have hself : (widenPlain a store) = (a, store) →
      (ofTypes (widenPlain a)).Ensures store fun widened next =>
        widened < next.shapes.size ∧ next.Extends (plain widened) (plain a) := by
    intro hsame widened next hrun
    have hpair : widenPlain a store = (widened, next) := Option.some.inj hrun
    rw [hsame] at hpair
    cases hpair
    exact ⟨refl_of Steady store, ha, .refl _ _⟩
  by_cases hnull : (store.shape a).kind = .null ∨ (store.shape a).kind = .undefined
  · exact hself (widenPlain_of_null hnull)
  obtain ⟨hnull, hundefined⟩ := not_or.mp hnull
  cases hconstant : (store.shape a).constant with
  | none => exact hself (widenPlain_of_none hconstant)
  | some constant =>
      intro widened next hrun
      have hpair : widenPlain a store = (widened, next) := Option.some.inj hrun
      rw [widenPlain_of_some hconstant hnull hundefined] at hpair
      cases hpair
      have hcopy : Steady store (store.add { store.shape a with constant := none }) ∧ _ :=
        extends_copy hclosed (refl_of Steady store) ha rfl rfl (extendsUnder_members hclosed)
      exact ⟨hcopy.1, by simp [TypeStore.add], hcopy.2⟩

/-- What extends the first of two equivalent types accepts the second, since the first
accepts it. -/
theorem unites_of_equivalent {a b merged : Nat} {after last : TypeStore} (hclosed : store.Closed)
    (ha : a < store.shapes.size) (hb : b < store.shapes.size)
    (hcompared : equivalent (plain a) (plain b) store = (true, after))
    (hlast : Steady after last) (hmerged : merged < last.shapes.size)
    (hextends : last.Extends (plain merged) (plain a)) : Unites last a b merged := by
  obtain ⟨hsteady, haccepts⟩ := ensures_equivalent hclosed (holds_plain ha) (holds_plain hb) true
    after (congrArg some hcompared)
  obtain ⟨hafter, hsize, -⟩ := hsteady hclosed
  refine ⟨hmerged, hextends, ((haccepts rfl).of_steady hlast hafter ?_ ?_).of_extends hextends⟩
  · exact holds_plain (Nat.lt_of_lt_of_le ha hsize)
  · exact holds_plain (Nat.lt_of_lt_of_le hb hsize)

/-- A level of a merge unites two plain types if the levels inside do. -/
theorem unites_mergeStep (hdeeper : deeper.Unites) (hrestart : restart.Unites)
    (keeps : TypeId → TypeId → Bool) (tooDeep : Bool) :
    (mergeStep keeps tooDeep deeper restart).Unites := by
  intro store a b hclosed ha hb result next hrun
  have hsteady : ∀ {found : Bool} {after : TypeStore},
      equivalent (plain a) (plain b) store = (found, after) → Steady store after := by
    intro found after hcompared
    exact (ensures_equivalent hclosed (holds_plain ha) (holds_plain hb) found after
      (congrArg some hcompared)).1
  cases mergeStep_ends hrun with
  | same heq =>
      subst heq
      refine ⟨refl_of Steady store, ?_⟩
      rintro merged ⟨⟩
      exact ⟨ha, .refl _ _, accepts_refl _ _⟩
  | unknown =>
      have hunknown := extends_unknown store
      refine ⟨steady_unknown store, ?_⟩
      rintro merged ⟨⟩
      exact ⟨by simp [TypeStore.add], hunknown _, (accepts_refl _ _).of_extends (hunknown _)⟩
  | apart => exact ⟨refl_of Steady store, nofun⟩
  | unlike _ hcompared => exact ⟨hsteady hcompared, nofun⟩
  | kept _ hcompared =>
      obtain ⟨-, hsize, -⟩ := hsteady hcompared hclosed
      refine ⟨hsteady hcompared, ?_⟩
      rintro merged ⟨⟩
      exact unites_of_equivalent hclosed ha hb hcompared (refl_of Steady next)
        (Nat.lt_of_lt_of_le ha hsize) (.refl _ _)
  | widened _ hcompared _ _ _ hwidening =>
      obtain ⟨hafter, hsize, -⟩ := hsteady hcompared hclosed
      obtain ⟨hlast, hlt, hextends⟩ := ensures_widenPlain hafter (Nat.lt_of_lt_of_le ha hsize) _ _
        (congrArg some hwidening)
      refine ⟨trans_of Steady (hsteady hcompared) hlast, ?_⟩
      rintro merged ⟨⟩
      exact unites_of_equivalent hclosed ha hb hcompared hlast hlt hextends
  | @joined after last members _ hcompared _ _ _ hjoining =>
      obtain ⟨hafter, hsize, -⟩ := hsteady hcompared hclosed
      have hempty : after.ExtendsUnder a [] := fun name member hmember => by cases hmember
      obtain ⟨hlast, hmembers⟩ := ensures_joinMembers (fun hclosed hx hy =>
        ensures_joinMemberWith hdeeper hrestart hclosed hx hy) hafter (Nat.lt_of_lt_of_le ha hsize)
        (fun name hname => hname) hempty members last hjoining
      have hwhole := trans_of Steady (hsteady hcompared) hlast
      have hcopy : Steady last (last.add { store.shape a with constant := none, members }) ∧ _ :=
        extends_copy hclosed hwhole ha rfl rfl hmembers
      refine ⟨trans_of Steady hwhole hcopy.1, ?_⟩
      rintro merged ⟨⟩
      exact unites_of_equivalent hclosed ha hb hcompared (trans_of Steady hlast hcopy.1)
        (by simp [TypeStore.add]) hcopy.2

theorem unites_merge (bound depth : Nat) : Merger.Unites (merge bound depth) := by
  induction bound generalizing depth with
  | zero =>
      intro store a b _ _ _
      rw [merge]
      exact Ensures.fail
  | succ bound ih =>
      intro store a b
      rw [merge_succ]
      exact unites_mergeStep (ih (depth + 1)) (ih 0) _ _

/-- A join extends its first part and accepts its second. -/
theorem ensures_join (bound : Nat) (hclosed : store.Closed) {a b : Ty} (ha : store.Holds a)
    (hb : store.Holds b) :
    (join bound a b).Ensures store fun joined next => Joins next a b joined :=
  ensures_joinWith (unites_merge bound 0) hclosed ha hb

end Ty

end ScriptCheck
