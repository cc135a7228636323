import ScriptCheck.Proofs.Types.Known
import ScriptCheck.Proofs.Types.Merge
import ScriptCheck.Proofs.Types.Names

/-!
# Joins of general types

A type without its constant is general.  General types that are assignable both ways have the
same constant, mostly none, so one of them stands for both: their joins never nest, and the
smallest bound suffices to join them.
-/

namespace ScriptCheck

def Kind.only? : Kind → Option Value
  | null => some .null
  | undefined => some .undefined
  | _ => none

def Shape.IsGeneral (shape : Shape) : Prop := shape.constant = shape.kind.only?

/-- From a store, a computation has a result as described, and leads on to a later store. -/
def JoinM.Gives {α : Type} (store : TypeStore) (computation : JoinM α)
    (post : α → TypeStore → Prop) : Prop :=
  ∃ result next, computation store = some (result, next) ∧ TypeStore.Evolves store next ∧
    post result next

open TypeStore

namespace JoinM.Gives

variable {α β : Type} {store : TypeStore} {post : α → TypeStore → Prop}
  {rest : β → TypeStore → Prop}

theorem pure {result : α} (h : post result store) : Gives store (Pure.pure result) post :=
  ⟨result, store, rfl, refl_of Evolves store, h⟩

theorem bind {computation : JoinM α} {f : α → JoinM β} (h : Gives store computation post)
    (hf : ∀ result next, Evolves store next → post result next → Gives next (f result) rest) :
    Gives store (computation >>= f) rest := by
  obtain ⟨result, next, hrun, hevolves, hpost⟩ := h
  obtain ⟨last, after, hlast, hafter, hrest⟩ := hf result next hevolves hpost
  refine ⟨last, after, ?_, trans_of Evolves hevolves hafter, hrest⟩
  rw [JoinM.bind_eq_of_some hrun, hlast]

theorem ofTypes {computation : TypeM α} (hevolves : TypeM.Follows Evolves store computation)
    (h : post (computation store).1 (computation store).2) :
    Gives store (JoinM.ofTypes computation) post :=
  ⟨_, _, rfl, hevolves, h⟩

theorem mono {computation : JoinM α} {weak : α → TypeStore → Prop}
    (h : Gives store computation post)
    (himp : ∀ result next, TypeStore.Evolves store next → post result next → weak result next) :
    Gives store computation weak := by
  obtain ⟨result, next, hrun, hevolves, hpost⟩ := h
  exact ⟨result, next, hrun, hevolves, himp result next hevolves hpost⟩

/-- What follows a computation that needs no bound follows its result. -/
theorem ofTypes_bind {computation : TypeM α} {f : α → JoinM β}
    (hevolves : TypeM.Follows Evolves store computation)
    (h : Gives (computation store).2 (f (computation store).1) rest) :
    Gives store (JoinM.ofTypes computation >>= f) rest := by
  obtain ⟨last, after, hlast, hafter, hrest⟩ := h
  exact ⟨last, after, hlast, trans_of Evolves hevolves hafter, hrest⟩

theorem shapeOf_bind {f : Shape → JoinM β} {id : TypeId}
    (h : Gives store (f (store.shape id)) rest) :
    Gives store (JoinM.ofTypes (shapeOf id) >>= f) rest :=
  h

end JoinM.Gives

namespace TypeStore

def HasGeneral (store : TypeStore) (id : Nat) : Prop :=
  id < store.shapes.size ∧ (store.shape id).IsGeneral

theorem HasGeneral.of_evolves {store next : TypeStore} {id : Nat} (h : store.HasGeneral id)
    (hevolves : Evolves store next) : next.HasGeneral id := by
  refine ⟨hevolves.later.lt h.1, ?_⟩
  unfold Shape.IsGeneral
  rw [hevolves.later.constant h.1, hevolves.later.kind h.1]
  exact h.2

/-- One plain type will do for another: it is that type, or it is of the same kind and has nothing
that the other has not. -/
def StandsIn (store : TypeStore) (a b : Nat) : Prop :=
  a = b ∨ (store.shape a).kind = (store.shape b).kind ∧
    (Ty.hasMembers (store.shape a).kind = true → ∀ name, (store.shape b).slot? name = none →
      (store.shape a).slot? name = none)

theorem StandsIn.of_evolves {store next : TypeStore} {a b : Nat} (h : store.StandsIn a b)
    (hevolves : Evolves store next) (ha : a < store.shapes.size) (hb : b < store.shapes.size) :
    next.StandsIn a b := by
  rcases h with rfl | ⟨hkind, hslots⟩
  · exact .inl rfl
  · right
    rw [hevolves.later.kind ha, hevolves.later.kind hb]
    refine ⟨hkind, fun hhas name => ?_⟩
    rw [hevolves.later.slot?_eq_none_iff ha, hevolves.later.slot?_eq_none_iff hb]
    exact hslots hhas name

theorem hasGeneral_add {store : TypeStore} {shape : Shape} (h : shape.IsGeneral) :
    (store.add shape).HasGeneral store.shapes.size := by
  refine ⟨by simp [TypeStore.add], ?_⟩
  rwa [shape_add_self]

end TypeStore

theorem Kind.sameConstant_only? (kind : Kind) : Ty.sameConstant kind.only? kind.only? = true := by
  cases kind <;> rfl

namespace Ty

open JoinM (Gives)

variable {store : TypeStore} {first : Nat}

/-- A general type that declares only what another has stands in for it. -/
theorem standsIn_of_equivalent {a b : Nat} (ha : store.HasGeneral a) (hb : b < store.shapes.size)
    (hne : a ≠ b) (hleft : (store.shape a).kind ≠ .unknown)
    (hright : (store.shape b).kind ≠ .unknown)
    (h : (equivalent (plain a) (plain b) store).1 = true) : store.StandsIn a b := by
  obtain ⟨hkind, hnames⟩ := of_equivalent hne ha.1 hb hleft hright h
  refine .inr ⟨hkind, fun hhas name hnone => ?_⟩
  have hvalue : (store.shape a).value? name = none := by
    rw [Shape.value?, if_pos hhas, ha.2]
    cases (store.shape a).kind <;> rfl
  by_contra hsome
  refine hnames hhas name ((Shape.mem_memberNames hhas).mpr (.inl ?_)) hnone
  rw [Shape.slot?_eq_none_iff, not_and] at hsome
  exact Option.ne_none_iff_exists'.mp fun hmember => hsome hmember hvalue

/-- General types that merge become one of them, or an unknown type.  If something is known of
both, the first of them stands for the second. -/
theorem gives_merge (bound depth : Nat) {a b : Nat} (ha : store.HasGeneral a)
    (hb : store.HasGeneral b) :
    Gives store (merge (bound + 1) depth a b) fun result next =>
      ∀ merged, result = some merged → next.HasGeneral merged ∧
        ((store.shape a).kind ≠ .unknown → (store.shape b).kind ≠ .unknown →
          merged = a ∧ next.StandsIn a b) := by
  have hself : ∀ {next : TypeStore}, Evolves store next → store.StandsIn a b →
      ∀ merged, some a = some merged → next.HasGeneral merged ∧
        ((store.shape a).kind ≠ .unknown → (store.shape b).kind ≠ .unknown →
          merged = a ∧ next.StandsIn a b) := by
    intro next hnext hstands merged hmerged
    cases hmerged
    exact ⟨ha.of_evolves hnext, fun _ _ => ⟨rfl, hstands.of_evolves hnext ha.1 hb.1⟩⟩
  rw [merge]
  by_cases heq : a = b
  · rw [if_pos heq]
    exact .pure (hself (refl_of Evolves store) (.inl heq))
  rw [if_neg heq]
  refine .shapeOf_bind (.shapeOf_bind ?_)
  by_cases hunknown : (store.shape a).kind = .unknown ∨ (store.shape b).kind = .unknown
  · rw [if_pos hunknown]
    refine .ofTypes_bind (Evolves.add store _) (.pure fun merged hmerged => ?_)
    cases hmerged
    exact ⟨hasGeneral_add rfl, fun hleft hright => absurd hunknown (not_or.mpr ⟨hleft, hright⟩)⟩
  rw [if_neg hunknown]
  obtain ⟨hleft, hright⟩ := not_or.mp hunknown
  split
  · exact .pure fun merged hmerged => by cases hmerged
  have hnext := evolves_equivalent store (plain a) (plain b)
  refine .ofTypes_bind hnext ?_
  split
  · exact .pure fun merged hmerged => by cases hmerged
  rename_i hdiffers
  have hequivalent : (equivalent (plain a) (plain b) store).1 = true := by simpa using hdiffers
  have hkind := (of_equivalent heq ha.1 hb.1 hleft hright hequivalent).1
  have hconstant : sameConstant (store.shape a).constant (store.shape b).constant = true := by
    rw [ha.2, hb.2, hkind]
    exact Kind.sameConstant_only? _
  rw [if_pos hconstant]
  exact .pure (hself hnext (standsIn_of_equivalent ha hb.1 heq hleft hright hequivalent))

theorem gives_absorb (bound : Nat) {incoming : Nat} (hincoming : store.HasGeneral incoming)
    {variants : List TypeId} (hvariants : ∀ id ∈ variants, store.HasGeneral id) :
    Gives store (absorb (merge (bound + 1) 0) incoming variants) fun result next =>
      ∀ id ∈ result, next.HasGeneral id := by
  induction variants generalizing store with
  | nil =>
      refine .pure fun id hid => ?_
      rwa [List.mem_singleton.mp hid]
  | cons existing rest ih =>
      have hexisting := hvariants existing List.mem_cons_self
      have hothers : ∀ id ∈ rest, store.HasGeneral id := fun id hid =>
        hvariants id (List.mem_cons_of_mem _ hid)
      refine (gives_merge bound 0 hexisting hincoming).bind fun result next hnext hmerged => ?_
      cases result with
      | some merged =>
          refine .pure fun id hid => ?_
          rcases List.mem_cons.mp hid with rfl | hid
          · exact (hmerged id rfl).1
          · exact (hothers id hid).of_evolves hnext
      | none =>
          refine (ih (hincoming.of_evolves hnext) fun id hid =>
            (hothers id hid).of_evolves hnext).bind fun added last hlast hadded => ?_
          refine .pure fun id hid => ?_
          rcases List.mem_cons.mp hid with rfl | hid
          · exact (hexisting.of_evolves hnext).of_evolves hlast
          · exact hadded id hid

theorem gives_join (bound : Nat) {joined : Ty} {id : Nat}
    (hjoined : ∀ variant ∈ joined.variants, store.HasGeneral variant) (hid : store.HasGeneral id) :
    Gives store (join (bound + 1) joined (plain id)) fun result next =>
      ∀ variant ∈ result.variants, next.HasGeneral variant := by
  have hlooks : ∀ ty : Ty, (ty.isUnknown store).2 = store := by
    intro ty
    cases ty <;> rfl
  unfold join joinWith
  refine .ofTypes_bind (follows_isUnknown store joined) ?_
  rw [hlooks]
  refine .ofTypes_bind (follows_isUnknown store (plain id)) ?_
  rw [hlooks]
  split
  · refine .ofTypes (makes_unknown store).evolves fun variant hvariant => ?_
    rw [List.mem_singleton.mp hvariant]
    exact hasGeneral_add rfl
  · change Gives store ((absorb (merge (bound + 1) 0) id joined.variants >>= pure) >>= _) _
    rw [bind_pure]
    refine (gives_absorb bound hid hjoined).bind fun variants next _ hvariants => ?_
    refine .pure ?_
    rwa [variants_ofVariants]

/-- A known type can be taken without its constant. -/
theorem hasGeneral_widenPlain {id : Nat} {value constant : Value}
    (h : store.Shows first id value constant) :
    (widenPlain id store).2.HasGeneral (widenPlain id store).1 := by
  have hsingle : ∀ only : Value, only.isPrimitive = true → value = only →
      value.kind.only? = some only → store.HasGeneral id := by
    intro only hprimitive hvalue honly
    refine ⟨h.lt, ?_⟩
    rw [Shape.IsGeneral, h.kind, honly, h.constant,
      h.constant_eq (by rw [hvalue, hprimitive]), hvalue]
  rw [widenPlain, shapeOf_bind, h.constant, h.kind]
  cases value with
  | null => exact hsingle .null rfl rfl rfl
  | undefined => exact hsingle .undefined rfl rfl rfl
  | _ => exact hasGeneral_add rfl

theorem gives_widen (bound : Nat) {ty : Ty} {value : Value} (h : store.Settled first ty value) :
    Gives store (widen bound ty) fun result next =>
      ∃ id, result = plain id ∧ next.HasGeneral id := by
  obtain ⟨id, constant, rfl, hshows⟩ := h.shows
  unfold widen
  refine .ofTypes_bind (makes_widenPlain store id).evolves (.pure ?_)
  exact ⟨_, rfl, hasGeneral_widenPlain hshows⟩

theorem gives_foldWidened (bound : Nat) {types : List Ty} {joined : Ty}
    (hjoined : ∀ variant ∈ joined.variants, store.HasGeneral variant)
    (htypes : ∀ ty ∈ types, ∃ value, store.Settled first ty value) :
    Gives store (types.foldlM (fun joined next => do
      join (bound + 1) joined (← widen (bound + 1) next)) joined) fun _ _ => True := by
  induction types generalizing store joined with
  | nil => exact .pure trivial
  | cons ty rest ih =>
      obtain ⟨value, hsettled⟩ := htypes ty List.mem_cons_self
      have hstep : Gives store (do join (bound + 1) joined (← widen (bound + 1) ty))
          fun result next => ∀ variant ∈ result.variants, next.HasGeneral variant := by
        refine (gives_widen _ hsettled).bind fun wide next hnext hwide => ?_
        obtain ⟨id, rfl, hid⟩ := hwide
        exact gives_join bound (fun variant hmem => (hjoined variant hmem).of_evolves hnext) hid
      rw [List.foldlM_cons]
      refine hstep.bind fun result next hnext hresult => ih hresult fun other hother => ?_
      obtain ⟨found, hfound⟩ := htypes other (List.mem_cons_of_mem _ hother)
      exact ⟨found, hfound.of_evolves hnext⟩

/-- The general type of some known elements can be told with any bound. -/
theorem gives_joinWidened (bound : Nat) {types : List Ty}
    (htypes : ∀ ty ∈ types, ∃ value, store.Settled first ty value) :
    Gives store (joinWidened (bound + 1) types) fun _ _ => True := by
  cases types with
  | nil => exact .pure trivial
  | cons ty rest =>
      obtain ⟨value, hsettled⟩ := htypes ty List.mem_cons_self
      refine (gives_widen _ hsettled).bind fun start next hnext hstart => ?_
      obtain ⟨id, rfl, hid⟩ := hstart
      have hrest : ∀ other ∈ rest, ∃ value, next.Settled first other value := by
        intro other hother
        obtain ⟨found, hfound⟩ := htypes other (List.mem_cons_of_mem _ hother)
        exact ⟨found, hfound.of_evolves hnext⟩
      refine (gives_foldWidened bound (fun variant hmem => ?_) hrest).bind fun _ _ _ _ =>
        .pure trivial
      rwa [List.mem_singleton.mp hmem]

/-! ## Arrays and objects of known types -/

theorem exists_settled_of_mem {types : List Ty} {values : List Value}
    (h : List.Forall₂ (store.Settled first) types values) {ty : Ty} (hty : ty ∈ types) :
    ∃ value, store.Settled first ty value := by
  induction h with
  | nil => cases hty
  | cons hfirst _ ih =>
      rcases List.mem_cons.mp hty with rfl | hty
      · exact ⟨_, hfirst⟩
      · exact ih hty

theorem gives_array (bound : Nat) (hfirst : first ≤ store.nextTag) {elements : List Ty}
    {values : List Value} (h : List.Forall₂ (store.Settled first) elements values) (tag : Nat) :
    Gives store (array (bound + 1) elements) fun result next =>
      next.Settled first result (.array tag values) := by
  obtain ⟨constants, hconstants, huntagged⟩ :=
    mapM_constant_of_mirrors (h.imp fun _ _ hsettled => hsettled.mirrors)
  have hevolves := (makes_elementConstants store elements).evolves
  have hconstant : (elementConstants elements store).1 =
      some (.array store.nextTag constants) := by
    rw [elementConstants_apply, hconstants]
    rfl
  have hidentity : ∀ found ∈ (Value.array store.nextTag constants).identities,
      first ≤ found ∧ found < store.nextTag + 1 := by
    intro found hfound
    rcases List.mem_cons.mp hfound with rfl | hfound
    · omega
    · obtain ⟨constant, hmem, hin⟩ := Value.mem_elementIdentities.mp hfound
      obtain ⟨ty, hty, hread⟩ := exists_of_mem_mapM hconstants hmem
      obtain ⟨value, hsettled⟩ := exists_settled_of_mem h hty
      obtain ⟨id, shown, rfl, hshows⟩ := hsettled.shows
      have hsame : some shown = some constant := hshows.constant.symm.trans hread
      cases hsame
      have hbounds := hshows.identity found hin
      omega
  have htypes : ∀ ty ∈ elements, ∃ value,
    (elementConstants elements store).2.Settled first ty value := by
    intro ty hty
    obtain ⟨value, hsettled⟩ := exists_settled_of_mem h hty
    exact ⟨value, hsettled.of_evolves hevolves⟩
  unfold array
  refine .ofTypes_bind hevolves ?_
  refine (gives_joinWidened bound htypes).bind fun element next hnext _ => ?_
  refine .ofTypes (Evolves.add next _) ⟨?_, next.shapes.size, rfl, ?_⟩
  · refine mirrors_add rfl (fun hstring => by cases hstring) rfl rfl hconstant ?_
    simp only [Value.untagged, Value.untaggedElements_eq_map, huntagged]
  · refine fresh_add (fun constant hfound found hmem => ?_) fun name member hmember =>
      by cases hmember
    rw [hconstant] at hfound
    cases hfound
    have hbounds := hidentity found hmem
    have htag : store.nextTag + 1 ≤ next.nextTag := hnext.tag_le
    omega

/-- Members of known types under the names of known values. -/
def SettledMembers (store : TypeStore) (first : Nat) (members : List (String × Ty))
    (values : List (String × Value)) : Prop :=
  List.Forall₂ (fun member value => member.1 = value.1 ∧ store.Settled first member.2 value.2)
    members values

namespace SettledMembers

variable {members : List (String × Ty)} {values : List (String × Value)}

theorem of_evolves {next : TypeStore} (h : SettledMembers store first members values)
    (hevolves : Evolves store next) : SettledMembers next first members values :=
  h.imp fun _ _ hboth => ⟨hboth.1, hboth.2.of_evolves hevolves⟩

theorem insert (h : SettledMembers store first members values) {name : String} {member : Ty}
    {value : Value} (hmember : store.Settled first member value) :
    SettledMembers store first (Record.insert name member members)
      (Record.insert name value values) := by
  induction h with
  | nil => exact .cons ⟨rfl, hmember⟩ .nil
  | @cons entry other members values hboth hrest ih =>
      obtain ⟨key, old⟩ := entry
      obtain ⟨_, found⟩ := other
      obtain ⟨rfl, hsettled⟩ := hboth
      rw [Record.insert, Record.insert]
      split
      · exact .cons ⟨rfl, hmember⟩ hrest
      · split
        · exact .cons ⟨rfl, hmember⟩ (.cons ⟨rfl, hsettled⟩ hrest)
        · exact .cons ⟨rfl, hsettled⟩ ih

theorem get? (h : SettledMembers store first members values) {name : String} {member : Ty}
    (hget : Record.get? name members = some member) :
    ∃ value, Record.get? name values = some value ∧ store.Settled first member value := by
  induction h with
  | nil => cases hget
  | @cons entry other members values hboth hrest ih =>
      obtain ⟨key, old⟩ := entry
      obtain ⟨_, found⟩ := other
      obtain ⟨rfl, hsettled⟩ := hboth
      rw [Record.get?] at hget ⊢
      split at hget
      · cases hget
        rename_i hname
        exact ⟨found, if_pos hname, hsettled⟩
      · rename_i hname
        rw [if_neg hname]
        exact ih hget

/-- Known members have constants, with identities handed out from `first` on. -/
theorem memberConstants (h : SettledMembers store first members values) :
    ∃ constants, Ty.memberConstants members store = (some constants, store) ∧
      Value.untaggedMembers constants = Value.untaggedMembers values ∧
      ∀ tag ∈ Value.memberIdentities constants, first ≤ tag ∧ tag < store.nextTag := by
  induction h with
  | nil => exact ⟨[], rfl, rfl, fun tag htag => by cases htag⟩
  | @cons entry other members values hboth hrest ih =>
      obtain ⟨key, old⟩ := entry
      obtain ⟨_, found⟩ := other
      obtain ⟨rfl, hsettled⟩ := hboth
      obtain ⟨constants, hrun, huntagged, hidentity⟩ := ih
      obtain ⟨id, shown, rfl, hshows⟩ := hsettled.shows
      have hconstant : constant? (plain id) store = (some shown, store) :=
        Prod.ext hshows.constant rfl
      refine ⟨(key, shown) :: constants, ?_, ?_, fun tag htag => ?_⟩
      · rw [Ty.memberConstants, TypeM.bind_apply, hconstant, TypeM.bind_apply, hrun]
        rfl
      · rw [Value.untaggedMembers, Value.untaggedMembers, hshows.untagged, huntagged]
      · rcases List.mem_append.mp htag with hfirst | hothers
        · exact hshows.identity tag hfirst
        · exact hidentity tag hothers

end SettledMembers

theorem settled_object (hfirst : first ≤ store.nextTag) {members : List (String × Ty)}
    {values : List (String × Value)} (h : SettledMembers store first members values) (tag : Nat) :
    TypeM.Follows Evolves store (object members) ∧
      (object members store).2.Settled first (object members store).1 (.object tag values) := by
  let tagged : TypeStore := { store with nextTag := store.nextTag + 1 }
  have htagged : Evolves store tagged := .of_shape_eq (Nat.le_refl _) (Nat.le_succ _) fun _ => rfl
  have hmembers := h.of_evolves htagged
  obtain ⟨constants, hrun, huntagged, hidentity⟩ := hmembers.memberConstants
  let shape : Shape := {
    kind := .object
    mutable := true
    indexer := some ⟨.string, none⟩
    members
    constant := some (.object store.nextTag constants) }
  have hobject : object members store = (plain tagged.shapes.size, tagged.add shape) := by
    rw [object, TypeM.bind_apply]
    change (Ty.memberConstants members >>= _) tagged = _
    rw [TypeM.bind_apply, hrun]
    rfl
  have hadd := Evolves.add tagged shape
  unfold TypeM.Follows
  rw [hobject]
  refine ⟨trans_of Evolves htagged hadd, fun depth => ?_, tagged.shapes.size, rfl, ?_⟩
  · cases depth with
    | zero => trivial
    | succ depth =>
        refine ⟨tagged.shapes.size, rfl, by simp [TypeStore.add], ?_, ?_, ?_, ?_, ?_⟩
        · rw [shape_add_self]
          rfl
        · exact fun hstring => by cases hstring
        · rw [shape_add_self]
        · refine ⟨.object store.nextTag constants, by rw [shape_add_self], ?_⟩
          rw [Value.untagged, Value.untagged, huntagged]
        · intro name member hmember
          rw [shape_add_self] at hmember
          obtain ⟨value, hvalue, hsettled⟩ := hmembers.get? hmember
          exact ⟨value, hvalue, (hsettled.of_evolves hadd).mirrors depth⟩
  · refine fresh_add (fun constant hconstant found hfound => ?_) fun name member hmember => ?_
    · cases hconstant
      rcases List.mem_cons.mp hfound with rfl | hfound
      · exact ⟨hfirst, Nat.lt_succ_self _⟩
      · exact hidentity found hfound
    · obtain ⟨value, -, hsettled⟩ := hmembers.get? hmember
      exact hsettled.fresh

end Ty

end ScriptCheck
