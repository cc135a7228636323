import ScriptCheck.Proofs.Types.Cover
import ScriptCheck.Proofs.Types.Obtain

/-!
# What joins lose

Reading members along a path from a join, one finds no constant that is not at the end of
that path in both of its parts, and every function that is there in either, unless the
join keeps an object in the place of another that has more to show.  It does so where
the constants of the two are alike or both missing, where objects are nested too deep,
and where a known array stands first.
-/

namespace ScriptCheck.Ty

open TypeStore
open JoinM (ofTypes Yields Below)

/-! ## Joins that keep only what they may -/

/-- A join that keeps one object for two only where `keeps` allows it. -/
def joinWhere (keeps : TypeId → TypeId → Bool) (bound : Nat) (a b : Ty) : JoinM Ty :=
  joinWith (mergeWhere keeps bound 0) a b

def joinAllWhere (keeps : TypeId → TypeId → Bool) (bound : Nat) : List Ty → JoinM (Option Ty)
  | [] => return none
  | first :: rest => return some (← rest.foldlM (joinWhere keeps bound) first)

/-- What a plain type shows under a name: its declared member, or that nothing is known. -/
def shownMember (id : TypeId) (name : String) : TypeM (Option Ty) := do
  if (← shapeOf id).kind = .unknown then return some (← unknown)
  declaredMember id name

/-- What each of some plain types shows under a name. -/
def shownMembers (name : String) : List TypeId → TypeM (List (Option Ty))
  | [] => return []
  | id :: rest => do
    let member ← shownMember id name
    return member :: (← shownMembers name rest)

def memberWhere (keeps : TypeId → TypeId → Bool) (bound : Nat) (ty : Ty) (name : String) :
    JoinM (Option Ty) := do
  match ty with
  | plain id => ofTypes (shownMember id name)
  | union variants =>
      let shown ← ofTypes (shownMembers name variants)
      if shown.all Option.isNone then return none
      guard (shown.all Option.isSome)
      joinAllWhere keeps bound (shown.filterMap id)

/-- What a type shows at the end of a path. -/
def readWhere (keeps : TypeId → TypeId → Bool) (bound : Nat) : List String → Ty → JoinM (Option Ty)
  | [], ty => return some ty
  | name :: path, ty => do
    match ← memberWhere keeps bound ty name with
    | some member => readWhere keeps bound path member
    | none => return none

/-- The type that reading members by some keys, one after the other, gives. -/
def readBy (bound : Nat) : List Ty → Ty → JoinM (Option Ty)
  | [], ty => return some ty
  | key :: keys, ty => do
    match ← member? bound ty key with
    | some member => readBy bound keys member
    | none => return none

variable {keeps : TypeId → TypeId → Bool} {bound : Nat} {store next : TypeStore}

theorem joinWhere_below (keeps : TypeId → TypeId → Bool) (bound : Nat) (a b : Ty) :
    (joinWhere keeps bound a b).Below (join bound a b) :=
  below_joinWith (mergeWhere_below keeps bound 0) a b

theorem joinAllWhere_below (types : List Ty) :
    (joinAllWhere keeps bound types).Below (joinAll bound types) := by
  cases types with
  | nil => exact .refl _
  | cons first rest =>
      exact (Below.foldlM (joinWhere_below keeps bound) first).bind fun _ => .refl _

/-! ### Reading by keys -/

/-- A key names a member. -/
def Names (store : TypeStore) (key : Ty) (name : String) : Prop :=
  key.keyName? store = (some name, store)

theorem Names.of_later {key : Ty} {name : String} (h : Names store key name)
    (hlater : Later store next) : Names next key name := by
  cases key with
  | union variants => cases h
  | plain id =>
      unfold Names at h ⊢
      have hconstant? : ∀ store : TypeStore, (plain id).constant? store =
          ((store.shape id).constant, store) := fun _ => rfl
      rw [keyName?, TypeM.bind_apply, hconstant?] at h ⊢
      have hid : id < store.shapes.size := by
        by_contra hge
        rw [shape_of_size_le (Nat.le_of_not_lt hge)] at h
        cases h
      rw [hlater.constant hid]
      cases hconstant : (store.shape id).constant with
      | none =>
          rw [hconstant] at h
          cases h
      | some constant =>
          rw [hconstant] at h
          cases constant <;> cases h <;> rfl

theorem shownMember_of_unknown {id : TypeId} (h : (store.shape id).kind = .unknown)
    (name : String) : shownMember id name store = (some (unknown store).1, (unknown store).2) := by
  rw [shownMember, TypeM.bind_apply]
  change (if (store.shape id).kind = .unknown then _ else _ : TypeM (Option Ty)) store = _
  rw [if_pos h]
  rfl

theorem shownMember_of_known {id : TypeId} (h : (store.shape id).kind ≠ .unknown)
    (name : String) : shownMember id name store = declaredMember id name store := by
  rw [shownMember, TypeM.bind_apply]
  change (if (store.shape id).kind = .unknown then _ else _ : TypeM (Option Ty)) store = _
  rw [if_neg h]

theorem looks_shownMember (store : TypeStore) (id : TypeId) (name : String) :
    TypeM.Follows Looks store (shownMember id name) := by
  unfold TypeM.Follows
  by_cases hunknown : (store.shape id).kind = .unknown
  · rw [shownMember_of_unknown hunknown]
    exact Makes.looks (makes_unknown store)
  · rw [shownMember_of_known hunknown]
    exact looks_declaredMember store id name

theorem plainMember_of_shown {id : TypeId} {key : Ty} {name : String}
    (hkey : Names store key name) {member : Ty}
    (h : shownMember id name store = (some member, next)) :
    plainMember id key store = (some member, next) := by
  rw [plainMember, TypeM.bind_apply]
  change (if (store.shape id).kind = .unknown then _ else _ : TypeM (Option Ty)) store = _
  split
  · rename_i hunknown
    rwa [shownMember_of_unknown hunknown] at h
  · rename_i hknown
    rw [shownMember_of_known hknown] at h
    have hown : ownMember id name store = (some member, next) := by
      rw [ownMember, TypeM.bind_apply, h]
      rfl
    have hnamed : namedMember id name store = (some member, next) := by
      rw [namedMember, TypeM.bind_apply, hown]
      rfl
    rw [TypeM.bind_apply, hkey]
    change (namedMember id name >>= _ : TypeM (Option Ty)) store = _
    rw [TypeM.bind_apply, hnamed]
    rfl

theorem variantMembers_of_shown {key : Ty} {name : String} {variants : List TypeId}
    (hkey : Names store key name) {shown : List (Option Ty)}
    (hshown : shown.all Option.isSome = true)
    (h : shownMembers name variants store = (shown, next)) :
    variantMembers key variants store = (shown.filterMap id, next) := by
  induction variants generalizing store shown next with
  | nil =>
      cases h
      rfl
  | cons first rest ih =>
      rcases hfirst : shownMember first name store with ⟨member?, read⟩
      have hlooks := looks_shownMember store first name
      unfold TypeM.Follows at hlooks
      rw [hfirst] at hlooks
      rcases hrest : shownMembers name rest read with ⟨members, last⟩
      rw [shownMembers, TypeM.bind_apply, hfirst, TypeM.bind_apply, hrest] at h
      cases h
      obtain ⟨hsome, hall⟩ := Bool.and_eq_true_iff.mp hshown
      obtain ⟨member, rfl⟩ := Option.isSome_iff_exists.mp hsome
      have hmore := ih (hkey.of_later hlooks.later) hall hrest
      rw [variantMembers, TypeM.bind_apply, plainMember_of_shown hkey hfirst]
      change (variantMembers key rest >>= fun members => pure (member :: members)) read = _
      rw [TypeM.bind_apply, hmore]
      rfl

theorem member?_of_memberWhere {ty key : Ty} {name : String} (hkey : Names store key name)
    {found : Ty} (h : memberWhere keeps bound ty name store = some (some found, next)) :
    member? bound ty key store = some (some found, next) := by
  cases ty with
  | plain id =>
      have hshown : shownMember id name store = (some found, next) := Option.some.inj h
      exact congrArg some (plainMember_of_shown hkey hshown)
  | union variants =>
      rcases hshown : shownMembers name variants store with ⟨shown, read⟩
      have hread : ofTypes (shownMembers name variants) store = some (shown, read) :=
        congrArg some hshown
      rw [memberWhere, JoinM.bind_eq_of_some hread] at h
      split at h
      · cases h
      · cases hall : shown.all Option.isSome with
        | false =>
            rw [hall] at h
            cases h
        | true =>
            rw [hall] at h
            have hvariants : ofTypes (variantMembers key variants) store =
                some (shown.filterMap id, read) :=
              congrArg some (variantMembers_of_shown hkey hall hshown)
            rw [member?, JoinM.bind_eq_of_some hvariants]
            exact joinAllWhere_below _ read _ h

/-! ## What a join shows -/

/-- What is shown of a plain type under a name stands for what it has there. -/
def Shows (final : TypeStore) (along : List String → Prop) (store : TypeStore) (name : String)
    (id : TypeId) : Option Ty → Prop
  | some member => TypeStore.RetainsUnder final along store name member id
  | none => Later store final → ∀ path sight, final.SeesAt (name :: path) id sight →
    sight = .missing

theorem Shows.of_later {final : TypeStore} {along : List String → Prop} {name : String}
    {id : TypeId} {shown : Option Ty} (h : Shows final along store name id shown)
    (hlater : Later store next) : Shows final along next name id shown := by
  cases shown with
  | none => exact fun hfinal => h (hlater.trans hfinal)
  | some member => exact fun hfinal => h (hlater.trans hfinal)

section Retains

variable {final : TypeStore} {along : List String → Prop}

variable (hretains : (mergeWhere keeps bound 0).Retains final along)

include hretains

theorem yields_foldlM_joinWhere (hlawful : store.Lawful) {start : Ty} (hstart : store.Has start)
    {types : List Ty} (htypes : ∀ ty ∈ types, store.Has ty) :
    (types.foldlM (joinWhere keeps bound) start).Yields store fun joined next =>
      next.Has joined ∧ ∀ ty ∈ start :: types, ∀ id ∈ ty.variants,
        TypeStore.Retains final along next joined id := by
  induction types generalizing start store with
  | nil =>
      refine Yields.pure hlawful ⟨hstart, fun ty hty id hid => .self ?_⟩
      rwa [← List.mem_singleton.mp hty]
  | cons second rest ih =>
      rw [List.foldlM_cons]
      apply (yields_joinWith hretains hlawful hstart (htypes second List.mem_cons_self)).bind
      rintro joined next hnext hlater ⟨hhas, hboth⟩
      have hrest : ∀ ty ∈ rest, next.Has ty := fun ty hty =>
        (htypes ty (List.mem_cons_of_mem _ hty)).of_later hlater
      apply (ih hnext hhas hrest).mono
      rintro whole last hlater' ⟨hwhole, hall⟩
      refine ⟨hwhole, fun ty hty id hid => ?_⟩
      have hjoined := hall joined List.mem_cons_self
      rcases List.mem_cons.mp hty with rfl | hty
      · exact (hboth id (List.mem_append_left _ hid)).widen hlater' hjoined
      · rcases List.mem_cons.mp hty with rfl | hty
        · exact (hboth id (List.mem_append_right _ hid)).widen hlater' hjoined
        · exact hall ty (List.mem_cons_of_mem _ hty) id hid

theorem yields_joinAllWhere (hlawful : store.Lawful) {types : List Ty} (hne : types ≠ [])
    (htypes : ∀ ty ∈ types, store.Has ty) :
    (joinAllWhere keeps bound types).Yields store fun result next => ∃ joined,
      result = some joined ∧ next.Has joined ∧ ∀ ty ∈ types, ∀ id ∈ ty.variants,
        TypeStore.Retains final along next joined id := by
  cases types with
  | nil => exact absurd rfl hne
  | cons first rest =>
      apply (yields_foldlM_joinWhere hretains hlawful (htypes first List.mem_cons_self)
        fun ty hty => htypes ty (List.mem_cons_of_mem _ hty)).bind
      intro joined next hnext _ hjoined
      exact Yields.pure hnext ⟨joined, rfl, hjoined⟩

omit hretains in
theorem yields_shownMember (final : TypeStore) (along : List String → Prop)
    (hlawful : store.Lawful) {id : Nat} (hid : id < store.shapes.size) (name : String) :
    (ofTypes (shownMember id name)).Yields store fun shown next =>
      (∀ member ∈ shown, next.Has member) ∧ Shows final along next name id shown := by
  by_cases hkind : (store.shape id).kind = .unknown
  · apply Yields.ofTypes hlawful (looks_shownMember store id name)
    rw [shownMember_of_unknown hkind]
    have hlt : store.shapes.size < (unknown store).2.shapes.size := by
      change _ < (store.shapes.push _).size
      simp
    have hunknown : ((unknown store).2.shape store.shapes.size).kind = .unknown := by
      change ((store.add _).shape _).kind = _
      rw [shape_add_self]
    constructor
    · intro member hmember
      cases hmember
      exact has_plain hlt
    · intro hfinal _ path _ sight _
      refine ⟨.unknown, sees_plain.mpr (seesAt_of_unknown ?_), trivial⟩
      rw [hfinal.kind hlt, hunknown]
  · intro shown next hrun
    have hread : ofTypes (declaredMember id name) store = some (shown, next) := by
      rw [← hrun]
      exact congrArg some (shownMember_of_known hkind name).symm
    obtain ⟨hnext, hlater, -⟩ :=
      Yields.looks hlawful (looks_declaredMember store id name) shown next hread
    refine ⟨hnext, hlater, ?_⟩
    by_cases hslot : (store.shape id).slot? name = none
    · have hpair : (none, store) = (shown, next) := by
        rw [← declaredMember_of_none hslot]
        exact Option.some.inj hread
      cases hpair
      refine ⟨fun _ hmember => (nomatch hmember), fun hfinal path sight hsight => ?_⟩
      have hkind' : (final.shape id).kind ≠ .unknown := by rwa [hfinal.kind hid]
      exact (seesAt_of_none hkind' ((hfinal.slot?_eq_none_iff hid name).mpr hslot)).mp hsight
    · obtain ⟨-, -, member, rfl, hhas, hunder⟩ :=
        yields_declaredMember final along hlawful hkind hslot _ _ hread
      refine ⟨fun other hother => ?_, hunder⟩
      cases hother
      exact hhas

omit hretains in
theorem yields_shownMembers (final : TypeStore) (along : List String → Prop)
    (hlawful : store.Lawful) {variants : List TypeId} (hvariants : store.Has (union variants))
    (name : String) :
    (ofTypes (shownMembers name variants)).Yields store fun shown next =>
      (∀ member, some member ∈ shown → next.Has member) ∧
        ∀ id ∈ variants, ∃ member ∈ shown, Shows final along next name id member := by
  induction variants generalizing store with
  | nil => exact Yields.pure hlawful ⟨fun _ h => (nomatch h), fun _ h => (nomatch h)⟩
  | cons first rest ih =>
      obtain ⟨hfirst, hrest⟩ := has_union_cons.mp hvariants
      apply Yields.ofTypes_bind
      apply (yields_shownMember final along hlawful hfirst.1 name).bind
      rintro member read hread hlater ⟨hhas, hshows⟩
      apply Yields.ofTypes_bind
      apply (ih hread (hrest.of_later hlater)).bind
      rintro members last hlast hlater' ⟨hhas', hshows'⟩
      refine Yields.pure hlast ⟨fun found hfound => ?_, fun id hid => ?_⟩
      · rcases List.mem_cons.mp hfound with heq | hfound
        · exact (hhas found heq.symm).of_later hlater'
        · exact hhas' found hfound
      · rcases List.mem_cons.mp hid with rfl | hid
        · exact ⟨member, List.mem_cons_self, hshows.of_later hlater'⟩
        · obtain ⟨found, hfound, hmore⟩ := hshows' id hid
          exact ⟨found, List.mem_cons_of_mem _ hfound, hmore⟩

/-- What a type shows under a name stands for what its variants have there. -/
theorem yields_memberWhere (hlawful : store.Lawful) {ty : Ty} (hty : store.Has ty)
    (name : String) :
    (memberWhere keeps bound ty name).Yields store fun shown next =>
      (∀ member ∈ shown, next.Has member) ∧
        ∀ id ∈ ty.variants, Shows final along next name id shown := by
  cases ty with
  | plain id =>
      apply (yields_shownMember final along hlawful (hty.lt List.mem_cons_self) name).mono
      rintro shown next _ ⟨hhas, hshows⟩
      refine ⟨hhas, fun other hother => ?_⟩
      rwa [List.mem_singleton.mp hother]
  | union variants =>
      apply (yields_shownMembers final along hlawful hty name).bind
      rintro shown next hnext _ ⟨hhas, hshows⟩
      split
      case isTrue hnone =>
        refine Yields.pure hnext ⟨fun _ hmember => (nomatch hmember), fun id hid => ?_⟩
        obtain ⟨member, hmember, hshow⟩ := hshows id hid
        rwa [Option.isNone_iff_eq_none.mp (List.all_eq_true.mp hnone member hmember)] at hshow
      case isFalse hnone =>
        refine Yields.guard_bind fun hsome => ?_
        have hmem : ∀ member, member ∈ shown.filterMap id ↔ some member ∈ shown := by simp
        have hne : shown.filterMap id ≠ [] := by
          intro hnil
          apply hnone
          apply List.all_eq_true.mpr
          intro member hmember
          exact Option.isNone_iff_eq_none.mpr (List.filterMap_eq_nil_iff.mp hnil member hmember)
        apply (yields_joinAllWhere hretains hnext hne
          fun member hmember => hhas member ((hmem member).mp hmember)).mono
        rintro _ last hlater ⟨joined, rfl, hhas', hretains'⟩
        refine ⟨fun other hother => by cases hother; exact hhas', fun id hid => ?_⟩
        obtain ⟨member?, hmember, hshow⟩ := hshows id hid
        obtain ⟨member, rfl⟩ := Option.isSome_iff_exists.mp (List.all_eq_true.mp hsome _ hmember)
        exact RetainsUnder.widen hshow hlater (hretains' member ((hmem member).mpr hmember))

/-- What a type shows at the end of a path stands for what is seen there. -/
theorem yields_readWhere (htail : ∀ name path, along (name :: path) → along path)
    (hlawful : store.Lawful) {ty : Ty} (hty : store.Has ty) {path : List String}
    (hpath : along path) :
    (readWhere keeps bound path ty).Yields store fun shown next =>
      (∀ found ∈ shown, next.Has found) ∧ (Later next final → final.Lawful → ∀ sight,
        final.Sees path ty sight → match shown with
          | some found => ∃ id ∈ found.variants, (final.shape id).sight.Covers sight
          | none => sight.CallsNothing) := by
  induction path generalizing store ty with
  | nil =>
      refine Yields.pure hlawful ⟨fun found hfound => ?_, fun _ _ sight hsight => ?_⟩
      · cases hfound
        exact hty
      · obtain ⟨id, hid, rfl⟩ := hsight
        exact ⟨id, hid, .refl _⟩
  | cons name path ih =>
      have hrest := htail name path hpath
      apply (yields_memberWhere hretains hlawful hty name).bind
      rintro member? next hnext _ ⟨hhas, hshows⟩
      cases member? with
      | none =>
          refine Yields.pure hnext ⟨fun _ hfound => (nomatch hfound), ?_⟩
          rintro hfinal - sight ⟨id, hid, hsees⟩
          rw [hshows id hid hfinal path sight hsees]
          trivial
      | some member =>
          apply (ih hnext (hhas member rfl) hrest).mono
          rintro shown last hlater ⟨hhas', hend⟩
          refine ⟨hhas', ?_⟩
          rintro hfinal hlawful' sight ⟨id, hid, hsees⟩
          obtain ⟨other, hother, hcovers⟩ :=
            hshows id hid (hlater.trans hfinal) hlawful' path hrest sight hsees
          have hend := hend hfinal hlawful' other hother
          cases shown with
          | none => exact hend.of_covers hcovers
          | some found =>
              obtain ⟨variant, hvariant, hcovers'⟩ := hend
              exact ⟨variant, hvariant, hcovers'.trans hcovers⟩

end Retains

/-- Keys lead to what a type shows at the end of the path that they name. -/
theorem readBy_of_readWhere (hlawful : store.Lawful) {ty : Ty} (hty : store.Has ty)
    {keys : List Ty} {path : List String} (hkeys : List.Forall₂ (Names store) keys path)
    {found : Ty} (h : readWhere keeps bound path ty store = some (some found, next)) :
    readBy bound keys ty store = some (some found, next) := by
  induction path generalizing keys store ty with
  | nil =>
      cases hkeys
      exact h
  | cons name path ih =>
      obtain _ | ⟨hkey, hkeys⟩ := hkeys
      obtain ⟨⟨member?, read⟩, hmember, hrest⟩ := Option.bind_eq_some_iff.mp h
      cases member? with
      | none => cases hrest
      | some member =>
          have hretains : (mergeWhere keeps bound 0).Retains store fun _ => False :=
            mergeWhere_retains (fun _ _ h => h) (fun _ _ _ _ h => h.elim) bound 0
          obtain ⟨hread, hlater, hhas, -⟩ :=
            yields_memberWhere hretains hlawful hty name _ _ hmember
          rw [readBy, JoinM.bind_eq_of_some (member?_of_memberWhere hkey hmember)]
          exact ih hread (hhas member rfl) (hkeys.imp fun _ _ h => h.of_later hlater) hrest

/-! ## What is not lost -/

/-- A type is constant only with the value of a sight, and calls what is called there,
unless nothing is known of it. -/
structure Preserves (store : TypeStore) (ty : Ty) (sight : Sight) : Prop where
  constant : ∀ value, (ty.constant? store).1 = some value →
    ∃ other callable, sight = .known (some other) callable ∧ value.Alike other
  callable : ∀ constant called, sight = .known constant (some called) →
    (ty.isUnknown store).1 = true ∨
      ∃ id ∈ ty.variants, ∃ other, (store.shape id).callable = some other ∧ other.tag = called.tag

theorem preserves_of_covers (hlawful : store.Lawful) {ty : Ty} (hty : store.Has ty) {id : TypeId}
    (hid : id ∈ ty.variants) {sight : Sight} (h : (store.shape id).sight.Covers sight) :
    Preserves store ty sight := by
  by_cases hkind : (store.shape id).kind = .unknown
  · cases ty with
    | union variants => exact absurd hkind (hty.known rfl hid)
    | plain other =>
        cases List.mem_singleton.mp hid
        constructor
        · intro value hvalue
          have hnone := hlawful.shape.unknown hkind
          rw [show (store.shape id).constant = some value from hvalue] at hnone
          cases hnone
        · intro _ _ _
          left
          change decide (some (store.shape id).kind = some .unknown) = true
          rw [hkind]
          rfl
  · rw [sight_of_known hkind] at h
    cases sight with
    | missing => exact h.elim
    | unknown => exact h.elim
    | known constant callable =>
        constructor
        · intro value hvalue
          cases ty with
          | union variants => cases hvalue
          | plain other =>
              cases List.mem_singleton.mp hid
              obtain ⟨other, rfl, halike⟩ := h.1 value hvalue
              exact ⟨other, callable, rfl, halike⟩
        · intro _ called hcalled
          cases hcalled
          exact .inr ⟨id, hid, h.2 called rfl⟩

/-- What is seen of two types along a path is covered by what is seen of their join, if
this holds inside where the join keeps one object for two. -/
theorem join_covers {last : TypeStore} {a b joined : Ty} {path : List String}
    (hlawful : store.Lawful) (ha : store.Has a) (hb : store.Has b)
    (hjoin : joinWhere keeps bound a b store = some (joined, next)) (hlater : Later next last)
    (hlast : last.Lawful)
    (hkeeps : ∀ x y, keeps x y = true → ∀ rest, rest <:+ path → rest ≠ [] →
      last.Covers rest (plain x) (plain y))
    {sight : Sight} (hsight : store.Sees path a sight ∨ store.Sees path b sight) :
    ∃ other, last.Sees path joined other ∧ other.Covers sight := by
  have htail : ∀ name rest, (name :: rest) <:+ path → rest <:+ path :=
    fun name rest h => (List.suffix_cons name rest).trans h
  have hretains : (mergeWhere keeps bound 0).Retains last (· <:+ path) :=
    mergeWhere_retains htail hkeeps bound 0
  obtain ⟨hnext, hbefore, hhas, hparts⟩ := yields_joinWith hretains hlawful ha hb _ _ hjoin
  have hpart : ∀ id ∈ a.variants ++ b.variants, store.SeesAt path id sight →
      id < store.shapes.size → ∃ other, last.Sees path joined other ∧ other.Covers sight := by
    intro id hid hseen hlt
    obtain ⟨other, hother, hcovers⟩ := (hbefore.trans hlater).seesAt hlawful hlast hlt hseen
    obtain ⟨whole, hwhole, hcovers'⟩ := hparts id hid hlater hlast path (List.suffix_refl path)
      other (sees_plain.mpr hother)
    exact ⟨whole, hwhole, hcovers'.trans hcovers⟩
  rcases hsight with ⟨id, hid, hseen⟩ | ⟨id, hid, hseen⟩
  · exact hpart id (List.mem_append_left _ hid) hseen (ha.lt hid)
  · exact hpart id (List.mem_append_right _ hid) hseen (hb.lt hid)

/-- The first of two plain types stands for both: they are assignable both ways and have
the same constant, or none. -/
structure Kept (store : TypeStore) (x y : TypeId) : Prop where
  ne : x ≠ y
  left : (store.shape x).kind ≠ .unknown
  right : (store.shape y).kind ≠ .unknown
  calls : callDifferently (store.shape x) (store.shape y) = false
  equivalent : (equivalent (plain x) (plain y) store).1 = true
  constant : sameConstant (store.shape x).constant (store.shape y).constant = true

theorem isUnknown_plain {id : TypeId} (h : (store.shape id).kind ≠ .unknown) :
    ((plain id).isUnknown store).1 = false := by
  change decide (some (store.shape id).kind = some .unknown) = false
  simp [h]

/-- The join of two such types is the first, whatever the second has inside. -/
theorem join_of_kept {x y : TypeId} (h : Kept store x y) (bound : Nat) :
    join (bound + 1) (plain x) (plain y) store =
      some (plain x, (equivalent (plain x) (plain y) store).2) := by
  have hequivalent : ofTypes (equivalent (plain x) (plain y)) store =
      some (true, (equivalent (plain x) (plain y) store).2) :=
    congrArg some (Prod.ext h.equivalent rfl)
  have hmerge : merge (bound + 1) 0 x y store =
      some (some x, (equivalent (plain x) (plain y) store).2) := by
    have hshape : ∀ id, ofTypes (shapeOf id) store = some (store.shape id, store) := fun _ => rfl
    rw [merge_succ, mergeStep, if_neg h.ne, JoinM.bind_eq_of_some (hshape x),
      JoinM.bind_eq_of_some (hshape y), if_neg (not_or.mpr ⟨h.left, h.right⟩),
      if_neg (Bool.eq_false_iff.mp h.calls), JoinM.bind_eq_of_some hequivalent, h.constant]
    simp only [guard_or_true]
    rfl
  have hfold : (plain y).variants.foldlM (fun variants incoming =>
      absorb (merge (bound + 1) 0) incoming variants) (plain x).variants store =
        some ([x], (equivalent (plain x) (plain y) store).2) :=
    JoinM.bind_eq_of_some (JoinM.bind_eq_of_some hmerge)
  rw [join, joinWith_of_known (isUnknown_plain h.left) (isUnknown_plain h.right)]
  exact JoinM.bind_eq_of_some hfold

theorem eq_left_of_kept {x y : TypeId} {joined : Ty} (h : Kept store x y)
    (hjoin : join bound (plain x) (plain y) store = some (joined, next)) : joined = plain x := by
  cases bound with
  | zero =>
      rw [join, joinWith_of_known (isUnknown_plain h.left) (isUnknown_plain h.right)] at hjoin
      cases hjoin
  | succ bound =>
      rw [join_of_kept h] at hjoin
      cases hjoin
      rfl

/-- Nothing that is seen of two types along a path is lost in what is read there from
their join, if nothing is lost where the join keeps one object for two.  Two objects that
are kept as one are joined to the first, so this is then all there is to read. -/
theorem join_preserves {last : TypeStore} {a b joined : Ty} {found : Option Ty}
    {path : List String} (hlawful : store.Lawful) (ha : store.Has a) (hb : store.Has b)
    (hjoin : joinWhere keeps bound a b store = some (joined, next))
    (hread : readWhere keeps bound path joined next = some (found, last))
    (hkeeps : ∀ x y, keeps x y = true → ∀ rest, rest <:+ path → rest ≠ [] →
      last.Covers rest (plain x) (plain y)) :
    join bound a b store = some (joined, next) ∧
      (∀ keys ty, List.Forall₂ (Names next) keys path → found = some ty →
        readBy bound keys joined next = some (some ty, last)) ∧
      (∀ sight, store.Sees path a sight ∨ store.Sees path b sight →
        (∀ ty, found = some ty → Preserves last ty sight) ∧
          (found = none → sight.CallsNothing)) ∧
      ∀ x y, a = plain x → b = plain y → Kept store x y → joined = plain x := by
  have htail : ∀ name rest, (name :: rest) <:+ path → rest <:+ path :=
    fun name rest h => (List.suffix_cons name rest).trans h
  have hretains : (mergeWhere keeps bound 0).Retains last (· <:+ path) :=
    mergeWhere_retains htail hkeeps bound 0
  obtain ⟨hnext, -, hhas, -⟩ := yields_joinWith hretains hlawful ha hb _ _ hjoin
  obtain ⟨hlast, hlater, hhas', hend⟩ :=
    yields_readWhere hretains htail hnext hhas (List.suffix_refl path) _ _ hread
  have hjoin' : join bound a b store = some (joined, next) :=
    joinWhere_below keeps bound a b store _ hjoin
  refine ⟨hjoin', ?_, fun sight hsight => ?_, ?_⟩
  · rintro keys ty hkeys rfl
    exact readBy_of_readWhere hnext hhas hkeys hread
  · obtain ⟨whole, hwhole, hcovers⟩ := join_covers hlawful ha hb hjoin hlater hlast hkeeps hsight
    have hshown := hend (.refl last) hlast whole hwhole
    constructor
    · rintro ty rfl
      obtain ⟨id, hid, hcovers'⟩ := hshown
      exact preserves_of_covers hlast (hhas' ty rfl) hid (hcovers'.trans hcovers)
    · rintro rfl
      exact hshown.of_covers hcovers
  · rintro x y rfl rfl hkept
    exact eq_left_of_kept hkept hjoin'

/-- Two objects with a known member each. -/
def flags : TypeM (Ty × Ty) := do
  let on ← ofValue (.bool true)
  let off ← ofValue (.bool false)
  return (← object [("x", on)], ← object [("x", off)])

theorem obtained_flags : Obtained (Operation.Checked fun _ => False) (flags {}).2
    [plain 0, plain 1, plain 2, plain 3] := by
  have hon : Obtained (Operation.Checked fun _ => False) _ _ :=
    .step .start (.known (.bool true)) 0 nofun trivial rfl
  have hoff := hon.step (.known (.bool false)) 0 nofun trivial rfl
  have hfirst := hoff.step (.object [("x", plain 0)]) 0 (by decide) trivial rfl
  exact hfirst.step (.object [("x", plain 1)]) 0 (by decide) trivial rfl

theorem join_preserves_flags : ∃ joined next found last,
    joinWhere (fun _ _ => false) 2 (plain 2) (plain 3) (flags {}).2 = some (joined, next) ∧
      readWhere (fun _ _ => false) 2 ["x"] joined next = some (some found, last) ∧
      Preserves last found (.known (some (.bool true)) none) ∧
      Preserves last found (.known (some (.bool false)) none) := by
  obtain ⟨hlawful, hhas⟩ := lawful_of_obtained obtained_flags
  obtain ⟨joined, next, found, last, hjoin, hread⟩ : ∃ joined next found last,
      joinWhere (fun _ _ => false) 2 (plain 2) (plain 3) (flags {}).2 = some (joined, next) ∧
        readWhere (fun _ _ => false) 2 ["x"] joined next = some (some found, last) :=
    ⟨_, _, _, _, rfl, rfl⟩
  have hkeeps : ∀ x y : TypeId, false = true → ∀ rest, rest <:+ ["x"] → rest ≠ [] →
      last.Covers rest (plain x) (plain y) := fun _ _ h => (nomatch h)
  obtain ⟨-, -, hsights, -⟩ := join_preserves hlawful (hhas (plain 2) (by decide))
    (hhas (plain 3) (by decide)) hjoin hread hkeeps
  refine ⟨joined, next, found, last, hjoin, hread, ?_, ?_⟩
  · exact (hsights _ (.inl ⟨2, List.mem_cons_self, 0, List.mem_cons_self, rfl⟩)).1 _ rfl
  · exact (hsights _ (.inr ⟨3, List.mem_cons_self, 1, List.mem_cons_self, rfl⟩)).1 _ rfl

/-- Two keys, and two objects with a function and a known member each. -/
def handlers : TypeM (List Ty) := do
  let h ← ofValue (.string "h")
  let x ← ofValue (.string "x")
  let f ← function ⟨0, 1, none⟩
  let g ← function ⟨1, 2, none⟩
  let on ← ofValue (.bool true)
  let off ← ofValue (.bool false)
  return [h, x, ← object [("h", f), ("x", on)], ← object [("h", g), ("x", off)]]

example : (handlers {}).1 = [plain 1, plain 3, plain 10, plain 11] := by rfl

/-- The first object stands for both: it still has its known member, and the function of
the second is gone. -/
theorem join_handlers : ∃ next, join 1 (plain 10) (plain 11) (handlers {}).2 =
    some (plain 10, next) ∧
    (∃ last, readBy 1 [plain 3] (plain 10) next = some (some (plain 8), last) ∧
      (handlers {}).2.Sees ["x"] (plain 11) (.known (some (.bool false)) none) ∧
      ¬ Preserves last (plain 8) (.known (some (.bool false)) none)) ∧
    ∃ last, readBy 1 [plain 1] (plain 10) next = some (some (plain 5), last) ∧
      (handlers {}).2.Sees ["h"] (plain 11) (.known none (some ⟨1, 2, none⟩)) ∧
      ¬ Preserves last (plain 5) (.known none (some ⟨1, 2, none⟩)) := by
  refine ⟨_, rfl, ⟨_, rfl, ⟨11, List.mem_cons_self, 9, List.mem_cons_self, rfl⟩, ?_⟩,
    ⟨_, rfl, ⟨11, List.mem_cons_self, 7, List.mem_cons_self, rfl⟩, ?_⟩⟩
  · intro h
    obtain ⟨other, _, heq, halike⟩ := h.constant (.bool true) rfl
    cases heq
    cases halike.eq_of_bool
  · intro h
    rcases h.callable none ⟨1, 2, none⟩ rfl with hunknown | ⟨id, hid, other, hother, htag⟩
    · cases hunknown
    · cases List.mem_singleton.mp hid
      cases hother
      cases htag

end ScriptCheck.Ty
