import ScriptCheck.Proofs.Types.Closed

/-!
# Assignability without a depth

The rules of assignability refer to themselves, and where objects contain themselves they
never end.  Read without a depth they make a relation: the greatest one that obeys them.
The comparison that stops at a depth says no only to what this relation leaves out, for
which there is a finite reason; and where no chain of comparisons is longer than that
depth, it says yes only to what the relation holds.
-/

namespace ScriptCheck

open TypeStore

namespace Ty

def bothMembers (target source : TypeId) (name : String) : TypeM (Option Ty × Option Ty) := do
  let expected? ← declaredMember target name
  let actual? ← declaredMember source name
  return (expected?, actual?)

end Ty

/-- Two types of a store that are compared. -/
structure Comparison where
  store : TypeStore
  target : Ty
  source : Ty

namespace Comparison

/-! ## The rules -/

/-- Two different plain types, of both of which something is known. -/
structure Unsettled (store : TypeStore) (target source : TypeId) : Prop where
  distinct : target ≠ source
  target_known : (store.shape target).kind ≠ .unknown
  source_known : (store.shape source).kind ≠ .unknown

/-- A plain type of the kind of a target that may be written to where the target may. -/
structure Alike (store : TypeStore) (target source : TypeId) : Prop where
  kind : (store.shape target).kind = (store.shape source).kind
  mutable : (store.shape target).mutable = true → (store.shape source).mutable = true

/-- A plain type has all that a target asks for, given which of the types inside are
assignable. -/
structure Provides (R : Comparison → Prop) (store : TypeStore) (target source : TypeId) :
    Prop extends Alike store target source where
  element : ∀ {key expected}, (store.shape target).kind = .object →
    (store.shape target).indexer = some ⟨key, some expected⟩ →
      ∃ indexer, (store.shape source).indexer = some indexer ∧
        ∀ actual, indexer.element = some actual → R ⟨store, expected, actual⟩
  member : ∀ name ∈ (store.shape target).memberNames, ∃ expected actual next,
    Ty.bothMembers target source name store = ((some expected, some actual), next) ∧
      R ⟨next, expected, actual⟩

/-- The rules of assignability, given which types they find assignable inside. -/
def Obeys (R : Comparison → Prop) : Comparison → Prop
  | ⟨store, target, .union variants⟩ => ∀ variant ∈ variants, R ⟨store, target, .plain variant⟩
  | ⟨store, .union variants, .plain source⟩ =>
      ∃ variant ∈ variants, R ⟨store, .plain variant, .plain source⟩
  | ⟨store, .plain target, .plain source⟩ =>
      Unsettled store target source → Provides R store target source

/-- The greatest relation that obeys the rules. -/
def Assignable (comparison : Comparison) : Prop :=
  ∃ R : Comparison → Prop, (∀ inner, R inner → Obeys R inner) ∧ R comparison

/-- A finite reason why a source is not assignable to a target. -/
inductive Mismatch : Comparison → Prop
  | unlike {store : TypeStore} {target source : TypeId} (unsettled : Unsettled store target source)
      (unlike : ¬ Alike store target source) : Mismatch ⟨store, .plain target, .plain source⟩
  | noElement {store : TypeStore} {target source : TypeId} {key : Kind} {expected : Ty}
      (unsettled : Unsettled store target source) (object : (store.shape target).kind = .object)
      (asked : (store.shape target).indexer = some ⟨key, some expected⟩)
      (missing : (store.shape source).indexer = none) :
      Mismatch ⟨store, .plain target, .plain source⟩
  | element {store : TypeStore} {target source : TypeId} {key key' : Kind} {expected actual : Ty}
      (unsettled : Unsettled store target source) (object : (store.shape target).kind = .object)
      (asked : (store.shape target).indexer = some ⟨key, some expected⟩)
      (given : (store.shape source).indexer = some ⟨key', some actual⟩)
      (inside : Mismatch ⟨store, expected, actual⟩) :
      Mismatch ⟨store, .plain target, .plain source⟩
  | noMember {store : TypeStore} {target source : TypeId} {name : String}
      (unsettled : Unsettled store target source)
      (asked : name ∈ (store.shape target).memberNames)
      (missing : (Ty.bothMembers target source name store).1.1 = none ∨
        (Ty.bothMembers target source name store).1.2 = none) :
      Mismatch ⟨store, .plain target, .plain source⟩
  | member {store next : TypeStore} {target source : TypeId} {name : String} {expected actual : Ty}
      (unsettled : Unsettled store target source)
      (asked : name ∈ (store.shape target).memberNames)
      (found : Ty.bothMembers target source name store = ((some expected, some actual), next))
      (inside : Mismatch ⟨next, expected, actual⟩) :
      Mismatch ⟨store, .plain target, .plain source⟩
  | variant {store : TypeStore} {target : Ty} {variants : List TypeId} {variant : TypeId}
      (among : variant ∈ variants) (inside : Mismatch ⟨store, target, .plain variant⟩) :
      Mismatch ⟨store, target, .union variants⟩
  | variants {store : TypeStore} {variants : List TypeId} {source : TypeId}
      (inside : ∀ variant ∈ variants, Mismatch ⟨store, .plain variant, .plain source⟩) :
      Mismatch ⟨store, .union variants, .plain source⟩

/-- What a comparison leads to next: the variants of a union, and the elements and members
of plain types that are not told apart before. -/
inductive Leads : Comparison → Comparison → Prop
  | element {store : TypeStore} {target source : TypeId} {key key' : Kind} {expected actual : Ty}
      (unsettled : Unsettled store target source) (alike : Alike store target source)
      (object : (store.shape target).kind = .object)
      (asked : (store.shape target).indexer = some ⟨key, some expected⟩)
      (given : (store.shape source).indexer = some ⟨key', some actual⟩) :
      Leads ⟨store, .plain target, .plain source⟩ ⟨store, expected, actual⟩
  | member {store next : TypeStore} {target source : TypeId} {name : String} {expected actual : Ty}
      (unsettled : Unsettled store target source) (alike : Alike store target source)
      (asked : name ∈ (store.shape target).memberNames)
      (found : Ty.bothMembers target source name store = ((some expected, some actual), next)) :
      Leads ⟨store, .plain target, .plain source⟩ ⟨next, expected, actual⟩
  | variant {store : TypeStore} {target : Ty} {variants : List TypeId} {variant : TypeId}
      (among : variant ∈ variants) :
      Leads ⟨store, target, .union variants⟩ ⟨store, target, .plain variant⟩
  | variants {store : TypeStore} {variants : List TypeId} {variant source : TypeId}
      (among : variant ∈ variants) :
      Leads ⟨store, .union variants, .plain source⟩ ⟨store, .plain variant, .plain source⟩

/-- No chain of comparisons is longer than a depth. -/
def PathsWithin (depth : Nat) (comparison : Comparison) : Prop :=
  ∀ path : List Comparison, (comparison :: path).IsChain Leads → path.length ≤ depth

theorem PathsWithin.of_leads {depth : Nat} {comparison inner : Comparison}
    (hwithin : PathsWithin depth comparison) (hleads : Leads comparison inner) :
    ∃ less, depth = less + 1 ∧ PathsWithin less inner := by
  have hlonger : ∀ path, (inner :: path).IsChain Leads → path.length + 1 ≤ depth :=
    fun path hchain => hwithin (inner :: path) (.cons_cons hleads hchain)
  obtain ⟨less, rfl⟩ := Nat.exists_eq_add_of_le' (hlonger [] (.singleton inner))
  exact ⟨less, rfl, fun path hchain => Nat.le_of_succ_le_succ (hlonger path hchain)⟩

/-- The rules ask no more than is true of what a comparison leads to. -/
theorem Obeys.of_leads {R R' : Comparison → Prop} {comparison : Comparison}
    (hobeys : Obeys R comparison) (hinside : ∀ inner, Leads comparison inner → R inner → R' inner) :
    Obeys R' comparison := by
  obtain ⟨store, target, source | variants⟩ := comparison
  · cases target with
    | union variants =>
        obtain ⟨variant, hamong, held⟩ := hobeys
        exact ⟨variant, hamong, hinside _ (.variants hamong) held⟩
    | plain target =>
        intro hunsettled
        have hprovides := hobeys hunsettled
        refine ⟨hprovides.toAlike, fun hobject hasked => ?_, fun name hasked => ?_⟩
        · obtain ⟨⟨key, element⟩, hgiven, held⟩ := hprovides.element hobject hasked
          refine ⟨_, hgiven, ?_⟩
          rintro actual ⟨⟩
          exact hinside _ (.element hunsettled hprovides.toAlike hobject hasked hgiven)
            (held actual rfl)
        · obtain ⟨expected, actual, next, hfound, held⟩ := hprovides.member name hasked
          have hleads := Leads.member hunsettled hprovides.toAlike hasked hfound
          exact ⟨expected, actual, next, hfound, hinside _ hleads held⟩
  · exact fun variant hamong => hinside _ (.variant hamong) (hobeys variant hamong)

/-! ## Reasons against -/

/-- Where a rule is not obeyed, there is a reason or one inside. -/
theorem mismatch_of_not_obeys {R : Comparison → Prop} {comparison : Comparison}
    (hrefused : ¬ Obeys R comparison)
    (hinside : ∀ inner, Leads comparison inner → ¬ R inner → Mismatch inner) :
    Mismatch comparison := by
  obtain ⟨store, target, source | variants⟩ := comparison
  · cases target with
    | union variants =>
        refine .variants fun variant hamong => hinside _ (.variants hamong) fun held => ?_
        exact hrefused ⟨variant, hamong, held⟩
    | plain target =>
        obtain ⟨hunsettled, hrefused⟩ := Classical.not_imp.mp hrefused
        by_cases halike : Alike store target source
        swap
        · exact .unlike hunsettled halike
        by_contra hnone
        refine hrefused ⟨halike, fun {key expected} hobject hasked => ?_, fun name hasked => ?_⟩
        · cases hgiven : (store.shape source).indexer with
          | none => exact absurd (.noElement hunsettled hobject hasked hgiven) hnone
          | some indexer =>
              obtain ⟨key', element⟩ := indexer
              refine ⟨_, rfl, ?_⟩
              rintro actual ⟨⟩
              by_contra hrefused
              have hmismatch := hinside _
                (.element hunsettled halike hobject hasked hgiven) hrefused
              exact hnone (.element hunsettled hobject hasked hgiven hmismatch)
        · rcases hfound : Ty.bothMembers target source name store with
            ⟨⟨_ | expected, _ | actual⟩, next⟩
          case some.some =>
            refine ⟨expected, actual, next, rfl, ?_⟩
            by_contra hrefused
            have hmismatch := hinside _ (.member hunsettled halike hasked hfound) hrefused
            exact hnone (.member hunsettled hasked hfound hmismatch)
          all_goals exact absurd (.noMember hunsettled hasked (by simp [hfound])) hnone
  · obtain ⟨variant, hamong, hrefused⟩ :
        ∃ variant ∈ variants, ¬ R ⟨store, target, .plain variant⟩ := by
      simpa [Obeys] using hrefused
    exact .variant hamong (hinside _ (.variant hamong) hrefused)

/-- What there is a reason against is in no relation that obeys the rules. -/
theorem not_of_mismatch {comparison : Comparison} (hmismatch : Mismatch comparison)
    {R : Comparison → Prop} (hobeys : ∀ inner, R inner → Obeys R inner) : ¬ R comparison := by
  induction hmismatch with
  | unlike hunsettled hunlike => exact fun held => hunlike (hobeys _ held hunsettled).toAlike
  | noElement hunsettled hobject hasked hmissing =>
      intro held
      obtain ⟨indexer, hgiven, -⟩ := (hobeys _ held hunsettled).element hobject hasked
      simp [hgiven] at hmissing
  | element hunsettled hobject hasked hgiven _ ih =>
      intro held
      obtain ⟨indexer, hother, hnested⟩ := (hobeys _ held hunsettled).element hobject hasked
      obtain rfl := Option.some.inj (hgiven.symm.trans hother)
      exact ih (hnested _ rfl)
  | noMember hunsettled hasked hmissing =>
      intro held
      obtain ⟨expected, actual, next, hfound, -⟩ := (hobeys _ held hunsettled).member _ hasked
      simp [hfound] at hmissing
  | member hunsettled hasked hfound _ ih =>
      intro held
      obtain ⟨expected, actual, next, hother, hnested⟩ := (hobeys _ held hunsettled).member _ hasked
      rw [hfound] at hother
      cases hother
      exact ih hnested
  | variant hamong _ ih => exact fun held => ih (hobeys _ held _ hamong)
  | variants _ ih =>
      intro held
      obtain ⟨variant, hamong, hnested⟩ := hobeys _ held
      exact ih variant hamong hnested

theorem not_assignable_of_mismatch {comparison : Comparison} (hmismatch : Mismatch comparison) :
    ¬ Assignable comparison :=
  fun ⟨_, hobeys, held⟩ => not_of_mismatch hmismatch hobeys held

/-! ## What views tell -/

/-- The types that are compared are those of a store that is closed. -/
structure Stands (comparison : Comparison) : Prop where
  closed : comparison.store.Closed
  target : comparison.store.Holds comparison.target
  source : comparison.store.Holds comparison.source

/-- As far as can be told down to a depth, the source is assignable to the target. -/
def AdmitsAt (depth : Nat) (comparison : Comparison) : Prop :=
  Admits depth (comparison.store.view depth comparison.target)
    (comparison.store.view depth comparison.source)

variable {store : TypeStore} {target source : TypeId} {depth : Nat}

theorem element_viewAt (store : TypeStore) (depth : Nat) {id : TypeId}
    (hobject : (store.shape id).kind = .object) :
    (store.viewAt (depth + 1) id).element = (store.shape id).indexer.map fun indexer =>
      indexer.element.map (store.view depth) := by
  simp only [viewAt, hobject, if_true]
  rfl

/-- Reading what two types have under a name changes no type, and what is read shows what
they have there. -/
theorem reads_bothMembers (hstands : Stands ⟨store, .plain target, .plain source⟩) (name : String)
    {expected? actual? : Option Ty} {next : TypeStore}
    (hfound : Ty.bothMembers target source name store = ((expected?, actual?), next)) :
    next.Closed ∧
      (∀ expected, expected? = some expected → next.Holds expected) ∧
      (∀ actual, actual? = some actual → next.Holds actual) ∧
      ∀ depth, expected?.map (next.view depth) = (store.viewAt (depth + 1) target).slot name ∧
        actual?.map (next.view depth) = (store.viewAt (depth + 1) source).slot name := by
  have hfirst' := Ty.reads_declaredMember hstands.closed target name
  rcases hfirst : Ty.declaredMember target name store with ⟨first?, between⟩
  rw [hfirst] at hfirst'
  obtain ⟨hclosed, -, hsame⟩ := hfirst'.steady hstands.closed
  have hsecond' := Ty.reads_declaredMember hclosed source name
  rcases hsecond : Ty.declaredMember source name between with ⟨second?, after⟩
  rw [hsecond] at hsecond'
  have hwhole : Ty.bothMembers target source name store = ((first?, second?), after) := by
    rw [Ty.bothMembers, TypeM.bind_apply, hfirst, TypeM.bind_apply, hsecond, TypeM.pure_apply]
  rw [hwhole] at hfound
  cases hfound
  refine ⟨(hsecond'.steady hclosed).1, fun expected held => ?_, hsecond'.holds,
    fun depth => ⟨?_, ?_⟩⟩
  · exact hsecond'.steady.holds hclosed (hfirst'.holds expected held)
  · rw [← hfirst'.view depth]
    refine Option.map_congr fun expected held => ?_
    exact hsecond'.steady.view hclosed (hfirst'.holds expected held) depth
  · have hsource_same := congrFun (hsame (hstands.source.lt List.mem_cons_self)) (depth + 1)
    exact (hsecond'.view depth).trans
      (congrArg (fun view : View (depth + 1) => Aspect.slot view name) hsource_same)

/-- A comparison leads to types of a store that is closed. -/
theorem Stands.of_leads {comparison inner : Comparison} (hstands : Stands comparison)
    (hleads : Leads comparison inner) : Stands inner := by
  cases hleads with
  | element _ _ _ hasked hgiven =>
      exact ⟨hstands.closed, (hstands.closed _).element hasked, (hstands.closed _).element hgiven⟩
  | member _ _ _ hfound =>
      obtain ⟨hclosed, hexpected, hactual, -⟩ := reads_bothMembers hstands _ hfound
      exact ⟨hclosed, hexpected _ rfl, hactual _ rfl⟩
  | variant hamong => exact ⟨hstands.closed, hstands.target, holds_plain (hstands.source.lt hamong)⟩
  | variants hamong => exact ⟨hstands.closed, holds_plain (hstands.target.lt hamong),
        hstands.source⟩

/-- The rules for plain types are what fits in their views. -/
theorem provides_iff_fits (hstands : Stands ⟨store, .plain target, .plain source⟩) :
    Provides (AdmitsAt depth) store target source ↔
      (store.viewAt (depth + 1) target).Fits (Admits depth) (store.viewAt (depth + 1) source) := by
  constructor
  · intro hprovides
    refine ⟨hprovides.kind, hprovides.mutable, fun expected hasked => ?_,
      fun name expected hnamed hasked => ?_⟩
    · by_cases hobject : (store.shape target).kind = .object
      swap
      · simp [viewAt, hobject] at hasked
      rw [element_viewAt store depth hobject] at hasked
      obtain ⟨⟨key, element?⟩, hindexed, hshown⟩ := Option.map_eq_some_iff.mp hasked
      obtain ⟨element, rfl, rfl⟩ := Option.map_eq_some_iff.mp hshown
      obtain ⟨indexer, hgiven, held⟩ := hprovides.element hobject hindexed
      rw [element_viewAt store depth (hprovides.kind ▸ hobject), hgiven]
      refine ⟨_, rfl, fun actual hshown => ?_⟩
      obtain ⟨element', hpresent, rfl⟩ := Option.map_eq_some_iff.mp hshown
      exact held element' hpresent
    · obtain ⟨expected', actual, next, hfound, held⟩ := hprovides.member name hnamed
      obtain ⟨-, -, -, hshown⟩ := reads_bothMembers hstands name hfound
      rw [← (hshown depth).1] at hasked
      obtain rfl := Option.some.inj hasked
      exact ⟨_, (hshown depth).2.symm, held⟩
  · intro hfits
    refine ⟨⟨hfits.kind, hfits.mutable⟩, fun {key expected} hobject hasked => ?_,
      fun name hnamed => ?_⟩
    · have hobject' : (store.shape source).kind = .object := hfits.kind.symm.trans hobject
      obtain ⟨found, hgiven, held⟩ := hfits.element (store.view depth expected)
        (by simp [element_viewAt store depth hobject, hasked])
      rw [element_viewAt store depth hobject'] at hgiven
      obtain ⟨indexer, hindexed, rfl⟩ := Option.map_eq_some_iff.mp hgiven
      exact ⟨indexer, hindexed, fun actual hpresent => held _ (by simp [hpresent])⟩
    · obtain ⟨view, hasked⟩ := Option.ne_none_iff_exists'.mp
        (slot_viewAt_ne_none (hstands.closed target) hnamed depth)
      obtain ⟨other, hgiven, held⟩ := hfits.slot name view hnamed hasked
      rcases hfound : Ty.bothMembers target source name store with ⟨⟨expected?, actual?⟩, next⟩
      obtain ⟨-, -, -, hshown⟩ := reads_bothMembers hstands name hfound
      rw [← (hshown depth).1] at hasked
      rw [← (hshown depth).2] at hgiven
      obtain ⟨expected, rfl, rfl⟩ := Option.map_eq_some_iff.mp hasked
      obtain ⟨actual, rfl, rfl⟩ := Option.map_eq_some_iff.mp hgiven
      exact ⟨expected, actual, next, rfl, held⟩

/-- One level of the views is one application of the rules. -/
theorem admitsAt_succ_iff {comparison : Comparison} (hstands : Stands comparison) :
    AdmitsAt (depth + 1) comparison ↔ Obeys (AdmitsAt depth) comparison := by
  obtain ⟨store, target, source | variants⟩ := comparison
  · cases target with
    | union variants => exact admits_union_target
    | plain target =>
        have hknown : AdmitsAt (depth + 1) ⟨store, .plain target, .plain source⟩ ↔
            (store.shape target).kind = .unknown ∨ (store.shape source).kind = .unknown ∨
              Provides (AdmitsAt depth) store target source := by
          rw [provides_iff_fits hstands]
          rfl
        rw [hknown]
        constructor
        · exact fun hadmits hunsettled =>
            (hadmits.resolve_left hunsettled.target_known).resolve_left hunsettled.source_known
        · intro hobeys
          by_cases hsame : target = source
          · subst hsame
            exact hknown.mp (Admits.refl _)
          by_contra hrefused
          obtain ⟨htarget_known, hrefused⟩ := not_or.mp hrefused
          obtain ⟨hsource_known, hrefused⟩ := not_or.mp hrefused
          exact hrefused (hobeys ⟨hsame, htarget_known, hsource_known⟩)
  · exact admits_union_source

/-! ## The comparison that stops at a depth -/

/-- What is not assignable as far as can be told is so for a finite reason. -/
theorem mismatch_of_not_admitsAt {comparison : Comparison} (hstands : Stands comparison)
    (hrefused : ¬ AdmitsAt depth comparison) : Mismatch comparison := by
  induction depth generalizing comparison with
  | zero => exact absurd trivial hrefused
  | succ depth ih =>
      rw [admitsAt_succ_iff hstands] at hrefused
      exact mismatch_of_not_obeys hrefused fun inner hleads => ih (hstands.of_leads hleads)

/-- What is assignable as far as comparisons lead is assignable. -/
theorem assignable_of_pathsWithin {comparison : Comparison} (hstands : Stands comparison)
    (hwithin : PathsWithin depth comparison) (hadmits : AdmitsAt (depth + 1) comparison) :
    Assignable comparison := by
  refine ⟨fun inner => Stands inner ∧
    ∃ depth, PathsWithin depth inner ∧ AdmitsAt (depth + 1) inner, ?_, hstands, depth,
      hwithin, hadmits⟩
  rintro inner ⟨hstands, depth, hwithin, hadmits⟩
  refine ((admitsAt_succ_iff hstands).mp hadmits).of_leads fun deeper hleads hadmits => ?_
  obtain ⟨less, rfl, hinside⟩ := hwithin.of_leads hleads
  exact ⟨hstands.of_leads hleads, less, hinside, hadmits⟩

end Comparison

namespace Ty

open Comparison

/-- The comparison of two types says yes to those that are assignable when read without a
depth; where no chain of comparisons is longer than the depth it says yes to no others; and
where it says no there is a finite reason.  Every store that is obtained is closed. -/
theorem assignable_errs_permissively {store : TypeStore} {target source : Ty}
    (hclosed : store.Closed) (htarget : store.Holds target) (hsource : store.Holds source) :
    (Comparison.Assignable ⟨store, target, source⟩ → (assignable target source store).1 = true) ∧
      ((assignable target source store).1 = true →
        PathsWithin structuralDepth ⟨store, target, source⟩ →
          Comparison.Assignable ⟨store, target, source⟩) ∧
      ((assignable target source store).1 = false → Mismatch ⟨store, target, source⟩) := by
  have hstands : Stands ⟨store, target, source⟩ := ⟨hclosed, htarget, hsource⟩
  have hdecides : (assignable target source store).1 = true ↔
      AdmitsAt (structuralDepth + 1) ⟨store, target, source⟩ :=
    decides_assignableWithin (structuralDepth + 1) hclosed htarget hsource
  have hmismatch (hrefused : (assignable target source store).1 = false) :
      Mismatch ⟨store, target, source⟩ :=
    mismatch_of_not_admitsAt hstands (hdecides.not.mp (by simp [hrefused]))
  refine ⟨fun held => ?_, fun hfound hwithin => ?_, hmismatch⟩
  · by_contra hrefused
    exact not_assignable_of_mismatch (hmismatch (by simpa using hrefused)) held
  · exact assignable_of_pathsWithin hstands hwithin (hdecides.mp hfound)

/-- Comparing two objects that contain themselves goes round two pairs. -/
theorem assignable_rings : Comparison.Assignable ⟨(rings {}).2, plain 2, plain 3⟩ := by
  refine ⟨fun inner => inner = ⟨(rings {}).2, plain 2, plain 3⟩ ∨
    inner = ⟨(rings {}).2, plain 0, plain 1⟩, ?_, .inl rfl⟩
  have hnames : ((rings {}).2.shape 2).memberNames = ["self", "x"] := by decide +kernel
  have hbare : ((rings {}).2.shape 2).indexer = some ⟨.string, none⟩ := by decide +kernel
  have hself : bothMembers 2 3 "self" (rings {}).2
      = ((some (plain 2), some (plain 3)), (rings {}).2) := by rfl
  have hflags : bothMembers 2 3 "x" (rings {}).2
      = ((some (plain 0), some (plain 1)), (rings {}).2) := by rfl
  have hflag : ((rings {}).2.shape 0).kind = .boolean := by decide +kernel
  have hnone : ((rings {}).2.shape 0).memberNames = [] := by decide +kernel
  have hobjects : Alike (rings {}).2 2 3 := ⟨by decide +kernel, by decide +kernel⟩
  have hbooleans : Alike (rings {}).2 0 1 := ⟨by decide +kernel, by decide +kernel⟩
  rintro _ (rfl | rfl)
  · refine fun _ => ⟨hobjects, fun _ hasked => ?_, fun name hasked => ?_⟩
    · simp [hbare] at hasked
    · rw [hnames] at hasked
      rcases List.mem_pair.mp hasked with rfl | rfl
      · exact ⟨plain 2, plain 3, _, hself, .inl rfl⟩
      · exact ⟨plain 0, plain 1, _, hflags, .inr rfl⟩
  · refine fun _ => ⟨hbooleans, fun hobject => ?_, fun name hasked => ?_⟩
    · simp [hflag] at hobject
    · simp [hnone] at hasked

theorem pathsWithin_flags (depth : Nat) : PathsWithin depth ⟨(rings {}).2, plain 0, plain 1⟩ := by
  have hflag : ((rings {}).2.shape 0).kind = .boolean := by decide +kernel
  have hnone : ((rings {}).2.shape 0).memberNames = [] := by decide +kernel
  rintro (_ | ⟨inner, path⟩) hchain
  · exact Nat.zero_le _
  · cases (List.isChain_cons_cons.mp hchain).1 with
    | element _ _ hobject => simp [hflag] at hobject
    | member _ _ hasked => simp [hnone] at hasked

/-- The comparison goes round two objects that contain themselves, ends at what is known of
two flags and tells a flag from an object. -/
theorem assignable_errs_permissively_rings :
    (assignable (plain 2) (plain 3) (rings {}).2).1 = true ∧
      Comparison.Assignable ⟨(rings {}).2, plain 0, plain 1⟩ ∧
      Mismatch ⟨(rings {}).2, plain 0, plain 2⟩ := by
  obtain ⟨hclosed, held⟩ := closed_of_obtained obtained_rings
  have hfirst := held (plain 0) (by decide)
  have hthird := held (plain 2) (by decide)
  refine ⟨?_, ?_, ?_⟩
  · exact (assignable_errs_permissively hclosed hthird (held (plain 3) (by decide))).1
      assignable_rings
  · exact (assignable_errs_permissively hclosed hfirst (held (plain 1) (by decide))).2.1
      (by decide +kernel) (pathsWithin_flags _)
  · exact (assignable_errs_permissively hclosed hfirst hthird).2.2 (by decide +kernel)

end Ty

end ScriptCheck
