import ScriptCheck.Proofs.Types.Names
import ScriptCheck.Proofs.Types.Provide

/-!
# Joins in canonical form

Two plain types merge into one of the sort of the first, which is the first or new, and only if
the second is of that sort too; those that do not merge are apart.  So the variants of a join are
apart, and they are of the sorts of what was joined, no more and no fewer.  In particular a join
calls what its parts call, and at most one of the variants of a type is of a given primitive kind.
-/

namespace ScriptCheck

open TypeStore

/-- A computation keeps the store orderly and gives a type in canonical form, if any result. -/
abbrev JoinM.Provides (shared : Nat → Prop) (store : TypeStore) (computation : JoinM Ty) : Prop :=
  computation.Leads (Keeps shared) store fun ty next => next.Canonical ty

abbrev JoinM.MayProvide (shared : Nat → Prop) (store : TypeStore)
    (computation : JoinM (Option Ty)) : Prop :=
  computation.Leads (Keeps shared) store fun found next => ∀ ty, found = some ty → next.Canonical ty

variable {shared : Nat → Prop}

namespace TypeStore

/-- The sorts of values that some plain types describe. -/
def natures (store : TypeStore) (variants : List TypeId) : List (Kind × Option Nat) :=
  variants.map fun id => (store.shape id).nature

/-- The functions that a type calls, which are told apart by their tags. -/
def calls (store : TypeStore) (ty : Ty) : List Nat :=
  ty.variants.filterMap fun id => (store.shape id).callable.map Callable.tag

variable {made : Callable → Prop} {store next : TypeStore}

theorem natures_cons (store : TypeStore) (id : TypeId) (rest : List TypeId) :
    store.natures (id :: rest) = (store.shape id).nature :: store.natures rest :=
  rfl

theorem mem_calls_iff {ty : Ty} {tag : Nat} :
    tag ∈ store.calls ty ↔ ∃ kind, (kind, some tag) ∈ store.natures ty.variants := by
  unfold calls natures
  rw [List.mem_filterMap]
  constructor
  · rintro ⟨id, hid, htag⟩
    exact ⟨_, List.mem_map.mpr ⟨id, hid, Prod.ext rfl htag⟩⟩
  · rintro ⟨kind, hmem⟩
    obtain ⟨id, hid, hnature⟩ := List.mem_map.mp hmem
    exact ⟨id, hid, congrArg Prod.snd hnature⟩

theorem Grows.natures (h : Grows made store next) {variants : List TypeId}
    (hlt : ∀ id ∈ variants, id < store.shapes.size) :
    next.natures variants = store.natures variants :=
  List.map_congr_left fun id hid => h.nature (hlt id hid)

theorem assorted_cons {id : TypeId} {rest : List TypeId} :
    store.Assorted (id :: rest) ↔ id < store.shapes.size ∧ (store.shape id).kind ≠ .unknown ∧
      (∀ other ∈ rest, store.Apart id other) ∧ store.Assorted rest := by
  constructor
  · rintro ⟨hlt, hknown, hapart⟩
    obtain ⟨hltId, hltRest⟩ := List.forall_mem_cons.mp hlt
    obtain ⟨hknownId, hknownRest⟩ := List.forall_mem_cons.mp hknown
    obtain ⟨hfirst, hrest⟩ := List.pairwise_cons.mp hapart
    exact ⟨hltId, hknownId, hfirst, hltRest, hknownRest, hrest⟩
  · rintro ⟨hlt, hknown, hfirst, hrest⟩
    exact ⟨List.forall_mem_cons.mpr ⟨hlt, hrest.lt⟩, List.forall_mem_cons.mpr ⟨hknown, hrest.known⟩,
      List.pairwise_cons.mpr ⟨hfirst, hrest.apart⟩⟩

theorem Assorted.replace {existing merged : TypeId} {rest : List TypeId}
    (h : store.Assorted (existing :: rest)) (hgrows : Grows made store next)
    (hlt : merged < next.shapes.size)
    (hkind : (next.shape merged).kind = (store.shape existing).kind)
    (hmerged : merged = existing ∨ store.shapes.size ≤ merged) :
    next.Assorted (merged :: rest) := by
  obtain ⟨-, hknown, hfirst, hrest⟩ := assorted_cons.mp h
  refine assorted_cons.mpr ⟨hlt, hkind ▸ hknown, fun other hother => ?_, hrest.of_grows hgrows⟩
  have hotherLt := hrest.lt other hother
  constructor
  · rintro rfl
    exact hmerged.elim (hfirst _ hother).ne.symm (Nat.not_le_of_lt hotherLt)
  · intro hprimitive
    rw [hkind] at hprimitive ⊢
    rw [hgrows.kind hotherLt]
    exact (hfirst other hother).kind hprimitive

/-- A variant stays in front of others that are of the sorts of those that were there and of one
that it is apart from. -/
theorem Assorted.keep {existing incoming : TypeId} {rest others : List TypeId}
    (h : store.Assorted (existing :: rest)) (hgrows : Grows made store next)
    (hothers : next.Assorted others) (hincoming : store.Apart existing incoming)
    (hsource : ∀ id ∈ others, id ∈ rest ∨ id = incoming ∨ store.shapes.size ≤ id)
    (hnatures : ∀ nature ∈ next.natures others,
      nature ∈ store.natures rest ∨ nature = (store.shape incoming).nature) :
    next.Assorted (existing :: others) := by
  obtain ⟨hlt, hknown, hfirst, hrest⟩ := assorted_cons.mp h
  refine assorted_cons.mpr ⟨Nat.lt_of_lt_of_le hlt hgrows.size_le, ?_, fun other hother => ?_,
    hothers⟩
  · rwa [hgrows.kind hlt]
  constructor
  · rcases hsource other hother with hold | rfl | hnew
    · exact (hfirst other hold).ne
    · exact hincoming.ne
    · exact Nat.ne_of_lt (Nat.lt_of_lt_of_le hlt hnew)
  · intro hprimitive
    rw [hgrows.kind hlt] at hprimitive ⊢
    rcases hnatures _ (List.mem_map_of_mem hother) with hold | hnew
    · obtain ⟨old, hmem, hnature⟩ := List.mem_map.mp hold
      rw [← Shape.kind_of_nature hnature]
      exact (hfirst old hmem).kind hprimitive
    · rw [Shape.kind_of_nature hnew]
      exact hincoming.kind hprimitive

/-- Something is known of every variant of a type of which something is known. -/
theorem Canonical.assorted {ty : Ty} (h : store.Canonical ty)
    (hknown : (ty.isUnknown store).1 = false) : store.Assorted ty.variants := by
  cases ty with
  | union variants => exact h.2
  | plain id =>
      have hkind : (store.shape id).kind ≠ .unknown := by
        intro heq
        have htrue : ((Ty.plain id).isUnknown store).1 = true := by
          change decide (some (store.shape id).kind = some Kind.unknown) = true
          rw [heq]
          rfl
        rw [htrue] at hknown
        cases hknown
      refine ⟨h.lt, fun other hother => ?_, List.pairwise_singleton _ _⟩
      rwa [List.mem_singleton.mp hother]

theorem Canonical.variants_ne_nil {ty : Ty} (h : store.Canonical ty) : ty.variants ≠ [] := by
  cases ty with
  | plain id => exact List.cons_ne_nil _ _
  | union variants =>
      rintro hnil
      have hlength := h.1
      rw [show variants = [] from hnil] at hlength
      cases hlength

end TypeStore

namespace Ty

open TypeM (Follows)
open JoinM (ofTypes Leads Provides MayProvide)

variable {store : TypeStore}

/-- What comes of merging two plain types: the first or a new type, of the sort of both, unless
they are apart. -/
structure Sorts (store next : TypeStore) (a b : TypeId) (result : Option TypeId) : Prop where
  lt : ∀ merged, result = some merged → merged < next.shapes.size
  first_or_new : ∀ merged, result = some merged → merged = a ∨ store.shapes.size ≤ merged
  nature : (store.shape a).kind ≠ .unknown → (store.shape b).kind ≠ .unknown →
    ∀ merged, result = some merged → (next.shape merged).nature = (store.shape a).nature ∧
      (store.shape b).nature = (store.shape a).nature
  apart : result = none → store.Apart a b

theorem sorts_merged {next : TypeStore} {a b merged : Nat} (hlt : merged < next.shapes.size)
    (hmerged : merged = a ∨ store.shapes.size ≤ merged)
    (hnature : (store.shape a).kind ≠ .unknown → (store.shape b).kind ≠ .unknown →
      (next.shape merged).nature = (store.shape a).nature ∧
        (store.shape b).nature = (store.shape a).nature) :
    Sorts store next a b (some merged) where
  lt _ hsome := Option.some.inj hsome ▸ hlt
  first_or_new _ hsome := Option.some.inj hsome ▸ hmerged
  nature hleft hright _ hsome := Option.some.inj hsome ▸ hnature hleft hright
  apart hnone := absurd hnone (Option.some_ne_none merged)

theorem sorts_none {next : TypeStore} {a b : Nat} (hapart : store.Apart a b) :
    Sorts store next a b none where
  lt merged hmerged := absurd hmerged.symm (Option.some_ne_none merged)
  first_or_new merged hmerged := absurd hmerged.symm (Option.some_ne_none merged)
  nature _ _ merged hmerged := absurd hmerged.symm (Option.some_ne_none merged)
  apart _ := hapart

/-- A way to merge plain types keeps sorts apart. -/
def Merger.Sorts (shared : Nat → Prop) (merger : Merger) : Prop :=
  ∀ {store : TypeStore} {a b : Nat}, store.Orderly → a < store.shapes.size →
    b < store.shapes.size → (merger a b).Leads (Keeps shared) store fun result next =>
      Ty.Sorts store next a b result

variable {merger deeper restart : Merger}

/-! ## Joining variants -/

/-- One more variant is merged into those there are, or put last.  Whatever is not one of these is
new. -/
theorem leads_absorb (h : merger.Sorts shared) (horderly : store.Orderly) {incoming : Nat}
    (hincoming : store.Knows incoming) {variants : List TypeId}
    (hvariants : store.Assorted variants) :
    (absorb merger incoming variants).Leads (Keeps shared) store fun result next =>
      next.Assorted result ∧
      (∀ id ∈ result, id ∈ variants ∨ id = incoming ∨ store.shapes.size ≤ id) ∧
      ∀ nature, nature ∈ next.natures result ↔
        nature ∈ store.natures variants ∨ nature = (store.shape incoming).nature := by
  induction variants generalizing store with
  | nil =>
      refine .pure ⟨assorted_cons.mpr ⟨hincoming.1, hincoming.2, nofun, hvariants⟩,
        fun id hid => .inr (.inl (List.mem_singleton.mp hid)), fun nature => ?_⟩
      simp [natures]
  | cons existing rest ih =>
      obtain ⟨hexisting, hexistingKnown, -, hrest⟩ := assorted_cons.mp hvariants
      apply (h horderly hexisting hincoming.1).bind
      intro merged? next hnext hsorts
      obtain ⟨hnextOrderly, hgrows, -⟩ := hnext horderly
      cases merged? with
      | some merged =>
          obtain ⟨hnature, hsame⟩ := hsorts.nature hexistingKnown hincoming.2 merged rfl
          have hmerged := hsorts.first_or_new merged rfl
          refine .pure ⟨hvariants.replace hgrows (hsorts.lt merged rfl)
            (Shape.kind_of_nature hnature) hmerged, fun id hid => ?_, fun nature => ?_⟩
          · rcases List.mem_cons.mp hid with rfl | hid
            · rcases hmerged with rfl | hnew
              · exact .inl List.mem_cons_self
              · exact .inr (.inr hnew)
            · exact .inl (List.mem_cons_of_mem _ hid)
          · have hnatures : next.natures (merged :: rest) = store.natures (existing :: rest) :=
              congrArg₂ List.cons hnature (hgrows.natures hrest.lt)
            rw [hnatures, hsame]
            exact ⟨.inl, fun hor => hor.elim id fun heq => heq ▸ List.mem_cons_self⟩
      | none =>
          apply (ih hnextOrderly (hincoming.of_grows hgrows) (hrest.of_grows hgrows)).bind
          rintro others last hlast ⟨hothers, hsource, hnatures⟩
          obtain ⟨-, hgrows', -⟩ := hlast hnextOrderly
          have hall := hgrows.trans hgrows'
          rw [hgrows.natures hrest.lt, hgrows.nature hincoming.1] at hnatures
          have hsource : ∀ id ∈ others, id ∈ rest ∨ id = incoming ∨ store.shapes.size ≤ id :=
            fun id hid => (hsource id hid).imp_right (.imp_right (Nat.le_trans hgrows.size_le))
          refine .pure ⟨hvariants.keep hall hothers (hsorts.apart rfl) hsource
            fun nature => (hnatures nature).mp, fun id hid => ?_, fun nature => ?_⟩
          · rcases List.mem_cons.mp hid with rfl | hid
            · exact .inl List.mem_cons_self
            · exact (hsource id hid).imp_left (List.mem_cons_of_mem _)
          · rw [natures_cons, natures_cons, List.mem_cons, List.mem_cons, hnatures,
              hall.nature hexisting, or_assoc]

/-- Variant after variant is merged into those there are, or put last. -/
theorem leads_absorbAll (h : merger.Sorts shared) (horderly : store.Orderly)
    {incoming : List TypeId}
    (hincoming : store.Assorted incoming) {variants : List TypeId}
    (hvariants : store.Assorted variants) :
    (incoming.foldlM (fun variants next => absorb merger next variants) variants).Leads
    (Keeps shared) store
      fun result next => next.Assorted result ∧ ∀ nature, nature ∈ next.natures result ↔
        nature ∈ store.natures variants ∨ nature ∈ store.natures incoming := by
  induction incoming generalizing store variants with
  | nil => exact .pure ⟨hvariants, fun nature => (or_iff_left List.not_mem_nil).symm⟩
  | cons first rest ih =>
      obtain ⟨hfirst, hknown, -, hrest⟩ := assorted_cons.mp hincoming
      rw [List.foldlM_cons]
      apply (leads_absorb h horderly ⟨hfirst, hknown⟩ hvariants).bind
      rintro joined next hnext ⟨hjoined, -, hnatures⟩
      obtain ⟨hnextOrderly, hgrows, -⟩ := hnext horderly
      refine (ih hnextOrderly (hrest.of_grows hgrows) hjoined).mono ?_
      rintro result last - ⟨hresult, hnatures'⟩
      refine ⟨hresult, fun nature => ?_⟩
      rw [hnatures', hnatures, hgrows.natures hrest.lt, natures_cons, List.mem_cons, or_assoc]

theorem leads_isUnknown (ty : Ty) :
    (ofTypes ty.isUnknown).Leads (Keeps shared) store fun found next =>
      next = store ∧ found = (ty.isUnknown store).1 :=
  .ofTypes ⟨(follows_isUnknown store ty : Follows (Keeps shared) store _), by cases ty <;> rfl, rfl⟩

theorem leads_joinWith (h : merger.Sorts shared) (horderly : store.Orderly) {a b : Ty}
    (ha : store.Canonical a) (hb : store.Canonical b) :
    (joinWith merger a b).Leads (Keeps shared) store fun joined next => next.Canonical joined ∧
      ((a.isUnknown store).1 = false → (b.isUnknown store).1 = false →
        ∀ nature, nature ∈ next.natures joined.variants ↔
          nature ∈ store.natures a.variants ∨ nature ∈ store.natures b.variants) := by
  apply (leads_isUnknown a).bind
  rintro left next - ⟨rfl, rfl⟩
  apply (leads_isUnknown b).bind
  rintro right next - ⟨rfl, rfl⟩
  split
  · rename_i hunknown
    refine Leads.mono (.ofTypes provides_unknown) fun joined last _ hjoined => ⟨hjoined, ?_⟩
    intro hleft hright
    rw [hleft, hright] at hunknown
    cases hunknown
  · rename_i hknown
    rw [Bool.not_eq_true, Bool.or_eq_false_iff] at hknown
    have hassorted := ha.assorted hknown.1
    apply (leads_absorbAll h horderly (hb.assorted hknown.2) hassorted).bind
    rintro result last - ⟨hresult, hnatures⟩
    have hne : result ≠ [] := by
      rintro rfl
      obtain ⟨first, hfirst⟩ := List.exists_mem_of_ne_nil _ ha.variants_ne_nil
      exact List.not_mem_nil ((hnatures _).mpr (.inl (List.mem_map_of_mem hfirst)))
    refine .pure ⟨canonical_ofVariants hresult hne, fun _ _ => ?_⟩
    rw [variants_ofVariants]
    exact hnatures

/-! ## Joining members -/

theorem provides_joinMemberWith (hdeeper : deeper.Sorts shared) (hrestart : restart.Sorts shared)
    (horderly : store.Orderly) {x y : Ty} (hx : store.Canonical x) (hy : store.Canonical y) :
    Provides shared store (joinMemberWith deeper restart x y) := by
  have hjoin : ∀ {next : TypeStore}, Keeps shared store next →
      Provides shared next (joinWith restart x y) := fun hnext =>
    (leads_joinWith hrestart (hnext.orderly horderly) (hnext.canonical horderly hx)
      (hnext.canonical horderly hy)).mono fun _ _ _ h => h.1
  cases x with
  | union variants => exact hjoin (refl_of (Keeps shared) store)
  | plain x =>
      cases y with
      | union variants => exact hjoin (refl_of (Keeps shared) store)
      | plain y =>
          apply (hdeeper horderly hx hy).bind
          intro merged? next hnext hsorts
          cases merged? with
          | some merged => exact .pure (hsorts.lt merged rfl)
          | none => exact hjoin hnext

theorem leads_joinMembers {join : Ty → Ty → JoinM Ty}
    (hjoin : ∀ {store : TypeStore} {x y : Ty}, store.Orderly → store.Canonical x →
      store.Canonical y → Provides shared store (join x y))
    (horderly : store.Orderly) (a b : TypeId) (names : List String)
    {record : List (String × Ty)} (hrecord : store.CanonicalMembers record) :
    (joinMembers join a b names record).Leads (Keeps shared) store fun members next =>
      next.CanonicalMembers members := by
  induction names generalizing store record with
  | nil => exact .pure hrecord
  | cons name rest ih =>
      apply Leads.bind (.ofTypes (mayProvide_declaredMember horderly a name))
      intro left? next hnext hleft
      have hnextOrderly := hnext.orderly horderly
      apply Leads.bind (.ofTypes (mayProvide_declaredMember hnextOrderly b name))
      intro right? after hafter hright
      have hkeeps := trans_of (Keeps shared) hnext hafter
      have hafterOrderly := hkeeps.orderly horderly
      have hgo : ∀ {joined : Ty} {last : TypeStore}, Keeps shared after last →
        last.Canonical joined →
          (joinMembers join a b rest (Record.insert name joined record)).Leads (Keeps shared) last
            fun members next => next.CanonicalMembers members := by
        intro joined last hlast hjoined
        have hrecord' : last.CanonicalMembers record := fun hmember =>
          (trans_of (Keeps shared) hkeeps hlast).canonical horderly (hrecord hmember)
        exact ih (hlast.orderly hafterOrderly) (hrecord'.insert hjoined)
      cases left? with
      | none =>
          cases right? with
          | none => exact ih hafterOrderly fun hmember =>
                hkeeps.canonical horderly (hrecord hmember)
          | some right => exact hgo (refl_of (Keeps shared) after) (hright right rfl)
      | some left =>
          have hcanonical := hafter.canonical hnextOrderly (hleft left rfl)
          cases right? with
          | none => exact hgo (refl_of (Keeps shared) after) hcanonical
          | some right =>
              exact (hjoin hafterOrderly hcanonical (hright right rfl)).bind
                fun joined last hlast hjoined => hgo hlast hjoined

/-! ## Merging -/

theorem nature_of_not_callDifferently (horderly : store.Orderly) {a b : TypeId}
    (hkind : (store.shape a).kind = (store.shape b).kind)
    (hsame : callDifferently (store.shape a) (store.shape b) = false) :
    (store.shape b).nature = (store.shape a).nature := by
  refine Prod.ext hkind.symm ?_
  change (store.shape b).callable.map Callable.tag = (store.shape a).callable.map Callable.tag
  have hleft := (horderly a).lawful.callable
  have hright := (horderly b).lawful.callable
  rw [← hkind, hleft] at hright
  unfold callDifferently at hsame
  cases hf : (store.shape a).callable with
  | none =>
      rw [hf] at hright
      rw [Option.not_isSome_iff_eq_none.mp (hright.not.mp nofun)]
  | some f =>
      rw [hf] at hright hsame
      obtain ⟨g, hg⟩ := Option.isSome_iff_exists.mp (hright.mp rfl)
      rw [hg] at hsame
      rw [hg]
      exact congrArg some (by simpa using hsame : f.tag = g.tag).symm

theorem apart_of_not_merged (horderly : store.Orderly) {a b : Nat} (hne : a ≠ b)
    (h : callDifferently (store.shape a) (store.shape b) = true ∨
      (equivalent (plain a) (plain b) store).1 = false) : store.Apart a b := by
  refine ⟨hne, fun hprimitive hkind => ?_⟩
  rcases h with hcall | hequivalent
  · unfold callDifferently at hcall
    split at hcall
    · rename_i hcallable _
      have hfunction := (horderly a).lawful.callable.mpr (by rw [hcallable]; rfl)
      rw [hfunction] at hprimitive
      cases hprimitive
    · cases hcall
  · rw [equivalent_of_primitive horderly hkind hprimitive] at hequivalent
    cases hequivalent

theorem leads_newUnknown :
    (alloc { kind := .unknown, mutable := true, lenient := true }).Leads (Keeps shared) store
      fun id next => id < next.shapes.size :=
  provides_unknown

theorem keeps_equivalent {a b : Ty} {found : Bool} {after : TypeStore}
    (hcompared : equivalent a b store = (found, after)) : Keeps shared store after := by
  have hkeeps : Follows (Keeps shared) store (equivalent a b) :=
    follows_equivalent store keeps_declaredMember a b
  unfold Follows at hkeeps
  rwa [hcompared] at hkeeps

theorem sorts_of_equivalent (horderly : store.Orderly) {a b merged : Nat} {after last : TypeStore}
    (ha : a < store.shapes.size) (hb : b < store.shapes.size) (hcomparable : Comparable store a b)
    (hcompared : equivalent (plain a) (plain b) store = (true, after))
    (hlt : merged < last.shapes.size) (hmerged : merged = a ∨ store.shapes.size ≤ merged)
    (houtline : (last.shape merged).outline = (store.shape a).outline) :
    Sorts store last a b (some merged) := by
  have hkind : (store.shape a).kind = (store.shape b).kind :=
    (of_equivalent hcomparable.ne ha hb hcomparable.left hcomparable.right
      (congrArg Prod.fst hcompared)).1
  exact sorts_merged hlt hmerged fun _ _ => ⟨Shape.nature_of_outline houtline,
    nature_of_not_callDifferently horderly hkind hcomparable.calls⟩

/-- Types whose constants differ are no functions, which have none. -/
theorem kind_ne_function_of_constants (horderly : store.Orderly) {a b : TypeId}
    (hkind : (store.shape a).kind = (store.shape b).kind)
    (hconstant : sameConstant (store.shape a).constant (store.shape b).constant = false) :
    (store.shape a).kind ≠ .function := by
  intro hfunction
  have hnone : ∀ {id : TypeId}, (store.shape id).kind = .function →
      (store.shape id).constant = none := by
    intro id hid
    cases hvalue : (store.shape id).constant with
    | none => rfl
    | some value => exact absurd hid ((horderly id).kind_ne_function hvalue)
  rw [hnone hfunction, hnone (hkind ▸ hfunction)] at hconstant
  cases hconstant

/-- An object with the outline of another and with members in canonical form can be added. -/
theorem keeps_add_joined (horderly : store.Orderly) {a : Nat} {last : TypeStore}
    (hkeeps : Keeps shared store last) (hprimitive : (store.shape a).kind.isPrimitive = false)
    (hknown : (store.shape a).kind ≠ .unknown) (hfunction : (store.shape a).kind ≠ .function)
    {members : List (String × Ty)} (hmembers : last.CanonicalMembers members) :
    Keeps shared last (last.add { store.shape a with constant := none, members }) := by
  have hold := (horderly a).of_grows (hkeeps.grows horderly)
  have hcarries : last.Carries { store.shape a with constant := none, members } := by
    refine ⟨hold.lawful.general (fun heq => ?_) (fun heq => ?_) fun hnone => ?_,
      fun hconstant => absurd hconstant.symm (Option.some_ne_none _), hmembers, hold.element⟩
    · rw [heq] at hprimitive
      cases hprimitive
    · rw [heq] at hprimitive
      cases hprimitive
    · rw [Kind.hasMembers_of_not_primitive hprimitive hknown] at hnone
      cases hnone
  exact keeps_add_data hcarries hfunction

/-- A level of a merge keeps sorts apart if the levels inside do. -/
theorem sorts_mergeStep (hdeeper : deeper.Sorts shared) (hrestart : restart.Sorts shared)
    (keeps : TypeId → TypeId → Bool) (tooDeep : Bool) :
    (mergeStep keeps tooDeep deeper restart).Sorts shared := by
  intro store a b horderly ha hb result next hrun
  cases mergeStep_ends hrun with
  | same heq =>
      subst heq
      exact ⟨refl_of (Keeps shared) store, sorts_merged ha (.inl rfl) fun _ _ => ⟨rfl, rfl⟩⟩
  | unknown heither =>
      obtain ⟨hkeeps, hlt⟩ := @leads_newUnknown shared store
      exact ⟨hkeeps, sorts_merged hlt (.inr (Nat.le_refl _)) fun hleft hright =>
        (heither.elim hleft hright).elim⟩
  | apart hne hcalls =>
      exact ⟨refl_of (Keeps shared) store,
        sorts_none (apart_of_not_merged horderly hne (.inl hcalls))⟩
  | unlike hcomparable hcompared =>
      refine ⟨keeps_equivalent hcompared,
        sorts_none (apart_of_not_merged horderly hcomparable.ne (.inr ?_))⟩
      rw [hcompared]
  | kept hcomparable hcompared =>
      have hkeeps : Keeps shared _ _ := keeps_equivalent hcompared
      obtain ⟨-, hgrows, -⟩ := hkeeps horderly
      exact ⟨hkeeps, sorts_of_equivalent horderly ha hb hcomparable hcompared
        (Nat.lt_of_lt_of_le ha hgrows.size_le) (.inl rfl) (hgrows.outline ha)⟩
  | widened hcomparable hcompared _ _ _ hwidening =>
      have hkeeps : Keeps shared _ _ := keeps_equivalent hcompared
      obtain ⟨hafter, hgrows, -⟩ := hkeeps horderly
      obtain ⟨hkeeps', hlt, houtline, hwide⟩ := Leads.ofTypes (leads_widenPlain hafter
        (Nat.lt_of_lt_of_le ha hgrows.size_le)) _ _ (congrArg some hwidening)
      exact ⟨trans_of (Keeps shared) hkeeps hkeeps', sorts_of_equivalent horderly ha hb hcomparable
        hcompared hlt (hwide.imp_right (Nat.le_trans hgrows.size_le))
          (houtline.trans (hgrows.outline ha))⟩
  | @joined after last members hcomparable hcompared hconstant hobject _ hjoining =>
      have hkeeps : Keeps shared _ _ := keeps_equivalent hcompared
      have hempty : after.CanonicalMembers [] := fun hmember =>
        absurd (Record.mem_of_get? hmember) List.not_mem_nil
      obtain ⟨hkeeps', hmembers⟩ := leads_joinMembers
        (fun horderly hx hy => provides_joinMemberWith hdeeper hrestart horderly hx hy)
        (hkeeps.orderly horderly) a b _ hempty members last hjoining
      have hwhole := trans_of (Keeps shared) hkeeps hkeeps'
      have hkind := (of_equivalent hcomparable.ne ha hb hcomparable.left hcomparable.right
        (congrArg Prod.fst hcompared)).1
      have hfunction := kind_ne_function_of_constants horderly hkind hconstant
      refine ⟨trans_of (Keeps shared) hwhole (keeps_add_joined horderly hwhole hobject.1
        hcomparable.left hfunction hmembers), sorts_of_equivalent horderly ha hb hcomparable
        hcompared ?_ (.inr (hwhole.grows horderly).size_le) ?_⟩
      · simp [TypeStore.add]
      · rw [shape_add_self]
        rfl

theorem sorts_merge (bound depth : Nat) : Merger.Sorts shared (merge bound depth) := by
  induction bound generalizing depth with
  | zero =>
      intro store a b _ _ _
      rw [merge]
      exact .fail
  | succ bound ih =>
      intro store a b
      rw [merge_succ]
      exact sorts_mergeStep (ih (depth + 1)) (ih 0) _ _

theorem leads_join (bound : Nat) (horderly : store.Orderly) {a b : Ty} (ha : store.Canonical a)
    (hb : store.Canonical b) :
    (join bound a b).Leads (Keeps shared) store fun joined next => next.Canonical joined ∧
      ((a.isUnknown store).1 = false → (b.isUnknown store).1 = false →
        ∀ nature, nature ∈ next.natures joined.variants ↔
          nature ∈ store.natures a.variants ∨ nature ∈ store.natures b.variants) :=
  leads_joinWith (sorts_merge bound 0) horderly ha hb

theorem provides_join (bound : Nat) (horderly : store.Orderly) {a b : Ty}
    (ha : store.Canonical a) (hb : store.Canonical b) : Provides shared store (join bound a b) :=
  (leads_join bound horderly ha hb).mono fun _ _ _ h => h.1

theorem mayProvide_joinAll (bound : Nat) (horderly : store.Orderly) {types : List Ty}
    (htypes : ∀ ty ∈ types, store.Canonical ty) : MayProvide shared store
    (joinAll bound types) := by
  cases types with
  | nil => exact .pure nofun
  | cons first rest =>
      refine Leads.bind (.foldlM (htypes first List.mem_cons_self)
        fun joined ty hty next hnext hjoined => ?_)
        fun joined next _ hjoined => .pure fun ty hty => Option.some.inj hty ▸ hjoined
      exact provides_join bound (hnext.orderly horderly) hjoined
        (hnext.canonical horderly (htypes ty (List.mem_cons_of_mem _ hty)))

theorem mayProvide_member? (bound : Nat) (horderly : store.Orderly) (ty key : Ty) :
    MayProvide shared store (member? bound ty key) := by
  cases ty with
  | plain id => exact .ofTypes (mayProvide_plainMember horderly id key)
  | union variants =>
      apply Leads.bind (.ofTypes (leads_variantMembers horderly key variants))
      exact fun _ _ hnext hmembers => mayProvide_joinAll bound (hnext.orderly horderly) hmembers

theorem leads_widen_plain (horderly : store.Orderly) {id : Nat} (hid : id < store.shapes.size) :
    (ofTypes (widenPlain id)).Leads (Keeps shared) store fun widened next =>
      next.Canonical (plain widened) :=
  .ofTypes ((leads_widenPlain horderly hid).mono fun _ _ _ h => h.1)

theorem provides_widen (bound : Nat) (horderly : store.Orderly) {ty : Ty}
    (hty : store.Canonical ty) : Provides shared store (widen bound ty) := by
  cases ty with
  | plain id => exact (leads_widen_plain horderly hty).bind fun _ _ _ h => .pure h
  | union variants =>
      cases variants with
      | nil => exact .ofTypes provides_unknown
      | cons first rest =>
          have hlt := hty.2.lt
          apply (leads_widen_plain horderly (hlt first List.mem_cons_self)).bind
          intro start next hnext hstart
          obtain ⟨hnextOrderly, hgrows, -⟩ := hnext horderly
          refine .foldlM hstart fun joined id hid last hlast hjoined => ?_
          obtain ⟨hlastOrderly, hgrows', -⟩ := hlast hnextOrderly
          have hid' := Nat.lt_of_lt_of_le (hlt id (List.mem_cons_of_mem _ hid))
            (hgrows.trans hgrows').size_le
          apply (leads_widen_plain hlastOrderly hid').bind
          intro widened after hafter hwidened
          exact provides_join bound (hafter.orderly hlastOrderly)
            (hafter.canonical hlastOrderly hjoined)
            hwidened

theorem mayProvide_joinWidened (bound : Nat) (horderly : store.Orderly) {types : List Ty}
    (htypes : ∀ ty ∈ types, store.Canonical ty) : MayProvide shared store
    (joinWidened bound types) := by
  cases types with
  | nil => exact .pure nofun
  | cons first rest =>
      apply (provides_widen bound horderly (htypes first List.mem_cons_self)).bind
      intro start next hnext hstart
      have hnextOrderly := hnext.orderly horderly
      refine Leads.bind (.foldlM hstart fun joined ty hty last hlast hjoined => ?_)
        fun joined last _ hjoined => .pure fun ty hty => Option.some.inj hty ▸ hjoined
      have hlastOrderly := hlast.orderly hnextOrderly
      have hty' := (trans_of (Keeps shared) hnext hlast).canonical horderly
        (htypes ty (List.mem_cons_of_mem _ hty))
      apply (provides_widen bound hlastOrderly hty').bind
      intro widened after hafter hwidened
      exact provides_join bound (hafter.orderly hlastOrderly)
        (hafter.canonical hlastOrderly hjoined)
        hwidened

theorem provides_array (bound : Nat) (horderly : store.Orderly) {elements : List Ty}
    (helements : ∀ ty ∈ elements, store.Canonical ty) :
    Provides shared store (array bound elements) := by
  apply Leads.bind (.ofTypes (leads_elementConstants elements))
  intro constant next hnext hconstant
  have hnextOrderly := hnext.orderly horderly
  apply (mayProvide_joinWidened bound hnextOrderly fun ty hty =>
    hnext.canonical horderly (helements ty hty)).bind
  intro element last _ helement
  exact .ofTypes (provides_arrayOf hconstant helement)

theorem provides_narrow (bound : Nat) (horderly : store.Orderly) {ty : Ty}
    (hty : store.Canonical ty) (kind : Kind) : Provides shared store (narrow bound ty kind) := by
  apply Leads.get_bind
  have hmatching : ∀ variant ∈ (ty.variants.filter fun id =>
      (store.shape id).kind = kind).map plain, store.Canonical variant := by
    intro variant hvariant
    obtain ⟨id, hid, rfl⟩ := List.mem_map.mp hvariant
    exact hty.lt id (List.mem_of_mem_filter hid)
  apply (mayProvide_joinAll bound horderly hmatching).bind
  intro narrowed? next hnext hnarrowed
  cases narrowed? with
  | some narrowed => exact .pure (hnarrowed narrowed rfl)
  | none => exact .ofTypes (provides_ofKind (hnext.orderly horderly) kind)

/-! ## Narrowing -/

theorem length_filter_kind_le_one {variants : List TypeId} (h : store.Assorted variants)
    {kind : Kind} (hprimitive : kind.isPrimitive = true) :
    (variants.filter fun id => (store.shape id).kind = kind).length ≤ 1 := by
  induction variants with
  | nil => exact Nat.zero_le _
  | cons first rest ih =>
      obtain ⟨-, -, hfirst, hrest⟩ := assorted_cons.mp h
      by_cases hkind : (store.shape first).kind = kind
      · have hnone : rest.filter (fun id => (store.shape id).kind = kind) = [] := by
          refine List.filter_eq_nil_iff.mpr fun id hid hsame => ?_
          refine (hfirst id hid).kind (by rwa [hkind]) ?_
          rw [hkind, of_decide_eq_true hsame]
        rw [List.filter_cons_of_pos (by simpa using hkind), hnone]
        exact Nat.le_refl _
      · rw [List.filter_cons_of_neg (by simpa using hkind)]
        exact ih hrest

theorem ofKind_of_primitive {kind : Kind} (h : kind.isPrimitive = true) (store : TypeStore) :
    ∃ id, (ofKind kind store).1 = plain id ∧ ((ofKind kind store).2.shape id).kind = kind := by
  cases kind with
  | object | function | unknown => cases h
  | string => exact ⟨_, rfl, congrArg Shape.kind (shape_add_self _ _)⟩
  | number | boolean | null | undefined =>
      exact ⟨_, rfl, congrArg Shape.kind (shape_add_self _ _)⟩

theorem narrow_apply (bound : Nat) (ty : Ty) (kind : Kind) (store : TypeStore) :
    narrow bound ty kind store = (do
      match ← joinAll bound
          ((ty.variants.filter fun id => (store.shape id).kind = kind).map plain) with
      | some narrowed => return narrowed
      | none => ofTypes (ofKind kind)) store :=
  rfl

theorem narrow_of_primitive {ty : Ty} (hty : store.Canonical ty) {kind : Kind}
    (h : kind.isPrimitive = true) (bound : Nat) :
    ∃ id next, narrow bound ty kind store = some (plain id, next) ∧
      (next.shape id).kind = kind := by
  have hone : (ty.variants.filter fun id => (store.shape id).kind = kind).length ≤ 1 := by
    cases ty with
    | plain id => exact List.length_filter_le _ [id]
    | union variants => exact length_filter_kind_le_one hty.2 h
  cases hmatching : ty.variants.filter fun id => (store.shape id).kind = kind with
  | nil =>
      obtain ⟨id, hplain, hkind⟩ := ofKind_of_primitive h store
      refine ⟨id, (ofKind kind store).2, ?_, hkind⟩
      rw [← hplain, narrow_apply, hmatching]
      rfl
  | cons id rest =>
      rw [hmatching, List.length_cons] at hone
      have hrest : rest = [] := List.length_eq_zero_iff.mp (by omega)
      have hid : id ∈ ty.variants.filter fun id => (store.shape id).kind = kind := by
        rw [hmatching]
        exact List.mem_cons_self
      refine ⟨id, store, ?_, of_decide_eq_true (List.mem_filter.mp hid).2⟩
      rw [narrow_apply, hmatching, hrest]
      rfl

end Ty

end ScriptCheck
