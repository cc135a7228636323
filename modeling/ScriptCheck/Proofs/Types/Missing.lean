import ScriptCheck.Proofs.Types.Lacking
import ScriptCheck.Proofs.Types.Widen

/-!
# What widened types lack

Widening takes constants away and keeps what is declared.  A known object declares a member when it
is first asked for, so a type that is widened lacks the members that nobody has asked for yet.  The
variants of a union are joined again after that, and the first of those that have come to be alike
stands for the others, also where it is the more indulgent one.
-/

namespace ScriptCheck

open TypeStore

namespace Shape

/-- Whether a shape has something under a name only as long as its constant is known. -/
def hides (shape : Shape) (name : String) : Bool :=
  match shape.slot? name with
  | some (.known _) => !shape.forgives name
  | _ => false

theorem slot?_eq_none_of_lawful {shape : Shape} (hlawful : shape.Lawful)
    (hbare : Ty.hasMembers shape.kind = false) (name : String) : shape.slot? name = none := by
  rw [slot?_eq_none_iff, hlawful.members hbare, value?, hbare]
  exact ⟨rfl, rfl⟩

theorem slot?_general_eq_none_iff {shape : Shape} {name : String} :
    Shape.slot? { shape with constant := none } name = none ↔
      Record.get? name shape.members = none := by
  rw [slot?_eq_none_iff, and_iff_left]
  unfold value?
  split <;> rfl

end Shape

namespace TypeStore

/-- No variant is more indulgent about a name than a later one of its kind. -/
def EvenHanded (store : TypeStore) (name : String) (variants : List TypeId) : Prop :=
  variants.Pairwise fun a b => (store.shape a).kind = (store.shape b).kind →
    (store.shape a).forgives name = true → (store.shape b).forgives name = true

/-- A plain type is what came of widening one of an earlier store. -/
structure Wide (start : TypeStore) (id : TypeId) (name : String) (store : TypeStore)
    (wide : TypeId) : Prop where
  general : store.HasGeneral wide
  kind : (store.shape wide).kind = (start.shape id).kind
  forgives : (store.shape wide).forgives name = (start.shape id).forgives name
  undeclared : (store.shape wide).slot? name = none →
    Record.get? name (start.shape id).members = none
  still : (start.shape id).slot? name = none → (store.shape wide).slot? name = none

/-- What some types of an earlier store have been widened to and joined into. -/
structure Gathered (start : TypeStore) (name : String) (seen : List TypeId) (store : TypeStore)
    (joined : List TypeId) : Prop where
  wide : ∀ kept ∈ joined, ∃ id ∈ seen, start.Wide id name store kept
  lacks : start.EvenHanded name seen → ∀ id ∈ seen, (start.shape id).lacksName name = true →
    ∃ kept ∈ joined, (store.shape kept).lacksName name = true

variable {start store next : TypeStore} {id wide : Nat} {name : String}
  {seen joined : List TypeId}

namespace Wide

theorem of_evolves (h : start.Wide id name store wide) (hevolves : Evolves store next) :
    start.Wide id name next wide := by
  have hlater := hevolves.later
  have hlt := h.general.1
  refine ⟨h.general.of_evolves hevolves, (hlater.kind hlt).trans h.kind,
    (hlater.forgives hlt).trans h.forgives, ?_, ?_⟩
  · rw [hlater.slot?_eq_none_iff hlt]
    exact h.undeclared
  · rw [hlater.slot?_eq_none_iff hlt]
    exact h.still

/-- What is lacking after widening was lacking before or known only. -/
theorem lacks_or_hides (h : start.Wide id name store wide)
    (hlacking : (store.shape wide).lacksName name = true) :
    (start.shape id).lacksName name = true ∨ (start.shape id).hides name = true := by
  by_cases hunknown : (start.shape id).kind = .unknown
  · rw [Shape.lacksName, h.kind, hunknown] at hlacking
    cases hlacking
  by_cases hnull : (start.shape id).kind = .null
  · exact .inl (by rw [Shape.lacksName, hnull])
  by_cases hundefined : (start.shape id).kind = .undefined
  · exact .inl (by rw [Shape.lacksName, hundefined])
  rw [Shape.lacksName_of_known (by rwa [h.kind]) (by rwa [h.kind]) (by rwa [h.kind]), h.forgives,
    Bool.and_eq_true_iff, Option.isNone_iff_eq_none] at hlacking
  obtain ⟨hnone, hunforgiven⟩ := hlacking
  rw [Shape.lacksName_of_known hunknown hnull hundefined, hunforgiven]
  cases held : (start.shape id).slot? name with
  | none => exact .inl rfl
  | some slot =>
      cases slot with
      | declared member =>
          rw [Shape.slot?_eq_declared_iff, h.undeclared hnone] at held
          cases held
      | known value => exact .inr (by rw [Shape.hides, held]; exact hunforgiven)

theorem lacks (h : start.Wide id name store wide)
    (hlacking : (start.shape id).lacksName name = true) :
    (store.shape wide).lacksName name = true := by
  unfold Shape.lacksName at hlacking ⊢
  rw [h.kind, h.forgives]
  split at hlacking
  · cases hlacking
  · rfl
  · rfl
  · rw [Bool.and_eq_true_iff, Option.isNone_iff_eq_none] at hlacking ⊢
    exact ⟨h.still hlacking.1, hlacking.2⟩

/-- What stands in for a widened type lacks what the type lacked, unless it is more indulgent. -/
theorem lacks_of_standsIn {other standing : Nat} (hlawful : (start.shape other).Lawful)
    (h : start.Wide id name store wide) (hinstead : start.Wide other name store standing)
    (hstands : store.StandsIn standing wide)
    (heven : (start.shape other).kind = (start.shape id).kind →
      (start.shape other).forgives name = true → (start.shape id).forgives name = true)
    (hlacking : (start.shape id).lacksName name = true) :
    (store.shape standing).lacksName name = true := by
  have hwideLacks := h.lacks hlacking
  rcases hstands with rfl | ⟨hkind, hslots⟩
  · exact hwideLacks
  have halike : (start.shape other).kind = (start.shape id).kind := by
    rw [← hinstead.kind, hkind, h.kind]
  unfold Shape.lacksName at hlacking hwideLacks ⊢
  rw [hkind]
  split at hwideLacks
  · cases hwideLacks
  · rfl
  · rfl
  · rw [Bool.and_eq_true_iff, Option.isNone_iff_eq_none] at hwideLacks ⊢
    obtain ⟨hbare, hunforgiven⟩ := hwideLacks
    constructor
    · cases has : Ty.hasMembers (store.shape standing).kind with
      | true => exact hslots has name hbare
      | false =>
          rw [hinstead.kind] at has
          exact hinstead.still (Shape.slot?_eq_none_of_lawful hlawful has name)
    · rw [hinstead.forgives]
      rw [h.forgives] at hunforgiven
      cases hforgiving : (start.shape other).forgives name with
      | false => rfl
      | true =>
          rw [heven halike hforgiving] at hunforgiven
          cases hunforgiven

end Wide

namespace Gathered

theorem of_evolves (h : start.Gathered name seen store joined) (hevolves : Evolves store next) :
    start.Gathered name seen next joined := by
  refine ⟨fun kept hmem => ?_, fun heven id hmem hlacking => ?_⟩
  · obtain ⟨id, hseen, hwide⟩ := h.wide kept hmem
    exact ⟨id, hseen, hwide.of_evolves hevolves⟩
  · obtain ⟨kept, hmem, hlacks⟩ := h.lacks heven id hmem hlacking
    obtain ⟨_, _, hwide⟩ := h.wide kept hmem
    exact ⟨kept, hmem, (hevolves.later.lacksName hwide.general.1).trans hlacks⟩

theorem single (h : start.Wide id name store wide) : start.Gathered name [id] store [wide] := by
  refine ⟨fun kept hmem => ⟨id, List.mem_singleton_self id, ?_⟩, fun _ other hmem hlacking => ?_⟩
  · rwa [List.mem_singleton.mp hmem]
  · rw [List.mem_singleton.mp hmem] at hlacking
    exact ⟨wide, List.mem_singleton_self wide, h.lacks hlacking⟩

theorem append (h : start.Gathered name seen store joined) (hone : start.Wide id name store wide) :
    start.Gathered name (seen ++ [id]) store (joined ++ [wide]) := by
  refine ⟨fun kept hmem => ?_, fun heven other hmem hlacking => ?_⟩
  · rcases List.mem_append.mp hmem with hold | hnew
    · obtain ⟨other, hseen, hwide⟩ := h.wide kept hold
      exact ⟨other, List.mem_append_left _ hseen, hwide⟩
    · rw [List.mem_singleton.mp hnew]
      exact ⟨id, List.mem_append_right _ (List.mem_singleton_self id), hone⟩
  · rcases List.mem_append.mp hmem with hold | hnew
    · obtain ⟨kept, held, hlacks⟩ := h.lacks (List.pairwise_append.mp heven).1 other hold hlacking
      exact ⟨kept, List.mem_append_left _ held, hlacks⟩
    · rw [List.mem_singleton.mp hnew] at hlacking
      exact ⟨wide, List.mem_append_right _ (List.mem_singleton_self wide), hone.lacks hlacking⟩

/-- One that is kept stands in for one more type. -/
theorem standing (h : start.Gathered name seen store joined) (horderly : start.Orderly)
    (hone : start.Wide id name store wide) {standing : Nat} (held : standing ∈ joined)
    (hstands : store.StandsIn standing wide) :
    start.Gathered name (seen ++ [id]) store joined := by
  refine ⟨fun kept hmem => ?_, fun heven other hmem hlacking => ?_⟩
  · obtain ⟨other, hseen, hwide⟩ := h.wide kept hmem
    exact ⟨other, List.mem_append_left _ hseen, hwide⟩
  · obtain ⟨hevenSeen, -, hevenLast⟩ := List.pairwise_append.mp heven
    rcases List.mem_append.mp hmem with hold | hnew
    · exact h.lacks hevenSeen other hold hlacking
    · rw [List.mem_singleton.mp hnew] at hlacking
      obtain ⟨first, hfirstSeen, hinstead⟩ := h.wide standing held
      exact ⟨standing, held, hone.lacks_of_standsIn (horderly first).lawful hinstead hstands
        (hevenLast first hfirstSeen id (List.mem_singleton_self id)) hlacking⟩

end Gathered

end TypeStore

namespace Ty

open JoinM (Gives ofTypes)

variable {start store : TypeStore} {id : TypeId} {key : Ty} {name : String}

/-- Widening a type gives a wide one, whatever has been looked at since the start. -/
theorem wide_widenPlain (horderly : start.Orderly) (hlater : Later start store)
    (hlt : id < start.shapes.size) (name : String) :
    start.Wide id name (widenPlain id store).2 (widenPlain id store).1 := by
  have hlawful := (horderly id).lawful
  have hkind := hlater.kind hlt
  have hconstant := hlater.constant hlt
  have hundeclared : Record.get? name (store.shape id).members = none →
      Record.get? name (start.shape id).members = none := by
    intro hnone
    by_contra hsome
    obtain ⟨member, hdeclared⟩ := Option.ne_none_iff_exists'.mp hsome
    rw [hlater.declared hlt hdeclared] at hnone
    cases hnone
  have hstill : (start.shape id).slot? name = none → (store.shape id).slot? name = none :=
    (hlater.slot?_eq_none_iff hlt name).mpr
  have hsame : (store.shape id).IsGeneral → start.Wide id name store id := fun hgeneral =>
    ⟨⟨hlater.lt hlt, hgeneral⟩, hkind, hlater.forgives hlt,
      fun hnone => hundeclared (Shape.slot?_eq_none_iff.mp hnone).1, hstill⟩
  by_cases hnull : (start.shape id).kind = .null
  · rw [widenPlain_of_null (.inl (hkind.trans hnull))]
    exact hsame (by rw [Shape.IsGeneral, hconstant, hkind, hlawful.null hnull, hnull]; rfl)
  by_cases hundefined : (start.shape id).kind = .undefined
  · rw [widenPlain_of_null (.inr (hkind.trans hundefined))]
    refine hsame ?_
    rw [Shape.IsGeneral, hconstant, hkind, hlawful.undefined hundefined, hundefined]
    rfl
  have hmany : (start.shape id).kind.only? = none := by
    cases hfound : (start.shape id).kind with
    | null => exact absurd hfound hnull
    | undefined => exact absurd hfound hundefined
    | _ => rfl
  cases hknown : (store.shape id).constant with
  | none =>
      rw [widenPlain_of_none hknown]
      exact hsame (by rw [Shape.IsGeneral, hknown, hkind, hmany])
  | some value =>
      rw [widenPlain_of_some hknown (by rwa [hkind]) (by rwa [hkind])]
      refine ⟨hasGeneral_add (by rw [Shape.IsGeneral, hkind, hmany]), ?_, ?_, ?_, ?_⟩
      · rw [shape_add_self, ← hkind]
      · rw [shape_add_self, ← hlater.forgives hlt]
        rfl
      · rw [shape_add_self, Shape.slot?_general_eq_none_iff]
        exact hundeclared
      · rw [shape_add_self, Shape.slot?_general_eq_none_iff]
        exact fun hnone => (Shape.slot?_eq_none_iff.mp (hstill hnone)).1

/-- General types that something is known of are kept when one more is joined to them, which is
put last unless one of them stands in for it. -/
theorem gives_absorb_standing (bound : Nat) {incoming : Nat} (hgeneral : store.HasGeneral incoming)
    (hknown : (store.shape incoming).kind ≠ .unknown) {variants : List TypeId}
    (hgenerals : ∀ id ∈ variants, store.HasGeneral id)
    (hknowns : ∀ id ∈ variants, (store.shape id).kind ≠ .unknown) :
    Gives store (absorb (merge (bound + 1) 0) incoming variants) fun result next =>
      result = variants ++ [incoming] ∨
        result = variants ∧ ∃ standing ∈ variants, next.StandsIn standing incoming := by
  induction variants generalizing store with
  | nil => exact .pure (.inl rfl)
  | cons existing rest ih =>
      obtain ⟨hgeneralFirst, hgeneralRest⟩ := List.forall_mem_cons.mp hgenerals
      obtain ⟨hknownFirst, hknownRest⟩ := List.forall_mem_cons.mp hknowns
      refine (gives_merge bound 0 hgeneralFirst hgeneral).bind
        fun result next hevolves hmerges => ?_
      cases result with
      | some merged =>
          obtain ⟨rfl, hstands⟩ := (hmerges merged rfl).2 hknownFirst hknown
          exact .pure (.inr ⟨rfl, merged, List.mem_cons_self, hstands⟩)
      | none =>
          have hlater := hevolves.later
          refine (ih (hgeneral.of_evolves hevolves) (by rwa [hlater.kind hgeneral.1])
            (fun id hmem => (hgeneralRest id hmem).of_evolves hevolves) fun id hmem => ?_).bind
              fun added last _ hkept => ?_
          · rw [hlater.kind (hgeneralRest id hmem).1]
            exact hknownRest id hmem
          · refine .pure ?_
            rcases hkept with rfl | ⟨rfl, standing, hmem, hstands⟩
            · exact .inl rfl
            · exact .inr ⟨rfl, standing, List.mem_cons_of_mem _ hmem, hstands⟩

theorem gives_join_standing (bound : Nat) {joined : Ty} {incoming : Nat}
    (hgeneral : store.HasGeneral incoming) (hknown : (store.shape incoming).kind ≠ .unknown)
    (hgenerals : ∀ id ∈ joined.variants, store.HasGeneral id)
    (hknowns : ∀ id ∈ joined.variants, (store.shape id).kind ≠ .unknown) :
    Gives store (join (bound + 1) joined (plain incoming)) fun result next =>
      result.variants = joined.variants ++ [incoming] ∨
        result.variants = joined.variants ∧
          ∃ standing ∈ joined.variants, next.StandsIn standing incoming := by
  have hunknowns : ∀ ty : Ty, (∀ id ∈ ty.variants, (store.shape id).kind ≠ .unknown) →
      ty.isUnknown store = (false, store) := by
    intro ty hkinds
    cases ty with
    | union variants => rfl
    | plain id =>
        change (decide (some (store.shape id).kind = some .unknown), store) = _
        rw [decide_eq_false fun hsame =>
          hkinds id (List.mem_singleton_self id) (Option.some.inj hsame)]
  have hsingle : ∀ id ∈ (plain incoming).variants, (store.shape id).kind ≠ .unknown :=
    fun id hmem => by rwa [List.mem_singleton.mp hmem]
  unfold join joinWith
  refine .ofTypes_bind (follows_isUnknown store joined) ?_
  rw [hunknowns joined hknowns]
  refine .ofTypes_bind (follows_isUnknown store (plain incoming)) ?_
  rw [hunknowns (plain incoming) hsingle]
  change Gives store ((absorb (merge (bound + 1) 0) incoming joined.variants >>= pure) >>= _) _
  rw [bind_pure]
  refine (gives_absorb_standing bound hgeneral hknown hgenerals hknowns).bind
    fun variants next _ hkept => .pure ?_
  rwa [variants_ofVariants]

theorem gives_foldWiden (bound : Nat) (horderly : start.Orderly) {seen rest : List TypeId}
    {joined : Ty} (hlater : Later start store) (hlt : ∀ id ∈ rest, id < start.shapes.size)
    (hknown : ∀ id ∈ seen ++ rest, (start.shape id).kind ≠ .unknown)
    (hgathered : start.Gathered name seen store joined.variants) :
    Gives store (rest.foldlM (fun joined id => do
      join (bound + 1) joined (plain (← ofTypes (widenPlain id)))) joined) fun result next =>
        start.Gathered name (seen ++ rest) next result.variants := by
  induction rest generalizing store seen joined with
  | nil => exact .pure (by rwa [List.append_nil])
  | cons id rest ih =>
      obtain ⟨hltId, hltRest⟩ := List.forall_mem_cons.mp hlt
      have hstep : Gives store (do join (bound + 1) joined (plain (← ofTypes (widenPlain id))))
          fun result next => start.Gathered name (seen ++ [id]) next result.variants := by
        have hone := wide_widenPlain horderly hlater hltId name
        have hevolves : Evolves store (widenPlain id store).2 := (makes_widenPlain store id).evolves
        have hbefore := hgathered.of_evolves hevolves
        have hknownKept : ∀ kept ∈ joined.variants,
            ((widenPlain id store).2.shape kept).kind ≠ .unknown := fun kept hmem => by
          obtain ⟨other, hseen, hwide⟩ := hbefore.wide kept hmem
          rw [hwide.kind]
          exact hknown other (List.mem_append_left _ hseen)
        refine .ofTypes_bind hevolves ((gives_join_standing bound hone.general ?_
          (fun kept hmem => ?_)
          hknownKept).mono fun result next hevolves hkept => ?_)
        · rw [hone.kind]
          exact hknown id (List.mem_append_right _ List.mem_cons_self)
        · obtain ⟨_, _, hwide⟩ := hbefore.wide kept hmem
          exact hwide.general
        · have hafter := hbefore.of_evolves hevolves
          rcases hkept with hsame | ⟨hsame, standing, hmem, hstands⟩ <;> rw [hsame]
          · exact hafter.append (hone.of_evolves hevolves)
          · exact hafter.standing horderly (hone.of_evolves hevolves) hmem hstands
      rw [List.foldlM_cons]
      refine hstep.bind fun result next hevolves hgathered => ?_
      have hwhole : seen ++ id :: rest = (seen ++ [id]) ++ rest := by simp
      rw [hwhole] at hknown ⊢
      exact ih (hlater.trans hevolves.later) hltRest hknown hgathered

theorem gives_widen_gathered (bound : Nat) (horderly : store.Orderly) {ty : Ty}
    (hcanonical : store.Canonical ty) (name : String) :
    Gives store (widen (bound + 1) ty) fun wide next =>
      store.Gathered name ty.variants next wide.variants := by
  have hwidenFirst : ∀ first, first < store.shapes.size →
      store.Gathered name [first] (widenPlain first store).2 [(widenPlain first store).1] :=
    fun first hlt => .single (wide_widenPlain horderly (.refl store) hlt name)
  have hevolves : ∀ first, Evolves store (widenPlain first store).2 :=
    fun first => (makes_widenPlain store first).evolves
  cases ty with
  | plain id => exact .ofTypes_bind (hevolves id) (.pure (hwidenFirst id hcanonical))
  | union variants =>
      obtain ⟨hseveral, hassorted⟩ := hcanonical
      cases variants with
      | nil => cases hseveral
      | cons first rest =>
          obtain ⟨hltFirst, hltRest⟩ := List.forall_mem_cons.mp hassorted.lt
          have hothers : Gives (widenPlain first store).2 (rest.foldlM (fun joined id => do
              join (bound + 1) joined (plain (← ofTypes (widenPlain id))))
              (plain (widenPlain first store).1)) fun wide next =>
                store.Gathered name ([first] ++ rest) next wide.variants :=
            gives_foldWiden bound horderly (hevolves first).later hltRest hassorted.known
              (hwidenFirst first hltFirst)
          exact .ofTypes_bind (hevolves first) hothers

/-- What a plain type only has as long as its constant is known is lacking when it is widened. -/
theorem lacks_of_hides (hidden : (store.shape id).hides name = true) :
    ((widenPlain id store).2.shape (widenPlain id store).1).lacksName name = true := by
  unfold Shape.hides at hidden
  split at hidden
  · rename_i value held
    obtain ⟨hundeclared, hknown⟩ := Shape.slot?_eq_known_iff.mp held
    have has := Shape.hasMembers_of_known held
    have hunknown : (store.shape id).kind ≠ .unknown := by
      rintro hkind; rw [hkind] at has; cases has
    have hnull : (store.shape id).kind ≠ .null := by rintro hkind; rw [hkind] at has; cases has
    have hundefined : (store.shape id).kind ≠ .undefined := by
      rintro hkind
      rw [hkind] at has
      cases has
    rw [Shape.value?, if_pos has] at hknown
    obtain ⟨constant, hsome, -⟩ := Option.bind_eq_some_iff.mp hknown
    rw [widenPlain_of_some hsome hnull hundefined, shape_add_self]
    have hgeneral : Shape.lacksName { store.shape id with constant := none } name = _ :=
      Shape.lacksName_of_known hunknown hnull hundefined
    rw [Shape.slot?_general_eq_none_iff.mpr hundeclared] at hgeneral
    exact hgeneral.trans hidden
  · cases hidden

/-- Widening any type succeeds.  What the widened type lacks the type lacked or had only as part of
a known value that was not asked for.  The widened type lacks what the type lacked, as long as no
variant is more indulgent than a later one of its kind.  A plain type lacks after widening exactly
what it lacked and what it had not been asked for. -/
theorem lacks_widen_of_obtained {shared : Nat → Prop} {types : List Ty}
    (hobtained : Obtained (Operation.Checked shared) store types) (ty key : Ty) (hmem : ty ∈ types)
    (htext : (key.constant? store).1 = some (.string name)) (bound : Nat) :
    ∃ wide next, widen (bound + 1) ty store = some (wide, next) ∧
      ((lacks wide key next).1 = true →
        (lacks ty key store).1 = true ∨ ∃ id ∈ ty.variants, (store.shape id).hides name = true) ∧
      (store.EvenHanded name ty.variants → (lacks ty key store).1 = true →
        (lacks wide key next).1 = true) ∧
      ∀ id, ty = plain id → ((lacks wide key next).1 = true ↔
        (lacks ty key store).1 = true ∨ (store.shape id).hides name = true) := by
  obtain ⟨⟨horderly, -⟩, hcanonicals⟩ := canonical_of_obtained hobtained
  have hcanonical := hcanonicals ty hmem
  have hspells := horderly.constantsFit.spells htext
  obtain ⟨wide, next, hwidened, hevolves, hgathered⟩ :=
    gives_widen_gathered bound horderly hcanonical name
  have hbefore := lacks_iff_of_spells hspells ty hcanonical.lt
  have hafter : (lacks wide key next).1 = true ↔
      ∃ kept ∈ wide.variants, (next.shape kept).lacksName name = true := by
    refine lacks_iff_of_spells (hspells.of_later hevolves.later) wide fun kept held => ?_
    obtain ⟨_, _, hwide⟩ := hgathered.wide kept held
    exact hwide.general.1
  have hmissing : (lacks wide key next).1 = true → (lacks ty key store).1 = true ∨
      ∃ id ∈ ty.variants, (store.shape id).hides name = true := by
    rw [hafter, hbefore]
    rintro ⟨kept, held, hlacking⟩
    obtain ⟨id, hseen, hwide⟩ := hgathered.wide kept held
    rcases hwide.lacks_or_hides hlacking with hlacked | hidden
    · exact .inl ⟨id, hseen, hlacked⟩
    · exact .inr ⟨id, hseen, hidden⟩
  have hremains : store.EvenHanded name ty.variants → (lacks ty key store).1 = true →
      (lacks wide key next).1 = true := by
    rw [hafter, hbefore]
    rintro heven ⟨id, hseen, hlacking⟩
    exact hgathered.lacks heven id hseen hlacking
  refine ⟨wide, next, hwidened, hmissing, hremains, ?_⟩
  rintro id rfl
  constructor
  · intro hlacking
    refine (hmissing hlacking).imp_right ?_
    rintro ⟨other, hseen, hidden⟩
    rwa [List.mem_singleton.mp hseen] at hidden
  · rintro (hlacked | hidden)
    · exact hremains (List.pairwise_singleton _ _) hlacked
    · cases hwidened
      exact hafter.mpr ⟨_, List.mem_singleton_self _, lacks_of_hides hidden⟩

/-- A known object that has been asked for one of its two members, and texts that name them. -/
def halfReadStore : TypeStore where
  shapes := #[
    { kind := .object, mutable := true, indexer := some ⟨.string, none⟩,
      members := [("a", plain 5)],
      constant := some (.object 0 [("a", .bool true), ("b", .bool true)]) },
    { kind := .string, lenient := true },
    { kind := .string, lenient := true, indexer := some ⟨.number, some (plain 1)⟩,
      constant := some (.string "a") },
    { kind := .string, lenient := true },
    { kind := .string, lenient := true, indexer := some ⟨.number, some (plain 3)⟩,
      constant := some (.string "b") },
    { kind := .boolean, constant := some (.bool true) }]

theorem obtained_halfReadStore :
    Obtained (Operation.Checked fun _ => False) halfReadStore
      [plain 0, plain 2, plain 4, plain 5] := by
  have hobject : Obtained (Operation.Checked fun _ => False) _ _ :=
    .step .start (.known (.object 0 [("a", .bool true), ("b", .bool true)])) 0 nofun trivial rfl
  have hfirst := hobject.step (.known (.string "a")) 0 nofun trivial rfl
  have hsecond := hfirst.step (.known (.string "b")) 0 nofun trivial rfl
  exact hsecond.step (.read (plain 0) (plain 2)) 0 (by decide) trivial rfl

theorem lacks_widen_halfReadStore :
    Obtained (Operation.Checked fun _ => False) halfReadStore [plain 0, plain 2, plain 4, plain 5] ∧
    plain 0 ∈ [plain 0, plain 2, plain 4, plain 5] ∧
    ((plain 2).constant? halfReadStore).1 = some (.string "a") ∧
    ∃ wide next, widen 1 (plain 0) halfReadStore = some (wide, next) ∧
      (lacks wide (plain 2) next).1 = false := by
  obtain ⟨wide, next, hwidened, hmissing, -⟩ :=
    lacks_widen_of_obtained obtained_halfReadStore (plain 0) (plain 2) (by decide) rfl 0
  refine ⟨obtained_halfReadStore, by decide, rfl, wide, next, hwidened, ?_⟩
  rw [Bool.eq_false_iff]
  intro hlacking
  rcases hmissing hlacking with hlacked | ⟨id, hmem, hidden⟩
  · exact absurd hlacked (by decide)
  · rw [List.mem_singleton.mp hmem] at hidden
    exact absurd hidden (by decide)

/-- The member that nobody has asked for is gone from the widened object. -/
theorem unread_lost_halfReadStore :
    Obtained (Operation.Checked fun _ => False) halfReadStore [plain 0, plain 2, plain 4, plain 5] ∧
    ((plain 4).constant? halfReadStore).1 = some (.string "b") ∧
    (lacks (plain 0) (plain 4) halfReadStore).1 = false ∧
    ∃ wide next, widen 1 (plain 0) halfReadStore = some (wide, next) ∧
      (lacks wide (plain 4) next).1 = true :=
  ⟨obtained_halfReadStore, rfl, rfl, _, _, rfl, rfl⟩

end Ty

end ScriptCheck
