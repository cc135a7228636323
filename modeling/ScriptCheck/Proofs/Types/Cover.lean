import ScriptCheck.Proofs.Types.Yield

/-!
# Joins cover what they join

A merge of two plain types ends in one of several ways.  Where it joins them member by
member, or where they have no members, the result covers both.  Where it keeps the first
for the second, it covers the second as far as the first does.
-/

namespace ScriptCheck

open TypeStore

/-! ## Members -/

def TypeStore.CoversUnder (store : TypeStore) (name : String) (path : List String) (member : Ty)
    (id : TypeId) : Prop :=
  ∀ sight, store.SeesAt (name :: path) id sight →
    ∃ other, store.Sees path member other ∧ other.Covers sight

def TypeStore.RetainsUnder (final : TypeStore) (along : List String → Prop) (store : TypeStore)
    (name : String) (member : Ty) (id : TypeId) : Prop :=
  Later store final → final.Lawful → ∀ path, along path → final.CoversUnder name path member id

namespace Ty

open JoinM (ofTypes Yields)

variable {final : TypeStore} {along : List String → Prop} {store : TypeStore}

/-- A declared member is covered by itself from then on. -/
theorem retainsUnder_of_declared {id : TypeId} {name : String} {member : Ty}
    (hkind : (store.shape id).kind ≠ .unknown)
    (h : (store.shape id).slot? name = some (.declared member)) :
    TypeStore.RetainsUnder final along store name member id := by
  intro hfinal _ path _ sight hsight
  have hlast : (final.shape id).kind ≠ .unknown := by rwa [hfinal.kind (lt_of_slot? h)]
  have hsees := (seesAt_of_declared hlast (hfinal.slot?_of_declared h)).mp hsight
  exact ⟨sight, hsees, .refl sight⟩

theorem retainsUnder_of_mirrors {id : TypeId} {name : String} {member : Ty} {value : Value}
    (hkind : (store.shape id).kind ≠ .unknown)
    (h : (store.shape id).slot? name = some (.known value))
    (hrecord : (store.shape id).isRecord = false) (hmirrors : store.Mirrors member value) :
    TypeStore.RetainsUnder final along store name member id := by
  intro hfinal hlawful path _ sight hsight
  have hlast : (final.shape id).kind ≠ .unknown := by rwa [hfinal.kind (lt_of_slot? h)]
  rw [(seesAt_of_known hlast (hfinal.slot?_of_known h hrecord)).mp hsight]
  exact (hmirrors.of_later hfinal).sees hlawful path

/-- Reading a member that is there yields a type that covers it from then on. -/
theorem yields_declaredMember (final : TypeStore) (along : List String → Prop)
    (hlawful : store.Lawful) {id : TypeId} {name : String}
    (hkind : (store.shape id).kind ≠ .unknown) (hslot : (store.shape id).slot? name ≠ none) :
    (ofTypes (declaredMember id name)).Yields store fun result next =>
      ∃ member, result = some member ∧ next.Has member ∧
        TypeStore.RetainsUnder final along next name member id := by
  apply Yields.ofTypes hlawful (looks_declaredMember store id name)
  cases hfound : (store.shape id).slot? name with
  | none => exact absurd hfound hslot
  | some slot =>
      cases slot with
      | declared member =>
          rw [declaredMember_of_declared hfound]
          exact ⟨member, rfl, hlawful.has (Shape.slot?_eq_declared_iff.mp hfound),
            retainsUnder_of_declared hkind hfound⟩
      | known value =>
          have hmirrors := mirrors_ofValue store value
          have hmakes : Makes store (ofValue value store).2 := makes_ofValue store value
          have hid := Nat.lt_of_lt_of_le (lt_of_slot? hfound) hmakes.size_le
          have hshape := hmakes.shape_eq (lt_of_slot? hfound)
          cases hrecord : (store.shape id).isRecord with
          | true =>
              rw [declaredMember_of_record hfound hrecord]
              have hdeclare := Later.declare (hshape ▸ hfound) (hshape ▸ hrecord) hmirrors
              refine ⟨_, rfl, hmirrors.has.of_later hdeclare, ?_⟩
              apply retainsUnder_of_declared
              · rwa [shape_declare_self hid, hshape]
              · apply Shape.slot?_eq_declared_iff.mpr
                rw [shape_declare_self hid, Record.get?_insert_self]
          | false =>
              rw [declaredMember_of_not_record hfound hrecord]
              refine ⟨_, rfl, hmirrors.has, retainsUnder_of_mirrors ?_ ?_ ?_ hmirrors⟩
              · rwa [hshape]
              · rwa [hshape]
              · rwa [hshape]

/-- What has been joined so far: types that retain the members of both, each under its
name. -/
def JoinedSoFar (final : TypeStore) (along : List String → Prop) (a b : TypeId)
    (record : List (String × Ty)) (store : TypeStore) : Prop :=
  ∀ name member, Record.get? name record = some member → store.Has member ∧
    TypeStore.RetainsUnder final along store name member a ∧
      TypeStore.RetainsUnder final along store name member b

theorem JoinedSoFar.of_later {a b : TypeId} {record : List (String × Ty)} {next : TypeStore}
    (h : JoinedSoFar final along a b record store) (hlater : Later store next) :
    JoinedSoFar final along a b record next := by
  intro name member hmember
  obtain ⟨hhas, hleft, hright⟩ := h name member hmember
  exact ⟨hhas.of_later hlater, fun hfinal => hleft (hlater.trans hfinal),
    fun hfinal => hright (hlater.trans hfinal)⟩

theorem JoinedSoFar.insert {a b : TypeId} {record : List (String × Ty)} {name : String}
    {member : Ty} (h : JoinedSoFar final along a b record store) (hhas : store.Has member)
    (hleft : TypeStore.RetainsUnder final along store name member a)
    (hright : TypeStore.RetainsUnder final along store name member b) :
    JoinedSoFar final along a b (Record.insert name member record) store := by
  intro key found hfound
  by_cases hkey : key = name
  · subst hkey
    rw [Record.get?_insert_self] at hfound
    cases hfound
    exact ⟨hhas, hleft, hright⟩
  · rw [Record.get?_insert_of_ne hkey] at hfound
    exact h key found hfound

theorem RetainsUnder.widen {next : TypeStore} {name : String} {member whole : Ty} {id : TypeId}
    (h : TypeStore.RetainsUnder final along store name member id) (hlater : Later store next)
    (hwhole : ∀ part ∈ member.variants, TypeStore.Retains final along next whole part) :
    TypeStore.RetainsUnder final along next name whole id := by
  intro hfinal hlawful path hpath sight hsight
  obtain ⟨other, hother, hcovers⟩ := h (hlater.trans hfinal) hlawful path hpath sight hsight
  have hwide : final.Covers path whole member :=
    .of_variants fun part hpart => hwhole part hpart hfinal hlawful path hpath
  obtain ⟨found, hfound, hcovers'⟩ := hwide other hother
  exact ⟨found, hfound, hcovers'.trans hcovers⟩

theorem yields_joinMembers {joinMember : Ty → Ty → JoinM Ty}
    (hjoin : ∀ store x y, store.Lawful → store.Has x → store.Has y →
      (joinMember x y).Yields store fun joined next => next.Has joined ∧
        ∀ id ∈ x.variants ++ y.variants, TypeStore.Retains final along next joined id)
    (hlawful : store.Lawful) {a b : Nat} (ha : a < store.shapes.size) (hb : b < store.shapes.size)
    (hleft : (store.shape a).kind ≠ .unknown) (hright : (store.shape b).kind ≠ .unknown)
    {names : List String}
    (hnames : ∀ name ∈ names, (store.shape a).slot? name ≠ none ∧ (store.shape b).slot? name ≠ none)
    {record : List (String × Ty)} (hrecord : JoinedSoFar final along a b record store) :
    (joinMembers joinMember a b names record).Yields store fun result next =>
      JoinedSoFar final along a b result next ∧ ∀ name,
        (name ∈ names ∨ ∃ member, Record.get? name record = some member) →
          ∃ member, Record.get? name result = some member := by
  induction names generalizing store record with
  | nil =>
      refine Yields.pure hlawful ⟨hrecord, fun name hname => ?_⟩
      rcases hname with hname | hmember
      · cases hname
      · exact hmember
  | cons first rest ih =>
      obtain ⟨hslot, hslot'⟩ := hnames first List.mem_cons_self
      apply (yields_declaredMember final along hlawful hleft hslot).bind
      rintro _ read hread hlater ⟨x, rfl, hx, hretainsx⟩
      have hright' : (read.shape b).kind ≠ .unknown := by rwa [hlater.kind hb]
      have hslot'' : (read.shape b).slot? first ≠ none := by
        rwa [ne_eq, hlater.slot?_eq_none_iff hb]
      apply (yields_declaredMember final along hread hright' hslot'').bind
      rintro _ after hafter hlater' ⟨y, rfl, hy, hretainsy⟩
      apply (hjoin after x y hafter (hx.of_later hlater') hy).bind
      rintro joined last hlast hlater'' ⟨hhas, hretains⟩
      have hall := (hlater.trans hlater').trans hlater''
      have hmember : JoinedSoFar final along a b (Record.insert first joined record) last := by
        apply (hrecord.of_later hall).insert hhas
        · exact RetainsUnder.widen hretainsx (hlater'.trans hlater'')
            fun part hpart => hretains part (List.mem_append_left _ hpart)
        · exact RetainsUnder.widen hretainsy hlater''
            fun part hpart => hretains part (List.mem_append_right _ hpart)
      have hrest : ∀ name ∈ rest, (last.shape a).slot? name ≠ none ∧
          (last.shape b).slot? name ≠ none := by
        intro name hname
        rw [ne_eq, ne_eq, hall.slot?_eq_none_iff ha, hall.slot?_eq_none_iff hb]
        exact hnames name (List.mem_cons_of_mem _ hname)
      apply (ih hlast (hall.lt ha) (hall.lt hb) (by rwa [hall.kind ha]) (by rwa [hall.kind hb])
        hrest hmember).mono
      rintro result final' _ ⟨hjoined, hcomplete⟩
      refine ⟨hjoined, fun name hname => hcomplete name ?_⟩
      by_cases hfirst : name = first
      · subst hfirst
        exact .inr ⟨joined, Record.get?_insert_self _ _ _⟩
      · rcases hname with hname | hold
        · exact .inl ((List.mem_cons.mp hname).resolve_left hfirst)
        · rw [Record.get?_insert_of_ne hfirst]
          exact .inr hold

end Ty

/-! ## The ways a merge ends -/

theorem Kind.ne_null_of_hasMembers {kind : Kind} (h : Ty.hasMembers kind = true) :
    kind ≠ .null ∧ kind ≠ .undefined := by
  constructor <;> rintro rfl <;> cases h

namespace TypeStore

variable {store next : TypeStore} {a b : Nat}

structure Matches (store : TypeStore) (a b : Nat) : Prop where
  left_lt : a < store.shapes.size
  right_lt : b < store.shapes.size
  known : (store.shape a).kind ≠ .unknown
  kind : (store.shape a).kind = (store.shape b).kind
  calls : Ty.callDifferently (store.shape a) (store.shape b) = false

namespace Matches

theorem of_later (h : store.Matches a b) (hlater : Later store next) : next.Matches a b where
  left_lt := hlater.lt h.left_lt
  right_lt := hlater.lt h.right_lt
  known := by
    rw [hlater.kind h.left_lt]
    exact h.known
  kind := by rw [hlater.kind h.left_lt, hlater.kind h.right_lt, h.kind]
  calls := by
    have hcalls := h.calls
    unfold Ty.callDifferently at hcalls ⊢
    rwa [hlater.callable h.left_lt, hlater.callable h.right_lt]

theorem right_known (h : store.Matches a b) : (store.shape b).kind ≠ .unknown := by
  rw [← h.kind]
  exact h.known

theorem tag_eq (h : store.Matches a b) (hlawful : store.Lawful) {called : Callable}
    (hcalled : (store.shape b).callable = some called) :
    ∃ other, (store.shape a).callable = some other ∧ other.tag = called.tag := by
  have hfunction : (store.shape b).kind = .function := by
    rw [hlawful.shape.callable, hcalled]
    rfl
  rw [← h.kind, hlawful.shape.callable] at hfunction
  obtain ⟨other, hother⟩ := Option.isSome_iff_exists.mp hfunction
  have hcalls := h.calls
  rw [Ty.callDifferently, hother, hcalled] at hcalls
  exact ⟨other, hother, by simpa using hcalls⟩

/-- What calls the same as the first covers the second, but for the constant. -/
theorem sight_covers (h : store.Matches a b) (hlawful : store.Lawful) {constant : Option Value}
    (hconstant : ∀ value, constant = some value →
      ∃ other, (store.shape b).constant = some other ∧ value.Alike other) :
    (Sight.known constant (store.shape a).callable).Covers (store.shape b).sight := by
  rw [sight_of_known h.right_known]
  exact ⟨hconstant, fun called hcalled => h.tag_eq hlawful hcalled⟩

end Matches

theorem covers_of_no_members (hlawful : store.Lawful) (hleft : (store.shape a).kind ≠ .unknown)
    (hright : (store.shape b).kind ≠ .unknown)
    (hhas : Ty.hasMembers (store.shape a).kind = false)
    (hhas' : Ty.hasMembers (store.shape b).kind = false) (name : String) (path : List String) :
    store.Covers (name :: path) (.plain a) (.plain b) := by
  intro sight hsight
  have hnone := (seesAt_of_none hright (hlawful.slot?_eq_none hhas' name)).mp (sees_plain.mp hsight)
  refine ⟨.missing, sees_plain.mpr ?_, by rw [hnone]; trivial⟩
  exact (seesAt_of_none hleft (hlawful.slot?_eq_none hhas name)).mpr rfl

theorem alike_of_sameConstant {left right : Option Value}
    (h : Ty.sameConstant left right = true) (value : Value) (hvalue : left = some value) :
    ∃ other, right = some other ∧ value.Alike other := by
  subst hvalue
  cases right with
  | none => cases h
  | some other => exact ⟨other, rfl, .of_sameContent h⟩

/-- The first of two types with the same constant covers the second, if it does so inside. -/
theorem Matches.covers_left (h : store.Matches a b) (hlawful : store.Lawful)
    (hsame : Ty.sameConstant (store.shape a).constant (store.shape b).constant = true)
    {path : List String}
    (hinside : Ty.hasMembers (store.shape a).kind = true → path ≠ [] →
      store.Covers path (.plain a) (.plain b)) :
    store.Covers path (.plain a) (.plain b) := by
  cases path with
  | nil =>
      intro sight hsight
      have hsight' : sight = (store.shape b).sight := sees_plain.mp hsight
      refine ⟨(store.shape a).sight, sees_plain.mpr rfl, ?_⟩
      rw [hsight', sight_of_known h.known]
      exact h.sight_covers hlawful (alike_of_sameConstant hsame)
  | cons name path =>
      cases hhas : Ty.hasMembers (store.shape a).kind with
      | true => exact hinside hhas (List.cons_ne_nil _ _)
      | false =>
          exact covers_of_no_members hlawful h.known h.right_known hhas (h.kind ▸ hhas) name path

theorem Matches.refl {id : Nat} (hid : id < store.shapes.size)
    (hknown : (store.shape id).kind ≠ .unknown) : store.Matches id id where
  left_lt := hid
  right_lt := hid
  known := hknown
  kind := rfl
  calls := by
    unfold Ty.callDifferently
    split
    · rename_i f g hf hg
      rw [hf] at hg
      cases hg
      simp
    · rfl

/-- What a plain type has under a name that it does not declare calls nothing. -/
theorem callsNothing_of_not_mem {id : TypeId} (hhas : Ty.hasMembers (store.shape id).kind = true)
    (hknown : (store.shape id).kind ≠ .unknown) {name : String}
    (hname : name ∉ (store.shape id).memberNames) {path : List String} {sight : Sight}
    (hsight : store.SeesAt (name :: path) id sight) : sight.CallsNothing := by
  cases hslot : (store.shape id).slot? name with
  | none =>
      rw [(seesAt_of_none hknown hslot).mp hsight]
      trivial
  | some slot =>
      cases slot with
      | declared member =>
          have hmember := Shape.slot?_eq_declared_iff.mp hslot
          exact absurd ((Shape.mem_memberNames hhas).mpr (.inl ⟨member, hmember⟩)) hname
      | known value =>
          rw [(seesAt_of_known hknown hslot).mp hsight]
          exact value.callsNothing_sight path

/-- What was known to a plain type under a name calls nothing, whether it has been
declared or not. -/
theorem Later.callsNothing_of_known (h : Later store next) {id : TypeId} {name : String}
    {value : Value} (hknown : (store.shape id).kind ≠ .unknown)
    (hslot : (store.shape id).slot? name = some (.known value)) {path : List String} {sight : Sight}
    (hsight : next.SeesAt (name :: path) id sight) : sight.CallsNothing := by
  have hid := lt_of_slot? hslot
  have hkind : (next.shape id).kind ≠ .unknown := by rwa [h.kind hid]
  obtain ⟨hnone, hvalue⟩ := Shape.slot?_eq_known_iff.mp hslot
  cases hmember : Record.get? name (next.shape id).members with
  | none =>
      have hlast := Shape.slot?_eq_known_iff.mpr ⟨hmember, (h.value? hid name).trans hvalue⟩
      rw [(seesAt_of_known hkind hlast).mp hsight]
      exact value.callsNothing_sight path
  | some member =>
      obtain ⟨-, found, -, hmirrors⟩ := h.mirrors hid hnone hmember
      have hlast := Shape.slot?_eq_declared_iff.mpr hmember
      exact hmirrors.callsNothing ((seesAt_of_declared hkind hlast).mp hsight)

/-! ### Copies -/

/-- A plain type is another without its constant, and perhaps with other members. -/
structure Copies (store : TypeStore) (copy id : Nat) : Prop where
  lt : copy < store.shapes.size
  outline : (store.shape copy).outline = (store.shape id).outline
  constant : (store.shape copy).constant = none

namespace Copies

variable {copy id : Nat}

theorem of_later (h : store.Copies copy id) (hid : id < store.shapes.size)
    (hlater : Later store next) : next.Copies copy id where
  lt := hlater.lt h.lt
  outline := by rw [hlater.outline h.lt, hlater.outline hid, h.outline]
  constant := by rw [hlater.constant h.lt, h.constant]

theorem kind (h : store.Copies copy id) : (store.shape copy).kind = (store.shape id).kind :=
  kind_of_outline h.outline

theorem known (h : store.Copies copy id) (hknown : (store.shape id).kind ≠ .unknown) :
    (store.shape copy).kind ≠ .unknown := by
  rwa [h.kind]

/-- Without a constant, a type has what it declares and nothing else. -/
theorem slot?_eq (h : store.Copies copy id) (hlater : Later store next) (name : String) :
    (next.shape copy).slot? name =
      (Record.get? name (store.shape copy).members).map .declared := by
  have hvalue : (store.shape copy).value? name = none := by
    unfold Shape.value?
    rw [h.constant]
    split <;> rfl
  cases hmember : Record.get? name (store.shape copy).members with
  | some member => exact hlater.slot?_of_declared (Shape.slot?_eq_declared_iff.mpr hmember)
  | none =>
      exact (hlater.slot?_eq_none_iff h.lt name).mpr
        (Shape.slot?_eq_none_iff.mpr ⟨hmember, hvalue⟩)

/-- A copy shows no constant and calls what the original calls. -/
theorem covers_nil (h : store.Copies copy id) (hmatches : store.Matches id b)
    (hlawful : store.Lawful) : store.Covers [] (.plain copy) (.plain b) := by
  intro sight hsight
  have hsight' : sight = (store.shape b).sight := sees_plain.mp hsight
  refine ⟨(store.shape copy).sight, sees_plain.mpr rfl, ?_⟩
  have hknown : (store.shape copy).kind ≠ .unknown := by
    rw [h.kind]
    exact hmatches.known
  rw [hsight', sight_of_known hknown, h.constant, callable_of_outline h.outline]
  exact hmatches.sight_covers hlawful fun value hvalue => by cases hvalue

theorem covers_original (h : store.Copies copy id) (hid : id < store.shapes.size)
    (hmembers : (store.shape copy).members = (store.shape id).members)
    (hknown : (store.shape id).kind ≠ .unknown) (hlater : Later store next)
    (hlawful : next.Lawful) (path : List String) :
    next.Covers path (.plain copy) (.plain id) := by
  have hcopy := h.of_later hid hlater
  have hknown' : (next.shape id).kind ≠ .unknown := by rwa [hlater.kind hid]
  have hcopyKnown : (next.shape copy).kind ≠ .unknown := by rwa [hcopy.kind]
  cases path with
  | nil => exact hcopy.covers_nil (.refl (hlater.lt hid) hknown') hlawful
  | cons name path =>
      intro sight hsight
      have hsees := sees_plain.mp hsight
      have hslot := h.slot?_eq hlater name
      rw [hmembers] at hslot
      cases hmember : Record.get? name (store.shape id).members with
      | some member =>
          rw [hmember] at hslot
          have hdeclared := hlater.slot?_of_declared (Shape.slot?_eq_declared_iff.mpr hmember)
          rw [seesAt_of_declared hknown' hdeclared] at hsees
          exact ⟨sight, sees_plain.mpr ((seesAt_of_declared hcopyKnown hslot).mpr hsees), .refl _⟩
      | none =>
          rw [hmember] at hslot
          refine ⟨.missing, sees_plain.mpr ((seesAt_of_none hcopyKnown hslot).mpr rfl), ?_⟩
          cases hvalue : (store.shape id).value? name with
          | none =>
              have hnone := (hlater.slot?_eq_none_iff hid name).mpr
                (Shape.slot?_eq_none_iff.mpr ⟨hmember, hvalue⟩)
              rw [(seesAt_of_none hknown' hnone).mp hsees]
              trivial
          | some value =>
              exact hlater.callsNothing_of_known hknown
                (Shape.slot?_eq_known_iff.mpr ⟨hmember, hvalue⟩) hsees

/-- A copy whose members cover those of a plain type, each under its name, covers that
type. -/
theorem covers_joined (h : store.Copies copy id) (hlater : Later store next) {path : List String}
    (hknown : (next.shape copy).kind ≠ .unknown) (hright : (next.shape b).kind ≠ .unknown)
    (hhas : Ty.hasMembers (next.shape b).kind = true) (name : String)
    (hmember : ∀ member, Record.get? name (store.shape copy).members = some member →
      next.CoversUnder name path member b)
    (hname : Record.get? name (store.shape copy).members = none →
      name ∉ (next.shape b).memberNames) :
    next.Covers (name :: path) (.plain copy) (.plain b) := by
  intro sight hsight
  have hsees := sees_plain.mp hsight
  have hslot := h.slot?_eq hlater name
  cases hfound : Record.get? name (store.shape copy).members with
  | some member =>
      rw [hfound] at hslot
      obtain ⟨other, hother, hcovers⟩ := hmember member hfound sight hsees
      exact ⟨other, sees_plain.mpr ((seesAt_of_declared hknown hslot).mpr hother), hcovers⟩
  | none =>
      rw [hfound] at hslot
      refine ⟨.missing, sees_plain.mpr ((seesAt_of_none hknown hslot).mpr rfl), ?_⟩
      exact callsNothing_of_not_mem hhas hright (hname hfound) hsees

end Copies

/-- Kinds that stand for one value have no two constants. -/
theorem Matches.ne_null (h : store.Matches a b) (hlawful : store.Lawful)
    (hdiffer : Ty.sameConstant (store.shape a).constant (store.shape b).constant = false) :
    (store.shape a).kind ≠ .null ∧ (store.shape a).kind ≠ .undefined := by
  constructor
  · intro hkind
    rw [hlawful.shape.null hkind, hlawful.shape.null (h.kind ▸ hkind)] at hdiffer
    cases hdiffer
  · intro hkind
    rw [hlawful.shape.undefined hkind, hlawful.shape.undefined (h.kind ▸ hkind)] at hdiffer
    cases hdiffer

end TypeStore

namespace Ty

open JoinM (ofTypes Yields)

variable {final : TypeStore} {along : List String → Prop} {store : TypeStore} {a b : Nat}

theorem yields_widenPlain (hlawful : store.Lawful) (ha : a < store.shapes.size)
    (hnull : (store.shape a).kind ≠ .null) (hundefined : (store.shape a).kind ≠ .undefined) :
    (ofTypes (widenPlain a)).Yields store fun widened next =>
      next.Copies widened a ∧ (next.shape widened).members = (next.shape a).members := by
  apply Yields.ofTypes hlawful (Makes.looks (makes_widenPlain store a))
  cases hconstant : (store.shape a).constant with
  | none =>
      rw [widenPlain_of_none hconstant]
      exact ⟨⟨ha, rfl, hconstant⟩, rfl⟩
  | some constant =>
      rw [widenPlain_of_some hconstant hnull hundefined]
      dsimp only
      rw [shape_add_self, shape_add_of_lt ha]
      refine ⟨⟨by simp [TypeStore.add], ?_, ?_⟩, rfl⟩
      · rw [shape_add_self, shape_add_of_lt ha]
        rfl
      · rw [shape_add_self]

/-- A copy that is kept for two types retains them, if the original covers the second
inside. -/
theorem retains_copy {copy : Nat} (hmatches : store.Matches a b) (hcopy : store.Copies copy a)
    (hmembers : (store.shape copy).members = (store.shape a).members)
    (hinside : hasMembers (store.shape a).kind = true → ∀ path, along path → path ≠ [] →
      final.Covers path (plain a) (plain b)) :
    Merged final along store a b copy := by
  have horiginal : ∀ path, Later store final → final.Lawful →
      final.Covers path (plain copy) (plain a) := fun path hfinal hlawful =>
    hcopy.covers_original hmatches.left_lt hmembers hmatches.known hfinal hlawful path
  refine ⟨hcopy.lt, fun hknown _ => hcopy.known hknown,
    fun hfinal hlawful path _ => horiginal path hfinal hlawful, ?_⟩
  intro hfinal hlawful path hpath
  have hlast := hcopy.of_later hmatches.left_lt hfinal
  have hboth := hmatches.of_later hfinal
  cases path with
  | nil => exact hlast.covers_nil hboth hlawful
  | cons name path =>
      cases hhas : hasMembers (store.shape a).kind with
      | true =>
          exact (horiginal _ hfinal hlawful).trans
            (hinside hhas _ hpath (List.cons_ne_nil _ _))
      | false =>
          have hkind := hfinal.kind hmatches.left_lt
          apply covers_of_no_members hlawful _ hboth.right_known
          · rw [hlast.kind, hkind, hhas]
          · rw [← hboth.kind, hkind, hhas]
          · rw [hlast.kind]
            exact hboth.known

/-- An object that is made of joined members retains both, if it has the names of the
first, and of the second, too, unless the first covers that. -/
theorem retains_joined {copy : Nat} (htail : ∀ name path, along (name :: path) → along path)
    (hmatches : store.Matches a b) (hhas : hasMembers (store.shape a).kind = true)
    (hcopy : store.Copies copy a)
    (hjoined : JoinedSoFar final along a b (store.shape copy).members store)
    (hnames : ∀ name ∈ (store.shape a).memberNames,
      ∃ member, Record.get? name (store.shape copy).members = some member)
    (hothers : (∀ name ∈ (store.shape b).memberNames, name ∈ (store.shape a).memberNames) ∨
      ∀ path, along path → path ≠ [] → final.Covers path (plain a) (plain b)) :
    Merged final along store a b copy := by
  have hhas' : hasMembers (store.shape b).kind = true := hmatches.kind ▸ hhas
  have hinside : ∀ {other : Nat}, other < store.shapes.size →
      (store.shape other).kind ≠ .unknown → hasMembers (store.shape other).kind = true →
      (∀ name member, Record.get? name (store.shape copy).members = some member →
        TypeStore.RetainsUnder final along store name member other) →
      (∀ name ∈ (store.shape other).memberNames, name ∈ (store.shape a).memberNames) →
      Later store final → final.Lawful → ∀ name path, along (name :: path) →
        final.Covers (name :: path) (plain copy) (plain other) := by
    intro other hother hknown hhasOther hmember hsubset hfinal hlawful name path hpath
    apply hcopy.covers_joined hfinal
    · rw [(hcopy.of_later hmatches.left_lt hfinal).kind]
      exact (hmatches.of_later hfinal).known
    · rwa [hfinal.kind hother]
    · rwa [hfinal.kind hother]
    · exact fun member hfound => hmember name member hfound hfinal hlawful path (htail _ _ hpath)
    · intro hnone hmem
      rw [hfinal.mem_memberNames hother hhasOther] at hmem
      obtain ⟨member, hfound⟩ := hnames name (hsubset name hmem)
      rw [hnone] at hfound
      cases hfound
  have hleft := hinside hmatches.left_lt hmatches.known hhas
    (fun name member hfound => (hjoined name member hfound).2.1) (fun _ hname => hname)
  refine ⟨hcopy.lt, fun hknown _ => hcopy.known hknown, ?_, ?_⟩
  · intro hfinal hlawful path hpath
    cases path with
    | nil =>
        exact (hcopy.of_later hmatches.left_lt hfinal).covers_nil
          ((Matches.refl hmatches.left_lt hmatches.known).of_later hfinal) hlawful
    | cons name path => exact hleft hfinal hlawful name path hpath
  · intro hfinal hlawful path hpath
    cases path with
    | nil =>
        exact (hcopy.of_later hmatches.left_lt hfinal).covers_nil (hmatches.of_later hfinal) hlawful
    | cons name path =>
        rcases hothers with hsubset | hcovers
        · exact hinside hmatches.right_lt hmatches.right_known hhas'
            (fun name member hfound => (hjoined name member hfound).2.2) hsubset hfinal hlawful
            name path hpath
        · exact (hleft hfinal hlawful name path hpath).trans
            (hcovers _ hpath (List.cons_ne_nil _ _))

/-- A type that nothing is known of stands for both. -/
theorem merged_unknown (ha : a < store.shapes.size) (hb : b < store.shapes.size)
    (heither : (store.shape a).kind = .unknown ∨ (store.shape b).kind = .unknown) :
    Merged final along (store.add { kind := .unknown, mutable := true, lenient := true }) a b
      store.shapes.size := by
  have hlt : store.shapes.size < (store.shapes.push
      { kind := .unknown, mutable := true, lenient := true }).size := by simp
  have hkind : ((store.add { kind := .unknown, mutable := true, lenient := true }).shape
      store.shapes.size).kind = .unknown := by rw [shape_add_self]
  refine ⟨hlt, fun hleft hright => ?_, .of_unknown hlt hkind, .of_unknown hlt hkind⟩
  rw [shape_add_of_lt ha] at hleft
  rw [shape_add_of_lt hb] at hright
  exact absurd heither (not_or.mpr ⟨hleft, hright⟩)

/-- The first of two types with the same constant stands for both, if it covers the second
inside. -/
theorem merged_kept (hmatches : store.Matches a b)
    (hconstant : sameConstant (store.shape a).constant (store.shape b).constant = true)
    (hinside : hasMembers (store.shape a).kind = true → ∀ path, along path → path ≠ [] →
      final.Covers path (plain a) (plain b)) : Merged final along store a b a := by
  refine ⟨hmatches.left_lt, fun hknown _ => hknown, .self List.mem_cons_self, ?_⟩
  intro hfinal hlawful path hpath
  apply (hmatches.of_later hfinal).covers_left hlawful
  · rw [hfinal.constant hmatches.left_lt, hfinal.constant hmatches.right_lt, hconstant]
  · intro hhas hpath'
    rw [hfinal.kind hmatches.left_lt] at hhas
    exact hinside hhas path hpath hpath'

/-- Two types that are equivalent are of one kind, and the second has what the first
declares. -/
theorem matches_of_equivalent {after : TypeStore} (ha : a < store.shapes.size)
    (hb : b < store.shapes.size) (hcomparable : Comparable store a b)
    (hcompared : equivalent (plain a) (plain b) store = (true, after)) :
    after.Matches a b ∧ (hasMembers (after.shape a).kind = true →
      ∀ name ∈ (after.shape a).memberNames, (after.shape b).slot? name ≠ none) := by
  have hlater : Later store after := by
    have hlooks : Looks store (equivalent (plain a) (plain b) store).2 :=
      looks_equivalent store (plain a) (plain b)
    rw [hcompared] at hlooks
    exact hlooks.later
  obtain ⟨hkind, hslots⟩ := of_equivalent hcomparable.ne ha hb hcomparable.left
    hcomparable.right (congrArg Prod.fst hcompared)
  refine ⟨Matches.of_later ⟨ha, hb, hcomparable.left, hkind, hcomparable.calls⟩ hlater, ?_⟩
  intro hhas name hname
  rw [hlater.kind ha] at hhas
  rw [hlater.mem_memberNames ha hhas] at hname
  rw [ne_eq, hlater.slot?_eq_none_iff hb]
  exact hslots hhas name hname

variable {deeper restart : Merger} {keeps : TypeId → TypeId → Bool}

/-- An object made of what the members of two objects join to retains both. -/
theorem merged_joined (htail : ∀ name path, along (name :: path) → along path)
    (hdeeper : deeper.Retains final along) (hrestart : restart.Retains final along)
    (hlawful : store.Lawful) (hmatches : store.Matches a b)
    (hhas : hasMembers (store.shape a).kind = true)
    (hslots : ∀ name ∈ (store.shape a).memberNames, (store.shape b).slot? name ≠ none)
    (hothers : (∀ name ∈ (store.shape b).memberNames, name ∈ (store.shape a).memberNames) ∨
      ∀ path, along path → path ≠ [] → final.Covers path (plain a) (plain b))
    {left : Shape} (hleft : left.outline = (store.shape a).outline)
    {members : List (String × Ty)} {last : TypeStore}
    (hjoining : joinMembers (joinMemberWith deeper restart) a b (store.shape a).memberNames []
      store = some (members, last)) :
    (last.add { left with constant := none, members }).Lawful ∧
      Later store (last.add { left with constant := none, members }) ∧
      Merged final along (last.add { left with constant := none, members }) a b
        last.shapes.size := by
  have hempty : JoinedSoFar final along a b [] store := by
    intro name member hmember
    cases hmember
  have hnames : ∀ name ∈ (store.shape a).memberNames,
      (store.shape a).slot? name ≠ none ∧ (store.shape b).slot? name ≠ none :=
    fun name hname => ⟨Shape.slot?_ne_none_of_mem hhas hname, hslots name hname⟩
  obtain ⟨hlast, hlater, hjoined, hcomplete⟩ := yields_joinMembers
    (fun _ _ _ hlawful hx hy => yields_joinMemberWith hdeeper hrestart hlawful hx hy) hlawful
    hmatches.left_lt hmatches.right_lt hmatches.known hmatches.right_known hnames hempty
    members last hjoining
  have hboth := hmatches.of_later hlater
  have houtline : left.outline = (last.shape a).outline := by
    rw [hleft, hlater.outline hmatches.left_lt]
  have hkind : hasMembers (last.shape a).kind = true := by
    rw [hlater.kind hmatches.left_lt, hhas]
  have hshape : ({ left with constant := none, members } : Shape).Lawful := by
    have hsame := congrArg (fun shape : Shape => { shape with members }) houtline
    have hgeneral : ({ last.shape a with constant := none, members } : Shape).Lawful := by
      obtain ⟨hnull, hundefined⟩ := Kind.ne_null_of_hasMembers hkind
      apply hlast.shape.general hnull hundefined
      intro hnone
      rw [hkind] at hnone
      cases hnone
    exact hsame ▸ hgeneral
  have hadd : Later last (last.add { left with constant := none, members }) := .add last _
  have hall := hlater.trans hadd
  have hself := shape_add_self last { left with constant := none, members }
  have hcopy : (last.add { left with constant := none, members }).Copies last.shapes.size a := by
    refine ⟨by simp [TypeStore.add], ?_, ?_⟩
    · rw [hself, shape_add_of_lt hboth.left_lt]
      exact houtline
    · rw [hself]
  refine ⟨hlast.add hshape fun name member hmember => (hjoined name member hmember).1, hall,
    retains_joined htail (hboth.of_later hadd) ?_ hcopy ?_ ?_ ?_⟩
  · rw [hadd.kind hboth.left_lt, hkind]
  · rw [hself]
    exact hjoined.of_later hadd
  · intro name hname
    rw [hself]
    rw [hall.mem_memberNames hmatches.left_lt hhas] at hname
    exact hcomplete name (.inl hname)
  · rcases hothers with hsubset | hcovers
    · left
      intro name hname
      rw [hall.mem_memberNames hmatches.right_lt (hmatches.kind ▸ hhas)] at hname
      rw [hall.mem_memberNames hmatches.left_lt hhas]
      exact hsubset name hname
    · exact .inr hcovers

/-- A level of a merge retains both types if the levels inside it do, and if what it keeps
for something else covers that. -/
theorem retains_mergeStep (htail : ∀ name path, along (name :: path) → along path)
    (hkeeps : ∀ x y, keeps x y = true → ∀ path, along path → path ≠ [] →
      final.Covers path (plain x) (plain y))
    (hdeeper : deeper.Retains final along) (hrestart : restart.Retains final along)
    (tooDeep : Bool) : (mergeStep keeps tooDeep deeper restart).Retains final along := by
  intro store a b hlawful ha hb result next hrun
  have hlooked : ∀ {found : Bool} {after : TypeStore},
      equivalent (plain a) (plain b) store = (found, after) → after.Lawful ∧ Later store after := by
    intro found after hcompared
    have hlooks : Looks store (equivalent (plain a) (plain b) store).2 :=
      looks_equivalent store (plain a) (plain b)
    rw [hcompared] at hlooks
    exact ⟨hlawful.of_looks hlooks, hlooks.later⟩
  have hinside : ((store.shape a).kind.isPrimitive || keeps a b) = true →
      hasMembers (store.shape a).kind = true → ∀ path, along path → path ≠ [] →
        final.Covers path (plain a) (plain b) := by
    intro hallowed hhas
    rcases Bool.or_eq_true_iff.mp hallowed with hprimitive | hkept
    · rw [Kind.hasMembers_of_primitive hprimitive] at hhas
      cases hhas
    · exact hkeeps a b hkept
  cases mergeStep_ends hrun with
  | same heq =>
      subst heq
      refine ⟨hlawful, .refl store, ?_⟩
      rintro merged ⟨⟩
      exact ⟨ha, fun hknown _ => hknown, .self List.mem_cons_self, .self List.mem_cons_self⟩
  | unknown heither =>
      refine ⟨hlawful.add (by constructor <;> simp) nofun, .add store _, ?_⟩
      rintro merged ⟨⟩
      exact merged_unknown ha hb heither
  | apart => exact ⟨hlawful, .refl store, nofun⟩
  | unlike _ hcompared =>
      obtain ⟨hafter, hlater⟩ := hlooked hcompared
      exact ⟨hafter, hlater, nofun⟩
  | kept hcomparable hcompared hconstant hallowed =>
      obtain ⟨hafter, hlater⟩ := hlooked hcompared
      obtain ⟨hmatches, -⟩ := matches_of_equivalent ha hb hcomparable hcompared
      refine ⟨hafter, hlater, ?_⟩
      rintro merged ⟨⟩
      apply merged_kept hmatches
      · rw [hlater.constant ha, hlater.constant hb, hconstant]
      · rw [hlater.kind ha]
        exact hinside hallowed
  | widened hcomparable hcompared hconstant _ hallowed hwidening =>
      obtain ⟨hafter, hlater⟩ := hlooked hcompared
      obtain ⟨hmatches, -⟩ := matches_of_equivalent ha hb hcomparable hcompared
      rw [← hlater.constant ha, ← hlater.constant hb] at hconstant
      obtain ⟨hnull, hundefined⟩ := hmatches.ne_null hafter hconstant
      obtain ⟨hlast, hlater', hcopy, hmembers⟩ := yields_widenPlain hafter hmatches.left_lt hnull
        hundefined _ _ (congrArg some hwidening)
      refine ⟨hlast, hlater.trans hlater', ?_⟩
      rintro merged ⟨⟩
      apply retains_copy (hmatches.of_later hlater') hcopy hmembers
      rw [hlater'.kind hmatches.left_lt, hlater.kind ha]
      exact hinside hallowed
  | @joined after _ _ hcomparable hcompared _ hobject hallowed hjoining =>
      obtain ⟨hafter, hlater⟩ := hlooked hcompared
      obtain ⟨hmatches, hslots⟩ := matches_of_equivalent ha hb hcomparable hcompared
      have hhas : hasMembers (after.shape a).kind = true :=
        Kind.hasMembers_of_not_primitive (by rw [hlater.kind ha, hobject.1]) hmatches.known
      have hothers := Bool.or_eq_true_iff.mp hallowed
      obtain ⟨hlast, hlater', hmerged⟩ := merged_joined htail hdeeper hrestart hafter hmatches hhas
        (hslots hhas) (hothers.imp (fun hsubset name hname => by
          simpa using List.all_eq_true.mp hsubset name hname) (hkeeps a b))
        (hlater.outline ha).symm hjoining
      refine ⟨hlast, hlater.trans hlater', ?_⟩
      rintro merged ⟨⟩
      exact hmerged

theorem mergeWhere_retains (htail : ∀ name path, along (name :: path) → along path)
    (hkeeps : ∀ x y, keeps x y = true → ∀ path, along path → path ≠ [] →
      final.Covers path (plain x) (plain y)) (bound depth : Nat) :
    (mergeWhere keeps bound depth).Retains final along := by
  induction bound generalizing depth with
  | zero => exact fun _ _ _ _ _ _ => Yields.fail
  | succ bound ih => exact retains_mergeStep htail hkeeps (ih (depth + 1)) (ih 0) _

end Ty

end ScriptCheck
