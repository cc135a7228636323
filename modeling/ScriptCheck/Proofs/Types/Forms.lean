import ScriptCheck.Proofs.Types.Access
import ScriptCheck.Proofs.Types.Bound

/-!
# Closed stores stay closed

What is made, read or joined leaves all other types what they are, and a write puts in a shape only
what the store has.  So from a closed store each computation on types leads to a closed one, which
has the types that come of it.
-/

namespace ScriptCheck

open TypeStore

/-! ## More rules -/

namespace JoinM.Ensures

variable {α β : Type} {store : TypeStore} {post : α → TypeStore → Prop}
  {rest : β → TypeStore → Prop}

theorem ofTypes_bind {computation : TypeM α} {f : α → TypeM β}
    (h : Ensures store (JoinM.ofTypes computation >>=
    fun result => JoinM.ofTypes (f result)) rest) :
    Ensures store (JoinM.ofTypes (computation >>= f)) rest :=
  h

theorem get_bind {f : TypeStore → JoinM β} (h : Ensures store (f store) rest) :
    Ensures store (get >>= f) rest :=
  h

theorem steady {computation : TypeM α} (h : TypeM.Follows Steady store computation) :
    Ensures store (JoinM.ofTypes computation) fun _ _ => True :=
  ofTypes h trivial

/-- What each step of a loop keeps up holds in the end. -/
theorem foldlM {items : List β} {f : α → β → JoinM α} {start : α} (hstart : post start store)
    (hf : ∀ result, ∀ item ∈ items, ∀ next, Steady store next → post result next →
      Ensures next (f result item) post) : Ensures store (items.foldlM f start) post :=
  Leads.foldlM (R := Steady) hstart hf

end JoinM.Ensures

namespace TypeStore

def Closes (before after : TypeStore) : Prop :=
  before.Closed → after.Closed ∧ before.shapes.size ≤ after.shapes.size

instance : IsPreorder TypeStore Closes where
  refl _ h := ⟨h, Nat.le_refl _⟩
  trans _ _ _ hfirst hnext h := by
    obtain ⟨hclosed, hsize⟩ := hfirst h
    obtain ⟨hclosed', hsize'⟩ := hnext hclosed
    exact ⟨hclosed', Nat.le_trans hsize hsize'⟩

variable {store next : TypeStore}

theorem Steady.closes (h : Steady store next) : Closes store next :=
  fun hclosed => ⟨(h hclosed).1, (h hclosed).2.1⟩

theorem Closes.holds (h : Closes store next) (hclosed : store.Closed) {ty : Ty}
    (hty : store.Holds ty) : next.Holds ty :=
  hty.of_size_le (h hclosed).2

theorem closes_modify {id : Nat} {f : Shape → Shape}
    (h : store.Closed → store.Supports (f (store.shape id))) :
    Closes store (store.modify id f) := by
  intro hclosed
  have hsize := Nat.le_of_eq (size_modify store id f).symm
  refine ⟨fun other => ?_, hsize⟩
  rcases shape_modify_cases store id f other with hold | ⟨-, hnew⟩
  · rw [hold]
    exact (hclosed other).of_size_le hsize
  · rw [hnew]
    exact (h hclosed).of_size_le hsize

end TypeStore

namespace Ty

open TypeM (Follows)
open JoinM (ofTypes Ensures)

variable {store next : TypeStore}

/-- A computation yields a type that the store then has, and changes none. -/
def Forms (store : TypeStore) (computation : JoinM Ty) : Prop :=
  computation.Ensures store fun ty next => next.Holds ty

/-- A computation yields at most a type that the store then has, and changes none. -/
def MayForm (store : TypeStore) (computation : JoinM (Option Ty)) : Prop :=
  computation.Ensures store fun result next => ∀ ty, result = some ty → next.Holds ty

theorem MayForm.none : MayForm store (pure none) := Ensures.pure fun _ h => (nomatch h)

theorem MayForm.some {ty : Ty} (h : store.Holds ty) : MayForm store (pure (some ty)) :=
  Ensures.pure fun _ hother => Option.some.inj hother ▸ h

theorem Forms.some {computation : JoinM Ty} (h : Forms store computation) :
    MayForm store (do return some (← computation)) :=
  h.bind fun _ _ _ hholds => MayForm.some hholds

/-! ## Making types -/

theorem forms_new {shape : Shape} (h : store.Closed → store.Supports shape) :
    Forms store (ofTypes (new shape)) := by
  have hsteady : Follows Steady store (new shape) := steady_add h
  refine Ensures.ofTypes hsteady (holds_plain ?_)
  exact Nat.lt_of_lt_of_eq (Nat.lt_succ_self _) (Array.size_push _).symm

theorem forms_bare {shape : Shape} (hmembers : shape.members = []) (hindexer : shape.indexer = none)
    (hrecord : shape.isRecord = false) : Forms store (ofTypes (new shape)) :=
  forms_new fun _ => supports_bare hmembers (fun helement => by simp [hindexer] at helement) hrecord

theorem forms_unknown : Forms store (ofTypes unknown) := forms_bare rfl rfl rfl

theorem forms_number : Forms store (ofTypes number) := forms_bare rfl rfl rfl

theorem forms_string : Forms store (ofTypes string) := by
  change Forms store (ofTypes (new { kind := .string, lenient := true }) >>= fun element =>
    ofTypes (new { kind := .string, lenient := true, indexer := some ⟨.number, some element⟩ }))
  apply Ensures.bind (forms_bare rfl rfl rfl)
  intro element next _ helement
  refine forms_new fun _ => supports_bare rfl (fun hfound => ?_) rfl
  cases hfound
  exact helement

theorem forms_ofValue (hclosed : store.Closed) (value : Value) :
    Forms store (ofTypes (ofValue value)) := by
  obtain ⟨hsteady, id, hid, hdepicts⟩ := depicts_ofValue hclosed value
  refine Ensures.ofTypes hsteady ?_
  rw [hid]
  exact holds_plain hdepicts.lt

theorem steady_freshTag : Follows Steady store freshTag := steady_tag store

theorem forms_object (hclosed : store.Closed) {members : List (String × Ty)}
    (hmembers : ∀ {name : String} {member : Ty}, Record.get? name members = some member →
      store.Holds member) : Forms store (ofTypes (object members)) := by
  apply Ensures.ofTypes_bind
  apply (Ensures.steady steady_freshTag).bind
  intro tag tagged htagged _
  apply Ensures.ofTypes_bind
  apply (Ensures.steady (follows_memberConstants tagged members)).bind
  intro values last hlast _
  have hsteady := trans_of Steady htagged hlast
  refine forms_new fun _ => ⟨fun hmember => hsteady.holds hclosed (hmembers hmember), ?_, ?_⟩
  · intro key element helement
    cases helement
  · exact fun _ => rfl

theorem forms_function (hclosed : store.Closed) (callable : Callable) :
    Forms store (ofTypes (function callable)) := by
  apply Ensures.ofTypes_bind
  apply Ensures.bind (forms_object hclosed fun hmember => by cases hmember)
  intro prototype next _ hprototype
  refine forms_new fun _ => ⟨fun {name member} hmember => ?_, ?_, ?_⟩
  · cases List.mem_singleton.mp (Record.mem_of_get? hmember)
    exact hprototype
  · intro key element helement
    cases helement
  · exact fun _ => rfl

theorem forms_ofKind (hclosed : store.Closed) (kind : Kind) :
    Forms store (ofTypes (ofKind kind)) := by
  cases kind with
  | string => exact forms_string
  | number | boolean | null | undefined | function | unknown => exact forms_bare rfl rfl rfl
  | object => exact forms_object hclosed fun hmember => by cases hmember

theorem forms_toConstant (hclosed : store.Closed) (ty : Ty) (value : Value) :
    Forms store (ofTypes (ty.toConstant value)) := by
  cases ty with
  | union variants => exact forms_ofValue hclosed value
  | plain id =>
      apply Ensures.ofTypes_bind
      apply Ensures.shapeOf_bind
      split
      · rename_i hholds
        refine forms_new fun _ => ⟨(hclosed id).member, (hclosed id).element, fun hrecord => ?_⟩
        obtain ⟨tag, members, hconstant⟩ := Shape.isRecord_iff.mp hrecord
        cases hconstant
        change hasMembers (store.shape id).kind = true
        cases hkind : (store.shape id).kind <;> simp_all [holds, hasMembers]
      · exact forms_ofValue hclosed value

/-! ## Reading members -/

theorem mayForm_declaredMember (hclosed : store.Closed) (id : Nat) (name : String) :
    MayForm store (ofTypes (declaredMember id name)) := by
  intro result next hrun
  obtain ⟨hsteady, hreads⟩ := ensures_declaredMember hclosed id name result next hrun
  exact ⟨hsteady, hreads.holds⟩

theorem mayForm_ownMember (hclosed : store.Closed) (id : Nat) (name : String) :
    MayForm store (ofTypes (ownMember id name)) := by
  apply Ensures.ofTypes_bind
  apply (mayForm_declaredMember hclosed id name).bind
  intro declared? next hsteady hdeclared
  have hnext := (hsteady hclosed).1
  cases declared? with
  | some member => exact MayForm.some (hdeclared member rfl)
  | none =>
      apply Ensures.ofTypes_bind
      apply Ensures.shapeOf_bind
      split
      · split
        · exact (forms_ofValue hnext _).some
        · exact forms_number.some
      · exact MayForm.none

theorem mayForm_namedMember (hclosed : store.Closed) (id : Nat) (name : String) :
    MayForm store (ofTypes (namedMember id name)) := by
  apply Ensures.ofTypes_bind
  apply (mayForm_ownMember hclosed id name).bind
  intro own? next hsteady hown
  cases own? with
  | some member => exact MayForm.some (hown member rfl)
  | none =>
      apply Ensures.ofTypes_bind
      apply Ensures.shapeOf_bind
      unfold textMember
      split
      · exact (forms_ofValue (hsteady hclosed).1 _).some
      · exact MayForm.none

theorem mayForm_indexedMember (hclosed : store.Closed) (id : Nat) (key : Ty) :
    MayForm store (ofTypes (indexedMember id key)) := by
  apply Ensures.ofTypes_bind
  apply Ensures.shapeOf_bind
  split
  · exact MayForm.none
  · rename_i indexer hindexer
    obtain ⟨kind, element?⟩ := indexer
    apply Ensures.ofTypes_bind
    apply (Ensures.steady (follows_accepts store _ key)).bind
    intro accepted next hsteady _
    split
    · cases element? with
      | some element => exact MayForm.some (hsteady.holds hclosed ((hclosed id).element hindexer))
      | none => exact forms_unknown.some
    · exact MayForm.none

theorem mayForm_plainMember (hclosed : store.Closed) (id : Nat) (key : Ty) :
    MayForm store (ofTypes (plainMember id key)) := by
  apply Ensures.ofTypes_bind
  apply Ensures.shapeOf_bind
  split
  · exact forms_unknown.some
  apply Ensures.ofTypes_bind
  apply (Ensures.steady (follows_keyName? store key)).bind
  intro name? next hsteady _
  have hnext := (hsteady hclosed).1
  cases name? with
  | none => exact mayForm_indexedMember hnext id key
  | some name =>
      apply Ensures.ofTypes_bind
      apply (mayForm_namedMember hnext id name).bind
      intro named? last hlast hnamed
      cases named? with
      | some member => exact MayForm.some (hnamed member rfl)
      | none => exact mayForm_indexedMember (hlast hnext).1 id key

theorem ensures_variantMembers (hclosed : store.Closed) (key : Ty) (variants : List TypeId) :
    (ofTypes (variantMembers key variants)).Ensures store fun members next =>
      ∀ member ∈ members, next.Holds member := by
  induction variants generalizing store with
  | nil => exact Ensures.pure fun member hmember => absurd hmember List.not_mem_nil
  | cons id rest ih =>
      apply Ensures.ofTypes_bind
      apply (mayForm_plainMember hclosed id key).bind
      intro member? next hsteady hmember
      have hnext := (hsteady hclosed).1
      have hrest : ∀ {member : Ty} {last : TypeStore}, Steady next last → last.Holds member →
          (ofTypes (do return member :: (← variantMembers key rest))).Ensures last
            fun members next => ∀ member ∈ members, next.Holds member := by
        intro member last hlast hholds
        have hclosed' := (hlast hnext).1
        apply Ensures.ofTypes_bind
        apply (ih hclosed').bind
        intro members after hafter hmembers
        refine Ensures.pure ?_
        rw [List.forall_mem_cons]
        exact ⟨hafter.holds hclosed' hholds, hmembers⟩
      cases member? with
      | some member => exact hrest (refl_of Steady next) (hmember member rfl)
      | none => exact Ensures.bind forms_unknown fun _ _ hlast hholds => hrest hlast hholds

/-! ## Joining types -/

theorem forms_join (bound : Nat) (hclosed : store.Closed) {a b : Ty} (ha : store.Holds a)
    (hb : store.Holds b) : Forms store (join bound a b) := by
  intro joined next hrun
  obtain ⟨hsteady, hjoins⟩ := ensures_join bound hclosed ha hb joined next hrun
  exact ⟨hsteady, hjoins.holds⟩

theorem mayForm_joinAll (bound : Nat) (hclosed : store.Closed) {types : List Ty}
    (htypes : ∀ ty ∈ types, store.Holds ty) : MayForm store (joinAll bound types) := by
  cases types with
  | nil => exact MayForm.none
  | cons first rest =>
      refine Forms.some (Ensures.foldlM (htypes first List.mem_cons_self) ?_)
      intro joined ty hty next hnext hjoined
      exact forms_join bound (hnext hclosed).1 hjoined
        (hnext.holds hclosed (htypes ty (List.mem_cons_of_mem _ hty)))

theorem mayForm_member? (bound : Nat) (hclosed : store.Closed) (ty key : Ty) :
    MayForm store (member? bound ty key) := by
  cases ty with
  | plain id => exact mayForm_plainMember hclosed id key
  | union variants =>
      apply (ensures_variantMembers hclosed key variants).bind
      exact fun _ _ hnext hmembers => mayForm_joinAll bound (hnext hclosed).1 hmembers

theorem forms_widenPlain (hclosed : store.Closed) {id : Nat} (hid : id < store.shapes.size) :
    (ofTypes (widenPlain id)).Ensures store fun widened next => next.Holds (plain widened) := by
  intro widened next hrun
  obtain ⟨hsteady, hlt, -⟩ := ensures_widenPlain hclosed hid widened next hrun
  exact ⟨hsteady, holds_plain hlt⟩

theorem forms_widen (bound : Nat) (hclosed : store.Closed) {ty : Ty} (hty : store.Holds ty) :
    Forms store (widen bound ty) := by
  cases ty with
  | plain id =>
      apply (forms_widenPlain hclosed (hty.lt List.mem_cons_self)).bind
      exact fun _ _ _ hwidened => Ensures.pure hwidened
  | union variants =>
      cases variants with
      | nil => exact forms_unknown
      | cons first rest =>
          apply (forms_widenPlain hclosed (hty.lt List.mem_cons_self)).bind
          intro start next hsteady hstart
          apply Ensures.foldlM hstart
          intro joined id hid last hlast hjoined
          have hall := trans_of Steady hsteady hlast
          have hclosed' := (hall hclosed).1
          have hid' := Nat.lt_of_lt_of_le (hty.lt (List.mem_cons_of_mem _ hid)) (hall hclosed).2.1
          apply (forms_widenPlain hclosed' hid').bind
          intro widened after hafter hwidened
          exact forms_join bound (hafter hclosed').1 (hafter.holds hclosed' hjoined) hwidened

theorem mayForm_joinWidened (bound : Nat) (hclosed : store.Closed) {types : List Ty}
    (htypes : ∀ ty ∈ types, store.Holds ty) : MayForm store (joinWidened bound types) := by
  cases types with
  | nil => exact MayForm.none
  | cons first rest =>
      apply (forms_widen bound hclosed (htypes first List.mem_cons_self)).bind
      intro start next hsteady hstart
      refine Forms.some (Ensures.foldlM hstart ?_)
      intro joined ty hty last hlast hjoined
      have hall := trans_of Steady hsteady hlast
      have hclosed' := (hall hclosed).1
      have hholds := hall.holds hclosed (htypes ty (List.mem_cons_of_mem _ hty))
      apply (forms_widen bound hclosed' hholds).bind
      intro widened after hafter hwidened
      exact forms_join bound (hafter hclosed').1 (hafter.holds hclosed' hjoined) hwidened

theorem forms_array (bound : Nat) (hclosed : store.Closed) {elements : List Ty}
    (helements : ∀ ty ∈ elements, store.Holds ty) : Forms store (array bound elements) := by
  have htag : Follows Steady store (elementConstants elements) := steady_tag store
  apply (Ensures.steady htag).bind
  intro constant next hsteady _
  apply (mayForm_joinWidened bound (hsteady hclosed).1 fun ty hty =>
    hsteady.holds hclosed (helements ty hty)).bind
  intro element? last _ helement
  refine forms_new fun _ => ⟨fun hmember => (by cases hmember),
    fun {key element} hindexer => ?_, ?_⟩
  · cases hindexer
    exact helement element rfl
  · exact fun _ => rfl

theorem forms_narrow (bound : Nat) (hclosed : store.Closed) {ty : Ty} (hty : store.Holds ty)
    (kind : Kind) : Forms store (narrow bound ty kind) := by
  have hmatching : ∀ found ∈ (ty.variants.filter fun id =>
      (store.shape id).kind = kind).map plain, store.Holds found := by
    intro found hfound
    obtain ⟨id, hid, rfl⟩ := List.mem_map.mp hfound
    exact holds_plain (hty.lt (List.mem_of_mem_filter hid))
  apply Ensures.get_bind
  apply (mayForm_joinAll bound hclosed hmatching).bind
  intro narrowed? next hsteady hnarrowed
  cases narrowed? with
  | some narrowed => exact Ensures.pure (hnarrowed narrowed rfl)
  | none => exact forms_ofKind (hsteady hclosed).1 kind

/-! ## Writing members -/

theorem closes_setMember (hclosed : store.Closed) (id : Nat) (name : String) {member : Ty}
    (hmember : store.Holds member) : Follows Closes store (setMember id name member) := by
  apply (follows_constant? store member).bind
  intro value next hnext
  apply (steady_freshTag.mono Steady.closes).bind
  intro tag after hafter
  have hcloses := trans_of Closes hnext hafter
  apply closes_modify
  intro hafter'
  refine ⟨fun {key found} hfound => ?_, (hafter' id).element, fun hrecord => ?_⟩
  · by_cases hkey : key = name
    · subst hkey
      rw [Record.get?_insert_self] at hfound
      cases hfound
      exact hcloses.holds hclosed hmember
    · rw [Record.get?_insert_of_ne hkey] at hfound
      exact (hafter' id).member hfound
  · obtain ⟨own, members, hconstant⟩ := Shape.isRecord_iff.mp hrecord
    apply (hafter' id).record
    rw [Shape.isRecord_iff]
    split at hconstant
    · exact ⟨_, _, ‹_›⟩
    · cases hconstant

theorem closes_setPlain (hclosed : store.Closed) (id : Nat) (key : Ty) {value : Ty}
    (hvalue : store.Holds value) : Follows Closes store (setPlain id key value) := by
  refine follows_setPlain (fun _ _ name => closes_setMember hclosed id name hvalue) fun _ _ => ?_
  exact closes_modify fun hclosed => ⟨(hclosed id).member, (hclosed id).element, nofun⟩

theorem closes_trySet (hclosed : store.Closed) (ty key : Ty) {value : Ty}
    (hvalue : store.Holds value) : Follows Closes store (ty.trySet key value) :=
  .foldlM fun _ id _ hnext =>
    (closes_setPlain (hnext hclosed).1 id key (hnext.holds hclosed hvalue)).bind
      fun _ _ _ => .pure _

/-! ## Looking for what is lacking -/

theorem steady_of_ensures {α : Type} {computation : TypeM α} {post : α → TypeStore → Prop}
    (h : store.Closed → (ofTypes computation).Ensures store post) :
    Follows Steady store computation :=
  fun hclosed => (h hclosed _ _ rfl).1 hclosed

theorem steady_plainLacks (id : Nat) (key : Ty) : Follows Steady store (plainLacks id key) :=
  follows_plainLacks fun name => steady_of_ensures fun hclosed => mayForm_ownMember hclosed id name

theorem steady_lacks (ty key : Ty) : Follows Steady store (ty.lacks key) :=
  .anyM fun id _ _ => steady_plainLacks id key

end Ty

end ScriptCheck
