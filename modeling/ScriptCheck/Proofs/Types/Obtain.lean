import ScriptCheck.Proofs.Types.Operation
import ScriptCheck.Proofs.Types.Variants

/-!
# Every type obtained is in canonical form

Whatever is done with types, as long as members are written only where the type allows it or are
set on types that can have members, all types are in canonical form.  So a union has at least two
variants, which differ and are of different primitive kinds, a join calls what its parts call, and
what is narrowed to a primitive kind is one plain type.  Two variants call the same function only
if more than one type was made for that function.
-/

namespace ScriptCheck

open TypeStore

/-- An operation writes members where the type may refuse or sets them on a type that can have
members, and makes no second type for a function unless the function may be shared. -/
def Operation.Checked (shared : Nat → Prop) (store : TypeStore) : Operation → Prop
  | .function callable => shared callable.tag ∨ store.Uncalled callable.tag
  | .declare (.plain id) _ _ => Ty.hasMembers (store.shape id).kind = true
  | _ => True

namespace Ty

open JoinM (ofTypes Leads Provides MayProvide)

variable {shared : Nat → Prop} {store : TypeStore}

/-- An operation on types in canonical form gives such types. -/
theorem leads_run (bound : Nat) (horderly : store.Orderly) {operation : Operation}
    (hoperands : ∀ ty ∈ operation.operands, store.Canonical ty)
    (hchecked : operation.Checked shared store) :
    (operation.run bound).Leads (Keeps shared) store fun made next =>
      ∀ ty ∈ made, next.Canonical ty := by
  cases operation with
  | general kind => exact .single (.ofTypes (provides_ofKind horderly kind))
  | known value => exact .single (.ofTypes (provides_ofValue horderly value))
  | object members =>
      refine .single (.ofTypes (provides_object horderly fun hmember => ?_))
      exact hoperands _ (List.mem_map_of_mem (Record.mem_of_get? hmember))
  | array elements => exact .single (provides_array bound horderly hoperands)
  | function callable => exact .single (.ofTypes (provides_function horderly hchecked))
  | pin ty value => exact .single (.ofTypes (provides_toConstant horderly ty value))
  | widen ty => exact .single (provides_widen bound horderly (hoperands ty List.mem_cons_self))
  | join a b =>
      exact .single (provides_join bound horderly (hoperands a (by simp [Operation.operands]))
        (hoperands b (by simp [Operation.operands])))
  | joinAll types => exact .atMost (mayProvide_joinAll bound horderly hoperands)
  | variants ty =>
      have hlt := (hoperands ty List.mem_cons_self).lt
      refine .pure fun variant hvariant => ?_
      obtain ⟨id, hid, rfl⟩ := List.mem_map.mp hvariant
      exact hlt id hid
  | narrow ty kind =>
      exact .single (provides_narrow bound horderly (hoperands ty List.mem_cons_self) kind)
  | read ty key => exact .atMost (mayProvide_member? bound horderly ty key)
  | members ty =>
      refine .ofTypes ((leads_members horderly ty).bind fun members next _ hmembers => .pure ?_)
      rw [List.forall_mem_map]
      exact hmembers
  | lacks ty key => exact .nothing (keeps_lacks horderly ty key)
  | compare target source =>
      exact .nothing (follows_assignableWithin store keeps_declaredMember _ target source)
  | write ty key value =>
      exact .nothing (keeps_trySet horderly ty key (hoperands value (by simp [Operation.operands])))
  | declare ty name member =>
      cases ty with
      | union variants => exact .pure nofun
      | plain id =>
          exact .nothing (keeps_setMember horderly hchecked
            (hoperands (plain id) (by simp [Operation.operands])) name
            (hoperands member (by simp [Operation.operands])))

theorem shape_empty (id : TypeId) : ({} : TypeStore).shape id = default :=
  shape_of_size_le (Nat.zero_le _)

theorem uncalled_empty (tag : Nat) : ({} : TypeStore).Uncalled tag := by
  intro id f hf
  rw [shape_empty] at hf
  cases hf

theorem orderly_empty : ({} : TypeStore).Orderly := by
  intro id
  rw [shape_empty]
  refine carries_bare ?_ rfl nofun nofun
  constructor <;> simp [default, instInhabitedShape.default, instInhabitedKind.default]

theorem alone_empty : ({} : TypeStore).Alone shared := by
  intro _ _ _ _ hf
  rw [shape_empty] at hf
  cases hf

/-- Every store that is obtained is orderly, and every type obtained is in canonical form.  No two
types call the same function, unless it may be shared. -/
theorem canonical_of_obtained {types : List Ty}
    (h : Obtained (Operation.Checked shared) store types) :
    (store.Orderly ∧ store.Alone shared) ∧ ∀ ty ∈ types, store.Canonical ty :=
  h.sustained (fun store => store.Orderly ∧ store.Alone shared) Canonical
    ⟨orderly_empty, alone_empty⟩
    (fun ⟨horderly, halone⟩ hkeeps =>
      ⟨⟨hkeeps.orderly horderly, (hkeeps horderly).2.2 halone⟩, hkeeps.canonical horderly⟩)
    fun bound ⟨horderly, _⟩ hoperands hchecked => leads_run bound horderly hoperands hchecked

theorem lawful_of_obtained {types : List Ty}
    (h : Obtained (Operation.Checked shared) store types) :
    store.Lawful ∧ ∀ ty ∈ types, store.Has ty := by
  obtain ⟨⟨horderly, -⟩, hcanonical⟩ := canonical_of_obtained h
  exact ⟨⟨(horderly _).lawful, fun hmember => ((horderly _).member hmember).has⟩,
    fun ty hty => (hcanonical ty hty).has⟩

/-- Types that are obtained have their unions in canonical form, and two variants call the same
function only if it may be shared.  A join of known types calls what its parts call, and narrowing
to a primitive kind gives a plain type of that kind. -/
theorem unions_canonical_of_obtained {types : List Ty}
    (h : Obtained (Operation.Checked shared) store types) :
    (∀ variants, union variants ∈ types → 2 ≤ variants.length ∧ variants.Nodup ∧
      (∀ id ∈ variants, (store.shape id).kind ≠ .unknown) ∧
      (∀ kind : Kind, kind.isPrimitive = true →
        (variants.filter fun id => (store.shape id).kind = kind).length ≤ 1) ∧
      variants.Pairwise fun a b => ∀ f g, (store.shape a).callable = some f →
        (store.shape b).callable = some g → f.tag = g.tag → shared f.tag) ∧
    (∀ a ∈ types, ∀ b ∈ types, (a.isUnknown store).1 = false → (b.isUnknown store).1 = false →
      ∀ bound joined next, join bound a b store = some (joined, next) →
        ∀ tag, tag ∈ next.calls joined ↔ tag ∈ store.calls a ∨ tag ∈ store.calls b) ∧
    ∀ ty ∈ types, ∀ kind : Kind, kind.isPrimitive = true → ∀ bound, ∃ id next,
      narrow bound ty kind store = some (plain id, next) ∧ (next.shape id).kind = kind := by
  obtain ⟨⟨horderly, halone⟩, hcanonical⟩ := canonical_of_obtained h
  refine ⟨fun variants hunion => ?_, fun a ha b hb hleft hright bound joined next hjoin tag => ?_,
    fun ty hty kind hprimitive bound => narrow_of_primitive (hcanonical ty hty) hprimitive bound⟩
  · obtain ⟨hseveral, hassorted⟩ := hcanonical _ hunion
    exact ⟨hseveral, hassorted.apart.imp Apart.ne, hassorted.known,
      fun kind => length_filter_kind_le_one hassorted,
      hassorted.apart.imp fun hapart f g hf hg htag =>
        (halone hf hg htag).resolve_left hapart.ne⟩
  · have hjoined : Keeps shared store next ∧ _ :=
      leads_join bound horderly (hcanonical a ha) (hcanonical b hb) joined next hjoin
    obtain ⟨-, -, hnatures⟩ := hjoined
    simp only [mem_calls_iff, hnatures hleft hright, exists_or]

/-! ## Functions beside texts and numbers -/

/-- A function with a member of its own, another function, a number and a text. -/
def mixedStore : TypeStore where
  shapes := #[
    { kind := .object, mutable := true, indexer := some ⟨.string, none⟩,
      constant := some (.object 0 []) },
    { kind := .function, mutable := true, lenient := true, callable := some ⟨0, 1, none⟩,
      members := [("prototype", plain 0), ("x", plain 4)] },
    { kind := .object, mutable := true, indexer := some ⟨.string, none⟩,
      constant := some (.object 1 []) },
    { kind := .function, mutable := true, lenient := true, callable := some ⟨1, 2, none⟩,
      members := [("prototype", plain 2)] },
    { kind := .number, lenient := true },
    { kind := .string, lenient := true },
    { kind := .string, lenient := true, indexer := some ⟨.number, some (plain 5)⟩,
      constant := some (.string "x") }]
  nextTag := 3

theorem obtained_mixedStore : Obtained (Operation.Checked fun _ => False) mixedStore
    [plain 1, plain 3, plain 4, plain 6, union [1, 3], union [6, 4], union [1, 3, 6, 4]] := by
  have hfirst : Obtained (Operation.Checked fun _ => False) _ _ :=
    .step .start (.function ⟨0, 1, none⟩) 0 nofun (.inr (uncalled_empty _)) rfl
  have hsecond := hfirst.step (.function ⟨1, 2, none⟩) 0 nofun (.inr
    ((uncalled_empty _).of_grows (grows_function {} rfl) (by rintro _ rfl; decide))) rfl
  have hnumber := hsecond.step (.general .number) 0 nofun trivial rfl
  have htext := hnumber.step (.known (.string "x")) 0 nofun trivial rfl
  have hwritten := htext.step (.write (plain 1) (plain 6) (plain 4)) 0 (by decide) trivial rfl
  have hfunctions := hwritten.step (.join (plain 1) (plain 3)) 1 (by decide) trivial rfl
  have hdata := hfunctions.step (.join (plain 6) (plain 4)) 1 (by decide) trivial rfl
  exact hdata.step (.join (union [1, 3]) (union [6, 4])) 1 (by decide) trivial rfl

theorem unions_canonical_mixedStore :
    Obtained (Operation.Checked fun _ => False) mixedStore
      [plain 1, plain 3, plain 4, plain 6, union [1, 3], union [6, 4], union [1, 3, 6, 4]] ∧
    ([1, 3, 6, 4].filter fun id => (mixedStore.shape id).kind = .number).length ≤ 1 ∧
    [1, 3, 6, 4].Pairwise (fun a b => ∀ f g, (mixedStore.shape a).callable = some f →
      (mixedStore.shape b).callable = some g → f.tag = g.tag → False) ∧
    (∃ joined next, join 1 (union [1, 3]) (union [6, 4]) mixedStore = some (joined, next) ∧
      ∀ tag, tag ∈ next.calls joined ↔
        tag ∈ mixedStore.calls (union [1, 3]) ∨ tag ∈ mixedStore.calls (union [6, 4])) ∧
    ∃ id next, narrow 0 (union [1, 3, 6, 4]) .number mixedStore = some (plain id, next) ∧
      (next.shape id).kind = .number := by
  obtain ⟨hunion, hjoin, hnarrow⟩ := unions_canonical_of_obtained obtained_mixedStore
  obtain ⟨-, -, -, hkinds, halone⟩ := hunion [1, 3, 6, 4] (by decide)
  refine ⟨obtained_mixedStore, hkinds .number rfl, halone, ⟨_, _, rfl, ?_⟩, ?_⟩
  · exact hjoin (union [1, 3]) (by decide) (union [6, 4]) (by decide) rfl rfl 1 _ _ rfl
  · exact hnarrow (union [1, 3, 6, 4]) (by decide) .number rfl 0

/-- Two types made for one function, of which the first has a member of its own, and a text. -/
def sharedStore : TypeStore where
  shapes := #[
    { kind := .object, mutable := true, indexer := some ⟨.string, none⟩,
      constant := some (.object 0 []) },
    { kind := .function, mutable := true, lenient := true, callable := some ⟨0, 1, none⟩,
      members := [("prototype", plain 0), ("x", plain 5)] },
    { kind := .object, mutable := true, indexer := some ⟨.string, none⟩,
      constant := some (.object 1 []) },
    { kind := .function, mutable := true, lenient := true, callable := some ⟨0, 1, none⟩,
      members := [("prototype", plain 2)] },
    { kind := .string, lenient := true },
    { kind := .string, lenient := true, indexer := some ⟨.number, some (plain 4)⟩,
      constant := some (.string "x") }]
  nextTag := 3

/-- The same function is called by two variants of a union when two types were made for it and one
of them was written to. -/
theorem called_twice_sharedStore :
    Obtained (fun _ operation => ∀ ty name member, operation ≠ .declare ty name member) sharedStore
      [plain 1, plain 3, plain 5, union [1, 3]] ∧
    (sharedStore.shape 1).callable = some ⟨0, 1, none⟩ ∧
    (sharedStore.shape 3).callable = some ⟨0, 1, none⟩ := by
  have hfirst : Obtained
      (fun _ operation => ∀ ty name member, operation ≠ .declare ty name member) _ _ :=
    .step .start (.function ⟨0, 1, none⟩) 0 nofun nofun rfl
  have hsecond := hfirst.step (.function ⟨0, 1, none⟩) 0 nofun nofun rfl
  have htext := hsecond.step (.known (.string "x")) 0 nofun nofun rfl
  have hwritten := htext.step (.write (plain 1) (plain 5) (plain 5)) 0 (by decide) nofun rfl
  have hjoined := hwritten.step (.join (plain 1) (plain 3)) 1 (by decide) nofun rfl
  exact ⟨hjoined, rfl, rfl⟩

end Ty

end ScriptCheck
