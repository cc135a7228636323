import ScriptCheck.Proofs.Types.Follow

/-!
# What access to members does to the store

Telling whether reading a member is a mistake does no more to the store than reading it.  A write
to a plain type does one of three things.  It leaves the store alone, where nothing is known of the
type or the type refuses; it sets a member; or, by a key that names no member, it takes the constant
away.
-/

namespace ScriptCheck

open TypeStore

theorem TypeM.Follows.look_bind {α β : Type} {R : TypeStore → TypeStore → Prop}
    {store : TypeStore} {computation : TypeM α} {f : α → TypeM β}
    (hsame : (computation store).2 = store) (hf : Follows R store (f (computation store).1)) :
    Follows R store (computation >>= f) := by
  unfold Follows
  rw [TypeM.bind_apply, hsame]
  exact hf

/-- The store with the constant of a type taken away. -/
def TypeStore.forget (store : TypeStore) (id : TypeId) : TypeStore :=
  store.modify id fun shape => { shape with constant := none }

namespace Ty

open TypeM (Follows)

theorem isKind_same (ty : Ty) (kind : Kind) (store : TypeStore) :
    (ty.isKind kind store).2 = store :=
  (follows_isKind (R := Eq) store ty kind).symm

theorem keyName?_same (key : Ty) (store : TypeStore) : (key.keyName? store).2 = store :=
  (follows_keyName? (R := Eq) store key).symm

theorem accepts_same (indexer : Indexer) (key : Ty) (store : TypeStore) :
    (indexer.accepts key store).2 = store :=
  (follows_accepts (R := Eq) store indexer key).symm

variable {R : TypeStore → TypeStore → Prop} [IsPreorder TypeStore R] {store : TypeStore}

theorem follows_notIndexed (store : TypeStore) (indexer : Option Indexer) (key : Ty) :
    Follows R store (notIndexed indexer key) := by
  cases indexer with
  | none => exact .pure _
  | some indexer => exact (follows_accepts store indexer key).bind fun _ _ _ => .pure _

/-- Whether a member is missing is told by reading it. -/
theorem follows_plainLacks {id : TypeId} {key : Ty}
    (hread : ∀ name, Follows R store (ownMember id name)) :
    Follows R store (plainLacks id key) := by
  apply Follows.shapeOf_bind
  split
  · exact .pure _
  · exact .pure _
  · exact .pure _
  · apply Follows.look_bind (keyName?_same key store)
    split
    · apply (hread _).bind
      intro _ next _
      apply Follows.look_bind (isKind_same key .string next)
      split
      · exact .pure _
      · split
        · exact .pure _
        · exact follows_notIndexed next _ key
    · exact follows_notIndexed store _ key

/-- A write respects a preorder that setting a member and taking the constant away do, of types
of which something is known and that may be written to. -/
theorem follows_setPlain {id : TypeId} {key value : Ty}
    (hset : (store.shape id).kind ≠ .unknown → (store.shape id).mutable = true → ∀ name,
      Follows R store (setMember id name value))
    (hforget : (store.shape id).kind ≠ .unknown → (store.shape id).mutable = true →
      R store (store.forget id)) : Follows R store (setPlain id key value) := by
  apply Follows.shapeOf_bind
  split
  · exact .pure _
  rename_i hknown
  split
  · exact .pure _
  rename_i hrefused
  have hmutable : (store.shape id).mutable = true := by simpa using hrefused
  apply Follows.look_bind (isKind_same key .string store)
  apply Follows.look_bind (keyName?_same key store)
  split
  · exact (hset hknown hmutable _).bind fun _ _ _ => .pure _
  · extract_lets rest
    have hrest : ∀ accepted, Follows R store (rest accepted) := by
      intro accepted
      dsimp only [rest]
      split
      · have hupdate : Follows R store (update id fun shape => { shape with constant := none }) :=
          hforget hknown hmutable
        exact hupdate.bind fun _ _ _ => .pure _
      · exact .pure _
    split
    · rename_i indexer _
      exact .look_bind (accepts_same indexer key store) (hrest _)
    · exact hrest true

end Ty

end ScriptCheck
