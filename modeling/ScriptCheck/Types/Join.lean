import ScriptCheck.Types.Member
import ScriptCheck.Value.Equality

/-!
# Joining types

The join of two types describes the values of both.  Types that are assignable
both ways become one, all others stay side by side in a union; different
functions always stay apart, so that each can be called.  Joining objects joins
their members, which may lead around in circles: the join is computed with a
bound on how often it may nest and has no result where the bound is too small.
-/

namespace ScriptCheck

/-- A computation on types that may exceed its bound. -/
abbrev JoinM := StateT TypeStore Option

def JoinM.ofTypes {α : Type} (computation : TypeM α) : JoinM α :=
  fun store => some (computation.run store)

namespace Ty

open TypeStore
open JoinM (ofTypes)

def callDifferently (a b : Shape) : Bool :=
  match a.callable, b.callable with
  | some f, some g => f.tag != g.tag
  | _, _ => false

def sameConstant : Option Value → Option Value → Bool
  | none, none => true
  | some v, some w => Value.sameContent v w
  | _, _ => false

/-- Adds a plain type to variants: it is merged into the first that it merges with,
or put last. -/
def absorb (merge : TypeId → TypeId → JoinM (Option TypeId)) (incoming : TypeId) :
    List TypeId → JoinM (List TypeId)
  | [] => return [incoming]
  | existing :: rest => do
    match ← merge existing incoming with
    | some merged => return merged :: rest
    | none => return existing :: (← absorb merge incoming rest)

/-- The join of two types, given how to merge plain types.  Nothing is known of the
join with an unknown type. -/
def joinWith (merge : TypeId → TypeId → JoinM (Option TypeId)) (a b : Ty) : JoinM Ty := do
  if (← ofTypes a.isUnknown) || (← ofTypes b.isUnknown) then
    ofTypes unknown
  else
    let variants ← b.variants.foldlM (fun variants incoming =>
      absorb merge incoming variants) a.variants
    return ofVariants variants

def joinMembers (joinMember : Ty → Ty → JoinM Ty) (a b : TypeId) :
    List String → List (String × Ty) → JoinM (List (String × Ty))
  | [], record => return record
  | name :: rest, record => do
    let left ← ofTypes (declaredMember a name)
    let right ← ofTypes (declaredMember b name)
    match left, right with
    | some left, some right =>
        let joined ← joinMember left right
        joinMembers joinMember a b rest (Record.insert name joined record)
    | some only, none | none, some only =>
        joinMembers joinMember a b rest (Record.insert name only record)
    | none, none => joinMembers joinMember a b rest record

/-- Merges two plain types into one, if they describe the same sort of values, with a
bound on nesting.  `depth` counts the objects around these two. -/
def merge : Nat → Nat → TypeId → TypeId → JoinM (Option TypeId)
  | 0, _, _, _ => failure
  | bound + 1, depth, a, b => do
    if a = b then return some a
    let left ← ofTypes (shapeOf a)
    let right ← ofTypes (shapeOf b)
    if left.kind = .unknown ∨ right.kind = .unknown then
      return some (← ofTypes (alloc { kind := .unknown, mutable := true, lenient := true }))
    if callDifferently left right then return none
    if !(← ofTypes (equivalent (plain a) (plain b))) then return none
    if sameConstant left.constant right.constant then return some a
    if left.kind.isPrimitive ∨ structuralDepth < depth then
      return some (← ofTypes (widenPlain a))
    let joinMember (x y : Ty) : JoinM Ty := do
      match x, y with
      | plain x, plain y =>
          match ← merge bound (depth + 1) x y with
          | some merged => return plain merged
          | none => joinWith (merge bound 0) (plain x) (plain y)
      | x, y => joinWith (merge bound 0) x y
    let names := (← ofTypes (shapeOf a)).memberNames
    let members ← joinMembers joinMember a b names []
    return some (← ofTypes (alloc { left with constant := none, members }))

def join (bound : Nat) (a b : Ty) : JoinM Ty :=
  joinWith (merge bound 0) a b

/-- The join of the types of a list, from the left; none for an empty list. -/
def joinAll (bound : Nat) : List Ty → JoinM (Option Ty)
  | [] => return none
  | first :: rest => return some (← rest.foldlM (join bound) first)

def widen (bound : Nat) : Ty → JoinM Ty
  | plain id => return plain (← ofTypes (widenPlain id))
  | union [] => ofTypes unknown
  | union (first :: rest) => do
    let start ← ofTypes (widenPlain first)
    rest.foldlM (fun joined id => do
      join bound joined (plain (← ofTypes (widenPlain id)))) (plain start)

/-- The general type of some elements, none when there are none. -/
def joinWidened (bound : Nat) : List Ty → JoinM (Option Ty)
  | [] => return none
  | first :: rest => do
    let start ← widen bound first
    let joined ← rest.foldlM (fun joined next => do
      join bound joined (← widen bound next)) start
    return some joined

/-- An array of some elements, known when all of them are. -/
def array (bound : Nat) (elements : List Ty) : JoinM Ty := do
  let constant ← ofTypes (elementConstants elements)
  let element ← joinWidened bound elements
  ofTypes (arrayOf constant element)

def narrow (bound : Nat) (ty : Ty) (kind : Kind) : JoinM Ty := do
  let store ← get
  let matching := ty.variants.filter fun id => (store.shape id).kind = kind
  match ← joinAll bound (matching.map plain) with
  | some narrowed => return narrowed
  | none => ofTypes (ofKind kind)

end Ty

end ScriptCheck
