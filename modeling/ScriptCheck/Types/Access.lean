import ScriptCheck.Types.Join

/-!
# Member access

What reading and writing a member by a key of some type does.  The key is a type,
too: when its value is known it names a member, otherwise it is an index.
-/

namespace ScriptCheck

def Indexer.accepts (indexer : Indexer) (key : Ty) : TypeM Bool := do
  return !(← key.isNot indexer.key)

namespace Ty

open TypeStore
open JoinM (ofTypes)

/-- A character or other part of a known text. -/
def textMember (shape : Shape) (name : String) : TypeM (Option Ty) :=
  match shape.kind, shape.constant.bind (·.get? name) with
  | .string, some found => return some (← ofValue found)
  | _, _ => return none

/-- A member of a plain type that a known key names. -/
def namedMember (id : TypeId) (name : String) : TypeM (Option Ty) := do
  match ← ownMember id name with
  | some member => return some member
  | none => textMember (← shapeOf id) name

def indexedMember (id : TypeId) (key : Ty) : TypeM (Option Ty) := do
  match (← shapeOf id).indexer with
  | none => return none
  | some indexer =>
      if ← indexer.accepts key then
        match indexer.element with
        | some element => return some element
        | none => return some (← unknown)
      else return none

def plainMember (id : TypeId) (key : Ty) : TypeM (Option Ty) := do
  if (← shapeOf id).kind = .unknown then return some (← unknown)
  match ← key.keyName? with
  | none => indexedMember id key
  | some name =>
      match ← namedMember id name with
      | some member => return some member
      | none => indexedMember id key

/-- The types of a member in several plain types, unknown where it cannot be told. -/
def variantMembers (key : Ty) : List TypeId → TypeM (List Ty)
  | [] => return []
  | id :: rest => do
    let member ← match ← plainMember id key with
      | some member => pure member
      | none => unknown
    return member :: (← variantMembers key rest)

def member? (bound : Nat) (ty key : Ty) : JoinM (Option Ty) := do
  match ty with
  | plain id => ofTypes (plainMember id key)
  | union variants => joinAll bound (← ofTypes (variantMembers key variants))

/-- Whether there is an indexer that does not take keys of a type. -/
def notIndexed (indexer : Option Indexer) (key : Ty) : TypeM Bool :=
  match indexer with
  | some indexer => return !(← indexer.accepts key)
  | none => return false

def plainLacks (id : TypeId) (key : Ty) : TypeM Bool := do
  let shape ← shapeOf id
  match shape.kind with
  | .unknown => return false
  | .null | .undefined => return true
  | _ =>
      match ← key.keyName? with
      | some name =>
          let found := (← ownMember id name).isSome
          if ← key.isKind .string then return !found && !shape.lenient
          else if found then return false
          else notIndexed shape.indexer key
      | none => notIndexed shape.indexer key

/-- Whether reading a member is a mistake for some variant of a type. -/
def lacks (ty key : Ty) : TypeM Bool :=
  ty.variants.anyM fun id => plainLacks id key

/-- Writes a member of a plain type, and tells whether that is possible.  A write by an
unknown key keeps the members, but the value is no longer known. -/
def setPlain (id : TypeId) (key value : Ty) : TypeM Bool := do
  let shape ← shapeOf id
  if shape.kind = .unknown then return true
  if !shape.mutable then return false
  match ← key.isKind .string, ← key.keyName? with
  | true, some name =>
      setMember id name value
      return true
  | _, _ =>
      let accepted ← match shape.indexer with
        | some indexer => indexer.accepts key
        | none => pure true
      if accepted then
        update id fun shape => { shape with constant := none }
      return accepted

/-- Writes a member of every variant, and tells whether that was possible for all. -/
def trySet (ty key value : Ty) : TypeM Bool :=
  ty.variants.foldlM (fun ok id => do
    return (← setPlain id key value) && ok) true

end Ty

end ScriptCheck
