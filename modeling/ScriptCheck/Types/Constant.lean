import ScriptCheck.Types.Assignable

/-!
# Types of values

The type of one known value.  The members of an object are left to be declared
when they are asked for.
-/

namespace ScriptCheck.Ty

open TypeStore

/-- A plain type without its constant.  `null` and `undefined` are nothing but their
constants and stay what they are. -/
def widenPlain (id : TypeId) : TypeM TypeId := do
  let shape ← shapeOf id
  match shape.constant, shape.kind with
  | none, _ | _, .null | _, .undefined => return id
  | some _, _ => alloc { shape with constant := none }

def elementConstants (elements : List Ty) : TypeM (Option Value) := do
  let tag ← freshTag
  let store ← get
  let known : Ty → Option Value
    | plain id => (store.shape id).constant
    | union _ => none
  return (elements.mapM known).map (Value.array tag)

/-- An array whose elements have a type, if there are any. -/
def arrayOf (constant : Option Value) (element : Option Ty) : TypeM Ty :=
  new {
    kind := .object
    mutable := true
    lenient := true
    indexer := some ⟨.number, element⟩
    constant }

/-- Types without members of their own have none to read. -/
def noMembers : MemberReader := fun _ _ => pure none

def interchangeable (a b : TypeId) : TypeM Bool := do
  let depth := structuralDepth + 1
  if ← assignableWithin noMembers depth (plain a) (plain b) then
    assignableWithin noMembers depth (plain b) (plain a)
  else return false

def addGeneral (variants : List TypeId) (incoming : TypeId) : TypeM (List TypeId) := do
  if ← variants.anyM fun existing => interchangeable existing incoming then
    return variants
  else
    return variants ++ [incoming]

/-- The general type of the elements of a known array, none for an empty one.  Such
types have neither constants nor declared members, so joining them needs no more
than choosing between them. -/
def generalElement (elements : List Ty) : TypeM (Option Ty) := do
  let variants ← (elements.flatMap variants).foldlM (fun variants id => do
    addGeneral variants (← widenPlain id)) []
  return if variants.isEmpty then none else some (ofVariants variants)

mutual

/-- The type of a known value.  An array gets an identity of its own, an object keeps
the one it has. -/
def ofValue : Value → TypeM Ty
  | .undefined => undefined
  | .null => null
  | .bool b => new { kind := .boolean, constant := some (.bool b) }
  | .number x => new { kind := .number, lenient := true, constant := some (.number x) }
  | .string s => do
    let shape ← stringShape
    new { shape with constant := some (.string s) }
  | .array _ values => do
    let elements ← ofValues values
    let constant ← elementConstants elements
    arrayOf constant (← generalElement elements)
  | .object tag members =>
      new {
        kind := .object
        mutable := true
        indexer := some ⟨.string, none⟩
        constant := some (.object tag members) }

def ofValues : List Value → TypeM (List Ty)
  | [] => return []
  | value :: rest => do
    let first ← ofValue value
    return first :: (← ofValues rest)

end

/-- Whether a type of a kind can be pinned to a value. -/
def holds : Kind → Value → Bool
  | .string, .string _ => true
  | .number, .number _ => true
  | .boolean, .bool _ => true
  | .object, .object _ _ => true
  | .object, .array _ _ => true
  | _, _ => false

/-- A copy of a type pinned to a value, or the value's own type where the kinds
disagree. -/
def toConstant (ty : Ty) (value : Value) : TypeM Ty := do
  match ty with
  | plain id =>
      let shape ← shapeOf id
      if holds shape.kind value then new { shape with constant := some value }
      else ofValue value
  | union _ => ofValue value

end ScriptCheck.Ty
