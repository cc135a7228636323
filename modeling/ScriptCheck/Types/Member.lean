import ScriptCheck.Types.Constant

/-!
# Declared members

Reading and setting the declared members of plain types, and with them the
comparison of types.  Reading a member of a known object declares it; an element
of a known array is looked up anew each time.
-/

namespace ScriptCheck.Ty

open TypeStore

def hasMembers : Kind → Bool
  | .object | .function => true
  | _ => false

def declaredMember (id : TypeId) (name : String) : TypeM (Option Ty) := do
  let shape ← shapeOf id
  match Record.get? name shape.members with
  | some member => return some member
  | none =>
      if !hasMembers shape.kind then return none
      match shape.constant, shape.constant.bind (·.get? name) with
      | some (.object _ _), some value =>
          let member ← ofValue value
          update id fun shape => { shape with members := Record.insert name member shape.members }
          return some member
      | _, some value => return some (← ofValue value)
      | _, none => return none

/-- A member that all values of a plain type have: the length of texts and arrays. -/
def builtinMember (id : TypeId) (name : String) : TypeM (Option Ty) := do
  let shape ← shapeOf id
  if name = "length" ∧ (shape.kind = .string ∨ shape.isArray) then
    match shape.constant.bind (·.get? name) with
    | some length => return some (← ofValue length)
    | none => return some (← number)
  else return none

def ownMember (id : TypeId) (name : String) : TypeM (Option Ty) := do
  match ← declaredMember id name with
  | some member => return some member
  | none => builtinMember id name

/-- Declares or overwrites a member of a plain type.  A known object stays known when
the new member is. -/
def setMember (id : TypeId) (name : String) (member : Ty) : TypeM Unit := do
  let value ← member.constant?
  let tag ← freshTag
  update id fun shape =>
    let constant := match shape.constant, value with
      | some (.object _ members), some value =>
          some (.object tag (Record.insert name value members))
      | _, _ => none
    { shape with constant, members := Record.insert name member shape.members }

/-- Reads declared members by name, leaving out those that are not there. -/
def declaredMembers (id : TypeId) : List String → TypeM (List (String × Ty))
  | [] => return []
  | name :: rest => do
    match ← declaredMember id name with
    | some member => return (name, member) :: (← declaredMembers id rest)
    | none => declaredMembers id rest

def members : Ty → TypeM (List (String × Ty))
  | plain id => do
    return Record.ofList (← declaredMembers id (← shapeOf id).memberNames)
  | union _ => return []

/-! ## Comparison -/

def assignable (target source : Ty) : TypeM Bool :=
  assignableWithin declaredMember (structuralDepth + 1) target source

def equivalent (a b : Ty) : TypeM Bool := do
  if ← assignable a b then assignable b a else return false

def incompatible (a b : Ty) : TypeM Bool := do
  if ← assignable a b then return false else return !(← assignable b a)

end ScriptCheck.Ty
