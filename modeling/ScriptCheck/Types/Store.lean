import ScriptCheck.Tree.Basic
import ScriptCheck.Types.Kind

/-!
# Types and their store

A type describes the values that an expression may have.  Objects and functions
change while a script is followed, and two expressions may have the very same
object; so plain types live in a store and are referred to by index.  The store
only grows.  A union is a list of plain types, hence always flat.
-/

namespace ScriptCheck

/-- Index of a plain type in the store. -/
abbrev TypeId := Nat

/-- Index of a frame in which code runs. -/
abbrev FrameId := Nat

/-- A type: one plain type or a choice between several. -/
inductive Ty where
  | plain (id : TypeId)
  | union (variants : List TypeId)
deriving DecidableEq, Repr, Inhabited

namespace Ty

def variants : Ty → List TypeId
  | plain id => [id]
  | union variants => variants

def ofVariants : List TypeId → Ty
  | [id] => plain id
  | variants => union variants

def isUnion : Ty → Bool
  | plain _ => false
  | union _ => true

end Ty

/-- A function that can be called: its node and, if it came about while code ran, the
frame it was made in.  Two of them are the same exactly when their tags agree. -/
structure Callable where
  tag : Nat
  function : NodeId
  origin : Option FrameId
deriving DecidableEq, Repr

/-- Members reached by computed keys: the kind of the keys and, if anything is known
about them, the type of the elements. -/
structure Indexer where
  key : Kind
  element : Option Ty
deriving DecidableEq, Repr

/-- What the store knows about a plain type.  A lenient type may be asked for members
that are not declared.  The members of a known object are declared when they are
first asked for. -/
structure Shape where
  kind : Kind
  mutable : Bool := false
  lenient : Bool := false
  indexer : Option Indexer := none
  members : List (String × Ty) := []
  constant : Option Value := none
  callable : Option Callable := none
deriving Inhabited

namespace Shape

def isArray (shape : Shape) : Bool :=
  shape.kind = .object && (shape.indexer.map Indexer.key) = some .number

/-- The names of the declared members, first those already asked for. -/
def memberNames (shape : Shape) : List String :=
  let declared := Record.keys shape.members
  match shape.constant with
  | some (.object _ members) =>
      declared ++ (Record.keys members).filter fun name => !declared.contains name
  | _ => declared

end Shape

/-- The plain types made so far, and the next tag for something with an identity. -/
structure TypeStore where
  shapes : Array Shape := #[]
  nextTag : Nat := 0
deriving Inhabited

/-- A computation that reads and extends the store. -/
abbrev TypeM := StateM TypeStore

namespace TypeStore

def shape (store : TypeStore) (id : TypeId) : Shape := store.shapes.getD id default

/-- The store with one more plain type, which gets the next index. -/
def add (store : TypeStore) (shape : Shape) : TypeStore :=
  { store with shapes := store.shapes.push shape }

def modify (store : TypeStore) (id : TypeId) (f : Shape → Shape) : TypeStore :=
  { store with shapes := store.shapes.modify id f }

@[simp] theorem shape_add_self (store : TypeStore) (shape : Shape) :
    (store.add shape).shape store.shapes.size = shape := by
  simp [add, TypeStore.shape]

/-- Adding a type leaves the others what they were. -/
theorem shape_add_of_lt {store : TypeStore} {id : TypeId} (h : id < store.shapes.size)
    (shape : Shape) : (store.add shape).shape id = store.shape id := by
  have hne : id ≠ store.shapes.size := Nat.ne_of_lt h
  simp [add, TypeStore.shape, Array.getElem?_push, hne]

theorem shape_modify_self {store : TypeStore} {id : TypeId} (h : id < store.shapes.size)
    (f : Shape → Shape) : (store.modify id f).shape id = f (store.shape id) := by
  simp [TypeStore.modify, TypeStore.shape, h, Array.getElem_modify]

/-- Changing a type leaves the others what they were. -/
theorem shape_modify_of_ne {id other : TypeId} (h : other ≠ id) (f : Shape → Shape)
    (store : TypeStore) : (store.modify id f).shape other = store.shape other := by
  have hne : ¬ id = other := fun he => h he.symm
  simp [TypeStore.modify, TypeStore.shape, Array.getElem?_modify, hne]

@[simp] theorem size_modify (store : TypeStore) (id : TypeId) (f : Shape → Shape) :
    (store.modify id f).shapes.size = store.shapes.size := by
  simp [TypeStore.modify]

def shapeOf (id : TypeId) : TypeM Shape := do
  return (← get).shape id

def alloc (shape : Shape) : TypeM TypeId :=
  modifyGet fun store => (store.shapes.size, store.add shape)

def update (id : TypeId) (f : Shape → Shape) : TypeM Unit :=
  modifyGet fun store => ((), store.modify id f)

def freshTag : TypeM Nat :=
  modifyGet fun store => (store.nextTag, { store with nextTag := store.nextTag + 1 })

end TypeStore

open TypeStore

namespace Ty

def new (shape : Shape) : TypeM Ty := do
  return plain (← alloc shape)

/-! ## General types -/

def unknown : TypeM Ty :=
  new { kind := .unknown, mutable := true, lenient := true }

def number : TypeM Ty :=
  new { kind := .number, lenient := true }

/-- The shape of all texts; the elements of a text are texts. -/
def stringShape : TypeM Shape := do
  let element ← new { kind := .string, lenient := true }
  return { kind := .string, lenient := true, indexer := some ⟨.number, some element⟩ }

def string : TypeM Ty := do
  new (← stringShape)

def boolean : TypeM Ty :=
  new { kind := .boolean }

def null : TypeM Ty :=
  new { kind := .null, constant := some .null }

def undefined : TypeM Ty :=
  new { kind := .undefined, constant := some .undefined }

/-! ## Inspection -/

def kind? : Ty → TypeM (Option Kind)
  | plain id => return some (← shapeOf id).kind
  | union _ => return none

def isKind (ty : Ty) (kind : Kind) : TypeM Bool := do
  return (← ty.kind?) = some kind

def isUnknown (ty : Ty) : TypeM Bool := ty.isKind .unknown

def constant? : Ty → TypeM (Option Value)
  | plain id => return (← shapeOf id).constant
  | union _ => return none

def isConstant (ty : Ty) : TypeM Bool := do
  return (← ty.constant?).isSome

def callable? : Ty → TypeM (Option Callable)
  | plain id => return (← shapeOf id).callable
  | union _ => return none

def isArray : Ty → TypeM Bool
  | plain id => return (← shapeOf id).isArray
  | union _ => return false

def isNot (ty : Ty) (kind : Kind) : TypeM Bool := do
  let store ← get
  return ty.variants.any fun id =>
    let found := (store.shape id).kind
    found != .unknown && found != kind

def isMutable (ty : Ty) : TypeM Bool := do
  let store ← get
  return ty.variants.all fun id => (store.shape id).mutable

def typeofName? (ty : Ty) : TypeM (Option String) := do
  let store ← get
  match ty.variants.map fun id => (store.shape id).kind.typeofName? with
  | some first :: rest => return if rest.all (· == some first) then some first else none
  | _ => return none

def keyName? (key : Ty) : TypeM (Option String) := do
  match ← key.constant? with
  | some (.string name) => return some name
  | some (.number x) => return some (Value.number x).text
  | _ => return none

/-- A plain type as a message shows it. -/
def displayShape (shape : Shape) : String :=
  match shape.constant with
  | some value => value.display
  | none => if shape.isArray then "`array`" else "`" ++ shape.kind.name ++ "`"

def display (ty : Ty) : TypeM String := do
  let store ← get
  return " | ".intercalate (ty.variants.map fun id => displayShape (store.shape id))

/-! ## Objects and functions -/

def memberConstants : List (String × Ty) → TypeM (Option (List (String × Value)))
  | [] => return some []
  | (name, member) :: rest => do
    match ← member.constant?, ← memberConstants rest with
    | some value, some values => return some ((name, value) :: values)
    | _, _ => return none

def object (members : List (String × Ty)) : TypeM Ty := do
  let tag ← freshTag
  let values ← memberConstants members
  new {
    kind := .object
    mutable := true
    indexer := some ⟨.string, none⟩
    members
    constant := values.map (Value.object tag) }

def function (callable : Callable) : TypeM Ty := do
  let prototype ← object []
  new {
    kind := .function
    mutable := true
    lenient := true
    members := [("prototype", prototype)]
    callable := some callable }

/-- The general type of a kind; functions cannot be told apart from anything. -/
def ofKind : Kind → TypeM Ty
  | .string => string
  | .number => number
  | .boolean => boolean
  | .null => null
  | .undefined => undefined
  | .object => object []
  | .function | .unknown => unknown

end Ty

end ScriptCheck
