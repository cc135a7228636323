import ScriptCheck.Types.Store

/-!
# Assignability

A type is assignable to another when its values may stand where values of the
other are expected.  Objects may contain themselves, so the comparison stops at a
depth and then answers yes.
-/

namespace ScriptCheck.Ty

open TypeStore

/-- How deep types are compared and merged. -/
def structuralDepth : Nat := 32

/-- How a declared member of a plain type is read. -/
abbrev MemberReader := TypeId → String → TypeM (Option Ty)

/-- Whether the elements of a source suit a target.  Only objects compare them, and
nothing is asked of elements of which nothing is known. -/
def elementsAssignable (nested : Ty → Ty → TypeM Bool) (target source : Shape) :
    TypeM Bool :=
  match target.kind, target.indexer with
  | .object, some ⟨_, some expected⟩ =>
      match source.indexer with
      | none => pure false
      | some ⟨_, some actual⟩ => nested expected actual
      | some ⟨_, none⟩ => pure true
  | _, _ => pure true

def membersAssignable (read : MemberReader) (nested : Ty → Ty → TypeM Bool)
    (target source : TypeId) : List String → TypeM Bool
  | [] => pure true
  | name :: rest => do
    let expected? ← read target name
    let actual? ← read source name
    match expected?, actual? with
    | some expected, some actual =>
        if ← nested expected actual then membersAssignable read nested target source rest
        else pure false
    | _, _ => pure false

def plainAssignable (read : MemberReader) (nested : Ty → Ty → TypeM Bool)
    (target source : TypeId) : TypeM Bool := do
  if target = source then return true
  let expected ← shapeOf target
  let actual ← shapeOf source
  if expected.kind = .unknown ∨ actual.kind = .unknown then return true
  if expected.kind ≠ actual.kind then return false
  if expected.mutable && !actual.mutable then return false
  if ← elementsAssignable nested expected actual then
    membersAssignable read nested target source (← shapeOf target).memberNames
  else return false

/-- Whether a source is assignable to a target, compared down to a depth: all
variants of the source, each to some variant of the target. -/
def assignableWithin (read : MemberReader) : Nat → Ty → Ty → TypeM Bool
  | 0, _, _ => pure true
  | depth + 1, target, union variants =>
      variants.allM fun variant => assignableWithin read depth target (plain variant)
  | depth + 1, union variants, plain source =>
      variants.anyM fun variant => assignableWithin read depth (plain variant) (plain source)
  | depth + 1, plain target, plain source =>
      plainAssignable read (assignableWithin read depth) target source

end ScriptCheck.Ty
