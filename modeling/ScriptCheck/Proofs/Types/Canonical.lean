import ScriptCheck.Proofs.Types.Growth
import ScriptCheck.Proofs.Types.Lead

/-!
# Unions in canonical form

A union is a choice between different plain types that something is known of, at least two of
them and no two of the same primitive kind.  A store is orderly when all its members and elements
are of that form and each constant is of the kind of its type.  Making types and reading members
keep stores orderly, and add no second type that calls a function, unless the function may be
shared.
-/

namespace ScriptCheck

/-- The sort of values that a shape describes: their kind, and the function they call. -/
def Shape.nature (shape : Shape) : Kind × Option Nat :=
  (shape.kind, shape.callable.map Callable.tag)

theorem Shape.nature_of_outline {a b : Shape} (h : a.outline = b.outline) :
    a.nature = b.nature :=
  Prod.ext (TypeStore.kind_of_outline h)
    (congrArg (Option.map Callable.tag) (TypeStore.callable_of_outline h))

theorem Shape.kind_of_nature {a b : Shape} (h : a.nature = b.nature) : a.kind = b.kind :=
  congrArg Prod.fst h

namespace TypeStore

/-- Two plain types may stand side by side: they differ, and are not of one primitive kind. -/
structure Apart (store : TypeStore) (a b : TypeId) : Prop where
  ne : a ≠ b
  kind : (store.shape a).kind.isPrimitive = true → (store.shape a).kind ≠ (store.shape b).kind

structure Assorted (store : TypeStore) (variants : List TypeId) : Prop where
  lt : ∀ id ∈ variants, id < store.shapes.size
  known : ∀ id ∈ variants, (store.shape id).kind ≠ .unknown
  apart : variants.Pairwise store.Apart

/-- A type is a plain type of the store, or a choice between at least two that are apart. -/
def Canonical (store : TypeStore) : Ty → Prop
  | .plain id => id < store.shapes.size
  | .union variants => 2 ≤ variants.length ∧ store.Assorted variants

def CanonicalMembers (store : TypeStore) (members : List (String × Ty)) : Prop :=
  ∀ {name : String} {member : Ty}, Record.get? name members = some member →
    store.Canonical member

structure Carries (store : TypeStore) (shape : Shape) : Prop where
  lawful : shape.Lawful
  constant : ∀ {value : Value}, shape.constant = some value → value.kind = shape.kind
  member : store.CanonicalMembers shape.members
  element : ∀ {key : Kind} {element : Ty}, shape.indexer = some ⟨key, some element⟩ →
    store.Canonical element

def Orderly (store : TypeStore) : Prop := ∀ id, store.Carries (store.shape id)

/-- No two types call the same function, unless it may be shared. -/
def Alone (shared : Nat → Prop) (store : TypeStore) : Prop :=
  ∀ {a b : TypeId} {f g : Callable}, (store.shape a).callable = some f →
    (store.shape b).callable = some g → f.tag = g.tag → a = b ∨ shared f.tag

def Uncalled (store : TypeStore) (tag : Nat) : Prop :=
  ∀ id f, (store.shape id).callable = some f → f.tag ≠ tag

/-- From an orderly store an orderly one is reached, which has the types of the first and in which
no two more types call the same function, unless it may be shared. -/
def Keeps (shared : Nat → Prop) (before after : TypeStore) : Prop :=
  before.Orderly → after.Orderly ∧ Grows (fun _ => True) before after ∧
    (before.Alone shared → after.Alone shared)

instance {shared : Nat → Prop} : IsPreorder TypeStore (Keeps shared) where
  refl _ h := ⟨h, .refl _, id⟩
  trans _ _ _ hfirst hnext h := by
    obtain ⟨horderly, hgrows, halone⟩ := hfirst h
    obtain ⟨horderly', hgrows', halone'⟩ := hnext horderly
    exact ⟨horderly', hgrows.trans hgrows', halone' ∘ halone⟩

variable {shared : Nat → Prop}

variable {made : Callable → Prop} {store next : TypeStore}

/-! ## Canonical types stay canonical -/

theorem Grows.nature (h : Grows made store next) {id : Nat} (hid : id < store.shapes.size) :
    (next.shape id).nature = (store.shape id).nature :=
  Shape.nature_of_outline (h.outline hid)

theorem Grows.kind (h : Grows made store next) {id : Nat} (hid : id < store.shapes.size) :
    (next.shape id).kind = (store.shape id).kind :=
  kind_of_outline (h.outline hid)

theorem Apart.of_kind {a b : TypeId} (h : store.Apart a b)
    (ha : (next.shape a).kind = (store.shape a).kind)
    (hb : (next.shape b).kind = (store.shape b).kind) : next.Apart a b := by
  refine ⟨h.ne, fun hprimitive => ?_⟩
  rw [ha] at hprimitive ⊢
  rw [hb]
  exact h.kind hprimitive

theorem Assorted.of_grows {variants : List TypeId} (h : store.Assorted variants)
    (hgrows : Grows made store next) : next.Assorted variants where
  lt id hid := Nat.lt_of_lt_of_le (h.lt id hid) hgrows.size_le
  known id hid := by
    rw [hgrows.kind (h.lt id hid)]
    exact h.known id hid
  apart := h.apart.imp_of_mem fun ha hb hapart =>
    hapart.of_kind (hgrows.kind (h.lt _ ha)) (hgrows.kind (h.lt _ hb))

theorem Knows.of_grows {id : TypeId} (h : store.Knows id) (hgrows : Grows made store next) :
    next.Knows id := by
  refine ⟨Nat.lt_of_lt_of_le h.1 hgrows.size_le, ?_⟩
  rw [hgrows.kind h.1]
  exact h.2

theorem Canonical.of_grows {ty : Ty} (h : store.Canonical ty) (hgrows : Grows made store next) :
    next.Canonical ty := by
  cases ty with
  | plain id => exact Nat.lt_of_lt_of_le h hgrows.size_le
  | union variants => exact ⟨h.1, h.2.of_grows hgrows⟩

theorem Canonical.lt {ty : Ty} (h : store.Canonical ty) :
    ∀ id ∈ ty.variants, id < store.shapes.size := by
  cases ty with
  | plain id =>
      intro other hother
      rwa [List.mem_singleton.mp hother]
  | union variants => exact h.2.lt

theorem Canonical.has {ty : Ty} (h : store.Canonical ty) : store.Has ty where
  lt := h.lt _
  known hunion id hid := by
    cases ty with
    | plain other => cases hunion
    | union variants => exact h.2.known id hid

theorem CanonicalMembers.insert {members : List (String × Ty)}
    (h : store.CanonicalMembers members) {name : String} {member : Ty}
    (hmember : store.Canonical member) :
    store.CanonicalMembers (Record.insert name member members) := by
  intro key found hfound
  by_cases hkey : key = name
  · subst hkey
    rw [Record.get?_insert_self] at hfound
    cases hfound
    exact hmember
  · rw [Record.get?_insert_of_ne hkey] at hfound
    exact h hfound

theorem Carries.of_grows {shape : Shape} (h : store.Carries shape)
    (hgrows : Grows made store next) : next.Carries shape where
  lawful := h.lawful
  constant := h.constant
  member hmember := (h.member hmember).of_grows hgrows
  element helement := (h.element helement).of_grows hgrows

/-- What no type calls is called by none later on, unless it is made meanwhile. -/
theorem Uncalled.of_grows {tag : Nat} (h : store.Uncalled tag) (hgrows : Grows made store next)
    (hmade : ∀ f, made f → f.tag ≠ tag) : next.Uncalled tag := by
  intro id g hg
  obtain hnew | ⟨old, hold⟩ := hgrows.callable hg
  · exact hmade g hnew
  · exact h old g hold

theorem Keeps.orderly (h : Keeps shared store next) (horderly : store.Orderly) : next.Orderly :=
  (h horderly).1

theorem Keeps.grows (h : Keeps shared store next) (horderly : store.Orderly) :
    Grows (fun _ => True) store next :=
  (h horderly).2.1

theorem Keeps.canonical (h : Keeps shared store next) (horderly : store.Orderly) {ty : Ty}
    (hty : store.Canonical ty) : next.Canonical ty :=
  hty.of_grows (h.grows horderly)

/-! ## Steps -/

theorem Carries.callable_eq_none {shape : Shape} (h : store.Carries shape)
    (hkind : shape.kind ≠ .function) : shape.callable = none := by
  cases hcallable : shape.callable with
  | none => rfl
  | some f => exact absurd (h.lawful.callable.mpr (by rw [hcallable]; rfl)) hkind

theorem Carries.kind_ne_function {shape : Shape} (h : store.Carries shape) {value : Value}
    (hconstant : shape.constant = some value) : shape.kind ≠ .function := by
  rw [← h.constant hconstant]
  exact value.kind_ne_function

theorem callable_add {shape : Shape} {id : TypeId} {f : Callable}
    (h : ((store.add shape).shape id).callable = some f) :
    (store.shape id).callable = some f ∨ id = store.shapes.size ∧ shape.callable = some f := by
  have hlt := lt_of_callable h
  simp only [TypeStore.add, Array.size_push] at hlt
  rcases Nat.lt_or_eq_of_le (Nat.le_of_lt_succ hlt) with hlt | heq
  · rw [shape_add_of_lt hlt] at h
    exact .inl h
  · subst heq
    rw [shape_add_self] at h
    exact .inr ⟨rfl, h⟩

theorem Alone.add {shape : Shape} (h : store.Alone shared)
    (hcalls : ∀ f, shape.callable = some f → shared f.tag ∨ store.Uncalled f.tag) :
    (store.add shape).Alone shared := by
  intro a b f g ha hb htag
  rcases callable_add ha with hold | ⟨heq, hnew⟩
  · rcases callable_add hb with hold' | ⟨-, hnew'⟩
    · exact h hold hold' htag
    · rcases hcalls g hnew' with hshared | huncalled
      · exact .inr (htag ▸ hshared)
      · exact absurd htag (huncalled a f hold)
  · rcases callable_add hb with hold' | ⟨heq', -⟩
    · rcases hcalls f hnew with hshared | huncalled
      · exact .inr hshared
      · exact absurd htag.symm (huncalled b g hold')
    · exact .inl (heq.trans heq'.symm)

theorem keeps_add {shape : Shape} (hcarries : store.Carries shape)
    (hcalls : ∀ f, shape.callable = some f → shared f.tag ∨ store.Uncalled f.tag) :
    Keeps shared store (store.add shape) := by
  intro horderly
  have hgrows : Grows (fun _ => True) store (store.add shape) := .add fun _ _ => .inl trivial
  refine ⟨fun id => ?_, hgrows, fun halone => halone.add hcalls⟩
  rcases shape_add_cases store shape id with hold | hnew
  · rw [hold]
    exact (horderly id).of_grows hgrows
  · rw [hnew]
    exact hcarries.of_grows hgrows

/-- A type that calls nothing can be added to any store. -/
theorem keeps_add_data {shape : Shape} (hcarries : store.Carries shape)
    (hkind : shape.kind ≠ .function) : Keeps shared store (store.add shape) := by
  refine keeps_add hcarries fun f hf => ?_
  rw [hcarries.callable_eq_none hkind] at hf
  cases hf

theorem keeps_modify {id : TypeId} {f : Shape → Shape}
    (houtline : ∀ shape, (f shape).outline = shape.outline)
    (hcarries : store.Carries (f (store.shape id))) :
    Keeps shared store (store.modify id f) := by
  intro horderly
  have hgrows : Grows (fun _ => True) store (store.modify id f) := .modify store id houtline
  have hcallable : ∀ other, ((store.modify id f).shape other).callable =
      (store.shape other).callable := by
    intro other
    rcases shape_modify_cases store id f other with hold | ⟨rfl, hnew⟩
    · rw [hold]
    · rw [hnew]
      exact callable_of_outline (houtline _)
  refine ⟨fun other => ?_, hgrows, fun halone a b f g ha hb htag => ?_⟩
  · rcases shape_modify_cases store id f other with hold | ⟨-, hnew⟩
    · rw [hold]
      exact (horderly other).of_grows hgrows
    · rw [hnew]
      exact hcarries.of_grows hgrows
  · rw [hcallable] at ha hb
    exact halone ha hb htag

theorem keeps_tag (store : TypeStore) :
    Keeps shared store { store with nextTag := store.nextTag + 1 } := by
  intro horderly
  have hgrows : Grows (fun _ => True) store { store with nextTag := store.nextTag + 1 } :=
    Ty.grows_freshTag store
  exact ⟨fun id => (horderly id).of_grows hgrows, hgrows, fun halone => halone⟩

theorem carries_bare {shape : Shape} (hlawful : shape.Lawful) (hmembers : shape.members = [])
    (hconstant : ∀ {value : Value}, shape.constant = some value → value.kind = shape.kind)
    (helement : ∀ {key : Kind} {element : Ty}, shape.indexer = some ⟨key, some element⟩ →
      store.Canonical element) : store.Carries shape where
  lawful := hlawful
  constant := hconstant
  member hmember := by
    rw [hmembers] at hmember
    cases hmember
  element := helement

end TypeStore

end ScriptCheck
