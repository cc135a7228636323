import ScriptCheck.Proofs.Types.Names

/-!
# What comparing types can tell

Comparing types looks a number of levels deep.  The view of a type down to a depth is all that
such a comparison can tell of it: two types with the same views are assignable to the same types
and from the same types.  Values have views of their own, so that it makes no difference whether
a member that is known has been declared yet.
-/

namespace ScriptCheck

variable {α β : Type}

inductive Choice (α : Type) where
  | one (item : α)
  | several (items : List α)

namespace Choice

/-- A choice between what a function makes of the items. -/
def map (f : α → β) : Choice α → Choice β
  | one item => one (f item)
  | several items => several (items.map f)

/-- The choice between the items of a list. -/
def ofList : List α → Choice α
  | [item] => one item
  | items => several items

def items : Choice α → List α
  | one item => [item]
  | several items => items

theorem map_congr {f g : α → β} {choice : Choice α} (h : ∀ item ∈ choice.items, f item = g item) :
    choice.map f = choice.map g := by
  cases choice with
  | one item => exact congrArg one (h item List.mem_cons_self)
  | several items => exact congrArg several (List.map_congr_left h)

@[simp] theorem items_map (f : α → β) (choice : Choice α) :
    (choice.map f).items = choice.items.map f := by
  cases choice <;> rfl

@[simp] theorem items_ofList (items : List α) : (ofList items).items = items := by
  unfold ofList
  split <;> rfl

theorem map_map {γ : Type} (f : α → β) (g : β → γ) (choice : Choice α) :
    (choice.map f).map g = choice.map fun item => g (f item) := by
  cases choice with
  | one item => rfl
  | several items => simp [map]

theorem map_ofList (f : α → β) (items : List α) :
    (ofList items).map f = ofList (items.map f) := by
  unfold ofList
  split
  · rfl
  · rename_i hmany
    cases items with
    | nil => rfl
    | cons first rest =>
        cases rest with
        | nil => exact absurd rfl (hmany first)
        | cons second rest => rfl

end Choice

/-- What a comparison asks of a plain type: its kind, whether it may be written to, the elements
that objects have an indexer for, the names it declares and what it has under a name. -/
@[ext] structure Aspect (α : Type) where
  kind : Kind
  mutable : Bool
  element : Option (Option α)
  named : String → Prop
  slot : String → Option α

/-- An aspect in which something else is told of the types inside. -/
def Aspect.map (f : α → β) (aspect : Aspect α) : Aspect β where
  kind := aspect.kind
  mutable := aspect.mutable
  element := aspect.element.map (Option.map f)
  named := aspect.named
  slot name := (aspect.slot name).map f

/-- What can be told of a plain type down to a depth. -/
def View : Nat → Type
  | 0 => Unit
  | depth + 1 => Aspect (Choice (View depth))

/-- The view that is one level less deep. -/
def View.cut : {depth : Nat} → View (depth + 1) → View depth
  | 0, _ => ()
  | _ + 1, view => Aspect.map (Choice.map View.cut) view

/-! ## Assignability of views -/

structure Aspect.Fits (suits : α → α → Prop) (target source : Aspect α) : Prop where
  kind : target.kind = source.kind
  mutable : target.mutable = true → source.mutable = true
  element : ∀ expected, target.element = some (some expected) →
    ∃ found, source.element = some found ∧ ∀ actual, found = some actual → suits expected actual
  slot : ∀ name expected, target.named name → target.slot name = some expected →
    ∃ actual, source.slot name = some actual ∧ suits expected actual

def Aspect.Suits (suits : α → α → Prop) (target source : Aspect α) : Prop :=
  target.kind = .unknown ∨ source.kind = .unknown ∨ target.Fits suits source

/-- A source is assignable to a target, as far as can be told down to a depth. -/
def Admits : (depth : Nat) → Choice (View depth) → Choice (View depth) → Prop
  | 0, _, _ => True
  | depth + 1, target, .several sources =>
      ∀ source ∈ sources, Admits depth (target.map View.cut) (.one source.cut)
  | depth + 1, .several targets, .one source =>
      ∃ target ∈ targets, Admits depth (.one target.cut) (.one source.cut)
  | depth + 1, .one target, .one source => Aspect.Suits (Admits depth) target source

namespace Aspect

variable {suits : α → α → Prop} {target source : Aspect α}

theorem Fits.map {suits' : β → β → Prop} {f : α → β} (h : target.Fits suits source)
    (himp : ∀ x y, suits x y → suits' (f x) (f y)) :
    (target.map f).Fits suits' (source.map f) where
  kind := h.kind
  mutable := h.mutable
  element expected hexpected := by
    obtain ⟨inner, hinner, hf⟩ := Option.map_eq_some_iff.mp hexpected
    obtain ⟨before, rfl, rfl⟩ := Option.map_eq_some_iff.mp hf
    obtain ⟨found, hfound, hactual⟩ := h.element before hinner
    refine ⟨found.map f, by simp [Aspect.map, hfound], fun actual hmap => ?_⟩
    obtain ⟨old, hold, rfl⟩ := Option.map_eq_some_iff.mp hmap
    exact himp _ _ (hactual old hold)
  slot name expected hnamed hexpected := by
    obtain ⟨before, hbefore, rfl⟩ := Option.map_eq_some_iff.mp hexpected
    obtain ⟨actual, hactual, hsuits⟩ := h.slot name before hnamed hbefore
    exact ⟨f actual, by simp [Aspect.map, hactual], himp _ _ hsuits⟩

theorem Fits.refl (h : ∀ x, suits x x) (aspect : Aspect α) : aspect.Fits suits aspect where
  kind := rfl
  mutable hmutable := hmutable
  element expected hexpected := ⟨some expected, hexpected, by rintro _ ⟨⟩; exact h expected⟩
  slot _ expected _ hexpected := ⟨expected, hexpected, h expected⟩

theorem Suits.map {suits' : β → β → Prop} {f : α → β} (h : target.Suits suits source)
    (himp : ∀ x y, suits x y → suits' (f x) (f y)) :
    (target.map f).Suits suits' (source.map f) :=
  h.imp id fun hright => hright.imp id fun hfits => hfits.map himp

/-- A target that asks for less is suited by as much. -/
theorem Suits.of_target {other : Aspect α} (h : target.Suits suits source)
    (hkind : other.kind = target.kind) (hmutable : other.mutable = target.mutable)
    (helement : other.element = target.element)
    (hslot : ∀ name wider, other.named name → other.slot name = some wider →
      ∃ expected, target.named name ∧ target.slot name = some expected ∧
        ∀ actual, suits expected actual → suits wider actual) : other.Suits suits source := by
  rcases h with hunknown | hunknown | hfits
  · exact .inl (hkind.trans hunknown)
  · exact .inr (.inl hunknown)
  · refine .inr (.inr ⟨hkind.trans hfits.kind, ?_, ?_, ?_⟩)
    · rw [hmutable]
      exact hfits.mutable
    · rw [helement]
      exact hfits.element
    · intro name wider hnamed hwider
      obtain ⟨expected, hnamed', hexpected, himp⟩ := hslot name wider hnamed hwider
      obtain ⟨actual, hactual, hsuits⟩ := hfits.slot name expected hnamed' hexpected
      exact ⟨actual, hactual, himp actual hsuits⟩

end Aspect

namespace Admits

variable {depth : Nat}

/-- What is assignable is so at a lesser depth. -/
theorem cut {target source : Choice (View (depth + 1))} (h : Admits (depth + 1) target source) :
    Admits depth (target.map View.cut) (source.map View.cut) := by
  induction depth with
  | zero => trivial
  | succ depth ih =>
      cases source with
      | several sources =>
          intro source hsource
          obtain ⟨before, hbefore, rfl⟩ := List.mem_map.mp hsource
          exact ih (h before hbefore)
      | one source =>
          cases target with
          | several targets =>
              obtain ⟨target, htarget, hadmits⟩ := h
              exact ⟨target.cut, List.mem_map_of_mem htarget, ih hadmits⟩
          | one target => exact Aspect.Suits.map h fun _ _ => ih

/-- What is assignable to a variant is assignable to the choice. -/
theorem of_mem {target : View depth} {targets : List (View depth)} {source : Choice (View depth)}
    (hmem : target ∈ targets) (h : Admits depth (.one target) source) :
    Admits depth (.several targets) source := by
  induction depth with
  | zero => trivial
  | succ depth ih =>
      cases source with
      | one source => exact ⟨target, hmem, h.cut⟩
      | several sources =>
          intro source hsource
          exact ih (List.mem_map_of_mem hmem) (h source hsource)

theorem refl (target : Choice (View depth)) : Admits depth target target := by
  induction depth with
  | zero => trivial
  | succ depth ih =>
      cases target with
      | one target => exact .inr (.inr (.refl ih target))
      | several targets =>
          intro source hsource
          exact of_mem (List.mem_map_of_mem hsource) (ih _)

/-- Nothing is asked by a target of which nothing is known. -/
theorem of_unknown {target : View (depth + 1)} (h : Aspect.kind target = .unknown)
    (source : Choice (View (depth + 1))) : Admits (depth + 1) (.one target) source := by
  induction depth with
  | zero =>
      cases source with
      | one source => exact .inl h
      | several sources => exact fun _ _ => trivial
  | succ depth ih =>
      cases source with
      | one source => exact .inl h
      | several sources => exact fun source _ => @ih target.cut h _

end Admits

/-! ## Views of values -/

/-- What can be told of a plain type, however deep. -/
def Vista : Type := (depth : Nat) → View depth

namespace Vista

def bare (kind : Kind) (mutable : Bool) (element : Option (Option (Choice Vista))) : Vista
  | 0 => ()
  | depth + 1 => {
      kind, mutable
      element := element.map (Option.map (Choice.map (· depth)))
      named := fun _ => False
      slot := fun _ => none : Aspect (Choice (View depth)) }

/-- Two plain types are assignable both ways. -/
def Interchangeable (a b : Vista) : Prop :=
  Admits (Ty.structuralDepth + 1) (.one (a _)) (.one (b _)) ∧
    Admits (Ty.structuralDepth + 1) (.one (b _)) (.one (a _))

open Classical in
/-- Adds a plain type unless one that is there will do. -/
noncomputable def gather (known : List Vista) (incoming : Vista) : List Vista :=
  if ∃ existing ∈ known, Interchangeable existing incoming then known else known ++ [incoming]

noncomputable def general (elements : List Vista) : Option (Choice Vista) :=
  match elements.foldl gather [] with
  | [] => none
  | known => some (.ofList known)

/-- Deeper views only add to what is told. -/
def Coherent (vista : Vista) : Prop := ∀ depth, (vista (depth + 1)).cut = vista depth

theorem coherent_bare {kind : Kind} {mutable : Bool} {element : Option (Option (Choice Vista))}
    (h : ∀ choice, element = some (some choice) → ∀ vista ∈ choice.items, vista.Coherent) :
    (bare kind mutable element).Coherent := by
  intro depth
  cases depth with
  | zero => rfl
  | succ depth =>
      simp only [bare, View.cut, Aspect.map, Option.map_none, Option.map_map]
      congr 1
      cases element with
      | none => rfl
      | some found =>
          cases found with
          | none => rfl
          | some choice =>
              refine congrArg (some ∘ some) ?_
              rw [Choice.map_map]
              exact Choice.map_congr fun vista hvista => h choice rfl vista hvista depth

theorem mem_gather {known : List Vista} {incoming vista : Vista}
    (h : vista ∈ gather known incoming) : vista ∈ known ∨ vista = incoming := by
  unfold gather at h
  split at h
  · exact .inl h
  · simpa using h

theorem mem_of_mem_foldl_gather {known elements : List Vista} {vista : Vista}
    (h : vista ∈ elements.foldl gather known) : vista ∈ known ∨ vista ∈ elements := by
  induction elements generalizing known with
  | nil => exact .inl h
  | cons first rest ih =>
      rcases ih h with hknown | hrest
      · rcases mem_gather hknown with hold | rfl
        · exact .inl hold
        · exact .inr List.mem_cons_self
      · exact .inr (List.mem_cons_of_mem _ hrest)

theorem mem_of_mem_general {elements : List Vista} {choice : Choice Vista}
    (h : general elements = some choice) {vista : Vista} (hvista : vista ∈ choice.items) :
    vista ∈ elements := by
  unfold general at h
  split at h
  · cases h
  · cases h
    rw [Choice.items_ofList] at hvista
    exact (mem_of_mem_foldl_gather hvista).resolve_left List.not_mem_nil

end Vista

namespace Value

mutual

/-- The general type of a value, without its members. -/
noncomputable def general : Value → Vista
  | array _ elements => .bare .object true (some (Vista.general (generals elements)))
  | object _ _ => .bare .object true (some none)
  | value => .bare value.kind false none

noncomputable def generals : List Value → List Vista
  | [] => []
  | value :: rest => value.general :: generals rest

end

def Declares (value : Value) (name : String) : Prop :=
  (∃ tag members, value = object tag members) ∧ value.get? name ≠ none

/-- What can be told of the type of a value down to a depth. -/
noncomputable def view : (depth : Nat) → Value → View depth
  | 0, _ => ()
  | depth + 1, value => {
      (value.general (depth + 1) : Aspect (Choice (View depth))) with
      named := value.Declares
      slot := fun name =>
        if Ty.hasMembers value.kind then (value.get? name).map fun inner => .one (inner.view depth)
        else none }

theorem kind_general (value : Value) (depth : Nat) :
    (value.general (depth + 1)).kind = value.kind := by
  cases value <;> simp [general, Vista.bare, kind]

mutual

theorem coherent_general (value : Value) : value.general.Coherent := by
  cases value with
  | array tag elements =>
      unfold general
      apply Vista.coherent_bare
      intro choice hchoice vista hvista
      exact coherent_generals elements vista
        (Vista.mem_of_mem_general (Option.some.inj hchoice) hvista)
  | undefined | null | bool b | number x | string s | object tag members =>
      unfold general
      apply Vista.coherent_bare
      intro choice hchoice
      cases hchoice

theorem coherent_generals (values : List Value) :
    ∀ vista ∈ generals values, vista.Coherent := by
  cases values with
  | nil =>
      unfold generals
      intro vista hvista
      cases hvista
  | cons value rest =>
      unfold generals
      intro vista hvista
      rcases List.mem_cons.mp hvista with rfl | hvista
      · exact coherent_general value
      · exact coherent_generals rest vista hvista

end

theorem cut_view (depth : Nat) (value : Value) : (value.view (depth + 1)).cut =
    value.view depth := by
  induction depth generalizing value with
  | zero => rfl
  | succ depth ih =>
      have hgeneral := coherent_general value (depth + 1)
      have hkind := congrArg Aspect.kind hgeneral
      have hmutable := congrArg Aspect.mutable hgeneral
      have helement := congrArg Aspect.element hgeneral
      refine Aspect.ext hkind hmutable helement rfl (funext fun name => ?_)
      change Option.map _ (ite _ _ _) = ite _ _ _
      split
      · rw [Option.map_map]
        exact congrArg (Option.map · _) (funext fun inner => congrArg Choice.one (ih inner))
      · rfl

/-- The general type of a value is told by what its type is without members. -/
theorem eq_general {value : Value} {depth : Nat} {aspect : Aspect (Choice (View depth))}
    (hkind : aspect.kind = (value.view (depth + 1)).kind)
    (hmutable : aspect.mutable = (value.view (depth + 1)).mutable)
    (helement : aspect.element = (value.view (depth + 1)).element)
    (hnamed : ∀ name, ¬ aspect.named name) (hslot : ∀ name, aspect.slot name = none) :
    aspect = value.general (depth + 1) := by
  refine Aspect.ext hkind hmutable helement (funext fun name => ?_) (funext fun name => ?_)
  · rw [eq_false (hnamed name)]
    cases value <;> simp [general, Vista.bare]
  · rw [hslot]
    cases value <;> simp [general, Vista.bare]

/-! Identities have no part in what can be told. -/

mutual

theorem general_untagged (value : Value) : value.untagged.general = value.general := by
  cases value with
  | array tag elements => rw [untagged, general, general, generals_untagged]
  | undefined | null | bool b | number x | string s | object tag members => rfl

theorem generals_untagged (values : List Value) :
    generals (untaggedElements values) = generals values := by
  cases values with
  | nil => rfl
  | cons value rest => rw [untaggedElements, generals, generals, general_untagged,
      generals_untagged]

end

theorem general_eq_of_untagged {v w : Value} (h : v.untagged = w.untagged) :
    v.general = w.general := by
  rw [← general_untagged v, h, general_untagged]

theorem declares_of_untagged {v w : Value} (h : v.untagged = w.untagged) {name : String}
    (hdeclares : v.Declares name) : w.Declares name := by
  obtain ⟨⟨tag, members, rfl⟩, hfound⟩ := hdeclares
  obtain ⟨inner, hinner⟩ := Option.ne_none_iff_exists'.mp hfound
  obtain ⟨other, hother, -⟩ := get?_of_untagged h hinner
  refine ⟨?_, by simp [hother]⟩
  cases w with
  | object tag' members' => exact ⟨tag', members', rfl⟩
  | undefined | null | bool b | number x | string s | array tag' elements =>
      simp [untagged] at h

theorem view_eq_of_untagged {v w : Value} (h : v.untagged = w.untagged) (depth : Nat) :
    v.view depth = w.view depth := by
  induction depth generalizing v w with
  | zero => rfl
  | succ depth ih =>
      have hgeneral := general_eq_of_untagged h
      refine Aspect.ext ?_ ?_ ?_ ?_ ?_
      · simp only [view, hgeneral]
      · simp only [view, hgeneral]
      · simp only [view, hgeneral]
      · funext name
        exact propext ⟨declares_of_untagged h, declares_of_untagged h.symm⟩
      · funext name
        simp only [view, kind_eq_of_untagged h]
        split
        · cases hinner : v.get? name with
          | some inner =>
              obtain ⟨other, hother, hsame⟩ := get?_of_untagged h hinner
              rw [hother, Option.map_some, Option.map_some, ih hsame]
          | none =>
              cases hother : w.get? name with
              | none => rfl
              | some other =>
                  obtain ⟨inner, hsome, -⟩ := get?_of_untagged h.symm hother
                  rw [hinner] at hsome
                  cases hsome
        · rfl

end Value

/-! ## Views of types -/

def Ty.choice : Ty → Choice TypeId
  | plain id => .one id
  | union variants => .several variants

@[simp] theorem Ty.items_choice (ty : Ty) : ty.choice.items = ty.variants := by
  cases ty <;> rfl

namespace TypeStore

/-- What can be told of a plain type down to a depth. -/
noncomputable def viewAt (store : TypeStore) : (depth : Nat) → TypeId → View depth
  | 0, _ => ()
  | depth + 1, id => {
      kind := (store.shape id).kind
      mutable := (store.shape id).mutable
      element :=
        if (store.shape id).kind = .object then
          (store.shape id).indexer.map fun indexer => indexer.element.map fun element =>
            element.choice.map (store.viewAt depth)
        else none
      named := fun name => name ∈ (store.shape id).memberNames
      slot := fun name => ((store.shape id).slot? name).map fun
        | .declared member => member.choice.map (store.viewAt depth)
        | .known value => .one (value.view depth) }

noncomputable def view (store : TypeStore) (depth : Nat) (ty : Ty) : Choice (View depth) :=
  ty.choice.map (store.viewAt depth)

theorem cut_viewAt (store : TypeStore) (depth : Nat) (id : TypeId) :
    (store.viewAt (depth + 1) id).cut = store.viewAt depth id := by
  induction depth generalizing id with
  | zero => rfl
  | succ depth ih =>
      have hcut : ∀ choice : Choice TypeId,
          (choice.map (store.viewAt (depth + 1))).map View.cut =
            choice.map (store.viewAt depth) := by
        intro choice
        rw [Choice.map_map]
        exact Choice.map_congr fun inner _ => ih inner
      refine Aspect.ext rfl rfl ?_ rfl ?_
      · change Option.map _ (ite _ _ _) = ite _ _ _
        split
        · rcases (store.shape id).indexer with _ | ⟨key, _ | element⟩
          · rfl
          · rfl
          · exact congrArg (some ∘ some) (hcut element.choice)
        · rfl
      · funext name
        change Option.map _ (Option.map _ _) = Option.map _ _
        rw [Option.map_map]
        refine congrArg (Option.map · _) (funext fun slot => ?_)
        cases slot with
        | declared member => exact hcut member.choice
        | known value => exact congrArg Choice.one (value.cut_view depth)

theorem cut_view (store : TypeStore) (depth : Nat) (ty : Ty) :
    (store.view (depth + 1) ty).map View.cut = store.view depth ty := by
  unfold view
  rw [Choice.map_map]
  exact Choice.map_congr fun id _ => store.cut_viewAt depth id

theorem admits_union_source {store : TypeStore} {depth : Nat} {target : Ty}
    {variants : List TypeId} :
    Admits (depth + 1) (store.view (depth + 1) target) (store.view (depth + 1) (.union variants)) ↔
      ∀ variant ∈ variants,
        Admits depth (store.view depth target) (store.view depth (.plain variant)) := by
  change (∀ source ∈ variants.map (store.viewAt (depth + 1)),
    Admits depth ((store.view (depth + 1) target).map View.cut) (.one source.cut)) ↔ _
  simp only [List.forall_mem_map, cut_view, cut_viewAt]
  rfl

theorem admits_union_target {store : TypeStore} {depth : Nat} {variants : List TypeId}
    {source : TypeId} :
    Admits (depth + 1) (store.view (depth + 1) (.union variants))
        (store.view (depth + 1) (.plain source)) ↔
      ∃ variant ∈ variants,
        Admits depth (store.view depth (.plain variant)) (store.view depth (.plain source)) := by
  change (∃ target ∈ variants.map (store.viewAt (depth + 1)),
    Admits depth (.one target.cut) (.one (store.viewAt (depth + 1) source).cut)) ↔ _
  simp only [List.mem_map, exists_exists_and_eq_and, cut_viewAt]
  rfl

end TypeStore

end ScriptCheck
