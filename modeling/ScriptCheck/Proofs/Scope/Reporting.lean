import ScriptCheck.Check.Options
import ScriptCheck.Proofs.Scope.Build

/-!
# Reporting has no part in building scopes

What is reported depends on two options: whether diagnostics are merged, and whether assigning
`undefined` is a problem.  What they show can be told from what is found when everything is
reported, and by itself.  The walk over a tree makes the same graph whatever is shown.
-/

namespace ScriptCheck

/-! ## What is shown of what is found -/

namespace CheckOptions

def reports (options : CheckOptions) (problem : Problem) : Bool :=
  options.reportUndefinedAssignment || problem ≠ .assignUndefined

def collect (options : CheckOptions) (found : List Diagnostic) : Diagnostics :=
  (found.filter fun diagnostic => options.reports diagnostic.problem).foldl Diagnostics.report
    (.empty options.mergeDiagnostics)

end CheckOptions

namespace Diagnostics

theorem report_of_not_merging {diagnostics : Diagnostics} (h : diagnostics.merging = false)
    (found : Diagnostic) :
    diagnostics.report found = { diagnostics with records := diagnostics.records.push found } := by
  unfold report
  cases diagnostics.records.back? with
  | none => rfl
  | some last => simp [h]

/-- Nothing is lost and nothing changed when nothing is merged. -/
theorem foldl_report_of_not_merging {diagnostics : Diagnostics} (h : diagnostics.merging = false)
    (found : List Diagnostic) :
    found.foldl report diagnostics =
      { diagnostics with records := diagnostics.records ++ found.toArray } := by
  induction found generalizing diagnostics with
  | nil => simp
  | cons first rest ih =>
      rw [List.foldl_cons, report_of_not_merging h, ih (by exact h)]
      simp

end Diagnostics

namespace CheckOptions

variable (options : CheckOptions)

theorem collect_of_not_merging (h : options.mergeDiagnostics = false) (found : List Diagnostic) :
    options.collect found =
      ⟨false, (found.filter fun diagnostic => options.reports diagnostic.problem).toArray⟩ := by
  unfold collect
  rw [h, Diagnostics.foldl_report_of_not_merging rfl]
  simp [Diagnostics.empty]

theorem collect_report {diagnostics : Diagnostics} (h : diagnostics.merging = false)
    (found : Diagnostic) :
    options.collect (diagnostics.report found).toList =
      if options.reports found.problem then (options.collect diagnostics.toList).report found
      else options.collect diagnostics.toList := by
  have hlist : (diagnostics.report found).toList = diagnostics.toList ++ [found] := by
    simp [Diagnostics.report_of_not_merging h, Diagnostics.toList]
  unfold collect
  rw [hlist, List.filter_append, List.foldl_append]
  split
  · rename_i hreports
    rw [List.filter_cons_of_pos (by exact hreports)]
    rfl
  · rename_i hreports
    rw [List.filter_cons_of_neg (by exact hreports)]
    rfl

end CheckOptions

/-! ## Building the scopes -/

namespace ScopeBuilder

variable {α β : Type} {options : CheckOptions} {tree : Tree}

/-- What a builder is when only so much is shown. -/
def shown (options : CheckOptions) (builder : ScopeBuilder) : ScopeBuilder :=
  { builder with diagnostics := options.collect builder.diagnostics.toList }

/-- A step of the walk does the same whatever is shown. -/
def Impartial (options : CheckOptions) (step : Build α) : Prop :=
  ∀ builder : ScopeBuilder, builder.diagnostics.merging = false →
    step (builder.shown options) = ((step builder).1, (step builder).2.shown options) ∧
      (step builder).2.diagnostics.merging = false

namespace Impartial

theorem pure (result : α) : Impartial options (Pure.pure result) := fun _ h => ⟨rfl, h⟩

theorem bind {step : Build α} {f : α → Build β} (h : Impartial options step)
    (hf : ∀ result, Impartial options (f result)) : Impartial options (step >>= f) := by
  intro builder hbuilder
  obtain ⟨hstep, hnext⟩ := h builder hbuilder
  obtain ⟨hrest, hlast⟩ := hf (step builder).1 (step builder).2 hnext
  refine ⟨?_, hlast⟩
  change f (step (builder.shown options)).1 (step (builder.shown options)).2 = _
  rw [hstep]
  exact hrest

theorem modifyGraph (f : ScopeGraph → ScopeGraph) :
    Impartial options (ScopeBuilder.modifyGraph f) := fun _ h => ⟨rfl, h⟩

theorem graph? (f : ScopeGraph → α) : Impartial options (ScopeBuilder.graph? f) :=
  fun _ h => ⟨rfl, h⟩

theorem note (reference : Reference) : Impartial options (ScopeBuilder.note reference) :=
  fun _ h => ⟨rfl, h⟩

theorem report (node : NodeId) {problem : Problem} (hproblem : problem ≠ .assignUndefined) :
    Impartial options (ScopeBuilder.report tree node problem) := by
  intro builder h
  let found : Diagnostic := .ofProblem (tree.start node).location problem []
  have hreports : options.reports found.problem = true := by
    simp [CheckOptions.reports, found, Diagnostic.ofProblem, hproblem]
  have hcollect := options.collect_report h found
  rw [if_pos hreports] at hcollect
  constructor
  · change ((), { builder.shown options with
      diagnostics := (options.collect builder.diagnostics.toList).report found }) = _
    rw [← hcollect]
    rfl
  · change (builder.diagnostics.report found).merging = false
    rw [Diagnostics.report_of_not_merging h]
    exact h

theorem forM {items : List α} {f : α → Build Unit} (hf : ∀ item, Impartial options (f item)) :
    Impartial options (items.forM f) := by
  induction items with
  | nil => exact .pure ()
  | cons item rest ih => exact (hf item).bind fun _ => ih

theorem optionForM {item : Option α} {f : α → Build Unit}
    (hf : ∀ item, Impartial options (f item)) :
    Impartial options (item.forM f) := by
  cases item with
  | none => exact .pure ()
  | some item => exact hf item

end Impartial

theorem impartial_openScope (node : NodeId) (parent : Option ScopeId) (hoists : Bool) :
    Impartial options (openScope node parent hoists) :=
  (Impartial.graph? _).bind fun _ => (Impartial.modifyGraph _).bind fun _ => .pure _

theorem impartial_markDeclared (node : NodeId) (kind : SymbolKind) (symbol : SymbolId) :
    Impartial options (markDeclared node kind symbol) := by
  unfold markDeclared
  split
  · exact .modifyGraph _
  · exact .pure ()

theorem impartial_declare (scope : ScopeId) (node : NodeId) (name : String) (kind : SymbolKind) :
    Impartial options (declare tree scope node name kind) := by
  refine (Impartial.graph? _).bind fun found => ?_
  cases found with
  | some existing =>
      exact (Impartial.report node (by simp)).bind fun _ =>
        (impartial_markDeclared node kind existing).bind fun _ => .pure existing
  | none =>
      exact (Impartial.graph? _).bind fun fresh => (Impartial.modifyGraph _).bind fun _ =>
        (impartial_markDeclared node kind fresh).bind fun _ => .pure fresh

theorem impartial_declareNew (scope : ScopeId) (node : NodeId) (name : String)
    (kind : SymbolKind) : Impartial options (declareNew tree scope node name kind) := by
  refine (Impartial.graph? _).bind fun found => ?_
  split
  · exact (impartial_declare scope node name kind).bind fun _ => .pure ()
  · exact .pure ()

theorem impartial_recordWrite (symbol : SymbolId) (value : NodeId) :
    Impartial options (recordWrite symbol value) := .modifyGraph _

theorem impartial_scopeInside (id : NodeId) (around : ScopeId) (kind : NodeKind) :
    Impartial options (scopeInside id around kind) := by
  unfold scopeInside
  split
  all_goals first | exact impartial_openScope _ _ _ | exact .pure _

theorem impartial_declareVariables (scope : ScopeId) (kind : DeclarationKind)
    (declarators : List NodeId) :
    Impartial options (declareVariables tree scope kind declarators) := by
  refine .forM fun declarator => ?_
  split
  · exact (Impartial.graph? _).bind fun _ => (impartial_declare _ declarator _ _).bind
      fun symbol => .optionForM (impartial_recordWrite symbol)
  · exact .pure ()

theorem impartial_declareParameter (scope : ScopeId) (parameter : NodeId) :
    Impartial options (declareParameter tree scope parameter) := by
  unfold declareParameter
  split
  · exact (impartial_declare scope parameter _ _).bind fun _ => .pure ()
  · exact .pure ()

theorem impartial_declareAround (id : NodeId) (scope : ScopeId) (shape : FunctionShape) :
    Impartial options (declareAround tree id scope shape) := by
  unfold declareAround
  split
  · exact (Impartial.graph? _).bind fun target => (impartial_declare target id _ _).bind
      fun symbol => impartial_recordWrite symbol id
  · exact .pure ()

theorem impartial_declareImplicit (id : NodeId) (scope : ScopeId) (shape : FunctionShape) :
    Impartial options (declareImplicit tree id scope shape) := by
  unfold declareImplicit
  split
  · exact .pure ()
  · exact (impartial_declare scope id _ _).bind fun _ => impartial_declareNew scope id _ _

theorem impartial_declareOwnName (id : NodeId) (scope : ScopeId) (shape : FunctionShape) :
    Impartial options (declareOwnName tree id scope shape) := by
  unfold declareOwnName
  split
  · exact impartial_declareNew scope id _ _
  · exact .pure ()

theorem impartial_declareFunction (id : NodeId) (scope : ScopeId) (shape : FunctionShape) :
    Impartial options (declareFunction tree id scope shape) := by
  rw [declareFunction_eq]
  exact (impartial_declareAround id scope shape).bind fun _ =>
    (Impartial.forM (impartial_declareParameter scope)).bind fun _ =>
      (impartial_declareImplicit id scope shape).bind fun _ =>
        impartial_declareOwnName id scope shape

theorem impartial_enter (id : NodeId) (scope : ScopeId) :
    Impartial options (enter tree id scope) := by
  unfold enter
  split
  · exact impartial_declareVariables scope _ _
  · exact impartial_declareFunction id scope _
  · exact impartial_declareParameter scope _
  · exact .note _
  · exact .note _
  · unfold noteAssignment
    split
    · exact .note _
    · exact .pure ()
  · exact .pure ()

theorem impartial_visit (depth : Nat) (id : NodeId) (around : ScopeId) :
    Impartial options (visit tree depth id around) := by
  induction depth generalizing id around with
  | zero => exact .pure ()
  | succ depth ih =>
      exact (impartial_scopeInside id around _).bind fun scope =>
        (Impartial.modifyGraph _).bind fun _ => (impartial_enter id scope).bind fun _ =>
          .forM fun child => ih child scope

theorem impartial_resolveRead (node : NodeId) (name : String) :
    Impartial options (resolveRead tree node name) := by
  refine (Impartial.graph? _).bind fun found => ?_
  cases found with
  | some symbol => exact .modifyGraph _
  | none =>
      dsimp only
      split
      · exact .pure ()
      · exact .report node (by simp)

theorem impartial_resolveWrite (node : NodeId) (name : String) (value : NodeId) :
    Impartial options (resolveWrite tree node name value) := by
  refine (Impartial.graph? _).bind fun found => ?_
  cases found with
  | none => exact .report node (by simp)
  | some symbol =>
      refine (Impartial.modifyGraph _).bind fun _ => (Impartial.graph? _).bind fun mutable => ?_
      split
      · exact impartial_recordWrite symbol value
      · exact .report node (by simp)

theorem impartial_resolve (references : List Reference) :
    Impartial options (resolve tree references) := by
  refine .forM fun reference => ?_
  cases reference with
  | read node name =>
      dsimp only
      split
      · exact .pure ()
      · exact impartial_resolveRead node name
  | write node name value => exact impartial_resolveWrite node name value

theorem impartial_build (globals : List String) : Impartial options (build tree globals) := by
  refine (impartial_openScope _ _ _).bind fun global => ?_
  refine (Impartial.forM fun name => ?_).bind fun _ => (impartial_visit _ _ global).bind fun _ => ?_
  · exact (impartial_declare global _ name _).bind fun _ => .pure ()
  · intro builder h
    exact impartial_resolve builder.references.reverse builder h

end ScopeBuilder

open ScopeBuilder in
/-- The graph of a tree is the same whatever is shown, and what is shown can be told from
what is found. -/
theorem ScopeGraph.build_shown (tree : Tree) (options : CheckOptions) :
    ScopeGraph.build tree options.globals (.empty options.mergeDiagnostics) =
      ((ScopeGraph.build tree options.globals (.empty false)).1,
        options.collect (ScopeGraph.build tree options.globals (.empty false)).2.toList) ∧
      (ScopeGraph.build tree options.globals (.empty false)).2.merging = false := by
  have himpartial : Impartial options (ScopeBuilder.build tree options.globals) :=
    impartial_build options.globals
  obtain ⟨hrun, hmerging⟩ := himpartial ⟨.empty tree.size, [], .empty false⟩ rfl
  refine ⟨?_, hmerging⟩
  exact congrArg (fun built : Unit × ScopeBuilder => (built.2.graph, built.2.diagnostics)) hrun

end ScriptCheck
