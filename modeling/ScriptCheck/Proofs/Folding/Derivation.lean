import Mathlib.Data.List.Forall2
import Mathlib.Logic.Relation
import ScriptCheck.Folding

/-!
# Derivations of folded values

The rules of folding as a relation that knows of no memo and of no node under way, and
derivations by them, measured by their height.  A node that reads itself, through whichever
other nodes, has no derivation.
-/

namespace ScriptCheck.Folding

variable {tree : Tree} {graph : ScopeGraph}

/-! ## Rules and derivations -/

/-- Whether a logical operator gives its first operand and skips the second. -/
def settles : LogicalOp → Value → Bool
  | .and, value => !value.truthy
  | .or, value => value.truthy

/-- The members that the properties of an object literal add to a record, given the values
of other nodes. -/
inductive Adds (tree : Tree) (R : NodeId → Value → Prop) :
    List NodeId → List (String × Value) → List (String × Value) → Prop
  | nil (record : List (String × Value)) : Adds tree R [] record record
  | cons {property value : NodeId} {rest : List NodeId} {key : String} {member : Value}
      {record all : List (String × Value)} (kind : tree.kind property = .property key value)
      (first : R value member) (others : Adds tree R rest (Record.insert key member record) all) :
      Adds tree R (property :: rest) record all

inductive Rule (tree : Tree) (graph : ScopeGraph) (R : NodeId → Value → Prop) :
    NodeId → Value → Prop
  | literal {id : NodeId} {literal : Literal} (kind : tree.kind id = .literal literal) :
      Rule tree graph R id literal.value
  | name {id write : NodeId} {name : String} {value : Value}
      (kind : tree.kind id = .identifier name) (only : onlyWrite? graph id = some write)
      (stored : R write value) (primitive : value.isPrimitive = true) :
      Rule tree graph R id value
  | unary {id argument : NodeId} {op : UnaryOp} {operand value : Value}
      (kind : tree.kind id = .unary op argument) (inner : R argument operand)
      (computes : foldUnary op operand = some value) : Rule tree graph R id value
  | first {id left right : NodeId} {op : LogicalOp} {value : Value}
      (kind : tree.kind id = .logical op left right) (inner : R left value)
      (settled : settles op value = true) : Rule tree graph R id value
  | second {id left right : NodeId} {op : LogicalOp} {skipped value : Value}
      (kind : tree.kind id = .logical op left right) (before : R left skipped)
      (unsettled : settles op skipped = false) (inner : R right value) :
      Rule tree graph R id value
  | binary {id left right : NodeId} {op : BinaryOp} {a b value : Value}
      (kind : tree.kind id = .binary op left right) (leftValue : R left a) (rightValue : R right b)
      (computes : foldBinary op a b = some value) : Rule tree graph R id value
  | consequent {id test consequent alternate : NodeId} {condition value : Value}
      (kind : tree.kind id = .conditional test consequent alternate) (tested : R test condition)
      (holds : condition.truthy = true) (inner : R consequent value) : Rule tree graph R id value
  | alternate {id test consequent alternate : NodeId} {condition value : Value}
      (kind : tree.kind id = .conditional test consequent alternate) (tested : R test condition)
      (fails : condition.truthy = false) (inner : R alternate value) : Rule tree graph R id value
  | array {id : NodeId} {elements : List NodeId} {values : List Value}
      (kind : tree.kind id = .array elements) (each : List.Forall₂ R elements values) :
      Rule tree graph R id (.array id values)
  | object {id : NodeId} {properties : List NodeId} {members : List (String × Value)}
      (kind : tree.kind id = .object properties) (each : Adds tree R properties [] members) :
      Rule tree graph R id (.object id members)
  | named {id owner : NodeId} {name : String} {whole value : Value}
      (kind : tree.kind id = .member owner (.named name)) (inner : R owner whole)
      (has : whole.get? name = some value) : Rule tree graph R id value
  | computed {id owner key : NodeId} {whole name value : Value}
      (kind : tree.kind id = .member owner (.computed key)) (inner : R owner whole)
      (keyed : R key name) (has : whole.get? name.text = some value) : Rule tree graph R id value

def DerivesIn (tree : Tree) (graph : ScopeGraph) : Nat → NodeId → Value → Prop
  | 0 => fun _ _ => False
  | height + 1 => Rule tree graph (DerivesIn tree graph height)

/-- A value has a finite derivation by the rules of folding. -/
def Derives (tree : Tree) (graph : ScopeGraph) (id : NodeId) (value : Value) : Prop :=
  ∃ height, DerivesIn tree graph height id value

theorem Adds.mono {R S : NodeId → Value → Prop} (h : ∀ id value, R id value → S id value)
    {properties : List NodeId} {record all : List (String × Value)}
    (hadds : Adds tree R properties record all) : Adds tree S properties record all := by
  induction hadds with
  | nil record => exact .nil record
  | cons hkind hfirst _ ih => exact .cons hkind (h _ _ hfirst) ih

theorem Adds.exists_of_mem {R : NodeId → Value → Prop} {properties : List NodeId}
    {record all : List (String × Value)} (h : Adds tree R properties record all)
    {property value : NodeId} {key : String} (hmem : property ∈ properties)
    (hkind : tree.kind property = .property key value) : ∃ member, R value member := by
  induction h with
  | nil => cases hmem
  | cons hkind' hfirst _ ih =>
      rcases List.mem_cons.mp hmem with rfl | hmem
      · cases hkind.symm.trans hkind'
        exact ⟨_, hfirst⟩
      · exact ih hmem

theorem Rule.mono {R S : NodeId → Value → Prop} (h : ∀ id value, R id value → S id value)
    {id : NodeId} {value : Value} (hrule : Rule tree graph R id value) :
    Rule tree graph S id value := by
  cases hrule with
  | literal hkind => exact .literal hkind
  | name hkind honly hstored hprimitive => exact .name hkind honly (h _ _ hstored) hprimitive
  | unary hkind hinner hcomputes => exact .unary hkind (h _ _ hinner) hcomputes
  | first hkind hinner hsettled => exact .first hkind (h _ _ hinner) hsettled
  | second hkind hbefore hunsettled hinner =>
      exact .second hkind (h _ _ hbefore) hunsettled (h _ _ hinner)
  | binary hkind hleftValue hrightValue hcomputes =>
      exact .binary hkind (h _ _ hleftValue) (h _ _ hrightValue) hcomputes
  | consequent hkind htested holds hinner =>
      exact .consequent hkind (h _ _ htested) holds (h _ _ hinner)
  | alternate hkind htested hfails hinner =>
      exact .alternate hkind (h _ _ htested) hfails (h _ _ hinner)
  | array hkind heach => exact .array hkind (heach.imp fun id value => h id value)
  | object hkind heach => exact .object hkind (heach.mono h)
  | named hkind hinner has => exact .named hkind (h _ _ hinner) has
  | computed hkind hinner hkeyed has => exact .computed hkind (h _ _ hinner) (h _ _ hkeyed) has

theorem DerivesIn.succ {height : Nat} {id : NodeId} {value : Value}
    (h : DerivesIn tree graph height id value) : DerivesIn tree graph (height + 1) id value := by
  induction height generalizing id value with
  | zero => exact h.elim
  | succ height ih => exact Rule.mono (fun _ _ => ih) h

theorem DerivesIn.mono {height higher : Nat} (hle : height ≤ higher) {id : NodeId} {value : Value}
    (h : DerivesIn tree graph height id value) : DerivesIn tree graph higher id value := by
  induction hle with
  | refl => exact h
  | step _ ih => exact ih.succ

/-! What a rule says of a node of each kind. -/

namespace Rule

variable {R : NodeId → Value → Prop} {id : NodeId} {value : Value}

theorem literal_iff {literal : Literal} (hkind : tree.kind id = .literal literal) :
    Rule tree graph R id value ↔ literal.value = value := by
  constructor
  · intro hrule
    cases hrule with
    | literal hkind' =>
        cases hkind.symm.trans hkind'
        rfl
    | _ => simp_all
  · rintro rfl
    exact .literal hkind

theorem name_iff {name : String} (hkind : tree.kind id = .identifier name) :
    Rule tree graph R id value ↔ ∃ write, onlyWrite? graph id = some write ∧
      R write value ∧ value.isPrimitive = true := by
  constructor
  · intro hrule
    cases hrule with
    | name hkind' honly hstored hprimitive => exact ⟨_, honly, hstored, hprimitive⟩
    | _ => simp_all
  · rintro ⟨write, honly, hstored, hprimitive⟩
    exact .name hkind honly hstored hprimitive

theorem unary_iff {op : UnaryOp} {argument : NodeId} (hkind : tree.kind id = .unary op argument) :
    Rule tree graph R id value ↔
      ∃ operand, R argument operand ∧ foldUnary op operand = some value := by
  constructor
  · intro hrule
    cases hrule with
    | unary hkind' hinner hcomputes =>
        cases hkind.symm.trans hkind'
        exact ⟨_, hinner, hcomputes⟩
    | _ => simp_all
  · rintro ⟨operand, hinner, hcomputes⟩
    exact .unary hkind hinner hcomputes

theorem logical_iff {op : LogicalOp} {left right : NodeId}
    (hkind : tree.kind id = .logical op left right) :
    Rule tree graph R id value ↔ ∃ first, R left first ∧
      if settles op first then first = value else R right value := by
  constructor
  · intro hrule
    cases hrule with
    | first hkind' hinner hsettled =>
        cases hkind.symm.trans hkind'
        exact ⟨_, hinner, by rw [if_pos hsettled]⟩
    | second hkind' hbefore hunsettled hinner =>
        cases hkind.symm.trans hkind'
        exact ⟨_, hbefore, by rwa [hunsettled, if_neg Bool.false_ne_true]⟩
    | _ => simp_all
  · rintro ⟨first, hinner, hresult⟩
    by_cases hsettles : settles op first = true
    · rw [if_pos hsettles] at hresult
      subst hresult
      exact .first hkind hinner hsettles
    · rw [if_neg hsettles] at hresult
      exact .second hkind hinner (eq_false_of_ne_true hsettles) hresult

theorem binary_iff {op : BinaryOp} {left right : NodeId}
    (hkind : tree.kind id = .binary op left right) :
    Rule tree graph R id value ↔
      ∃ a, R left a ∧ ∃ b, R right b ∧ foldBinary op a b = some value := by
  constructor
  · intro hrule
    cases hrule with
    | binary hkind' hleftValue hrightValue hcomputes =>
        cases hkind.symm.trans hkind'
        exact ⟨_, hleftValue, _, hrightValue, hcomputes⟩
    | _ => simp_all
  · rintro ⟨a, hleftValue, b, hrightValue, hcomputes⟩
    exact .binary hkind hleftValue hrightValue hcomputes

theorem conditional_iff {test consequent alternate : NodeId}
    (hkind : tree.kind id = .conditional test consequent alternate) :
    Rule tree graph R id value ↔ ∃ condition, R test condition ∧
      if condition.truthy then R consequent value else R alternate value := by
  constructor
  · intro hrule
    cases hrule with
    | consequent hkind' htested holds hinner =>
        cases hkind.symm.trans hkind'
        exact ⟨_, htested, by rwa [if_pos holds]⟩
    | alternate hkind' htested hfails hinner =>
        cases hkind.symm.trans hkind'
        exact ⟨_, htested, by rwa [hfails, if_neg Bool.false_ne_true]⟩
    | _ => simp_all
  · rintro ⟨condition, htested, hresult⟩
    by_cases htruthy : condition.truthy = true
    · rw [if_pos htruthy] at hresult
      exact .consequent hkind htested htruthy hresult
    · rw [if_neg htruthy] at hresult
      exact .alternate hkind htested (eq_false_of_ne_true htruthy) hresult

theorem array_iff {elements : List NodeId} (hkind : tree.kind id = .array elements) :
    Rule tree graph R id value ↔
      ∃ values, List.Forall₂ R elements values ∧ .array id values = value := by
  constructor
  · intro hrule
    cases hrule with
    | array hkind' heach =>
        cases hkind.symm.trans hkind'
        exact ⟨_, heach, rfl⟩
    | _ => simp_all
  · rintro ⟨values, heach, rfl⟩
    exact .array hkind heach

theorem object_iff {properties : List NodeId} (hkind : tree.kind id = .object properties) :
    Rule tree graph R id value ↔
      ∃ members, Adds tree R properties [] members ∧ .object id members = value := by
  constructor
  · intro hrule
    cases hrule with
    | object hkind' heach =>
        cases hkind.symm.trans hkind'
        exact ⟨_, heach, rfl⟩
    | _ => simp_all
  · rintro ⟨members, heach, rfl⟩
    exact .object hkind heach

theorem named_iff {owner : NodeId} {name : String}
    (hkind : tree.kind id = .member owner (.named name)) :
    Rule tree graph R id value ↔ ∃ whole, R owner whole ∧ whole.get? name = some value := by
  constructor
  · intro hrule
    cases hrule with
    | named hkind' hinner has =>
        cases hkind.symm.trans hkind'
        exact ⟨_, hinner, has⟩
    | _ => simp_all
  · rintro ⟨whole, hinner, has⟩
    exact .named hkind hinner has

theorem computed_iff {owner key : NodeId} (hkind : tree.kind id = .member owner (.computed key)) :
    Rule tree graph R id value ↔ ∃ whole, R owner whole ∧ ∃ name, R key name ∧
      whole.get? name.text = some value := by
  constructor
  · intro hrule
    cases hrule with
    | computed hkind' hinner hkeyed has =>
        cases hkind.symm.trans hkind'
        exact ⟨_, hinner, _, hkeyed, has⟩
    | _ => simp_all
  · rintro ⟨whole, hinner, name, hkeyed, has⟩
    exact .computed hkind hinner hkeyed has

end Rule

/-! ## Cycles -/

/-- Every rule for the first node reads the second. -/
inductive Reads (tree : Tree) (graph : ScopeGraph) : NodeId → NodeId → Prop
  | write {id write : NodeId} {name : String} (kind : tree.kind id = .identifier name)
      (only : onlyWrite? graph id = some write) : Reads tree graph id write
  | argument {id argument : NodeId} {op : UnaryOp} (kind : tree.kind id = .unary op argument) :
      Reads tree graph id argument
  | first {id left right : NodeId} {op : LogicalOp} (kind : tree.kind id = .logical op left right) :
      Reads tree graph id left
  | left {id left right : NodeId} {op : BinaryOp} (kind : tree.kind id = .binary op left right) :
      Reads tree graph id left
  | right {id left right : NodeId} {op : BinaryOp} (kind : tree.kind id = .binary op left right) :
      Reads tree graph id right
  | test {id test consequent alternate : NodeId}
      (kind : tree.kind id = .conditional test consequent alternate) : Reads tree graph id test
  | element {id element : NodeId} {elements : List NodeId} (kind : tree.kind id = .array elements)
      (mem : element ∈ elements) : Reads tree graph id element
  | property {id property value : NodeId} {properties : List NodeId} {key : String}
      (kind : tree.kind id = .object properties) (mem : property ∈ properties)
      (inner : tree.kind property = .property key value) : Reads tree graph id value
  | owner {id owner : NodeId} {key : MemberKey} (kind : tree.kind id = .member owner key) :
      Reads tree graph id owner
  | key {id owner key : NodeId} (kind : tree.kind id = .member owner (.computed key)) :
      Reads tree graph id key

theorem Reads.derivesIn {id other : NodeId} (h : Reads tree graph id other) {height : Nat}
    {value : Value} (hderives : DerivesIn tree graph (height + 1) id value) :
    ∃ read, DerivesIn tree graph height other read := by
  cases h with
  | write hkind honly' =>
      obtain ⟨write, honly, hstored, -⟩ := (Rule.name_iff hkind).mp hderives
      cases honly'.symm.trans honly
      exact ⟨value, hstored⟩
  | argument hkind =>
      obtain ⟨operand, hoperand, -⟩ := (Rule.unary_iff hkind).mp hderives
      exact ⟨operand, hoperand⟩
  | first hkind =>
      obtain ⟨first, hfirst, -⟩ := (Rule.logical_iff hkind).mp hderives
      exact ⟨first, hfirst⟩
  | left hkind =>
      obtain ⟨a, ha, -⟩ := (Rule.binary_iff hkind).mp hderives
      exact ⟨a, ha⟩
  | right hkind =>
      obtain ⟨-, -, b, hb, -⟩ := (Rule.binary_iff hkind).mp hderives
      exact ⟨b, hb⟩
  | test hkind =>
      obtain ⟨condition, hcondition, -⟩ := (Rule.conditional_iff hkind).mp hderives
      exact ⟨condition, hcondition⟩
  | element hkind hmem =>
      obtain ⟨values, heach, -⟩ := (Rule.array_iff hkind).mp hderives
      clear hkind hderives
      induction heach with
      | nil => cases hmem
      | cons hfirst _ ih =>
          rcases List.mem_cons.mp hmem with rfl | hmem
          · exact ⟨_, hfirst⟩
          · exact ih hmem
  | property hkind hmem hinner =>
      obtain ⟨members, heach, -⟩ := (Rule.object_iff hkind).mp hderives
      exact heach.exists_of_mem hmem hinner
  | owner hkind =>
      rename_i key
      cases key with
      | named name =>
          obtain ⟨whole, hwhole, -⟩ := (Rule.named_iff hkind).mp hderives
          exact ⟨whole, hwhole⟩
      | computed key =>
          obtain ⟨whole, hwhole, -⟩ := (Rule.computed_iff hkind).mp hderives
          exact ⟨whole, hwhole⟩
  | key hkind =>
      obtain ⟨-, -, name, hname, -⟩ := (Rule.computed_iff hkind).mp hderives
      exact ⟨name, hname⟩

theorem derivesIn_of_transGen {id other : NodeId}
    (h : Relation.TransGen (Reads tree graph) id other) {height : Nat} {value : Value}
    (hderives : DerivesIn tree graph height id value) :
    ∃ lower < height, ∃ read, DerivesIn tree graph lower other read := by
  induction h with
  | single hreads =>
      cases height with
      | zero => exact hderives.elim
      | succ height => exact ⟨height, Nat.lt_succ_self _, hreads.derivesIn hderives⟩
  | tail _ hreads ih =>
      obtain ⟨lower, hlower, read, hread⟩ := ih
      cases lower with
      | zero => exact hread.elim
      | succ lower => exact ⟨lower, by omega, hreads.derivesIn hread⟩

/-- A node each of whose derivations holds a smaller one of the same node has none. -/
theorem not_derives_of_descent {id : NodeId}
    (h : ∀ height value, DerivesIn tree graph height id value →
      ∃ lower < height, ∃ read, DerivesIn tree graph lower id read) (value : Value) :
    ¬ Derives tree graph id value := by
  rintro ⟨height, hderives⟩
  induction height using Nat.strongRecOn generalizing value with
  | ind height ih =>
      obtain ⟨lower, hlower, read, hread⟩ := h height value hderives
      exact ih lower hlower read hread

theorem not_derives_of_cycle {id : NodeId} (h : Relation.TransGen (Reads tree graph) id id)
    (value : Value) : ¬ Derives tree graph id value :=
  not_derives_of_descent (fun _ _ hderives => derivesIn_of_transGen h hderives) value

end ScriptCheck.Folding
