import ScriptCheck.Grammar.Program
import ScriptCheck.Proofs.Grammar.Triple

/-!
# The grammar lays out trees

Every parser of the grammar appends the subtrees of what it gives and nothing else,
and every node it appends suits its place.  So a program that is read without a
fault is a tree in its arena.
-/

namespace ScriptCheck

namespace Parse

variable {α : Type}

/-- The parser appends the subtrees of its result, after whatever was there. -/
def Adds (parser : Parse α) (trees : α → List (Nat × Part)) : Prop :=
  ∀ lo roots, Builds (Lays lo roots) parser (fun a => Lays lo (roots ++ trees a))

/-- A subtree that is there already is continued to a larger one. -/
def Continues (left : NodeId) (parser : Parse NodeId) : Prop :=
  ∀ lo roots, Builds (Lays lo (roots ++ [(left, Part.expression)])) parser
    (fun id => Lays lo (roots ++ [(id, Part.expression)]))

theorem adds_pure {a : α} {trees : α → List (Nat × Part)} (h : trees a = []) :
    Adds (pure a) trees := by
  intro lo roots
  refine .pure fun nodes hlays => ?_
  rwa [h, List.append_nil]

theorem adds_leaf (kind : NodeKind) {part : Part} (start : Position) (hsuits : part.admits kind)
    (hparts : kind.parts = []) : Adds (push kind start) (fun id => [(id, part)]) := by
  intro lo roots
  refine (builds_push lo roots kind start hsuits).consequence (fun nodes h => ?_) fun _ _ h => h
  rwa [hparts, List.append_nil]

end Parse

open Parse

/-- The parsers of nested expressions and statements append one tree each. -/
structure Grammar.LaysOut (g : Grammar) : Prop where
  expression : ∀ power, Adds (g.expression power) (fun id => [(id, .expression)])
  statement : Adds g.statement (fun id => [(id, .statement)])

namespace Grammar

variable {g : Grammar}

/-! ## Lists, blocks and functions -/

theorem adds_commaList {close : TokenKind} {item : Parse NodeId} {part : Part}
    (hitem : Adds item (fun id => [(id, part)])) :
    Adds (commaList close item) (fun ids => ids.map (·, part)) := by
  intro lo roots
  refine Builds.bind (Q := fun ids => Lays lo (roots ++ ids.map (·, part))) ?_ fun items =>
    (reads_expect close).andThen fun _ => .pure fun _ h => h
  refine Builds.loop (I := fun items => Lays lo (roots ++ items.reverse.map (·, part)))
    (fun nodes h => by simpa using h) fun items => ?_
  refine (reads_isAt close).andThen fun closed => .ite (fun _ => .pure fun _ h => h) fun _ => ?_
  refine (hitem lo _).bind fun next => ?_
  have hnext : ∀ nodes, Lays lo (roots ++ items.reverse.map (·, part) ++ [(next, part)]) nodes →
      Lays lo (roots ++ (next :: items).reverse.map (·, part)) nodes := by
    intro nodes h
    simpa [List.append_assoc] using h
  refine (reads_isAt _).andThen fun comma => .ite (fun _ => ?_) fun _ => ?_
  · exact reads_advance.andThen fun _ => .pure hnext
  · refine (reads_isAt close).andThen fun closed => .ite (fun _ => ?_) fun _ => .pure hnext
    exact (builds_unexpected _ _).bind fun _ => .pure hnext

theorem adds_block (hg : g.LaysOut) : Adds (block g) (fun id => [(id, .statement)]) := by
  intro lo roots
  refine (reads_expect _).andThen fun opening => ?_
  refine Builds.bind (Q := fun body => Lays lo (roots ++ (NodeKind.block body).parts)) ?_
    fun body => (reads_expect _).andThen fun _ => builds_push lo roots _ _ rfl
  refine Builds.loop (I := fun body => Lays lo (roots ++ body.reverse.map (·, Part.statement)))
    (fun nodes h => by simpa using h) fun body => ?_
  refine reads_currentKind.andThen fun kind => ?_
  split
  · exact .pure fun _ h => h
  · exact builds_expected _ _ _
  · refine (hg.statement lo _).bind fun next => .pure fun nodes h => ?_
    simpa [List.append_assoc] using h

theorem adds_parameter : Adds parameter (fun id => [(id, .parameter)]) := by
  intro lo roots
  refine reads_position.andThen fun start => (reads_expectName _).andThen fun name => ?_
  exact adds_leaf _ start rfl rfl lo roots

theorem adds_parameters : Adds parameters (fun ids => ids.map (·, Part.parameter)) := by
  intro lo roots
  exact (reads_expect _).andThen fun _ => adds_commaList adds_parameter lo roots

theorem adds_function (hg : g.LaysOut) (kind : FunctionKind) {part : Part}
    (hsuits : ∀ name parameters body,
      part.admits (.function ⟨kind, name, parameters, body, false⟩)) :
    Adds (function g kind) (fun id => [(id, part)]) := by
  intro lo roots
  refine (reads_expect _).andThen fun opening => (reads_isAt _).andThen fun named => ?_
  extract_lets rest
  have hrest : ∀ name, Builds (Lays lo roots) (rest name)
      (fun id => Lays lo (roots ++ [(id, part)])) := by
    intro name
    refine (adds_parameters lo roots).bind fun parameters => ?_
    refine (adds_block hg lo _).bind fun body => ?_
    rw [List.append_assoc]
    exact builds_push lo roots _ _ (hsuits name parameters body)
  refine .ite (fun _ => ?_) fun _ => .ite (fun _ => ?_) fun _ => ?_
  · exact reads_advance.andThen fun token => hrest (some token.value)
  · exact (builds_expected _ _ _).bind hrest
  · exact hrest none

theorem adds_arrow (hg : g.LaysOut) : Adds (arrow g) (fun id => [(id, .expression)]) := by
  intro lo roots
  refine reads_position.andThen fun start => (reads_isAt _).andThen fun bare => ?_
  extract_lets rest
  have hrest : ∀ ids, Builds (Lays lo (roots ++ ids.map (·, Part.parameter))) (rest ids)
      (fun id => Lays lo (roots ++ [(id, Part.expression)])) := by
    intro ids
    refine (reads_expect _).andThen fun _ => (reads_isAt _).andThen fun braced => ?_
    refine .ite (fun _ => ?_) fun _ => ?_
    · refine (adds_block hg lo _).bind fun body => ?_
      rw [List.append_assoc]
      exact builds_push lo roots (.function ⟨.arrow, none, ids, body, false⟩) start rfl
    · refine (hg.expression _ lo _).bind fun body => ?_
      rw [List.append_assoc]
      exact builds_push lo roots (.function ⟨.arrow, none, ids, body, true⟩) start rfl
  refine .ite (fun _ => ?_) fun _ => (adds_parameters lo roots).bind hrest
  refine reads_advance.andThen fun token => ?_
  exact (adds_leaf _ start rfl rfl lo roots).bind fun id => hrest [id]

/-! ## Operands -/

theorem reads_numberValue (text : String) (position : Position) :
    Reads (numberValue text position) := by
  unfold numberValue
  split
  · exact .pure _
  · exact reads_fail _ _

theorem adds_primary : Adds primary (fun id => [(id, .expression)]) := by
  intro lo roots
  refine reads_current.andThen fun token => ?_
  have hprimary : Builds (Lays lo roots) (primaryKind token) (fun kind nodes =>
      Lays lo roots nodes ∧ Part.expression.admits kind ∧ kind.parts = []) := by
    unfold primaryKind
    split
    · exact (reads_numberValue _ _).andThen fun x => .pure fun _ h => ⟨h, rfl, rfl⟩
    all_goals first
      | exact .pure fun _ h => ⟨h, rfl, rfl⟩
      | exact builds_unexpected _ _
  refine hprimary.bind fun kind => reads_advance.andThen fun _ => ?_
  intro stream state result next ⟨hlays, hkind⟩ hrun
  exact adds_leaf kind _ hkind.1 hkind.2 lo roots stream state result next hlays hrun

theorem adds_identifier (hg : g.LaysOut) : Adds (identifier g) (fun id => [(id, .expression)]) := by
  intro lo roots
  refine (reads_peek 1).andThen fun token => .ite (fun _ => adds_arrow hg lo roots) fun _ => ?_
  exact (reads_expect _).andThen fun token => adds_leaf _ _ rfl rfl lo roots

theorem adds_grouping (hg : g.LaysOut) : Adds (grouping g) (fun id => [(id, .expression)]) := by
  intro lo roots
  refine reads_isArrowAhead.andThen fun _ => .ite (fun _ => adds_arrow hg lo roots) fun _ => ?_
  refine (reads_expect _).andThen fun _ => (hg.expression _ lo roots).bind fun inner => ?_
  exact (reads_expect _).andThen fun _ => .pure fun _ h => h

theorem adds_array (hg : g.LaysOut) : Adds (array g) (fun id => [(id, .expression)]) := by
  intro lo roots
  refine reads_advance.andThen fun opening => ?_
  refine (adds_commaList (hg.expression _) lo roots).bind fun elements => ?_
  exact builds_push lo roots (.array elements) _ rfl

theorem reads_propertyKey (token : Token) : Reads (propertyKey token) := by
  unfold propertyKey
  split
  · exact .pure _
  · exact .pure _
  · exact (reads_numberValue _ _).bind fun _ => .pure _
  · exact .ite (.pure _) (reads_expected _)

theorem adds_property (hg : g.LaysOut) : Adds (property g) (fun id => [(id, Part.property)]) := by
  intro lo roots
  refine reads_current.andThen fun token => (reads_propertyKey token).andThen fun key => ?_
  refine reads_advance.andThen fun _ => (reads_isAt _).andThen fun colon => ?_
  extract_lets rest
  have hrest : ∀ value, Builds (Lays lo (roots ++ [(value, Part.expression)])) (rest value)
      (fun id => Lays lo (roots ++ [(id, Part.property)])) :=
    fun value => builds_push lo roots (.property key value) _ rfl
  refine .ite (fun _ => ?_) fun _ => .ite (fun _ => ?_) fun _ => ?_
  · exact reads_advance.andThen fun _ => (hg.expression _ lo roots).bind hrest
  · exact (adds_leaf _ _ rfl rfl lo roots).bind hrest
  · exact (builds_expected _ _ _).bind hrest

theorem adds_object (hg : g.LaysOut) : Adds (object g) (fun id => [(id, .expression)]) := by
  intro lo roots
  refine reads_advance.andThen fun opening => ?_
  refine (adds_commaList (adds_property hg) lo roots).bind fun properties => ?_
  exact builds_push lo roots (.object properties) _ rfl

theorem adds_construction (hg : g.LaysOut) :
    Adds (construction g) (fun id => [(id, .expression)]) := by
  intro lo roots
  refine reads_advance.andThen fun opening => (hg.expression _ lo roots).bind fun callee => ?_
  refine (reads_isAt _).andThen fun listed => ?_
  extract_lets rest
  have hrest : ∀ arguments,
      Builds (Lays lo (roots ++ (NodeKind.newExpr callee arguments).parts)) (rest arguments)
        (fun id => Lays lo (roots ++ [(id, Part.expression)])) :=
    fun arguments => builds_push lo roots _ _ rfl
  refine .ite (fun _ => ?_) fun _ => hrest []
  refine reads_advance.andThen fun _ => (adds_commaList (hg.expression _) lo _).bind
    fun arguments => ?_
  refine (hrest arguments).consequence (fun nodes h => ?_) fun _ _ h => h
  simpa [NodeKind.parts] using h

theorem adds_unary (hg : g.LaysOut) (op : UnaryOp) :
    Adds (unary g op) (fun id => [(id, .expression)]) := by
  intro lo roots
  refine reads_advance.andThen fun token => (hg.expression _ lo roots).bind fun argument => ?_
  exact builds_push lo roots (.unary op argument) _ rfl

theorem builds_unsupported (P : Array Node → Prop) (Q : NodeId → Array Node → Prop) :
    Builds P unsupported Q :=
  reads_current.andThen fun _ => builds_fail _ _ P Q

theorem adds_operand (hg : g.LaysOut) : Adds (operand g) (fun id => [(id, .expression)]) := by
  intro lo roots
  refine reads_currentKind.andThen fun kind => ?_
  split
  iterate 6 exact adds_primary lo roots
  · exact adds_identifier hg lo roots
  · exact adds_grouping hg lo roots
  · exact adds_array hg lo roots
  · exact adds_object hg lo roots
  · exact adds_function hg _ (fun _ _ _ => rfl) lo roots
  · exact adds_construction hg lo roots
  · exact builds_unsupported _ _
  · exact builds_unsupported _ _
  · split
    · exact adds_unary hg _ lo roots
    · exact builds_unexpected _ _

/-! ## Continuations -/

theorem continues_binary (hg : g.LaysOut) (left : NodeId) (op : BinaryOp) (power : Power) :
    Continues left (binary g left op power) := by
  intro lo roots
  refine (reads_startOf left).andThen fun start => reads_advance.andThen fun _ => ?_
  refine (hg.expression _ lo _).bind fun right => ?_
  rw [List.append_assoc]
  exact builds_push lo roots (.binary op left right) start rfl

theorem continues_logical (hg : g.LaysOut) (left : NodeId) (op : LogicalOp) (power : Power) :
    Continues left (logical g left op power) := by
  intro lo roots
  refine (reads_startOf left).andThen fun start => reads_advance.andThen fun _ => ?_
  refine (hg.expression _ lo _).bind fun right => ?_
  rw [List.append_assoc]
  exact builds_push lo roots (.logical op left right) start rfl

/-- A subtree that is looked up is of the kind that the arena has for it. -/
theorem builds_nodeAt (id : NodeId) (P : Array Node → Prop) :
    Builds P (nodeAt id) (fun node nodes => P nodes ∧ kindAt nodes id = node.kind) := by
  intro stream state result next hP hrun
  cases hrun
  exact ⟨hP, rfl⟩

theorem lays_target {lo : Nat} {roots : List (Nat × Part)} {left : Nat} {nodes : Array Node}
    (h : Lays lo (roots ++ [(left, Part.expression)]) nodes)
    (hsuits : Part.target.admits (kindAt nodes left)) :
    Lays lo (roots ++ [(left, Part.target)]) nodes := by
  obtain ⟨mid, hroots, hleft⟩ := Forest.split h
  exact hroots.append (hleft.replace_part hsuits)

theorem continues_assignment (hg : g.LaysOut) (left : NodeId) (op : AssignOp) :
    Continues left (assignment g left op) := by
  intro lo roots
  refine (builds_nodeAt left _).bind fun node => ?_
  have htarget : Part.target.admits node.kind → Builds
      (fun nodes => Lays lo (roots ++ [(left, Part.expression)]) nodes ∧
        kindAt nodes left = node.kind)
      (do let _ ← advance
          let value ← g.expression .comma
          push (.assign op left value) node.span.start)
      (fun id => Lays lo (roots ++ [(id, Part.expression)])) := by
    intro hsuits
    refine Builds.consequence (P := Lays lo (roots ++ [(left, Part.target)])) ?_
      (fun nodes h => lays_target h.1 (by rwa [h.2])) fun _ _ h => h
    refine reads_advance.andThen fun _ => (hg.expression _ lo _).bind fun value => ?_
    rw [List.append_assoc]
    exact builds_push lo roots (.assign op left value) _ rfl
  split
  · rename_i name hkind
    exact htarget (by rw [hkind]; rfl)
  · rename_i owner key hkind
    exact htarget (by rw [hkind]; rfl)
  · exact builds_fail _ _ _ _

theorem continues_conditional (hg : g.LaysOut) (test : NodeId) :
    Continues test (conditional g test) := by
  intro lo roots
  refine (reads_startOf test).andThen fun start => (reads_expect _).andThen fun _ => ?_
  refine (hg.expression _ lo _).bind fun consequent => (reads_expect _).andThen fun _ => ?_
  refine (hg.expression _ lo _).bind fun alternate => ?_
  rw [List.append_assoc, List.append_assoc]
  exact builds_push lo roots (.conditional test consequent alternate) start rfl

theorem continues_sequence (hg : g.LaysOut) (left : NodeId) : Continues left (sequence g left) := by
  intro lo roots
  refine (reads_startOf left).andThen fun start => ?_
  refine Builds.bind (Q := fun expressions =>
    Lays lo (roots ++ (NodeKind.sequence expressions).parts)) ?_
    fun expressions => builds_push lo roots _ start rfl
  refine Builds.loop (I := fun expressions =>
    Lays lo (roots ++ expressions.reverse.map (·, Part.expression)))
      (fun nodes h => by simpa using h)
    fun expressions => ?_
  refine (reads_isAt _).andThen fun comma => .ite (fun _ => ?_) fun _ => .pure fun _ h => h
  refine reads_advance.andThen fun _ => (hg.expression _ lo _).bind fun next => ?_
  refine .pure fun nodes h => ?_
  simpa [List.append_assoc] using h

theorem continues_call (hg : g.LaysOut) (callee : NodeId) : Continues callee (call g callee) := by
  intro lo roots
  refine (reads_startOf callee).andThen fun start => (reads_expect _).andThen fun _ => ?_
  refine (adds_commaList (hg.expression _) lo _).bind fun arguments => ?_
  rw [List.append_assoc]
  exact builds_push lo roots (.call callee arguments) start rfl

theorem continues_namedMember (owner : NodeId) : Continues owner (namedMember owner) := by
  intro lo roots
  refine (reads_startOf owner).andThen fun start => (reads_expect _).andThen fun _ => ?_
  refine reads_current.andThen fun token => .ite (fun _ => ?_) fun _ => builds_expected _ _ _
  refine reads_advance.andThen fun _ => ?_
  exact builds_push lo roots (.member owner (.named token.value)) start rfl

theorem continues_computedMember (hg : g.LaysOut) (owner : NodeId) :
    Continues owner (computedMember g owner) := by
  intro lo roots
  refine (reads_startOf owner).andThen fun start => (reads_expect _).andThen fun _ => ?_
  refine (hg.expression _ lo _).bind fun key => (reads_expect _).andThen fun _ => ?_
  rw [List.append_assoc]
  exact builds_push lo roots (.member owner (.computed key)) start rfl

theorem continues_continuation (hg : g.LaysOut) (left : NodeId) (kind : TokenKind) :
    Continues left (continuation g left kind) := by
  intro lo roots
  unfold continuation
  split
  · exact continues_sequence hg left lo roots
  · exact continues_conditional hg left lo roots
  · exact continues_logical hg left _ _ lo roots
  · exact continues_logical hg left _ _ lo roots
  · exact builds_unsupported _ _
  · exact builds_unsupported _ _
  · exact continues_call hg left lo roots
  · exact continues_namedMember left lo roots
  · exact continues_computedMember hg left lo roots
  · split
    · exact continues_assignment hg left _ lo roots
    · exact continues_binary hg left _ _ lo roots
    · exact builds_unexpected _ _

theorem adds_expressionAt (hg : g.LaysOut) (power : Power) :
    Adds (expressionAt g power) (fun id => [(id, .expression)]) := by
  intro lo roots
  refine (adds_operand hg lo roots).bind fun first => ?_
  refine Builds.loop (I := fun left => Lays lo (roots ++ [(left, Part.expression)]))
    (fun _ h => h) fun left => ?_
  refine reads_currentKind.andThen fun kind => .ite (fun _ => .pure fun _ h => h) fun _ => ?_
  exact (continues_continuation hg left kind lo roots).bind fun next => .pure fun _ h => h

/-! ## Statements -/

theorem adds_declarator (hg : g.LaysOut) (kind : DeclarationKind) :
    Adds (declarator g kind) (fun id => [(id, Part.declarator)]) := by
  intro lo roots
  refine reads_position.andThen fun start => (reads_expectName _).andThen fun name => ?_
  refine (reads_isAt _).andThen fun initialised => ?_
  extract_lets rest
  have hrest : ∀ init, Builds (Lays lo (roots ++ (NodeKind.declarator name init).parts))
      (rest init) (fun id => Lays lo (roots ++ [(id, Part.declarator)])) := by
    intro init
    refine .ite (fun _ => ?_) fun _ => builds_push lo roots _ start rfl
    exact (builds_expected _ _ _).bind fun _ => builds_push lo roots _ start rfl
  refine .ite (fun _ => ?_) fun _ => ?_
  · refine reads_advance.andThen fun _ => (hg.expression _ lo roots).bind fun value => ?_
    exact hrest (some value)
  · refine (hrest none).consequence (fun nodes h => ?_) fun _ _ h => h
    simpa [NodeKind.parts] using h

theorem adds_declaration (hg : g.LaysOut) (kind : DeclarationKind) (part : Part)
    (hsuits : ∀ declarators, part.admits (.declaration kind declarators)) :
    Adds (declaration g kind) (fun id => [(id, part)]) := by
  intro lo roots
  refine reads_advance.andThen fun opening => ?_
  refine Builds.bind (Q := fun declarators =>
    Lays lo (roots ++ (NodeKind.declaration kind declarators).parts)) ?_
    fun declarators => builds_push lo roots _ _ (hsuits declarators)
  refine Builds.loop (I := fun declarators =>
    Lays lo (roots ++ declarators.reverse.map (·, Part.declarator)))
      (fun nodes h => by simpa using h)
    fun declarators => ?_
  refine (adds_declarator hg kind lo _).bind fun next => (reads_isAt _).andThen fun comma => ?_
  have hnext : ∀ nodes,
      Lays lo (roots ++ declarators.reverse.map (·, Part.declarator) ++ [(next, Part.declarator)])
        nodes →
      Lays lo (roots ++ (next :: declarators).reverse.map (·, Part.declarator)) nodes := by
    intro nodes h
    simpa [List.append_assoc] using h
  refine .ite (fun _ => ?_) fun _ => .pure hnext
  exact reads_advance.andThen fun _ => .pure hnext

theorem adds_condition (hg : g.LaysOut) : Adds (condition g) (fun id => [(id, .expression)]) := by
  intro lo roots
  refine (reads_expect _).andThen fun _ => (hg.expression _ lo roots).bind fun test => ?_
  exact (reads_expect _).andThen fun _ => .pure fun _ h => h

theorem adds_ifStatement (hg : g.LaysOut) : Adds (ifStatement g)
    (fun id => [(id, .statement)]) := by
  intro lo roots
  refine reads_advance.andThen fun opening => (adds_condition hg lo roots).bind fun test => ?_
  refine (hg.statement lo _).bind fun consequent => (reads_isAt _).andThen fun other => ?_
  extract_lets rest
  have hrest : ∀ alternate,
      Builds (Lays lo (roots ++ (NodeKind.ifStmt test consequent alternate).parts))
        (rest alternate) (fun id => Lays lo (roots ++ [(id, Part.statement)])) :=
    fun alternate => builds_push lo roots _ _ rfl
  refine .ite (fun _ => ?_) fun _ => ?_
  · refine reads_advance.andThen fun _ => (hg.statement lo _).bind fun alternate => ?_
    refine (hrest (some alternate)).consequence (fun nodes h => ?_) fun _ _ h => h
    simpa [NodeKind.parts, List.append_assoc] using h
  · refine (hrest none).consequence (fun nodes h => ?_) fun _ _ h => h
    simpa [NodeKind.parts, List.append_assoc] using h

theorem adds_returnStatement (hg : g.LaysOut) :
    Adds (returnStatement g) (fun id => [(id, .statement)]) := by
  intro lo roots
  refine reads_advance.andThen fun opening => reads_currentKind.andThen fun kind => ?_
  extract_lets endsHere rest
  have hrest : ∀ argument, Builds (Lays lo (roots ++ (NodeKind.returnStmt argument).parts))
      (rest argument) (fun id => Lays lo (roots ++ [(id, Part.statement)])) :=
    fun argument => reads_endStatement.andThen fun _ => builds_push lo roots _ _ rfl
  have hnone : Builds (Lays lo roots) (rest none)
    (fun id => Lays lo (roots ++ [(id, Part.statement)])) := by
    refine (hrest none).consequence (fun nodes h => ?_) fun _ _ h => h
    simpa [NodeKind.parts] using h
  refine reads_onNewLine.andThen fun later => .ite (fun _ => hnone) fun _ => ?_
  refine .ite (fun _ => hnone) fun _ => ?_
  exact (hg.expression _ lo roots).bind fun argument => hrest (some argument)

theorem adds_whileStatement (hg : g.LaysOut) :
    Adds (whileStatement g) (fun id => [(id, .statement)]) := by
  intro lo roots
  refine reads_advance.andThen fun opening => (adds_condition hg lo roots).bind fun test => ?_
  refine (hg.statement lo _).bind fun body => ?_
  rw [List.append_assoc]
  exact builds_push lo roots (.whileStmt test body) _ rfl

theorem adds_forInit (hg : g.LaysOut) :
    Adds (forInit g) (fun init => init.toList.map (·, .initialiser)) := by
  intro lo roots
  refine reads_currentKind.andThen fun kind => .ite (fun _ => adds_pure rfl lo roots) fun _ => ?_
  split
  · refine (adds_declaration hg _ .initialiser (fun _ => rfl) lo roots).bind fun init => .pure
      fun nodes h => ?_
    simpa using h
  · refine (hg.expression _ lo roots).bind fun init => .pure fun nodes h => ?_
    obtain ⟨mid, hroots, hinit⟩ := Forest.split h
    refine hroots.append (hinit.replace_part ?_)
    have hsuits : (kindAt nodes init).isExpression := hinit.root_suits (List.mem_singleton.mpr rfl)
    cases hkind : kindAt nodes init <;> simp_all [Part.admits]

theorem adds_optionalExpression (hg : g.LaysOut) (close : TokenKind) :
    Adds (optionalExpression g close) (fun found => found.toList.map (·, Part.expression)) := by
  intro lo roots
  refine (reads_isAt close).andThen fun _ => .ite (fun _ => adds_pure rfl lo roots) fun _ => ?_
  exact (hg.expression _ lo roots).bind fun id => .pure fun _ h => h

theorem adds_forStatement (hg : g.LaysOut) :
    Adds (forStatement g) (fun id => [(id, .statement)]) := by
  intro lo roots
  refine reads_advance.andThen fun opening => (reads_expect _).andThen fun _ => ?_
  refine (adds_forInit hg lo roots).bind fun init => (reads_expect _).andThen fun _ => ?_
  refine (adds_optionalExpression hg _ lo _).bind fun test => (reads_expect _).andThen fun _ => ?_
  refine (adds_optionalExpression hg _ lo _).bind fun update => (reads_expect _).andThen fun _ => ?_
  refine (hg.statement lo _).bind fun body => ?_
  simp only [List.append_assoc]
  refine (builds_push lo roots (.forStmt init test update body) _ rfl).consequence
    (fun nodes h => ?_) fun _ _ h => h
  simpa [NodeKind.parts, List.append_assoc] using h

theorem adds_catchParameter :
    Adds catchParameter (fun found => found.toList.map (·, Part.parameter)) := by
  intro lo roots
  refine (reads_isAt _).andThen fun _ => .ite (fun _ => ?_) fun _ => adds_pure rfl lo roots
  refine reads_advance.andThen fun _ => reads_position.andThen fun start => ?_
  refine (reads_expect _).andThen fun token => ?_
  have hleaf : Adds (push (.parameter token.value) start) (fun id => [(id, .parameter)]) :=
    adds_leaf _ start rfl rfl
  refine (hleaf lo roots).bind fun id => ?_
  exact (reads_expect _).andThen fun _ => .pure fun _ h => h

theorem adds_catchClause (hg : g.LaysOut) :
    Adds (catchClause g) (fun found => found.toList.map (·, .handler)) := by
  intro lo roots
  refine (reads_isAt _).andThen fun _ => .ite (fun _ => ?_) fun _ => adds_pure rfl lo roots
  refine reads_advance.andThen fun opening => (adds_catchParameter lo roots).bind fun param => ?_
  refine (adds_block hg lo _).bind fun body => ?_
  rw [List.append_assoc]
  exact (builds_push lo roots (.catchClause param body) _ rfl).bind fun id => .pure fun _ h => h

theorem adds_tryStatement (hg : g.LaysOut) :
    Adds (tryStatement g) (fun id => [(id, .statement)]) := by
  intro lo roots
  refine reads_advance.andThen fun opening => (adds_block hg lo roots).bind fun body => ?_
  refine (adds_catchClause hg lo _).bind fun handler => (reads_isAt _).andThen fun final => ?_
  extract_lets rest
  have hrest : ∀ finalizer,
      Builds (Lays lo (roots ++ (NodeKind.tryStmt body handler finalizer).parts))
        (rest finalizer) (fun id => Lays lo (roots ++ [(id, Part.statement)])) := by
    intro finalizer
    refine .ite (fun _ => ?_) fun _ => builds_push lo roots _ _ rfl
    exact (builds_expected _ _ _).bind fun _ => builds_push lo roots _ _ rfl
  refine .ite (fun _ => ?_) fun _ => ?_
  · refine reads_advance.andThen fun _ => (adds_block hg lo _).bind fun finalizer => ?_
    refine (hrest (some finalizer)).consequence (fun nodes h => ?_) fun _ _ h => h
    simpa [NodeKind.parts, List.append_assoc] using h
  · refine (hrest none).consequence (fun nodes h => ?_) fun _ _ h => h
    simpa [NodeKind.parts, List.append_assoc] using h

theorem adds_throwStatement (hg : g.LaysOut) :
    Adds (throwStatement g) (fun id => [(id, .statement)]) := by
  intro lo roots
  refine reads_advance.andThen fun opening => (hg.expression _ lo roots).bind fun argument => ?_
  exact reads_endStatement.andThen fun _ => builds_push lo roots (.throwStmt argument) _ rfl

theorem adds_jump {kind : NodeKind} (hsuits : Part.statement.admits kind)
    (hparts : kind.parts = []) : Adds (jump kind) (fun id => [(id, .statement)]) := by
  intro lo roots
  refine reads_advance.andThen fun opening => reads_endStatement.andThen fun _ => ?_
  exact adds_leaf kind _ hsuits hparts lo roots

theorem adds_expressionStatement (hg : g.LaysOut) :
    Adds (expressionStatement g) (fun id => [(id, .statement)]) := by
  intro lo roots
  refine reads_position.andThen fun start => (hg.expression _ lo roots).bind fun expr => ?_
  exact reads_endStatement.andThen fun _ => builds_push lo roots (.expressionStmt expr) start rfl

theorem adds_statementAt (hg : g.LaysOut) : Adds (statementAt g)
    (fun id => [(id, .statement)]) := by
  intro lo roots
  refine reads_currentKind.andThen fun kind => ?_
  split
  · exact adds_function hg _ (fun _ _ _ => rfl) lo roots
  · exact adds_ifStatement hg lo roots
  · exact adds_block hg lo roots
  · exact adds_returnStatement hg lo roots
  · exact adds_whileStatement hg lo roots
  · exact adds_forStatement hg lo roots
  · exact adds_tryStatement hg lo roots
  · exact adds_throwStatement hg lo roots
  · exact adds_jump rfl rfl lo roots
  · exact adds_jump rfl rfl lo roots
  · exact reads_advance.andThen fun opening => adds_leaf .empty _ rfl rfl lo roots
  · split
    · refine (adds_declaration hg _ .statement (fun _ => rfl) lo roots).bind fun node => ?_
      exact reads_endStatement.andThen fun _ => .pure fun _ h => h
    · exact adds_expressionStatement hg lo roots

/-! ## Programs -/

theorem laysOut_upTo (depth : Nat) : (upTo depth).LaysOut := by
  induction depth with
  | zero =>
      exact ⟨fun power lo roots => builds_throw _ _ _, fun lo roots => builds_throw _ _ _⟩
  | succ depth ih =>
      exact ⟨fun power => adds_expressionAt ih power, adds_statementAt ih⟩

theorem builds_program (hg : g.LaysOut) :
    Builds (fun nodes => nodes = #[]) (program g) (fun root nodes =>
      nodes.size = root + 1 ∧ (∃ body, kindAt nodes root = .program body) ∧
        Forest nodes 0 root (kindAt nodes root).parts) := by
  refine reads_position.andThen fun start => ?_
  refine Builds.bind (Q := fun body => Lays 0 (NodeKind.program body).parts) ?_ fun body => ?_
  · refine Builds.loop (I := fun body => Lays 0 (body.reverse.map (·, Part.statement)))
      (fun nodes h => by subst h; exact .nil 0) fun body => ?_
    refine (reads_isAt _).andThen fun _ => .ite (fun _ => .pure fun _ h => h) fun _ => ?_
    refine (hg.statement 0 _).bind fun next => .pure fun nodes h => ?_
    simpa using h
  · refine reads_previousEnd.andThen fun stop => ?_
    intro stream state result next hlays hrun
    cases hrun
    have hkind : kindAt (state.nodes.push ⟨.program body, ⟨start, stop⟩⟩) state.nodes.size =
        .program body := by
      simp [kindAt]
    refine ⟨Array.size_push _, ⟨body, hkind⟩, ?_⟩
    rw [hkind]
    exact Forest.push hlays (Nat.le_refl _) _

end Grammar

theorem Tree.wellFormed_of_ofTokens {tokens : List Token} {file : String} {tree : Tree}
    (h : Tree.ofTokens tokens file = .ok tree) : tree.WellFormed := by
  obtain ⟨root, state, hrun, rfl⟩ := Tree.ofTokens_eq_ok h
  obtain ⟨hsize, hprogram, hbelow⟩ :=
    Grammar.builds_program (Grammar.laysOut_upTo _) _ _ root state rfl hrun
  exact ⟨hsize, hprogram, hbelow⟩

end ScriptCheck
