import ScriptCheck.Proofs.Grammar.Layout
import ScriptCheck.Proofs.Grammar.Telling
import ScriptCheck.Token.Lexer

/-!
# Where names come from

A program refers to names that it was read with: the name of a node is the text of a name
token.  So nothing refers to a reserved word.
-/

namespace ScriptCheck

namespace TokenStream

theorem get_mem (stream : TokenStream) (index : Nat) : stream.get index ∈ stream.tokens := by
  unfold get
  exact Array.getElem_mem _

def HasName (stream : TokenStream) (name : String) : Prop :=
  ∃ token ∈ stream.tokens, token.kind = .identifier ∧ token.value = name

def Named (stream : TokenStream) (nodes : Array Node) : Prop :=
  ∀ node ∈ nodes, ∀ name, node.kind = .identifier name → stream.HasName name

end TokenStream

namespace Parse

variable {α β σ : Type} {stream : TokenStream}

/-- The parser appends no name that the stream does not spell. -/
def Keeps (stream : TokenStream) (parser : Parse α) : Prop :=
  Tells stream (fun state => stream.Named state.nodes) parser
    (fun _ state => stream.Named state.nodes)

namespace Keeps

variable {parser : Parse α}

theorem pure (a : α) : Keeps stream (Pure.pure a) := Tells.pure fun _ h => h

theorem bind {f : α → Parse β} (h : Keeps stream parser) (hf : ∀ a, Keeps stream (f a)) :
    Keeps stream (parser >>= f) :=
  Tells.bind h hf

theorem ite {c : Prop} [Decidable c] {other : Parse α} (hthen : c → Keeps stream parser)
    (helse : ¬ c → Keeps stream other) : Keeps stream (if c then parser else other) :=
  Tells.ite hthen helse

theorem of_reads (h : Reads parser) : Keeps stream parser := by
  intro state result next hnamed hrun
  rw [h stream state result next hrun]
  exact hnamed

/-- What is known besides the arena may be taken as given. -/
theorem assuming {p : Prop} {Q : α → ParseState → Prop}
    (h : p → Tells stream (fun state => stream.Named state.nodes) parser Q) :
    Tells stream (fun state => stream.Named state.nodes ∧ p) parser Q :=
  fun state result next hstate hrun => h hstate.2 state result next hstate.1 hrun

theorem loop {step : σ → Parse (σ ⊕ β)} {start : σ} (hstep : ∀ s, Keeps stream (step s)) :
    Keeps stream (Parse.loop step start) :=
  Tells.loop (I := fun _ state => stream.Named state.nodes) (fun _ h => h) fun s =>
    (hstep s).consequence (fun _ h => h) fun outcome _ h => by
      cases outcome <;> exact h

end Keeps

/-- A step that only reads tokens may stand in front. -/
theorem Reads.andKeeps {parser : Parse α} {f : α → Parse β} (h : Reads parser)
    (hf : ∀ a, Keeps stream (f a)) : Keeps stream (parser >>= f) :=
  (Keeps.of_reads h).bind hf

theorem keeps_throw (halt : Halt) : Keeps stream (throw halt : Parse α) := tells_throw _ _

theorem keeps_unexpected : Keeps stream (unexpected : Parse α) := tells_unexpected _

theorem keeps_expected (message : String) : Keeps stream (expected message : Parse α) :=
  tells_expected _ _

theorem keeps_push {kind : NodeKind} (start : Position)
    (h : ∀ name, kind = .identifier name → stream.HasName name) :
    Keeps stream (push kind start) := by
  refine reads_previousEnd.andKeeps fun stop => ?_
  intro state result next hnamed hrun
  cases hrun
  intro node hnode name hkind
  rcases Array.mem_push.mp hnode with hnode | rfl
  · exact hnamed node hnode name hkind
  · exact h name hkind

end Parse

open Parse

variable {stream : TokenStream}

structure Grammar.KeepsNames (stream : TokenStream) (g : Grammar) : Prop where
  expression : ∀ power, Keeps stream (g.expression power)
  statement : Keeps stream g.statement

namespace Grammar

variable {g : Grammar}

/-! ## Lists, blocks and functions -/

theorem keeps_commaList {α : Type} {close : TokenKind} {item : Parse α}
    (hitem : Keeps stream item) : Keeps stream (commaList close item) := by
  refine (Keeps.loop fun items => ?_).bind fun items =>
    (reads_expect close).andKeeps fun _ => .pure _
  refine (reads_isAt close).andKeeps fun closed => .ite (fun _ => .pure _) fun _ => ?_
  refine hitem.bind fun next => (reads_isAt _).andKeeps fun comma => .ite (fun _ => ?_) fun _ => ?_
  · exact reads_advance.andKeeps fun _ => .pure _
  · refine (reads_isAt close).andKeeps fun closed => .ite (fun _ => ?_) fun _ => .pure _
    exact keeps_unexpected.bind fun _ => .pure _

theorem keeps_block (hg : g.KeepsNames stream) : Keeps stream (block g) := by
  refine (reads_expect _).andKeeps fun opening => (Keeps.loop fun body => ?_).bind fun body =>
    (reads_expect _).andKeeps fun _ => keeps_push _ (by simp)
  refine reads_currentKind.andKeeps fun kind => ?_
  split
  · exact .pure _
  · exact keeps_expected _
  · exact hg.statement.bind fun _ => .pure _

theorem keeps_parameters : Keeps stream parameters :=
  (reads_expect _).andKeeps fun _ => keeps_commaList <| reads_position.andKeeps fun start =>
    (reads_expectName _).andKeeps fun name => keeps_push start (by simp)

theorem keeps_function (hg : g.KeepsNames stream) (kind : FunctionKind) :
    Keeps stream (function g kind) := by
  refine (reads_expect _).andKeeps fun opening => (reads_isAt _).andKeeps fun named => ?_
  extract_lets rest
  have hrest : ∀ name, Keeps stream (rest name) := fun name =>
    keeps_parameters.bind fun _ => (keeps_block hg).bind fun _ => keeps_push _ (by simp)
  refine .ite (fun _ => ?_) fun _ => .ite (fun _ => ?_) fun _ => hrest none
  · exact reads_advance.andKeeps fun token => hrest (some token.value)
  · exact (keeps_expected _).bind hrest

theorem keeps_arrow (hg : g.KeepsNames stream) : Keeps stream (arrow g) := by
  refine reads_position.andKeeps fun start => (reads_isAt _).andKeeps fun bare => ?_
  extract_lets rest
  have hrest : ∀ ids, Keeps stream (rest ids) := by
    intro ids
    refine (reads_expect _).andKeeps fun _ => (reads_isAt _).andKeeps fun braced => ?_
    refine .ite (fun _ => ?_) fun _ => ?_
    · exact (keeps_block hg).bind fun _ => keeps_push _ (by simp)
    · exact (hg.expression _).bind fun _ => keeps_push _ (by simp)
  refine .ite (fun _ => ?_) fun _ => keeps_parameters.bind hrest
  exact reads_advance.andKeeps fun token => (keeps_push _ (by simp)).bind fun id => hrest [id]

/-! ## Operands -/

theorem keeps_primary : Keeps stream primary := by
  refine reads_current.andKeeps fun token => ?_
  have hkind : Tells stream (fun state => stream.Named state.nodes) (primaryKind token)
      (fun kind state => stream.Named state.nodes ∧ ∀ name, kind ≠ .identifier name) := by
    unfold primaryKind
    split
    · exact Tells.bind (Keeps.of_reads (reads_numberValue _ _)) fun x => .pure fun _ h =>
        ⟨h, by simp⟩
    all_goals first
      | exact .pure fun _ h => ⟨h, by simp⟩
      | exact tells_unexpected _
  refine hkind.bind fun kind => Keeps.assuming fun hno => ?_
  exact reads_advance.andKeeps fun _ => keeps_push _ fun name h => absurd h (hno name)

/-- A token that is read is one of the stream, and of the kind asked for. -/
theorem tells_expect_mem (kind : TokenKind) :
    Tells stream (fun state => stream.Named state.nodes) (expect kind)
      (fun token state => stream.Named state.nodes ∧
        (token ∈ stream.tokens ∧ token.kind = kind)) := by
  refine (tells_isAt kind).bind fun here => .ite (fun hhere => ?_) fun _ => tells_unexpected _
  intro state token next ⟨hnamed, hkind⟩ hrun
  obtain ⟨rfl, hnodes, -⟩ := advance_ok hrun
  exact ⟨by rwa [hnodes], stream.get_mem _, hkind hhere⟩

theorem keeps_identifier (hg : g.KeepsNames stream) : Keeps stream (identifier g) := by
  refine (reads_peek 1).andKeeps fun token => .ite (fun _ => keeps_arrow hg) fun _ => ?_
  refine (tells_expect_mem .identifier).bind fun token => Keeps.assuming fun hread => ?_
  refine keeps_push _ fun name heq => ?_
  cases heq
  exact ⟨token, hread.1, hread.2, rfl⟩

theorem keeps_grouping (hg : g.KeepsNames stream) : Keeps stream (grouping g) := by
  refine reads_isArrowAhead.andKeeps fun _ => .ite (fun _ => keeps_arrow hg) fun _ => ?_
  refine (reads_expect _).andKeeps fun _ => (hg.expression _).bind fun inner => ?_
  exact (reads_expect _).andKeeps fun _ => .pure _

theorem keeps_array (hg : g.KeepsNames stream) : Keeps stream (array g) :=
  reads_advance.andKeeps fun _ => (keeps_commaList (hg.expression _)).bind fun _ =>
    keeps_push _ (by simp)

/-- A bare name in an object literal is that of its token. -/
theorem tells_propertyKey_value (token : Token) :
    Tells stream (fun state => stream.Named state.nodes) (propertyKey token)
      (fun key state => stream.Named state.nodes ∧
        (token.kind = .identifier → key = token.value)) := by
  unfold propertyKey
  split
  · exact .pure fun _ h => ⟨h, fun _ => rfl⟩
  · exact .pure fun _ h => ⟨h, fun _ => rfl⟩
  · rename_i hkind
    exact Tells.bind (Keeps.of_reads (reads_numberValue _ _)) fun _ =>
      .pure fun _ h => ⟨h, fun hname => by simp [hkind] at hname⟩
  · exact .ite (fun _ => .pure fun _ h => ⟨h, fun _ => rfl⟩) fun _ => tells_expected _ _

theorem keeps_property (hg : g.KeepsNames stream) : Keeps stream (property g) := by
  have hcurrent : Tells stream (fun state => stream.Named state.nodes) current
      (fun token state => stream.Named state.nodes ∧ token ∈ stream.tokens) :=
    tells_current.consequence (fun _ h => h) fun _ _ h => ⟨h.1, h.2 ▸ stream.get_mem _⟩
  refine hcurrent.bind fun token => Keeps.assuming fun hmem => ?_
  refine (tells_propertyKey_value token).bind fun key => Keeps.assuming fun hkey => ?_
  refine reads_advance.andKeeps fun _ => (reads_isAt _).andKeeps fun colon => ?_
  extract_lets rest
  have hrest : ∀ value, Keeps stream (rest value) := fun value => keeps_push _ (by simp)
  refine .ite (fun _ => ?_) fun _ => .ite (fun hname => ?_) fun _ => (keeps_expected _).bind hrest
  · exact reads_advance.andKeeps fun _ => (hg.expression _).bind hrest
  · refine (keeps_push _ fun name heq => ?_).bind hrest
    cases heq
    exact ⟨token, hmem, hname, (hkey hname).symm⟩

theorem keeps_object (hg : g.KeepsNames stream) : Keeps stream (object g) :=
  reads_advance.andKeeps fun _ => (keeps_commaList (keeps_property hg)).bind fun _ =>
    keeps_push _ (by simp)

theorem keeps_construction (hg : g.KeepsNames stream) : Keeps stream (construction g) := by
  refine reads_advance.andKeeps fun opening => (hg.expression _).bind fun callee => ?_
  refine (reads_isAt _).andKeeps fun listed => ?_
  extract_lets rest
  have hrest : ∀ arguments, Keeps stream (rest arguments) := fun _ => keeps_push _ (by simp)
  refine .ite (fun _ => ?_) fun _ => hrest []
  exact reads_advance.andKeeps fun _ => (keeps_commaList (hg.expression _)).bind hrest

theorem keeps_unsupported : Keeps stream unsupported :=
  reads_current.andKeeps fun _ => tells_fail _ _ _

theorem keeps_operand (hg : g.KeepsNames stream) : Keeps stream (operand g) := by
  refine reads_currentKind.andKeeps fun kind => ?_
  split
  iterate 6 exact keeps_primary
  · exact keeps_identifier hg
  · exact keeps_grouping hg
  · exact keeps_array hg
  · exact keeps_object hg
  · exact keeps_function hg _
  · exact keeps_construction hg
  · exact keeps_unsupported
  · exact keeps_unsupported
  · split
    · exact reads_advance.andKeeps fun _ => (hg.expression _).bind fun _ => keeps_push _ (by simp)
    · exact keeps_unexpected

/-! ## Continuations -/

theorem keeps_assignment (hg : g.KeepsNames stream) (left : NodeId) (op : AssignOp) :
    Keeps stream (assignment g left op) := by
  refine (reads_nodeAt left).andKeeps fun node => ?_
  have hassign : Keeps stream (do
      let _ ← advance
      let value ← g.expression .comma
      push (.assign op left value) node.span.start) :=
    reads_advance.andKeeps fun _ => (hg.expression _).bind fun _ => keeps_push _ (by simp)
  dsimp only
  split
  · exact hassign
  · exact hassign
  · exact tells_fail _ _ _

theorem keeps_conditional (hg : g.KeepsNames stream) (test : NodeId) :
    Keeps stream (conditional g test) :=
  (reads_startOf test).andKeeps fun _ => (reads_expect _).andKeeps fun _ =>
    (hg.expression _).bind fun _ => (reads_expect _).andKeeps fun _ =>
      (hg.expression _).bind fun _ => keeps_push _ (by simp)

theorem keeps_sequence (hg : g.KeepsNames stream) (left : NodeId) :
    Keeps stream (sequence g left) := by
  refine (reads_startOf left).andKeeps fun start => (Keeps.loop fun expressions => ?_).bind fun _ =>
    keeps_push _ (by simp)
  refine (reads_isAt _).andKeeps fun comma => .ite (fun _ => ?_) fun _ => .pure _
  exact reads_advance.andKeeps fun _ => (hg.expression _).bind fun _ => .pure _

theorem keeps_namedMember (owner : NodeId) : Keeps stream (namedMember owner) := by
  refine (reads_startOf owner).andKeeps fun start => (reads_expect _).andKeeps fun _ => ?_
  refine reads_current.andKeeps fun token => .ite (fun _ => ?_) fun _ => keeps_expected _
  exact reads_advance.andKeeps fun _ => keeps_push _ (by simp)

theorem keeps_continuation (hg : g.KeepsNames stream) (left : NodeId) (kind : TokenKind) :
    Keeps stream (continuation g left kind) := by
  have hlogical : ∀ op power, Keeps stream (logical g left op power) := fun op power =>
    (reads_startOf left).andKeeps fun _ => reads_advance.andKeeps fun _ =>
      (hg.expression _).bind fun _ => keeps_push _ (by simp)
  unfold continuation
  split
  · exact keeps_sequence hg left
  · exact keeps_conditional hg left
  · exact hlogical _ _
  · exact hlogical _ _
  · exact keeps_unsupported
  · exact keeps_unsupported
  · exact (reads_startOf left).andKeeps fun _ => (reads_expect _).andKeeps fun _ =>
      (keeps_commaList (hg.expression _)).bind fun _ => keeps_push _ (by simp)
  · exact keeps_namedMember left
  · exact (reads_startOf left).andKeeps fun _ => (reads_expect _).andKeeps fun _ =>
      (hg.expression _).bind fun _ => (reads_expect _).andKeeps fun _ => keeps_push _ (by simp)
  · split
    · exact keeps_assignment hg left _
    · exact (reads_startOf left).andKeeps fun _ => reads_advance.andKeeps fun _ =>
        (hg.expression _).bind fun _ => keeps_push _ (by simp)
    · exact keeps_unexpected

theorem keeps_expressionAt (hg : g.KeepsNames stream) (power : Power) :
    Keeps stream (expressionAt g power) := by
  refine (keeps_operand hg).bind fun first => .loop fun left => ?_
  refine reads_currentKind.andKeeps fun kind => .ite (fun _ => .pure _) fun _ => ?_
  exact (keeps_continuation hg left kind).bind fun _ => .pure _

/-! ## Statements -/

theorem keeps_declarator (hg : g.KeepsNames stream) (kind : DeclarationKind) :
    Keeps stream (declarator g kind) := by
  refine reads_position.andKeeps fun start => (reads_expectName _).andKeeps fun name => ?_
  refine (reads_isAt _).andKeeps fun initialised => ?_
  extract_lets rest
  have hrest : ∀ init, Keeps stream (rest init) := by
    intro init
    refine .ite (fun _ => ?_) fun _ => keeps_push _ (by simp)
    exact (keeps_expected _).bind fun _ => keeps_push _ (by simp)
  refine .ite (fun _ => ?_) fun _ => hrest none
  exact reads_advance.andKeeps fun _ => (hg.expression _).bind fun value => hrest (some value)

theorem keeps_declaration (hg : g.KeepsNames stream) (kind : DeclarationKind) :
    Keeps stream (declaration g kind) := by
  refine reads_advance.andKeeps fun opening => (Keeps.loop fun declarators => ?_).bind fun _ =>
    keeps_push _ (by simp)
  refine (keeps_declarator hg kind).bind fun next => (reads_isAt _).andKeeps fun comma => ?_
  refine .ite (fun _ => ?_) fun _ => .pure _
  exact reads_advance.andKeeps fun _ => .pure _

theorem keeps_condition (hg : g.KeepsNames stream) : Keeps stream (condition g) :=
  (reads_expect _).andKeeps fun _ => (hg.expression _).bind fun _ =>
    (reads_expect _).andKeeps fun _ => .pure _

theorem keeps_ifStatement (hg : g.KeepsNames stream) : Keeps stream (ifStatement g) := by
  refine reads_advance.andKeeps fun opening => (keeps_condition hg).bind fun test => ?_
  refine hg.statement.bind fun consequent => (reads_isAt _).andKeeps fun other => ?_
  extract_lets rest
  have hrest : ∀ alternate, Keeps stream (rest alternate) := fun _ => keeps_push _ (by simp)
  refine .ite (fun _ => ?_) fun _ => hrest none
  exact reads_advance.andKeeps fun _ => hg.statement.bind fun alternate => hrest (some alternate)

theorem keeps_returnStatement (hg : g.KeepsNames stream) : Keeps stream (returnStatement g) := by
  refine reads_advance.andKeeps fun opening => reads_currentKind.andKeeps fun kind => ?_
  extract_lets endsHere rest
  have hrest : ∀ argument, Keeps stream (rest argument) := fun argument =>
    reads_endStatement.andKeeps fun _ => keeps_push _ (by simp)
  refine reads_onNewLine.andKeeps fun later => .ite (fun _ => hrest none) fun _ => ?_
  refine .ite (fun _ => hrest none) fun _ => ?_
  exact (hg.expression _).bind fun argument => hrest (some argument)

theorem keeps_forInit (hg : g.KeepsNames stream) : Keeps stream (forInit g) := by
  refine reads_currentKind.andKeeps fun kind => .ite (fun _ => .pure _) fun _ => ?_
  split
  · exact (keeps_declaration hg _).bind fun _ => .pure _
  · exact (hg.expression _).bind fun _ => .pure _

theorem keeps_optionalExpression (hg : g.KeepsNames stream) (close : TokenKind) :
    Keeps stream (optionalExpression g close) :=
  (reads_isAt close).andKeeps fun _ => .ite (fun _ => .pure _) fun _ =>
    (hg.expression _).bind fun _ => .pure _

theorem keeps_forStatement (hg : g.KeepsNames stream) : Keeps stream (forStatement g) := by
  refine reads_advance.andKeeps fun opening => (reads_expect _).andKeeps fun _ => ?_
  refine (keeps_forInit hg).bind fun init => (reads_expect _).andKeeps fun _ => ?_
  refine (keeps_optionalExpression hg _).bind fun test => (reads_expect _).andKeeps fun _ => ?_
  refine (keeps_optionalExpression hg _).bind fun update => (reads_expect _).andKeeps fun _ => ?_
  exact hg.statement.bind fun body => keeps_push _ (by simp)

theorem keeps_catchParameter : Keeps stream catchParameter := by
  refine (reads_isAt _).andKeeps fun _ => .ite (fun _ => ?_) fun _ => .pure _
  refine reads_advance.andKeeps fun _ => reads_position.andKeeps fun start => ?_
  refine (reads_expect _).andKeeps fun token => (keeps_push _ (by simp)).bind fun id => ?_
  exact (reads_expect _).andKeeps fun _ => .pure _

theorem keeps_catchClause (hg : g.KeepsNames stream) : Keeps stream (catchClause g) := by
  refine (reads_isAt _).andKeeps fun _ => .ite (fun _ => ?_) fun _ => .pure _
  refine reads_advance.andKeeps fun opening => keeps_catchParameter.bind fun parameter => ?_
  exact (keeps_block hg).bind fun body => (keeps_push _ (by simp)).bind fun _ => .pure _

theorem keeps_tryStatement (hg : g.KeepsNames stream) : Keeps stream (tryStatement g) := by
  refine reads_advance.andKeeps fun opening => (keeps_block hg).bind fun body => ?_
  refine (keeps_catchClause hg).bind fun handler => (reads_isAt _).andKeeps fun final => ?_
  extract_lets rest
  have hrest : ∀ finalizer, Keeps stream (rest finalizer) := by
    intro finalizer
    refine .ite (fun _ => ?_) fun _ => keeps_push _ (by simp)
    exact (keeps_expected _).bind fun _ => keeps_push _ (by simp)
  refine .ite (fun _ => ?_) fun _ => hrest none
  exact reads_advance.andKeeps fun _ => (keeps_block hg).bind fun finalizer =>
    hrest (some finalizer)

theorem keeps_jump {kind : NodeKind} (hkind : ∀ name, kind ≠ .identifier name) :
    Keeps stream (jump kind) :=
  reads_advance.andKeeps fun _ => reads_endStatement.andKeeps fun _ =>
    keeps_push _ fun name h => absurd h (hkind name)

theorem keeps_statementAt (hg : g.KeepsNames stream) : Keeps stream (statementAt g) := by
  refine reads_currentKind.andKeeps fun kind => ?_
  split
  · exact keeps_function hg _
  · exact keeps_ifStatement hg
  · exact keeps_block hg
  · exact keeps_returnStatement hg
  · exact reads_advance.andKeeps fun _ => (keeps_condition hg).bind fun _ =>
      hg.statement.bind fun _ => keeps_push _ (by simp)
  · exact keeps_forStatement hg
  · exact keeps_tryStatement hg
  · exact reads_advance.andKeeps fun _ => (hg.expression _).bind fun _ =>
      reads_endStatement.andKeeps fun _ => keeps_push _ (by simp)
  · exact keeps_jump (by simp)
  · exact keeps_jump (by simp)
  · exact reads_advance.andKeeps fun _ => keeps_push _ (by simp)
  · split
    · exact (keeps_declaration hg _).bind fun _ => reads_endStatement.andKeeps fun _ => .pure _
    · exact reads_position.andKeeps fun _ => (hg.expression _).bind fun _ =>
        reads_endStatement.andKeeps fun _ => keeps_push _ (by simp)

/-! ## Programs -/

theorem keepsNames_upTo (depth : Nat) : (upTo depth).KeepsNames stream := by
  induction depth with
  | zero => exact ⟨fun _ => keeps_throw _, keeps_throw _⟩
  | succ depth ih => exact ⟨fun power => keeps_expressionAt ih power, keeps_statementAt ih⟩

theorem keeps_program (hg : g.KeepsNames stream) : Keeps stream (program g) := by
  refine reads_position.andKeeps fun start => (Keeps.loop fun body => ?_).bind fun _ =>
    keeps_push start (by simp)
  refine (reads_isAt _).andKeeps fun _ => .ite (fun _ => .pure _) fun _ => ?_
  exact hg.statement.bind fun _ => .pure _

end Grammar

/-- The names in a tree are spelled by the tokens that it was read from. -/
theorem Tree.exists_token_of_identifier {tokens : List Token} {file : String} {tree : Tree}
    (h : Tree.ofTokens tokens file = .ok tree) {id : NodeId} {name : String}
    (hkind : tree.kind id = .identifier name) :
    ∃ token ∈ tokens, token.kind = .identifier ∧ token.value = name := by
  obtain ⟨root, state, hrun, rfl⟩ := Tree.ofTokens_eq_ok h
  have hnamed := Grammar.keeps_program (Grammar.keepsNames_upTo _) _ root state
    (fun node hnode => absurd hnode (Array.not_mem_empty node)) hrun
  have hnode : (Tree.mk state.nodes root file).node id ∈ state.nodes := by
    have hid : id < state.nodes.size := by
      refine Nat.lt_of_not_le fun hle => ?_
      have hdefault : (Tree.mk state.nodes root file).node id = default := by
        simp [Tree.node, hle]
      rw [Tree.kind, hdefault] at hkind
      cases hkind
    simp [Tree.node, hid]
  obtain ⟨token, hmem, hname, hvalue⟩ := hnamed _ hnode name hkind
  refine ⟨token, ?_, hname, hvalue⟩
  have hend : ∀ position, token ≠ .endOfInput position := by
    rintro position rfl
    cases hname
  unfold TokenStream.ofTokens at hmem
  split at hmem
  · exact absurd (by simpa using hmem) (hend _)
  · split at hmem
    · simpa using hmem
    · simpa [hend] using hmem

/-! ## Names and reserved words -/

namespace Lexer

theorem ofText?_of_token? {role : Role} {text : List Char} {span : Span} {token : Token}
    (h : token? role text span = some token) (hkind : token.kind = .identifier) :
    Keyword.ofText? token.value = none := by
  cases role with
  | name =>
      cases h
      dsimp only [nameKind] at hkind
      split at hkind
      · cases hkind
      · assumption
  | _ =>
      cases h
      try cases hkind

/-- What is read as a name is no reserved word. -/
theorem ofText?_of_scan {position : Position} {text : List Char} {tokens : List Token}
    (h : scan position text = .ok tokens) {token : Token} (hmem : token ∈ tokens)
    (hkind : token.kind = .identifier) : Keyword.ofText? token.value = none := by
  fun_induction scan position text generalizing tokens with
  | case1 =>
      cases h
      cases List.mem_singleton.mp hmem
      cases hkind
  | case2 => cases h
  | case3 => cases h
  | case4 position c rest lexeme _ text stop later hrest =>
      rename_i ih
      cases h
      rcases List.mem_append.mp hmem with hmem | hmem
      · exact ofText?_of_token? (Option.mem_toList.mp hmem) hkind
      · exact ih hrest hmem

end Lexer

/-- No name in a tree is a reserved word, if it was read from tokens of a text. -/
theorem Tree.ofText?_of_identifier {source file : String} {all tokens : List Token} {tree : Tree}
    (hall : Lexer.tokenize source = .ok all) (hsubset : tokens ⊆ all)
    (htree : Tree.ofTokens tokens file = .ok tree) {id : NodeId} {name : String}
    (hkind : tree.kind id = .identifier name) : Keyword.ofText? name = none := by
  obtain ⟨token, hmem, hname, rfl⟩ := Tree.exists_token_of_identifier htree hkind
  exact Lexer.ofText?_of_scan hall (hsubset hmem) hname

end ScriptCheck
