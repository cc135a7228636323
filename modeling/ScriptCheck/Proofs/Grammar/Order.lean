import ScriptCheck.Grammar.Program
import ScriptCheck.Proofs.Grammar.Telling

/-!
# The grammar keeps the order of the tokens

Every parser of the grammar reads its pieces one behind the other and pushes each node with
the start of its first piece.  So in the arena of a program every node was read from a
stretch of tokens, and its children from stretches of it, in order.
-/

namespace ScriptCheck

namespace Grammar

open Parse

structure InOrder (g : Grammar) (stream : TokenStream) : Prop where
  expression : ∀ power, Strings stream (g.expression power) (fun id => [.node id])
  statement : Strings stream g.statement (fun id => [.node id])

variable {g : Grammar} {stream : TokenStream}

/-! ## Lists, blocks and functions -/

theorem strings_commaList {close : TokenKind} {item : Parse NodeId}
    (hitem : Strings stream item (fun id => [.node id])) :
    Strings stream (commaList close item) (fun ids => ids.map .node) := by
  intro items
  refine Tells.bind (Q := fun ids => Parsed stream (items ++ ids.map .node)) ?_ fun ids =>
    (tells_pass_expected close).bind fun _ => .pure fun _ h => h
  refine Tells.loop (I := fun ids => Parsed stream (items ++ ids.reverse.map .node))
    (fun state h => by simpa using h) fun ids => ?_
  refine (tells_isAt close).bind fun closed => .ite (fun _ => .pure fun _ h => h.1) fun _ => ?_
  refine ((hitem _).weaken fun _ h => h.1).bind fun next => ?_
  have hnext : ∀ state, Parsed stream (items ++ ids.reverse.map .node ++ [Piece.node next]) state →
      Parsed stream (items ++ (next :: ids).reverse.map .node) state := by
    intro state h
    simpa [List.append_assoc] using h
  refine (tells_isAt _).bind fun comma => .ite (fun _ => ?_) fun _ => ?_
  · exact (tells_pass.weaken fun _ h => h.1).bind fun _ => .pure hnext
  · refine (tells_isAt close).bind fun closed => .ite (fun _ => ?_) fun _ => .pure fun state h =>
      hnext state h.1.1
    exact (tells_unexpected _).bind fun _ => .pure hnext

theorem strings_block (hclosed : stream.Closed) (hg : g.InOrder stream) :
    Strings stream (block g) (fun id => [.node id]) := by
  intro items
  refine (tells_expect hclosed (by simp)).bind fun opening => ?_
  refine Tells.bind (Q := fun body => Parsed stream
    (items ++ [Piece.opened opening.span.start] ++ body.map .node)) ?_ fun body => ?_
  · refine Tells.loop (I := fun body => Parsed stream
      (items ++ [Piece.opened opening.span.start] ++ body.reverse.map .node))
      (fun state h => by simpa using h) fun body => ?_
    refine tells_currentKind.bind fun kind => ?_
    split
    · exact .pure fun _ h => h.1
    · exact tells_expected _ _
    · refine ((hg.statement _).weaken fun _ h => h.1).bind fun next => .pure fun state h => ?_
      simpa [List.append_assoc] using h
  · refine (tells_pass_expected _).bind fun _ => ?_
    exact tells_push items (.opened opening.span.start) (body.map .node) (by simp) rfl rfl
      (by simp [NodeKind.children])

theorem strings_parameter (hclosed : stream.Closed) :
    Strings stream parameter (fun id => [.node id]) := by
  intro items
  refine tells_position.bind fun start => (tells_expectName hclosed _).bind fun name => ?_
  exact tells_push items (.opened start) [] rfl rfl rfl rfl

theorem tells_parameters (hclosed : stream.Closed) (items : List Piece) :
    Tells stream (Parsed stream items) parameters
      (fun ids => Parsed stream (items ++ ids.map .node)) :=
  (tells_pass_expected _).bind fun _ => strings_commaList (strings_parameter hclosed) items

theorem strings_function (hclosed : stream.Closed) (hg : g.InOrder stream) (kind : FunctionKind) :
    Strings stream (function g kind) (fun id => [.node id]) := by
  intro items
  refine (tells_expect hclosed (by simp)).bind fun opening => (tells_isAt _).bind fun named => ?_
  extract_lets rest
  have hrest : ∀ name, Tells stream (Parsed stream (items ++ [Piece.opened opening.span.start]))
      (rest name) (fun id => Parsed stream (items ++ [Piece.node id])) := by
    intro name
    refine (tells_parameters hclosed _).bind fun ids => ?_
    refine (strings_block hclosed hg _).bind fun body => ?_
    exact tells_push items (.opened opening.span.start)
      (ids.map .node ++ [Piece.node body]) (by simp)
      rfl rfl (by simp [NodeKind.children])
  refine .ite (fun _ => ?_) fun _ => .ite (fun _ => ?_) fun _ => ?_
  · exact (tells_pass.weaken fun _ h => h.1).bind fun token => hrest (some token.value)
  · exact (tells_expected _ _).bind hrest
  · exact (hrest none).weaken fun _ h => h.1

theorem strings_arrow (hclosed : stream.Closed) (hg : g.InOrder stream) :
    Strings stream (arrow g) (fun id => [.node id]) := by
  intro items
  refine tells_position.bind fun start => (tells_isAt _).bind fun bare => ?_
  extract_lets rest
  have hrest : ∀ ids first more, first.start? = some start → first.isRead →
      (first :: more).filterMap Piece.node? = ids →
        Tells stream (Parsed stream (items ++ first :: more)) (rest ids)
          (fun id => Parsed stream (items ++ [Piece.node id])) := by
    intro ids first more hstart hread hids
    refine (tells_pass_expected _).bind fun _ => (tells_isAt _).bind fun braced => ?_
    refine .ite (fun _ => ?_) fun _ => ?_
    · refine ((strings_block hclosed hg _).weaken fun _ h => h.1).bind fun body => ?_
      refine tells_push items first (more ++ [Piece.node body]) (by simp) hstart
        (by simp [hread]) ?_
      rw [← List.cons_append, List.filterMap_append, hids]
      rfl
    · refine ((hg.expression _ _).weaken fun _ h => h.1).bind fun body => ?_
      refine tells_push items first (more ++ [Piece.node body]) (by simp) hstart
        (by simp [hread]) ?_
      rw [← List.cons_append, List.filterMap_append, hids]
      rfl
  refine .ite (fun here => ?_) fun _ => ?_
  · refine ((tells_advance_begun hclosed).weaken fun _ h => .of_isAt h here (by simp)).bind
      fun token => ?_
    exact (tells_push_held items (.opened start) [] rfl rfl rfl rfl).bind fun id =>
      hrest [id] (.held id start) [] rfl rfl rfl
  · refine Tells.bind (Q := fun ids =>
      Parsed stream (items ++ Piece.opened start :: ids.map .node)) ?_
      fun ids => hrest ids _ _ rfl rfl (by simp)
    refine ((tells_expect_begun hclosed (by simp)).weaken fun _ h => h.1).bind fun _ => ?_
    refine (strings_commaList (strings_parameter hclosed) _).consequence (fun _ h => h)
      fun ids state h => ?_
    simpa [List.append_assoc] using h

/-! ## Operands -/

theorem strings_primary (hclosed : stream.Closed) :
    Strings stream primary (fun id => [.node id]) := by
  intro items
  refine tells_current.bind fun token => ?_
  have hkind : Tells stream
      (fun state => Parsed stream items state ∧ token = stream.get state.cursor)
      (primaryKind token) (fun kind state => (Ahead stream items state ∧
        token = stream.get state.cursor) ∧ kind.children = []) := by
    have hnumber : ∀ text start, Tells stream
        (fun state => Parsed stream items state ∧ token = stream.get state.cursor)
        (numberValue text start)
        (fun _ state => Parsed stream items state ∧ token = stream.get state.cursor) := by
      intro text start
      unfold numberValue
      split
      · exact .pure fun _ h => h
      · exact tells_fail _ _ _
    have hahead : token.kind ≠ .endOfInput → ∀ state, Parsed stream items state ∧
        token = stream.get state.cursor → Ahead stream items state ∧
          token = stream.get state.cursor :=
      fun hne state h => ⟨⟨h.1, by rwa [← h.2]⟩, h.2⟩
    unfold primaryKind
    split <;> rename_i heq
    · exact (hnumber _ _).bind fun x => .pure fun state h => ⟨hahead (by simp [heq]) state h, rfl⟩
    iterate 5 exact .pure fun state h => ⟨hahead (by simp [heq]) state h, rfl⟩
    exact tells_unexpected _
  refine hkind.bind fun kind => ?_
  intro state id next ⟨⟨hahead, htoken⟩, hchildren⟩ hrun
  obtain ⟨read, between, hadvance, hpush⟩ := bind_eq_ok hrun
  have hread := tells_advance hclosed state read between hahead hadvance
  obtain ⟨hvalue, -, -⟩ := advance_ok hadvance
  rw [hvalue, ← htoken] at hread
  exact tells_push items (.opened token.span.start) [] rfl rfl rfl (by rw [hchildren]; rfl)
    between id next hread hpush

theorem strings_identifier (hclosed : stream.Closed) (hg : g.InOrder stream) :
    Strings stream (identifier g) (fun id => [.node id]) := by
  intro items
  refine (tells_peek 1).bind fun token => .ite (fun _ => strings_arrow hclosed hg items) fun _ => ?_
  refine (tells_expect hclosed (by simp)).bind fun token => ?_
  exact tells_push items (.opened token.span.start) [] rfl rfl rfl rfl

theorem strings_grouping (hclosed : stream.Closed) (hg : g.InOrder stream) :
    Strings stream (grouping g) (fun id => [.node id]) := by
  intro items
  refine tells_isArrowAhead.bind fun _ => .ite (fun _ => strings_arrow hclosed hg items) fun _ => ?_
  refine (tells_pass_expected _).bind fun _ => (hg.expression _ items).bind fun inner => ?_
  exact (tells_pass_expected _).bind fun _ => .pure fun _ h => h

theorem strings_array (hclosed : stream.Closed) (hg : g.InOrder stream) :
    StringsAhead stream (array g) (fun id => [.node id]) := by
  intro items
  refine (tells_advance hclosed).bind fun opening => ?_
  refine (strings_commaList (hg.expression _) _).bind fun elements => ?_
  exact tells_push items (.opened opening.span.start) (elements.map .node) (by simp) rfl rfl
    (by simp [NodeKind.children])

theorem tells_propertyKey (token : Token) (P : ParseState → Prop) :
    Tells stream P (propertyKey token) (fun _ state => P state ∧
      (token.kind = .endOfInput → isReserved token.value)) := by
  unfold propertyKey
  split <;> rename_i hkind
  · exact .pure fun _ h => ⟨h, by simp [hkind]⟩
  · exact .pure fun _ h => ⟨h, by simp [hkind]⟩
  · refine Tells.bind (Q := fun _ => P) ?_ fun _ => .pure fun _ h => ⟨h, by simp [hkind]⟩
    unfold numberValue
    split
    · exact .pure fun _ h => h
    · exact tells_fail _ _ _
  · exact .ite (fun hreserved => .pure fun _ h => ⟨h, fun _ => hreserved⟩) fun _ =>
      tells_expected _ _

/-- The text of the end mark is no reserved word, so it names nothing. -/
theorem not_endOfInput_of_reserved (hclosed : stream.Closed) {index : Nat}
    (h : (stream.get index).kind = .endOfInput → isReserved (stream.get index).value) :
    (stream.get index).kind ≠ .endOfInput := by
  intro hkind
  have hreserved := h hkind
  rw [hclosed.value index hkind] at hreserved
  exact absurd hreserved (by decide)

theorem strings_property (hclosed : stream.Closed) (hg : g.InOrder stream) :
    Strings stream (property g) (fun id => [.node id]) := by
  intro items
  refine tells_current.bind fun token => ?_
  extract_lets start
  refine (tells_propertyKey token _).bind fun key => ?_
  have hadvance : Tells stream
      (fun state => (Parsed stream items state ∧ token = stream.get state.cursor) ∧
        (token.kind = .endOfInput → isReserved token.value)) advance
      (fun _ => Parsed stream (items ++ [Piece.opened start])) := by
    intro state read next ⟨⟨hparsed, htoken⟩, hreserved⟩ hrun
    rw [htoken] at hreserved
    have hnext := tells_advance hclosed state read next
      ⟨hparsed, not_endOfInput_of_reserved hclosed hreserved⟩ hrun
    rwa [(advance_ok hrun).1, ← htoken] at hnext
  refine hadvance.bind fun _ => (tells_isAt _).bind fun colon => ?_
  extract_lets rest
  have hrest : ∀ value first more, first.start? = some start → first.isRead →
      (first :: more).filterMap Piece.node? = [value] →
        Tells stream (Parsed stream (items ++ first :: more)) (rest value)
          (fun id => Parsed stream (items ++ [Piece.node id])) :=
    fun value first more hstart hread hvalue =>
      tells_push items first more rfl hstart (by simp [hread]) hvalue
  refine .ite (fun _ => ?_) fun _ => .ite (fun _ => ?_) fun _ => ?_
  · refine (tells_pass.weaken fun _ h => h.1).bind fun _ => ?_
    refine ((hg.expression _) _).bind fun value => ?_
    rw [List.append_assoc]
    exact hrest value (.opened start) [.node value] rfl rfl rfl
  · refine Tells.bind (Q := fun id => Parsed stream (items ++ [Piece.held id start])) ?_
      fun value => hrest value (.held value start) [] rfl rfl rfl
    exact (tells_push_held items (.opened start) [] rfl rfl rfl rfl).weaken fun _ h => h.1
  · exact (tells_expected _ _).bind fun value => hrest value (.held value start) [] rfl rfl rfl

theorem strings_object (hclosed : stream.Closed) (hg : g.InOrder stream) :
    StringsAhead stream (object g) (fun id => [.node id]) := by
  intro items
  refine (tells_advance hclosed).bind fun opening => ?_
  refine (strings_commaList (strings_property hclosed hg) _).bind fun properties => ?_
  exact tells_push items (.opened opening.span.start) (properties.map .node) (by simp) rfl rfl
    (by simp [NodeKind.children])

theorem strings_construction (hclosed : stream.Closed) (hg : g.InOrder stream) :
    StringsAhead stream (construction g) (fun id => [.node id]) := by
  intro items
  refine (tells_advance hclosed).bind fun opening => (hg.expression _ _).bind fun callee => ?_
  refine (tells_isAt _).bind fun listed => ?_
  extract_lets rest
  have hrest : ∀ arguments, Tells stream
      (Parsed stream (items ++ [Piece.opened opening.span.start] ++ [Piece.node callee] ++
        arguments.map .node)) (rest arguments)
          (fun id => Parsed stream (items ++ [Piece.node id])) :=
    fun arguments => tells_push items (.opened opening.span.start)
      (.node callee :: arguments.map .node) (by simp) rfl rfl (by simp [NodeKind.children])
  refine .ite (fun _ => ?_) fun _ => (hrest []).weaken fun _ h => by simpa using h.1
  refine (tells_pass.weaken fun _ h => h.1).bind fun _ => ?_
  exact (strings_commaList (hg.expression _) _).bind hrest

theorem strings_unary (hclosed : stream.Closed) (hg : g.InOrder stream) (op : UnaryOp) :
    StringsAhead stream (unary g op) (fun id => [.node id]) := by
  intro items
  refine (tells_advance hclosed).bind fun token => (hg.expression _ _).bind fun argument => ?_
  exact tells_push items (.opened token.span.start) [.node argument] (by simp) rfl rfl rfl

theorem tells_unsupported (P : ParseState → Prop) (Q : NodeId → ParseState → Prop) :
    Tells stream P unsupported Q :=
  tells_current.bind fun _ => tells_fail _ _ _

theorem strings_operand (hclosed : stream.Closed) (hg : g.InOrder stream) :
    Strings stream (operand g) (fun id => [.node id]) := by
  intro items
  refine tells_currentKind.bind fun kind => ?_
  have hahead : kind ≠ .endOfInput → ∀ state, Parsed stream items state ∧
      kind = (stream.get state.cursor).kind → Ahead stream items state :=
    fun hne state h => ⟨h.1, by rwa [← h.2]⟩
  split
  iterate 6 exact (strings_primary hclosed items).weaken fun _ h => h.1
  · exact (strings_identifier hclosed hg items).weaken fun _ h => h.1
  · exact (strings_grouping hclosed hg items).weaken fun _ h => h.1
  · exact (strings_array hclosed hg items).weaken (hahead (by simp))
  · exact (strings_object hclosed hg items).weaken (hahead (by simp))
  · exact (strings_function hclosed hg _ items).weaken fun _ h => h.1
  · exact (strings_construction hclosed hg items).weaken (hahead (by simp))
  · exact tells_unsupported _ _
  · exact tells_unsupported _ _
  · split
    · rename_i op hop
      refine (strings_unary hclosed hg op items).weaken (hahead ?_)
      rintro rfl
      cases hop
    · exact tells_unexpected _

/-! ## Continuations -/

theorem restrings_binary (hg : g.InOrder stream) (left : NodeId) (op : BinaryOp) (power : Power) :
    Restrings stream left (binary g left op power) := by
  intro items
  refine (tells_startOf left).bind fun start => ?_
  refine tells_pass.bind fun _ => (hg.expression _ _).bind fun right => ?_
  exact tells_push items (.held left start) [.node right] (by simp) rfl rfl rfl

theorem restrings_logical (hg : g.InOrder stream) (left : NodeId) (op : LogicalOp)
    (power : Power) : Restrings stream left (logical g left op power) := by
  intro items
  refine (tells_startOf left).bind fun start => ?_
  refine tells_pass.bind fun _ => (hg.expression _ _).bind fun right => ?_
  exact tells_push items (.held left start) [.node right] (by simp) rfl rfl rfl

theorem restrings_assignment (hg : g.InOrder stream) (left : NodeId) (op : AssignOp) :
    Restrings stream left (assignment g left op) := by
  intro items
  refine (tells_nodeAt left).bind fun node => ?_
  have hrest : Tells stream
      (fun state => Parsed stream (items ++ [Piece.node left]) state ∧
        node = state.nodes.getD left default)
      (do let _ ← advance
          let value ← g.expression .comma
          push (.assign op left value) node.span.start)
      (fun id => Parsed stream (items ++ [Piece.node id])) := by
    refine Tells.weaken (P := Parsed stream (items ++ [Piece.held left node.span.start])) ?_
      fun state h => by rw [h.2]; exact h.1.hold
    refine tells_pass.bind fun _ => (hg.expression _ _).bind fun value => ?_
    exact tells_push items (.held left node.span.start) [.node value] (by simp) rfl rfl rfl
  extract_lets start
  split
  · exact hrest
  · exact hrest
  · exact tells_fail _ _ _

theorem restrings_conditional (hg : g.InOrder stream) (test : NodeId) :
    Restrings stream test (conditional g test) := by
  intro items
  refine (tells_startOf test).bind fun start => ?_
  refine (tells_pass_expected _).bind fun _ => (hg.expression _ _).bind fun consequent => ?_
  refine (tells_pass_expected _).bind fun _ => (hg.expression _ _).bind fun alternate => ?_
  exact tells_push items (.held test start) [.node consequent, .node alternate] (by simp) rfl rfl
    rfl

theorem restrings_sequence (hg : g.InOrder stream) (left : NodeId) :
    Restrings stream left (sequence g left) := by
  intro items
  refine (tells_startOf left).bind fun start => ?_
  refine Tells.bind (Q := fun expressions state => ∃ others, expressions = left :: others ∧
    Parsed stream (items ++ Piece.held left start :: others.map .node) state) ?_
      fun expressions => ?_
  · refine Tells.loop (I := fun expressions state => ∃ others, expressions.reverse =
      left :: others ∧
      Parsed stream (items ++ Piece.held left start :: others.map .node) state)
      (fun state h => ⟨[], rfl, h⟩) fun expressions => ?_
    refine (tells_isAt _).bind fun comma => .ite (fun _ => ?_) fun _ => .pure fun _ h => h.1
    refine (Tells.given fun others hothers => ?_).weaken fun _ h => h.1
    refine tells_pass.bind fun _ => (hg.expression _ _).bind fun id => .pure fun state h => ?_
    exact ⟨others ++ [id], by simp [hothers], by simpa using h⟩
  · refine Tells.given fun others hothers => ?_
    exact tells_push items (.held left start) (others.map .node) rfl rfl rfl
      (by simp [NodeKind.children, hothers])

theorem restrings_call (hg : g.InOrder stream) (callee : NodeId) :
    Restrings stream callee (call g callee) := by
  intro items
  refine (tells_startOf callee).bind fun start => ?_
  refine (tells_pass_expected _).bind fun _ => ?_
  refine (strings_commaList (hg.expression _) _).bind fun arguments => ?_
  exact tells_push items (.held callee start) (arguments.map .node) (by simp) rfl rfl
    (by simp [NodeKind.children])

theorem restrings_namedMember (owner : NodeId) :
    Restrings stream owner (namedMember owner) := by
  intro items
  refine (tells_startOf owner).bind fun start => ?_
  refine (tells_pass_expected _).bind fun _ => tells_current.bind fun token => ?_
  refine .ite (fun _ => ?_) fun _ => tells_expected _ _
  refine (tells_pass.weaken fun _ h => h.1).bind fun _ => ?_
  exact tells_push items (.held owner start) [] rfl rfl rfl rfl

theorem restrings_computedMember (hg : g.InOrder stream) (owner : NodeId) :
    Restrings stream owner (computedMember g owner) := by
  intro items
  refine (tells_startOf owner).bind fun start => ?_
  refine (tells_pass_expected _).bind fun _ => (hg.expression _ _).bind fun key => ?_
  refine (tells_pass_expected _).bind fun _ => ?_
  exact tells_push items (.held owner start) [.node key] (by simp) rfl rfl rfl

theorem restrings_continuation (hg : g.InOrder stream) (left : NodeId) (kind : TokenKind) :
    Restrings stream left (continuation g left kind) := by
  intro items
  unfold continuation
  split
  · exact restrings_sequence hg left items
  · exact restrings_conditional hg left items
  · exact restrings_logical hg left _ _ items
  · exact restrings_logical hg left _ _ items
  · exact tells_unsupported _ _
  · exact tells_unsupported _ _
  · exact restrings_call hg left items
  · exact restrings_namedMember left items
  · exact restrings_computedMember hg left items
  · split
    · exact restrings_assignment hg left _ items
    · exact restrings_binary hg left _ _ items
    · exact tells_unexpected _

theorem strings_expressionAt (hclosed : stream.Closed) (hg : g.InOrder stream) (power : Power) :
    Strings stream (expressionAt g power) (fun id => [.node id]) := by
  intro items
  refine (strings_operand hclosed hg items).bind fun first => ?_
  refine Tells.loop (I := fun left => Parsed stream (items ++ [Piece.node left]))
    (fun _ h => h) fun left => ?_
  refine tells_currentKind.bind fun kind => .ite (fun _ => .pure fun _ h => h.1) fun _ => ?_
  exact ((restrings_continuation hg left kind items).weaken fun _ h => h.1).bind
    fun next => .pure fun _ h => h

/-! ## Statements -/

theorem strings_declarator (hclosed : stream.Closed) (hg : g.InOrder stream)
    (kind : DeclarationKind) : Strings stream (declarator g kind) (fun id => [.node id]) := by
  intro items
  refine tells_position.bind fun start => (tells_expectName hclosed _).bind fun name => ?_
  refine (tells_isAt _).bind fun initialised => ?_
  extract_lets rest
  have hrest : ∀ init : Option NodeId, Tells stream
      (Parsed stream (items ++ Piece.opened start :: init.toList.map .node)) (rest init)
      (fun id => Parsed stream (items ++ [Piece.node id])) := by
    intro init
    have hpush : Tells stream (Parsed stream (items ++ Piece.opened start :: init.toList.map .node))
        (push (.declarator name init) start) (fun id => Parsed stream (items ++ [Piece.node id])) :=
      tells_push items (.opened start) (init.toList.map .node) rfl rfl rfl
        (by simp [NodeKind.children])
    refine .ite (fun _ => ?_) fun _ => hpush
    exact (tells_expected _ _).bind fun _ => hpush
  refine .ite (fun _ => ?_) fun _ => (hrest none).weaken fun _ h => h.1
  refine (tells_pass.weaken fun _ h => h.1).bind fun _ => (hg.expression _ _).bind fun value => ?_
  exact (hrest (some value)).weaken fun _ h => by simpa using h

theorem strings_declaration (hclosed : stream.Closed) (hg : g.InOrder stream)
    (kind : DeclarationKind) : StringsAhead stream (declaration g kind) (fun id => [.node id]) := by
  intro items
  refine (tells_advance hclosed).bind fun opening => ?_
  refine Tells.bind (Q := fun ids => Parsed stream
    (items ++ Piece.opened opening.span.start :: ids.map .node)) ?_ fun ids =>
      tells_push items (.opened opening.span.start) (ids.map .node) rfl rfl rfl
        (by simp [NodeKind.children])
  refine Tells.loop (I := fun ids => Parsed stream
    (items ++ Piece.opened opening.span.start :: ids.reverse.map .node)) (fun _ h => h)
    fun ids => ?_
  refine (strings_declarator hclosed hg kind _).bind fun next => (tells_isAt _).bind fun comma => ?_
  have hnext : ∀ state, Parsed stream
      (items ++ Piece.opened opening.span.start ::
        ids.reverse.map .node ++ [Piece.node next]) state →
      Parsed stream (items ++ Piece.opened opening.span.start :: (next :: ids).reverse.map .node)
        state := by
    intro state h
    simpa using h
  refine .ite (fun _ => ?_) fun _ => .pure fun state h => hnext state h.1
  exact (tells_pass.weaken fun _ h => h.1).bind fun _ => .pure hnext

theorem strings_condition (hg : g.InOrder stream) :
    Strings stream (condition g) (fun id => [.node id]) := by
  intro items
  refine (tells_pass_expected _).bind fun _ => (hg.expression _ items).bind fun test => ?_
  exact (tells_pass_expected _).bind fun _ => .pure fun _ h => h

theorem strings_ifStatement (hclosed : stream.Closed) (hg : g.InOrder stream) :
    StringsAhead stream (ifStatement g) (fun id => [.node id]) := by
  intro items
  refine (tells_advance hclosed).bind fun opening => (strings_condition hg _).bind fun test => ?_
  refine (hg.statement _).bind fun consequent => (tells_isAt _).bind fun other => ?_
  extract_lets rest
  have hrest : ∀ alternate : Option NodeId, Tells stream (Parsed stream
      (items ++ Piece.opened opening.span.start :: .node test :: .node consequent ::
        alternate.toList.map .node)) (rest alternate)
      (fun id => Parsed stream (items ++ [Piece.node id])) :=
    fun alternate => tells_push items (.opened opening.span.start)
      (.node test :: .node consequent :: alternate.toList.map .node) rfl rfl rfl
      (by simp [NodeKind.children])
  refine .ite (fun _ => ?_) fun _ => (hrest none).weaken fun _ h => by simpa using h.1
  refine (tells_pass.weaken fun _ h => h.1).bind fun _ => (hg.statement _).bind fun alternate => ?_
  exact (hrest (some alternate)).weaken fun _ h => by simpa using h

theorem strings_returnStatement (hclosed : stream.Closed) (hg : g.InOrder stream) :
    StringsAhead stream (returnStatement g) (fun id => [.node id]) := by
  intro items
  refine (tells_advance hclosed).bind fun opening => tells_currentKind.bind fun kind => ?_
  extract_lets endsHere rest
  have hrest : ∀ argument : Option NodeId, Tells stream
      (Parsed stream (items ++ Piece.opened opening.span.start :: argument.toList.map .node))
      (rest argument) (fun id => Parsed stream (items ++ [Piece.node id])) :=
    fun argument => tells_endStatement.bind fun _ =>
      tells_push items (.opened opening.span.start) (argument.toList.map .node) rfl rfl rfl
        (by simp [NodeKind.children])
  refine (tells_onNewLine.weaken fun _ h => h.1).bind fun later => .ite (fun _ => hrest none)
    fun _ => ?_
  refine .ite (fun _ => hrest none) fun _ => ?_
  refine (hg.expression _ _).bind fun argument => ?_
  exact (hrest (some argument)).weaken fun _ h => by simpa using h

theorem strings_whileStatement (hclosed : stream.Closed) (hg : g.InOrder stream) :
    StringsAhead stream (whileStatement g) (fun id => [.node id]) := by
  intro items
  refine (tells_advance hclosed).bind fun opening => (strings_condition hg _).bind fun test => ?_
  refine (hg.statement _).bind fun body => ?_
  exact tells_push items (.opened opening.span.start) [.node test, .node body] (by simp) rfl rfl rfl

theorem strings_forInit (hclosed : stream.Closed) (hg : g.InOrder stream) :
    Strings stream (forInit g) (fun init => init.toList.map .node) := by
  intro items
  refine tells_currentKind.bind fun kind => .ite (fun _ => ?_) fun _ => ?_
  · exact (strings_pure rfl items).weaken fun _ h => h.1
  split
  · rename_i declared hdeclared
    have hkind : kind ≠ .endOfInput := by
      rintro rfl
      cases hdeclared
    refine ((strings_declaration hclosed hg declared items).weaken fun _ h =>
      ⟨h.1, by rwa [← h.2]⟩).bind fun init => .pure fun _ h => h
  · exact ((hg.expression _ items).weaken fun _ h => h.1).bind fun init => .pure fun _ h => h

theorem strings_optionalExpression (hg : g.InOrder stream) (close : TokenKind) :
    Strings stream (optionalExpression g close) (fun found => found.toList.map .node) := by
  intro items
  refine (tells_isAt close).bind fun _ => .ite (fun _ => ?_) fun _ => ?_
  · exact (strings_pure rfl items).weaken fun _ h => h.1
  · exact ((hg.expression _ items).weaken fun _ h => h.1).bind fun id => .pure fun _ h => h

theorem strings_forStatement (hclosed : stream.Closed) (hg : g.InOrder stream) :
    StringsAhead stream (forStatement g) (fun id => [.node id]) := by
  intro items
  refine (tells_advance hclosed).bind fun opening => (tells_pass_expected _).bind fun _ => ?_
  refine (strings_forInit hclosed hg _).bind fun init => (tells_pass_expected _).bind fun _ => ?_
  refine (strings_optionalExpression hg _ _).bind fun test => (tells_pass_expected _).bind
    fun _ => ?_
  refine (strings_optionalExpression hg _ _).bind fun update =>
    (tells_pass_expected _).bind fun _ => ?_
  refine (hg.statement _).bind fun body => ?_
  exact tells_push items (.opened opening.span.start) (init.toList.map .node ++
    test.toList.map .node ++ update.toList.map .node ++ [Piece.node body]) (by simp) rfl rfl
      (by simp [NodeKind.children])

theorem strings_catchParameter (hclosed : stream.Closed) :
    Strings stream catchParameter (fun found => found.toList.map .node) := by
  intro items
  refine (tells_isAt _).bind fun _ => .ite (fun _ => ?_) fun _ => ?_
  · refine (tells_pass.weaken fun _ h => h.1).bind fun _ => tells_position.bind fun start => ?_
    refine (tells_expect_begun hclosed (by simp)).bind fun token => ?_
    refine (tells_push items (.opened start) [] rfl rfl rfl rfl).bind fun id => ?_
    exact (tells_pass_expected _).bind fun _ => .pure fun _ h => h
  · exact (strings_pure rfl items).weaken fun _ h => h.1

theorem strings_catchClause (hclosed : stream.Closed) (hg : g.InOrder stream) :
    Strings stream (catchClause g) (fun found => found.toList.map .node) := by
  intro items
  refine (tells_isAt _).bind fun _ => .ite (fun here => ?_) fun _ => ?_
  · refine ((tells_advance hclosed).weaken fun _ h => .of_isAt h here (by simp)).bind
      fun opening => ?_
    refine (strings_catchParameter hclosed _).bind fun param => ?_
    refine (strings_block hclosed hg _).bind fun body => ?_
    exact (tells_push items (.opened opening.span.start)
      (param.toList.map .node ++ [Piece.node body])
      (by simp) rfl rfl (by simp [NodeKind.children])).bind fun id => .pure fun _ h => h
  · exact (strings_pure rfl items).weaken fun _ h => h.1

theorem strings_tryStatement (hclosed : stream.Closed) (hg : g.InOrder stream) :
    StringsAhead stream (tryStatement g) (fun id => [.node id]) := by
  intro items
  refine (tells_advance hclosed).bind fun opening => (strings_block hclosed hg _).bind
    fun body => ?_
  refine (strings_catchClause hclosed hg _).bind fun handler => (tells_isAt _).bind fun final => ?_
  extract_lets rest
  have hrest : ∀ finalizer : Option NodeId, Tells stream (Parsed stream
      (items ++ Piece.opened opening.span.start :: .node body ::
        (handler.toList.map .node ++ finalizer.toList.map .node))) (rest finalizer)
      (fun id => Parsed stream (items ++ [Piece.node id])) := by
    intro finalizer
    have hpush : Tells stream (Parsed stream (items ++ Piece.opened opening.span.start ::
        .node body :: (handler.toList.map .node ++ finalizer.toList.map .node)))
        (push (.tryStmt body handler finalizer) opening.span.start)
        (fun id => Parsed stream (items ++ [Piece.node id])) :=
      tells_push items (.opened opening.span.start)
        (.node body :: (handler.toList.map .node ++ finalizer.toList.map .node)) rfl rfl rfl
        (by simp [NodeKind.children])
    refine .ite (fun _ => ?_) fun _ => hpush
    exact (tells_expected _ _).bind fun _ => hpush
  refine .ite (fun _ => ?_) fun _ => (hrest none).weaken fun _ h => by simpa using h.1
  refine (tells_pass.weaken fun _ h => h.1).bind fun _ => ?_
  refine (strings_block hclosed hg _).bind fun finalizer => ?_
  exact (hrest (some finalizer)).weaken fun _ h => by simpa using h

theorem strings_throwStatement (hclosed : stream.Closed) (hg : g.InOrder stream) :
    StringsAhead stream (throwStatement g) (fun id => [.node id]) := by
  intro items
  refine (tells_advance hclosed).bind fun opening => (hg.expression _ _).bind fun argument => ?_
  refine tells_endStatement.bind fun _ => ?_
  exact tells_push items (.opened opening.span.start) [.node argument] (by simp) rfl rfl rfl

theorem strings_jump (hclosed : stream.Closed) {kind : NodeKind} (hchildren : kind.children = []) :
    StringsAhead stream (jump kind) (fun id => [.node id]) := by
  intro items
  refine (tells_advance hclosed).bind fun opening => tells_endStatement.bind fun _ => ?_
  exact tells_push items (.opened opening.span.start) [] rfl rfl rfl (by rw [hchildren]; rfl)

theorem strings_emptyStatement (hclosed : stream.Closed) :
    StringsAhead stream emptyStatement (fun id => [.node id]) := by
  intro items
  refine (tells_advance hclosed).bind fun opening => ?_
  exact tells_push items (.opened opening.span.start) [] rfl rfl rfl rfl

theorem strings_expressionStatement (hg : g.InOrder stream) :
    Strings stream (expressionStatement g) (fun id => [.node id]) := by
  intro items
  refine tells_position.bind fun start => (hg.expression _ _).bind fun expr => ?_
  refine tells_endStatement.bind fun _ => ?_
  exact tells_push items (.begun start) [.node expr] (by simp) rfl rfl rfl

theorem strings_statementAt (hclosed : stream.Closed) (hg : g.InOrder stream) :
    Strings stream (statementAt g) (fun id => [.node id]) := by
  intro items
  refine tells_currentKind.bind fun kind => ?_
  have hahead : kind ≠ .endOfInput → ∀ state, Parsed stream items state ∧
      kind = (stream.get state.cursor).kind → Ahead stream items state :=
    fun hne state h => ⟨h.1, by rwa [← h.2]⟩
  split
  · exact (strings_function hclosed hg _ items).weaken fun _ h => h.1
  · exact (strings_ifStatement hclosed hg items).weaken (hahead (by simp))
  · exact (strings_block hclosed hg items).weaken fun _ h => h.1
  · exact (strings_returnStatement hclosed hg items).weaken (hahead (by simp))
  · exact (strings_whileStatement hclosed hg items).weaken (hahead (by simp))
  · exact (strings_forStatement hclosed hg items).weaken (hahead (by simp))
  · exact (strings_tryStatement hclosed hg items).weaken (hahead (by simp))
  · exact (strings_throwStatement hclosed hg items).weaken (hahead (by simp))
  · exact (strings_jump hclosed rfl items).weaken (hahead (by simp))
  · exact (strings_jump hclosed rfl items).weaken (hahead (by simp))
  · exact (strings_emptyStatement hclosed items).weaken (hahead (by simp))
  · split
    · rename_i declared hdeclared
      have hkind : kind ≠ .endOfInput := by
        rintro rfl
        cases hdeclared
      refine ((strings_declaration hclosed hg declared items).weaken (hahead hkind)).bind
        fun node => ?_
      exact tells_endStatement.bind fun _ => .pure fun _ h => h
    · exact (strings_expressionStatement hg items).weaken fun _ h => h.1

/-! ## Programs -/

theorem inOrder_upTo (hclosed : stream.Closed) (depth : Nat) : (upTo depth).InOrder stream := by
  induction depth with
  | zero => exact ⟨fun power items => tells_throw _ _, fun items => tells_throw _ _⟩
  | succ depth ih =>
      exact ⟨fun power => strings_expressionAt hclosed ih power, strings_statementAt hclosed ih⟩

/-- Every node that has children was read from some tokens, and they from tokens among
them.  An empty program is read from no token. -/
def OrderedBelow (stream : TokenStream) (nodes : Array Node) : Prop :=
  ∀ id < nodes.size, (kindAt nodes id).children ≠ [] →
    ∃ first stop, ReadFrom stream nodes id first stop ∧
      Strung stream nodes first stop ((kindAt nodes id).children.map .node)

theorem orderedBelow_push_program_nil {nodes : Array Node} (h : Ordered stream nodes)
    (span : Span) : OrderedBelow stream (nodes.push ⟨.program [], span⟩) := by
  intro id hid hchildren
  rw [Array.size_push] at hid
  rcases Nat.lt_succ_iff_lt_or_eq.mp hid with hid | rfl
  · obtain ⟨first, stop, hfrom, hstrung⟩ := h id hid
    have hkind : kindAt (nodes.push ⟨.program [], span⟩) id = kindAt nodes id := by
      simp [kindAt, Array.getElem?_push, Nat.ne_of_lt hid]
    exact ⟨first, stop, hfrom.push _, by rw [hkind]; exact hstrung.push _⟩
  · exact absurd (by simp [kindAt, NodeKind.children]) hchildren

theorem tells_program (hg : g.InOrder stream) :
    Tells stream (fun state => state = {}) (program g)
      (fun _ state => OrderedBelow stream state.nodes) := by
  have hnothing : ∀ state, state = {} → Parsed stream [] state := by
    rintro state rfl
    exact ⟨fun id hid => absurd hid (Nat.not_lt_zero id), stream.size_pos, Nat.le_refl 0⟩
  refine (tells_position.weaken hnothing).bind fun start => ?_
  refine Tells.bind (Q := fun body => Parsed stream (.begun start :: body.map .node)) ?_
    fun body => ?_
  · refine Tells.loop (I := fun body => Parsed stream (.begun start :: body.reverse.map .node))
      (fun _ h => by simpa using h) fun body => ?_
    refine (tells_isAt _).bind fun _ => .ite (fun _ => .pure fun _ h => h.1) fun _ => ?_
    refine ((hg.statement _).weaken fun _ h => h.1).bind fun next => .pure fun state h => ?_
    simpa using h
  · cases body with
    | nil =>
        refine tells_previousEnd.bind fun stop => ?_
        intro state root next h hrun
        cases hrun
        exact orderedBelow_push_program_nil h.1.ordered _
    | cons first others =>
        exact (tells_push [] (.begun start) ((first :: others).map .node) rfl rfl rfl
          (by simp [NodeKind.children])).consequence (fun _ h => h)
            fun _ _ h id hid _ => h.ordered id hid

end Grammar

/-- In the arena of a script the children of a node were read from tokens of the node. -/
theorem Tree.orderedBelow_of_ofTokens {tokens : List Token} {file : String} {tree : Tree}
    (hclosed : (TokenStream.ofTokens tokens).Closed) (h : Tree.ofTokens tokens file = .ok tree) :
    Grammar.OrderedBelow (TokenStream.ofTokens tokens) tree.nodes := by
  obtain ⟨root, state, hrun, rfl⟩ := Tree.ofTokens_eq_ok h
  exact Grammar.tells_program (Grammar.inOrder_upTo hclosed _) _ root state rfl hrun

end ScriptCheck
