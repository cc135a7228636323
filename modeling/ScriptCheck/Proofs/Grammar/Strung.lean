import ScriptCheck.Proofs.Grammar.Triple

/-!
# Nodes in the order of their tokens

A node is read from a stretch of tokens: it begins where the first of them does and ends
where the last of them does.  While a parser runs, what it has read so far is a string of
pieces, one behind the other; a node that is pushed takes the last of them for its own.
-/

namespace ScriptCheck

/-- The last token is the end mark, and end marks have their own text. -/
structure TokenStream.Closed (stream : TokenStream) : Prop where
  last : (stream.get (stream.size - 1)).kind = .endOfInput
  value : ∀ index, (stream.get index).kind = .endOfInput → (stream.get index).value = "EOF"

/-- There is another token behind one that is not the end mark. -/
theorem TokenStream.Closed.succ_lt {stream : TokenStream} (h : stream.Closed) {index : Nat}
    (hindex : index < stream.size) (hkind : (stream.get index).kind ≠ .endOfInput) :
    index + 1 < stream.size := by
  refine Nat.lt_of_not_le fun hle => hkind ?_
  have heq : index = stream.size - 1 := by omega
  exact heq ▸ h.last

structure ReadFrom (stream : TokenStream) (nodes : Array Node) (id first stop : Nat) : Prop where
  inside : id < nodes.size
  lt : first < stop
  stop_lt : stop < stream.size
  start_eq : (nodes.getD id default).span.start = (stream.get first).span.start
  stop_eq : (nodes.getD id default).span.stop = (stream.get (stop - 1)).span.stop

theorem ReadFrom.push {stream : TokenStream} {nodes : Array Node} {id first stop : Nat}
    (h : ReadFrom stream nodes id first stop) (node : Node) :
    ReadFrom stream (nodes.push node) id first stop := by
  have hget : (nodes.push node).getD id default = nodes.getD id default := by
    simp [Array.getElem?_push, Nat.ne_of_lt h.inside]
  exact ⟨by have := h.inside; rw [Array.size_push]; omega, h.lt, h.stop_lt,
    by rw [hget, h.start_eq], by rw [hget, h.stop_eq]⟩

/-! ## Pieces -/

/-- A piece of what has been read: a place where something begins, of which no token or
some tokens have been read, or a node, of which it may be known where it begins. -/
inductive Piece where
  | begun (start : Position)
  | opened (start : Position)
  | node (id : NodeId)
  | held (id : NodeId) (start : Position)

namespace Piece

/-- Where a piece is known to begin. -/
def start? : Piece → Option Position
  | begun start | opened start | held _ start => some start
  | node _ => none

def node? : Piece → Option NodeId
  | node id | held id _ => some id
  | begun _ | opened _ => none

def isRead : Piece → Bool
  | begun _ => false
  | _ => true

def Fills (stream : TokenStream) (nodes : Array Node) : Piece → Nat → Nat → Prop
  | begun start, first, stop => first = stop ∧ start = (stream.get first).span.start
  | opened start, first, stop => first < stop ∧ start = (stream.get first).span.start
  | node id, first, stop => ReadFrom stream nodes id first stop
  | held id start, first, stop =>
      ReadFrom stream nodes id first stop ∧ start = (stream.get first).span.start

variable {stream : TokenStream} {nodes : Array Node} {piece : Piece} {first stop : Nat}

theorem Fills.le (h : piece.Fills stream nodes first stop) : first ≤ stop := by
  cases piece with
  | begun start => exact Nat.le_of_eq h.1
  | opened start => exact Nat.le_of_lt h.1
  | node id => exact Nat.le_of_lt (ReadFrom.lt h)
  | held id start => exact Nat.le_of_lt h.1.lt

theorem Fills.lt (h : piece.Fills stream nodes first stop) (hread : piece.isRead) :
    first < stop := by
  cases piece with
  | begun start => cases hread
  | opened start => exact h.1
  | node id => exact ReadFrom.lt h
  | held id start => exact h.1.lt

theorem Fills.start_eq (h : piece.Fills stream nodes first stop) {start : Position}
    (hstart : piece.start? = some start) : start = (stream.get first).span.start := by
  cases piece with
  | node id => cases hstart
  | _ =>
      cases hstart
      exact h.2

theorem Fills.push (h : piece.Fills stream nodes first stop) (node : Node) :
    piece.Fills stream (nodes.push node) first stop := by
  cases piece with
  | node id => exact ReadFrom.push h node
  | held id start => exact ⟨h.1.push node, h.2⟩
  | _ => exact h

end Piece

def Strung (stream : TokenStream) (nodes : Array Node) : Nat → Nat → List Piece → Prop
  | lo, hi, [] => lo ≤ hi
  | lo, hi, piece :: rest =>
      ∃ first stop, lo ≤ first ∧ piece.Fills stream nodes first stop ∧
        Strung stream nodes stop hi rest

namespace Strung

variable {stream : TokenStream} {nodes : Array Node} {lo mid hi : Nat} {pieces more : List Piece}

theorem le (h : Strung stream nodes lo hi pieces) : lo ≤ hi := by
  induction pieces generalizing lo with
  | nil => exact h
  | cons piece rest ih =>
      obtain ⟨first, stop, hlo, hfills, hrest⟩ := h
      have := hfills.le
      have := ih hrest
      omega

theorem lt (h : Strung stream nodes lo hi pieces) (hread : pieces.any Piece.isRead) :
    lo < hi := by
  induction pieces generalizing lo with
  | nil => cases hread
  | cons piece rest ih =>
      obtain ⟨first, stop, hlo, hfills, hrest⟩ := h
      have hle := hfills.le
      have hle' := hrest.le
      rcases Bool.or_eq_true _ _ ▸ hread with hpiece | hmore
      · have := hfills.lt hpiece
        omega
      · have := ih hrest hmore
        omega

theorem widen {lo' hi' : Nat} (h : Strung stream nodes lo hi pieces) (hlo : lo' ≤ lo)
    (hhi : hi ≤ hi') : Strung stream nodes lo' hi' pieces := by
  induction pieces generalizing lo lo' with
  | nil => exact Nat.le_trans hlo (Nat.le_trans h hhi)
  | cons piece rest ih =>
      obtain ⟨first, stop, hfirst, hfills, hrest⟩ := h
      exact ⟨first, stop, Nat.le_trans hlo hfirst, hfills, ih hrest (Nat.le_refl _)⟩

theorem append_iff : Strung stream nodes lo hi (pieces ++ more) ↔
    ∃ mid, Strung stream nodes lo mid pieces ∧ Strung stream nodes mid hi more := by
  induction pieces generalizing lo with
  | nil =>
      constructor
      · intro h
        exact ⟨lo, Nat.le_refl _, h⟩
      · rintro ⟨mid, hlo, h⟩
        exact h.widen hlo (Nat.le_refl _)
  | cons piece rest ih =>
      constructor
      · rintro ⟨first, stop, hlo, hfills, hrest⟩
        obtain ⟨mid, hrest, hmore⟩ := ih.mp hrest
        exact ⟨mid, ⟨first, stop, hlo, hfills, hrest⟩, hmore⟩
      · rintro ⟨mid, ⟨first, stop, hlo, hfills, hrest⟩, hmore⟩
        exact ⟨first, stop, hlo, hfills, ih.mpr ⟨mid, hrest, hmore⟩⟩

theorem push (h : Strung stream nodes lo hi pieces) (node : Node) :
    Strung stream (nodes.push node) lo hi pieces := by
  induction pieces generalizing lo with
  | nil => exact h
  | cons piece rest ih =>
      obtain ⟨first, stop, hlo, hfills, hrest⟩ := h
      exact ⟨first, stop, hlo, hfills.push node, ih hrest⟩

/-- The nodes among some pieces lie one behind the other too. -/
theorem nodes_only (h : Strung stream nodes lo hi pieces) :
    Strung stream nodes lo hi ((pieces.filterMap Piece.node?).map .node) := by
  induction pieces generalizing lo with
  | nil => exact h
  | cons piece rest ih =>
      obtain ⟨first, stop, hlo, hfills, hrest⟩ := h
      have hle := hfills.le
      cases piece with
      | node id => exact ⟨first, stop, hlo, hfills, ih hrest⟩
      | held id start => exact ⟨first, stop, hlo, hfills.1, ih hrest⟩
      | _ => exact (ih hrest).widen (Nat.le_trans hlo hle) (Nat.le_refl _)

/-- Each of some nodes was read from tokens in the range. -/
theorem readFrom_of_mem {ids : List NodeId} (h : Strung stream nodes lo hi (ids.map .node))
    {id : NodeId} (hid : id ∈ ids) :
    ∃ first stop, lo ≤ first ∧ stop ≤ hi ∧ ReadFrom stream nodes id first stop := by
  induction ids generalizing lo with
  | nil => cases hid
  | cons other rest ih =>
      obtain ⟨first, stop, hlo, hfrom, hrest⟩ := h
      rcases List.mem_cons.mp hid with rfl | hid
      · exact ⟨first, stop, hlo, hrest.le, hfrom⟩
      · obtain ⟨first', stop', hfirst, hstop, hfrom'⟩ := ih hrest hid
        have hle := Nat.le_of_lt (ReadFrom.lt hfrom)
        exact ⟨first', stop', Nat.le_trans hlo (Nat.le_trans hle hfirst), hstop, hfrom'⟩

/-- Of two of the nodes the first was read from tokens before those of the other. -/
theorem pairwise_readFrom {ids : List NodeId} (h : Strung stream nodes lo hi (ids.map .node)) :
    ids.Pairwise fun id later => ∃ first stop first' stop', ReadFrom stream nodes id first stop ∧
      ReadFrom stream nodes later first' stop' ∧ stop ≤ first' := by
  induction ids generalizing lo with
  | nil => exact .nil
  | cons id rest ih =>
      obtain ⟨first, stop, -, hfrom, hrest⟩ := h
      refine List.pairwise_cons.mpr ⟨fun later hlater => ?_, ih hrest⟩
      obtain ⟨first', stop', hfirst, -, hfrom'⟩ := hrest.readFrom_of_mem hlater
      exact ⟨first, stop, first', stop', hfrom, hfrom', hfirst⟩

end Strung

section NodesOf

variable {start : Position} {id : NodeId} {rest : List Piece}

@[simp] theorem filterMap_node?_begun :
    (Piece.begun start :: rest).filterMap Piece.node? = rest.filterMap Piece.node? := rfl

@[simp] theorem filterMap_node?_opened :
    (Piece.opened start :: rest).filterMap Piece.node? = rest.filterMap Piece.node? := rfl

@[simp] theorem filterMap_node?_node :
    (Piece.node id :: rest).filterMap Piece.node? = id :: rest.filterMap Piece.node? := rfl

@[simp] theorem filterMap_node?_held :
    (Piece.held id start :: rest).filterMap Piece.node? = id :: rest.filterMap Piece.node? := rfl

@[simp] theorem node?_node (id : NodeId) : (Piece.node id).node? = some id := rfl

@[simp] theorem node?_comp_node : Piece.node? ∘ Piece.node = some := rfl

end NodesOf

/-! ## Arenas in order -/

/-- Every node was read from some tokens, and its children from tokens among them, one
behind the other. -/
def Ordered (stream : TokenStream) (nodes : Array Node) : Prop :=
  ∀ id < nodes.size, ∃ first stop, ReadFrom stream nodes id first stop ∧
    Strung stream nodes first stop ((kindAt nodes id).children.map .node)

/-- The arena is in order, and the pieces are what has been read so far. -/
structure Parsed (stream : TokenStream) (pieces : List Piece) (state : ParseState) : Prop where
  ordered : Ordered stream state.nodes
  inside : state.cursor < stream.size
  strung : Strung stream state.nodes 0 state.cursor pieces

structure Ahead (stream : TokenStream) (pieces : List Piece) (state : ParseState) : Prop
    extends Parsed stream pieces state where
  ahead : (stream.get state.cursor).kind ≠ .endOfInput

theorem Ahead.of_isAt {stream : TokenStream} {pieces : List Piece} {kind : TokenKind} {P : Prop}
    {state : ParseState}
    (h : Parsed stream pieces state ∧ (P → (stream.get state.cursor).kind = kind)) (hP : P)
    (hkind : kind ≠ .endOfInput) : Ahead stream pieces state :=
  ⟨h.1, by rwa [h.2 hP]⟩

namespace Parsed

variable {stream : TokenStream} {nodes : Array Node} {pieces rest : List Piece} {first : Piece}
  {state : ParseState} {c c' id : Nat} {start : Position}

theorem begin (h : Parsed stream pieces state) :
    Parsed stream (pieces ++ [Piece.begun (stream.get state.cursor).span.start]) state where
  ordered := h.ordered
  inside := h.inside
  strung := Strung.append_iff.mpr
    ⟨state.cursor, h.strung, state.cursor, state.cursor, Nat.le_refl _, ⟨rfl, rfl⟩, Nat.le_refl _⟩

theorem moved (h : Parsed stream pieces ⟨c, nodes⟩) (hle : c ≤ c') (hlt : c' < stream.size) :
    Parsed stream pieces ⟨c', nodes⟩ :=
  ⟨h.ordered, hlt, h.strung.widen (Nat.le_refl _) hle⟩

/-- What has begun is open once a token has been read. -/
theorem open_begun (h : Parsed stream (pieces ++ [Piece.begun start]) ⟨c, nodes⟩) (hlt : c < c')
    (hsize : c' < stream.size) : Parsed stream (pieces ++ [Piece.opened start]) ⟨c', nodes⟩ := by
  refine ⟨h.ordered, hsize, ?_⟩
  obtain ⟨mid, hpieces, first, stop, hmid, ⟨rfl, hstart⟩, hhi⟩ := Strung.append_iff.mp h.strung
  exact Strung.append_iff.mpr ⟨mid, hpieces, first, c', hmid,
    ⟨Nat.lt_of_le_of_lt hhi hlt, hstart⟩, Nat.le_refl _⟩

/-- The node that is pushed takes the pieces from one on that it begins with. -/
theorem push {kind : NodeKind} (h : Parsed stream (pieces ++ first :: rest) state)
    (hstart : first.start? = some start) (hread : (first :: rest).any Piece.isRead)
    (hchildren : (first :: rest).filterMap Piece.node? = kind.children) :
    Parsed stream (pieces ++ [Piece.held state.nodes.size start])
      ⟨state.cursor,
        state.nodes.push ⟨kind, ⟨start, (stream.get (state.cursor - 1)).span.stop⟩⟩⟩ := by
  obtain ⟨mid, hpieces, hown⟩ := Strung.append_iff.mp h.strung
  obtain ⟨begins, stop, hmid, hfills, hrest⟩ := hown
  have hown : Strung stream state.nodes begins state.cursor (first :: rest) :=
    ⟨begins, stop, Nat.le_refl _, hfills, hrest⟩
  have hbegins := hfills.start_eq hstart
  generalize hnode : (⟨kind, ⟨start, (stream.get (state.cursor - 1)).span.stop⟩⟩ : Node) = node
  have hnew : ReadFrom stream (state.nodes.push node) state.nodes.size begins state.cursor := by
    subst hnode
    exact ⟨by rw [Array.size_push]; omega, hown.lt hread, h.inside, by simpa using hbegins, by simp⟩
  refine ⟨fun id hid => ?_, h.inside, ?_⟩
  · rw [Array.size_push] at hid
    rcases Nat.lt_succ_iff_lt_or_eq.mp hid with hid | rfl
    · obtain ⟨i, j, hfrom, hchildren⟩ := h.ordered id hid
      have hkind : kindAt (state.nodes.push node) id = kindAt state.nodes id := by
        simp [kindAt, Array.getElem?_push, Nat.ne_of_lt hid]
      refine ⟨i, j, hfrom.push node, ?_⟩
      rw [hkind]
      exact hchildren.push node
    · refine ⟨begins, state.cursor, hnew, ?_⟩
      have hkind : kindAt (state.nodes.push node) state.nodes.size = kind := by
        simp [kindAt, ← hnode]
      rw [hkind, ← hchildren]
      exact hown.nodes_only.push node
  · exact Strung.append_iff.mpr ⟨mid, hpieces.push node, begins, state.cursor, hmid,
      ⟨hnew, hbegins⟩, Nat.le_refl _⟩

/-- A node that is there begins where the arena says. -/
theorem hold (h : Parsed stream (pieces ++ [Piece.node id]) state) :
    Parsed stream (pieces ++ [Piece.held id (state.nodes.getD id default).span.start]) state := by
  refine ⟨h.ordered, h.inside, ?_⟩
  obtain ⟨mid, hpieces, first, stop, hmid, hfrom, hhi⟩ := Strung.append_iff.mp h.strung
  exact Strung.append_iff.mpr ⟨mid, hpieces, first, stop, hmid,
    ⟨hfrom, ReadFrom.start_eq hfrom⟩, hhi⟩

theorem release (h : Parsed stream (pieces ++ [Piece.held id start]) state) :
    Parsed stream (pieces ++ [Piece.node id]) state := by
  refine ⟨h.ordered, h.inside, ?_⟩
  obtain ⟨mid, hpieces, first, stop, hmid, ⟨hfrom, -⟩, hhi⟩ := Strung.append_iff.mp h.strung
  exact Strung.append_iff.mpr ⟨mid, hpieces, first, stop, hmid, hfrom, hhi⟩

end Parsed

end ScriptCheck
