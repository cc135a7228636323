import ScriptCheck.Proofs.Grammar.Pairing

/-!
# The grammar on two streams

Every rule of the grammar does the same on two streams that are alike, if the parsers of what
is nested in it do.  Each of them reads a token at least, which bounds how deep rules nest.
-/

namespace ScriptCheck

open Parse

variable {first second : TokenStream} {cursor : Nat}

/-- From some cursors on, the parsers of nested expressions and statements do the same on two
streams. -/
structure Grammar.Pairs (first second : TokenStream) (g g' : Grammar)
    (expressions statements : Nat) : Prop where
  expression : ∀ {cursor}, expressions ≤ cursor → cursor < first.size → ∀ power,
    Paired first second cursor (g.expression power) (g'.expression power) (Moved cursor)
  statement : ∀ {cursor}, statements ≤ cursor → cursor < first.size →
    Paired first second cursor g.statement g'.statement (Moved cursor)

namespace Grammar

variable {g g' : Grammar}

theorem Pairs.mono {expressions statements expressions' statements' : Nat}
    (hg : Pairs first second g g' expressions statements) (hle : expressions ≤ expressions')
    (hle' : statements ≤ statements') : Pairs first second g g' expressions' statements' :=
  ⟨fun here => hg.expression (Nat.le_trans hle here),
    fun here => hg.statement (Nat.le_trans hle' here)⟩

variable (h : first.Alike second) (hinside : cursor < first.size)

include h hinside

/-! ## Lists, blocks and functions -/

theorem paired_commaList {α : Type} {close : TokenKind} (hplain : close.IsPlain)
    {item item' : Parse α}
    (heach : ∀ here, cursor ≤ here → here < first.size →
      Paired first second here item item' (Moved here)) :
    Paired first second cursor (commaList close item) (commaList close item') (Moved cursor) := by
  refine (Paired.loop (I := (cursor ≤ ·)) (R := (cursor ≤ ·)) h hinside (Nat.le_refl cursor)
    fun items here hwithin hle => ?_).andKept fun items next hwithin hle => ?_
  · refine paired_isAt h close fun closed _ => .ite (fun _ => .pure hwithin ⟨rfl, hle⟩) fun _ => ?_
    refine (heach here hle hwithin).andThen fun item next hwithin hlt => ?_
    have hlater : here < next ∧ cursor ≤ next := ⟨hlt, Nat.le_trans hle (Nat.le_of_lt hlt)⟩
    refine paired_isAt h _ fun comma hat => .ite (fun hfound => ?_) fun _ => ?_
    · exact paired_read h hwithin (hat.mp hfound) (by decide) fun hwithin =>
        .pure hwithin ⟨rfl, by omega⟩
    · refine paired_isAt h close fun closed _ =>
        .ite (fun _ => (paired_unexpected h _).stop) fun _ =>
        .pure hwithin ⟨rfl, hlater⟩
  · exact paired_expect h hwithin hplain fun _ hwithin _ =>
      .pure hwithin ⟨rfl, Nat.lt_succ_of_le hle⟩

theorem paired_block (hg : Pairs first second g g' (cursor + 1) (cursor + 1)) :
    Paired first second cursor (block g) (block g') (Moved cursor) := by
  refine paired_expect h hinside (by decide) fun opening hwithin _ => ?_
  refine (Paired.loop (I := (cursor < ·)) (R := (cursor < ·)) h hwithin (Nat.lt_succ_self cursor)
    fun body here hwithin hlt => ?_).bind ?_
  · refine paired_currentKind h ?_
    split
    · exact .pure hwithin ⟨rfl, hlt⟩
    · exact paired_expected h _ _
    · exact (hg.statement hlt hwithin).andThen fun id next hwithin hmoved =>
        .pure hwithin ⟨rfl, hmoved, Nat.lt_trans hlt hmoved⟩
  · rintro _ body next hwithin ⟨rfl, hlt⟩
    exact paired_expect h hwithin (by decide) fun _ hwithin _ =>
      paired_push h hwithin _ _ (Nat.lt_succ_of_lt hlt)

theorem paired_parameter : Paired first second cursor parameter parameter (Moved cursor) :=
  paired_position h <| paired_expectName h hinside _ fun _ hwithin =>
    paired_push h hwithin _ _ (Nat.lt_succ_self cursor)

theorem paired_parameters : Paired first second cursor parameters parameters (Moved cursor) := by
  refine paired_expect h hinside (by decide) fun _ hwithin _ => ?_
  refine (paired_commaList h hwithin (by decide) fun here _ hwithin =>
    paired_parameter h hwithin).mono ?_
  rintro _ _ next ⟨hsame, hlt⟩
  exact ⟨hsame, Nat.lt_trans (Nat.lt_succ_self cursor) hlt⟩

theorem paired_function (hg : Pairs first second g g' (cursor + 1) (cursor + 1))
    (kind : FunctionKind) :
    Paired first second cursor (function g kind) (function g' kind) (Moved cursor) := by
  refine paired_expect h hinside (by decide) fun opening hwithin _ => ?_
  refine paired_isAt h _ fun named hat => ?_
  extract_lets rest rest'
  have hrests : ∀ name here, here < first.size → cursor < here →
      Paired first second here (rest name) (rest' name) (Moved cursor) := by
    intro name here hwithin hlt
    refine (paired_parameters h hwithin).andThen fun parameters next hwithin hlt' => ?_
    have hlater : Pairs first second g g' (next + 1) (next + 1) := hg.mono (by omega) (by omega)
    exact (paired_block h hwithin hlater).andThen fun body last hwithin hlt'' =>
      paired_push h hwithin _ _ (by omega)
  refine .ite (fun hfound => ?_) fun _ => .ite (fun _ => ?_) fun _ =>
    hrests none _ hwithin (Nat.lt_succ_self cursor)
  · exact paired_read h hwithin (hat.mp hfound) (by decide) fun hwithin =>
      hrests _ _ hwithin (by omega)
  · exact (paired_expected h _ _).stop

theorem paired_arrow (hg : Pairs first second g g' (cursor + 1) (cursor + 1)) :
    Paired first second cursor (arrow g) (arrow g') (Moved cursor) := by
  refine paired_position h ?_
  refine paired_isAt h _ fun bare hat => ?_
  extract_lets rest rest'
  have hrests : ∀ ids here, here < first.size → cursor < here →
      Paired first second here (rest ids) (rest' ids) (Moved cursor) := by
    intro ids here hwithin hlt
    refine paired_expect h hwithin (by decide) fun _ hwithin _ => ?_
    refine paired_isAt h _ fun braced _ => .ite (fun _ => ?_) fun _ => ?_
    · have hlater : Pairs first second g g' (here + 1 + 1) (here + 1 + 1) :=
        hg.mono (by omega) (by omega)
      exact (paired_block h hwithin hlater).andThen fun body last hwithin hlt' =>
        paired_push h hwithin _ _ (by omega)
    · exact (hg.expression (by omega) hwithin _).andThen fun body last hwithin hlt' =>
        paired_push h hwithin _ _ (by omega)
  refine .ite (fun hfound => ?_) fun _ => (paired_parameters h hinside).andThen hrests
  exact paired_read h hinside (hat.mp hfound) (by decide) fun hwithin =>
    paired_pushThen h hwithin _ _ fun id => hrests [id] _ hwithin (Nat.lt_succ_self cursor)

/-! ## Operands -/

omit hinside in
theorem value_eq (hplain : (first.get cursor).kind ≠ .string) :
    (second.get cursor).value = (first.get cursor).value :=
  congrArg Token.value (h.get_eq hplain)

omit h in
theorem paired_numberValue (text : String) (position : Position) :
    Paired first second cursor (numberValue text position) (numberValue text position)
      fun x y next => y = x ∧ cursor = next := by
  unfold numberValue
  split
  · exact .pure hinside ⟨rfl, rfl⟩
  · exact paired_fail _ _ _

/-- The node of a token is of a kind that is alike on both streams. -/
theorem paired_primaryKind :
    Paired first second cursor (primaryKind (first.get cursor)) (primaryKind (second.get cursor))
      fun kind other next => NodeKind.Alike first second (first.get cursor).span.start kind other ∧
        (first.get cursor).kind ≠ .endOfInput ∧ cursor = next := by
  unfold primaryKind
  rw [h.kind_eq]
  split
  case h_1 here =>
    rw [value_eq h (by simp [here]), h.span_eq]
    refine (paired_numberValue hinside _ _).bind ?_
    rintro _ x next hwithin ⟨rfl, rfl⟩
    exact .pure hwithin ⟨.refl _, by simp [here], rfl⟩
  case h_2 here => exact .pure hinside ⟨.literal here rfl, by simp [here], rfl⟩
  case h_7 => exact paired_unexpected h _
  all_goals
    rename_i here
    exact .pure hinside ⟨.refl _, by simp [here], rfl⟩

theorem paired_primary : Paired first second cursor primary primary (Moved cursor) := by
  refine paired_current ?_
  refine (paired_primaryKind h hinside).bind ?_
  rintro kind other _ hwithin ⟨halike, hmore, rfl⟩
  refine paired_readAny h hwithin hmore fun hwithin => ?_
  rw [h.span_eq]
  exact paired_pushAlike h hwithin halike (Nat.lt_succ_self _)

/-- The names that a token gives to a property make properties that are alike. -/
theorem paired_propertyKey :
    Paired first second cursor (propertyKey (first.get cursor)) (propertyKey (second.get cursor))
      fun key other next => (∀ value, NodeKind.Alike first second (first.get cursor).span.start
          (.property key value) (.property other value)) ∧
        ((first.get cursor).kind = .identifier → other = key) ∧ cursor = next := by
  unfold propertyKey
  rw [h.kind_eq]
  split
  case h_1 here =>
    rw [value_eq h (by simp [here])]
    exact .pure hinside ⟨fun _ => .refl _, fun _ => rfl, rfl⟩
  case h_2 here =>
    exact .pure hinside
      ⟨fun value => .property value here rfl, fun hname => by simp [here] at hname, rfl⟩
  case h_3 here =>
    rw [value_eq h (by simp [here]), h.span_eq]
    refine (paired_numberValue hinside _ _).bind ?_
    rintro _ x next hwithin ⟨rfl, rfl⟩
    exact .pure hwithin ⟨fun _ => .refl _, fun hname => by simp [here] at hname, rfl⟩
  case h_4 _ hnotString _ =>
    rw [value_eq h hnotString]
    refine .ite (fun _ => ?_) fun _ => paired_expected h _ _
    exact .pure hinside ⟨fun _ => .refl _, fun _ => rfl, rfl⟩

section Nested

variable (hg : Pairs first second g g' (cursor + 1) (cursor + 1))

include hg

theorem paired_identifier :
    Paired first second cursor (identifier g) (identifier g') (Moved cursor) := by
  refine paired_peekKind h 1 fun token other hsame => ?_
  rw [hsame]
  refine .ite (fun _ => paired_arrow h hinside hg) fun _ => ?_
  exact paired_expect h hinside (by decide) fun token hwithin _ =>
    paired_push h hwithin _ _ (Nat.lt_succ_self cursor)

theorem paired_grouping : Paired first second cursor (grouping g) (grouping g') (Moved cursor) := by
  refine paired_isArrowAhead h fun _ => .ite (fun _ => paired_arrow h hinside hg) fun _ => ?_
  refine paired_expect h hinside (by decide) fun _ hwithin _ => ?_
  refine (hg.expression (Nat.le_refl _) hwithin _).andThen fun inner next hwithin hlt => ?_
  exact paired_expect h hwithin (by decide) fun _ hwithin _ => .pure hwithin ⟨rfl, by omega⟩

theorem paired_array (here : (first.get cursor).kind = .mark .openBracket) :
    Paired first second cursor (array g) (array g') (Moved cursor) := by
  refine paired_read h hinside here (by decide) fun hwithin => ?_
  refine (paired_commaList h hwithin (by decide) fun next hle hwithin =>
    hg.expression hle hwithin _).andThen fun elements next hwithin hlt => ?_
  exact paired_push h hwithin _ _ (by omega)

theorem paired_property : Paired first second cursor (property g) (property g') (Moved cursor) := by
  refine paired_current ?_
  refine (paired_propertyKey h hinside).bind ?_
  rintro key other _ hwithin ⟨halike, hnamed, rfl⟩
  refine (paired_advance h hwithin).bind ?_
  rintro _ _ next hwithin' ⟨-, -, hle, hmoves⟩
  refine paired_isAt h _ fun colon hat => ?_
  extract_lets rest rest'
  have hrests : ∀ value here, here < first.size → cursor < here →
      Paired first second here (rest value) (rest' value) (Moved cursor) := by
    intro value here hwithin hlt
    dsimp only [rest, rest']
    rw [h.span_eq]
    exact paired_pushAlike h hwithin (halike value) hlt
  refine .ite (fun hfound => ?_) fun _ => ?_
  · refine paired_read h hwithin' (hat.mp hfound) (by decide) fun hwithin => ?_
    exact (hg.expression (by omega) hwithin _).andThen fun value last hwithin hlt =>
      hrests value last hwithin (by omega)
  · rw [h.kind_eq]
    refine .ite (fun hname => ?_) fun _ => (paired_expected h _ _).stop
    have hmoved := hmoves (h.succ_lt hwithin (by simp [hname]))
    rw [hnamed hname, h.span_eq]
    exact paired_pushThen h hwithin' _ _ fun id => hrests id _ hwithin' (by omega)

theorem paired_object (here : (first.get cursor).kind = .mark .openCurly) :
    Paired first second cursor (object g) (object g') (Moved cursor) := by
  refine paired_read h hinside here (by decide) fun hwithin => ?_
  refine (paired_commaList h hwithin (by decide) fun next hle hwithin =>
    paired_property h hwithin (hg.mono (by omega) (by omega))).andThen
      fun properties next hwithin hlt => ?_
  exact paired_push h hwithin _ _ (by omega)

theorem paired_construction (here : (first.get cursor).kind = .word .new_) :
    Paired first second cursor (construction g) (construction g') (Moved cursor) := by
  refine paired_read h hinside here (by decide) fun hwithin => ?_
  refine (hg.expression (Nat.le_refl _) hwithin _).andThen fun callee next hwithin hlt => ?_
  refine paired_isAt h _ fun listed hat => ?_
  extract_lets rest
  have hrests : ∀ arguments here, here < first.size → cursor < here →
      Paired first second here (rest arguments) (rest arguments) (Moved cursor) :=
    fun arguments here hwithin hlt => paired_push h hwithin _ _ hlt
  refine .ite (fun hfound => ?_) fun _ => hrests [] _ hwithin (by omega)
  refine paired_read h hwithin (hat.mp hfound) (by decide) fun hwithin => ?_
  exact (paired_commaList h hwithin (by decide) fun next hle hwithin =>
    hg.expression (by omega) hwithin _).andThen fun arguments last hwithin hlt =>
      hrests arguments last hwithin (by omega)

theorem paired_unary (hplain : (first.get cursor).kind.IsPlain) (op : UnaryOp) :
    Paired first second cursor (unary g op) (unary g' op) (Moved cursor) :=
  paired_read h hinside rfl hplain fun hwithin =>
    (hg.expression (Nat.le_refl _) hwithin _).andThen fun argument next hwithin hlt =>
      paired_push h hwithin _ _ (by omega)

omit hinside hg in
theorem paired_unsupported (hplain : (first.get cursor).kind ≠ .string)
    (Q : NodeId → NodeId → Nat → Prop) :
    Paired first second cursor unsupported unsupported Q := by
  refine paired_current ?_
  rw [h.get_eq hplain]
  exact paired_fail _ _ _

theorem paired_operand : Paired first second cursor (operand g) (operand g') (Moved cursor) := by
  refine paired_currentKind h ?_
  split
  iterate 6 exact paired_primary h hinside
  case h_7 => exact paired_identifier h hinside hg
  case h_8 => exact paired_grouping h hinside hg
  case h_9 here => exact paired_array h hinside hg here
  case h_10 here => exact paired_object h hinside hg here
  case h_11 => exact paired_function h hinside hg _
  case h_12 here => exact paired_construction h hinside hg here
  case h_13 here => exact paired_unsupported h (by simp [here]) _
  case h_14 here => exact paired_unsupported h (by simp [here]) _
  case h_15 =>
    split
    case h_1 op hfound =>
      exact paired_unary h hinside hg (TokenKind.isPlain_of_listed hfound rfl rfl) op
    case h_2 => exact paired_unexpected h _

/-! ## Continuations -/

theorem paired_binary (hplain : (first.get cursor).kind.IsPlain) (left : NodeId)
    (op : BinaryOp) (power : Power) :
    Paired first second cursor (binary g left op power) (binary g' left op power) (Moved cursor) :=
  paired_startOf left fun start => paired_read h hinside rfl hplain fun hwithin =>
    (hg.expression (Nat.le_refl _) hwithin _).andThen fun right next hwithin hlt =>
      paired_push h hwithin _ _ (by omega)

theorem paired_logical (hplain : (first.get cursor).kind.IsPlain) (left : NodeId)
    (op : LogicalOp) (power : Power) :
    Paired first second cursor (logical g left op power) (logical g' left op power)
      (Moved cursor) :=
  paired_startOf left fun start => paired_read h hinside rfl hplain fun hwithin =>
    (hg.expression (Nat.le_refl _) hwithin _).andThen fun right next hwithin hlt =>
      paired_push h hwithin _ _ (by omega)

theorem paired_assignment (hplain : (first.get cursor).kind.IsPlain) (left : NodeId)
    (op : AssignOp) :
    Paired first second cursor (assignment g left op) (assignment g' left op) (Moved cursor) := by
  refine paired_nodeAt left fun node other halike => ?_
  have hassigns : ∀ start, Paired first second cursor
      (do let _ ← advance
          let value ← g.expression .comma
          push (.assign op left value) start)
      (do let _ ← advance
          let value ← g'.expression .comma
          push (.assign op left value) start) (Moved cursor) := fun start =>
    paired_read h hinside rfl hplain fun hwithin =>
      (hg.expression (Nat.le_refl _) hwithin _).andThen fun value next hwithin hlt =>
        paired_push h hwithin _ _ (by omega)
  dsimp only
  rw [halike.span_eq]
  obtain ⟨-, hkinds⟩ := halike
  generalize node.kind = kind, other.kind = kind' at hkinds ⊢
  cases hkinds with
  | refl =>
      split
      · exact hassigns _
      · exact hassigns _
      · exact paired_fail _ _ _
  | member owner hpoint hstring => exact hassigns _
  | literal hstring hstarts => exact paired_fail _ _ _
  | property value hstring hstarts => exact paired_fail _ _ _

theorem paired_conditional (test : NodeId) :
    Paired first second cursor (conditional g test) (conditional g' test) (Moved cursor) := by
  refine paired_startOf test fun start => ?_
  refine paired_expect h hinside (by decide) fun _ hwithin _ => ?_
  refine (hg.expression (Nat.le_refl _) hwithin _).andThen fun consequent next hwithin hlt => ?_
  refine paired_expect h hwithin (by decide) fun _ hwithin _ => ?_
  exact (hg.expression (by omega) hwithin _).andThen fun alternate last hwithin hlt' =>
    paired_push h hwithin _ _ (by omega)

/-- The comma that begins a sequence is read, so it reads a token at least. -/
theorem paired_sequence (here : (first.get cursor).kind = .mark .comma) (left : NodeId) :
    Paired first second cursor (sequence g left) (sequence g' left) (Moved cursor) := by
  refine paired_startOf left fun start => ?_
  refine (Paired.loop (I := fun next => next = cursor ∨ cursor < next) (R := (cursor < ·)) h hinside
    (.inl rfl) fun expressions there hwithin hbegun => ?_).bind ?_
  · refine paired_isAt h _ fun comma hat => .ite (fun hfound => ?_) fun haway => ?_
    · refine paired_read h hwithin (hat.mp hfound) (by decide) fun hwithin => ?_
      exact (hg.expression (by omega) hwithin _).andThen fun next last hwithin hlt =>
        .pure hwithin ⟨rfl, by omega, .inr (by omega)⟩
    · refine .pure hwithin ⟨rfl, hbegun.resolve_left ?_⟩
      rintro rfl
      exact haway (hat.mpr here)
  · rintro _ expressions next hwithin ⟨rfl, hlt⟩
    exact paired_push h hwithin _ _ hlt

theorem paired_call (callee : NodeId) :
    Paired first second cursor (call g callee) (call g' callee) (Moved cursor) := by
  refine paired_startOf callee fun start => ?_
  refine paired_expect h hinside (by decide) fun _ hwithin _ => ?_
  exact (paired_commaList h hwithin (by decide) fun next hle hwithin =>
    hg.expression hle hwithin _).andThen fun arguments next hwithin hlt =>
      paired_push h hwithin _ _ (by omega)

omit hg in
/-- A string after a point names a member on both streams or on neither. -/
theorem paired_namedMember (owner : NodeId) :
    Paired first second cursor (namedMember owner) (namedMember owner) (Moved cursor) := by
  refine paired_startOf owner fun start => ?_
  refine paired_expect h hinside (by decide) fun _ hwithin hpoint => ?_
  refine paired_current ?_
  rw [h.kind_eq, h.isReserved_eq cursor hpoint]
  refine .ite (fun _ => ?_) fun _ => paired_expected h _ _
  refine (paired_advance h hwithin).bind ?_
  rintro _ _ next hwithin ⟨-, -, hle, -⟩
  by_cases hstring : (first.get (cursor + 1)).kind = .string
  · exact paired_pushAlike h hwithin (.member owner hpoint hstring) hle
  · rw [value_eq h hstring]
    exact paired_push h hwithin _ _ hle

theorem paired_computedMember (owner : NodeId) :
    Paired first second cursor (computedMember g owner) (computedMember g' owner)
      (Moved cursor) := by
  refine paired_startOf owner fun start => ?_
  refine paired_expect h hinside (by decide) fun _ hwithin _ => ?_
  refine (hg.expression (Nat.le_refl _) hwithin _).andThen fun key next hwithin hlt => ?_
  exact paired_expect h hwithin (by decide) fun _ hwithin _ =>
    paired_push h hwithin _ _ (by omega)

theorem paired_continuation (left : NodeId) :
    Paired first second cursor (continuation g left (first.get cursor).kind)
      (continuation g' left (first.get cursor).kind) (Moved cursor) := by
  unfold continuation
  split
  case h_1 here => exact paired_sequence h hinside hg here left
  case h_2 => exact paired_conditional h hinside hg left
  case h_3 here => exact paired_logical h hinside hg (by rw [here]; decide) left _ _
  case h_4 here => exact paired_logical h hinside hg (by rw [here]; decide) left _ _
  case h_5 here => exact paired_unsupported h (by simp [here]) _
  case h_6 here => exact paired_unsupported h (by simp [here]) _
  case h_7 => exact paired_call h hinside hg left
  case h_8 => exact paired_namedMember h hinside left
  case h_9 => exact paired_computedMember h hinside hg left
  case h_10 =>
    split
    case h_1 op hfound =>
      exact paired_assignment h hinside hg (TokenKind.isPlain_of_listed hfound rfl rfl) left op
    case h_2 op _ hfound =>
      exact paired_binary h hinside hg (TokenKind.isPlain_of_listed hfound rfl rfl) left op _
    case h_3 => exact paired_unexpected h _

theorem paired_expressionAt (power : Power) :
    Paired first second cursor (expressionAt g power) (expressionAt g' power) (Moved cursor) := by
  refine (paired_operand h hinside hg).andThen fun left next hwithin hlt => ?_
  refine .loop (I := (cursor < ·)) (R := (cursor < ·)) h hwithin hlt fun left here hwithin hlt => ?_
  refine paired_currentKind h <| .ite (fun _ => .pure hwithin ⟨rfl, hlt⟩) fun _ => ?_
  have hlater : Pairs first second g g' (here + 1) (here + 1) := hg.mono (by omega) (by omega)
  exact (paired_continuation h hwithin hlater left).andThen fun left next hwithin hmoved =>
    .pure hwithin ⟨rfl, hmoved, Nat.lt_trans hlt hmoved⟩

/-! ## Statements -/

theorem paired_declarator (kind : DeclarationKind) :
    Paired first second cursor (declarator g kind) (declarator g' kind) (Moved cursor) := by
  refine paired_position h <| paired_expectName h hinside _ fun name hwithin => ?_
  refine paired_isAt h _ fun initialised hat => ?_
  extract_lets rest
  have hrests : ∀ init here, here < first.size → cursor < here →
      Paired first second here (rest init) (rest init) (Moved cursor) := by
    intro init here hwithin hlt
    refine .ite (fun _ => ?_) fun _ => paired_push h hwithin _ _ hlt
    exact (paired_expected h _ _).stop
  refine .ite (fun hfound => ?_) fun _ => hrests none _ hwithin (Nat.lt_succ_self cursor)
  refine paired_read h hwithin (hat.mp hfound) (by decide) fun hwithin => ?_
  exact (hg.expression (by omega) hwithin _).andThen fun value next hwithin hlt =>
    hrests (some value) next hwithin (by omega)

theorem paired_declaration {kind : DeclarationKind}
    (here : declarationKind? (first.get cursor).kind = some kind) :
    Paired first second cursor (declaration g kind) (declaration g' kind) (Moved cursor) := by
  refine paired_read h hinside rfl (TokenKind.isPlain_of_listed here rfl rfl) fun hwithin => ?_
  refine (Paired.loop (I := (cursor < ·)) (R := (cursor < ·)) h hwithin (Nat.lt_succ_self cursor)
    fun declarators there hwithin hlt => ?_).bind ?_
  · have hlater : Pairs first second g g' (there + 1) (there + 1) := hg.mono (by omega) (by omega)
    refine (paired_declarator h hwithin hlater kind).andThen fun next last hwithin hlt' => ?_
    refine paired_isAt h _ fun comma hat => .ite (fun hfound => ?_) fun _ =>
      .pure hwithin ⟨rfl, Nat.lt_trans hlt hlt'⟩
    exact paired_read h hwithin (hat.mp hfound) (by decide) fun hwithin =>
      .pure hwithin ⟨rfl, by omega⟩
  · rintro _ declarators next hwithin ⟨rfl, hlt⟩
    exact paired_push h hwithin _ _ hlt

theorem paired_condition : Paired first second cursor (condition g) (condition g')
    (Moved cursor) := by
  refine paired_expect h hinside (by decide) fun _ hwithin _ => ?_
  refine (hg.expression (Nat.le_refl _) hwithin _).andThen fun test next hwithin hlt => ?_
  exact paired_expect h hwithin (by decide) fun _ hwithin _ => .pure hwithin ⟨rfl, by omega⟩

theorem paired_ifStatement (here : (first.get cursor).kind = .word .if_) :
    Paired first second cursor (ifStatement g) (ifStatement g') (Moved cursor) := by
  refine paired_read h hinside here (by decide) fun hwithin => ?_
  refine (paired_condition h hwithin (hg.mono (by omega) (by omega))).andThen
    fun test next hwithin hlt => ?_
  refine (hg.statement (by omega) hwithin).andThen fun consequent last hwithin hlt' => ?_
  refine paired_isAt h _ fun more hat => ?_
  extract_lets rest
  have hrests : ∀ alternate here, here < first.size → cursor < here →
      Paired first second here (rest alternate) (rest alternate) (Moved cursor) :=
    fun alternate here hwithin hlt => paired_push h hwithin _ _ hlt
  refine .ite (fun hfound => ?_) fun _ => hrests none _ hwithin (by omega)
  refine paired_read h hwithin (hat.mp hfound) (by decide) fun hwithin => ?_
  exact (hg.statement (by omega) hwithin).andThen fun alternate _ hwithin hlt'' =>
    hrests (some alternate) _ hwithin (by omega)

theorem paired_returnStatement (here : (first.get cursor).kind = .word .return_) :
    Paired first second cursor (returnStatement g) (returnStatement g') (Moved cursor) := by
  refine paired_read h hinside here (by decide) fun hwithin => ?_
  refine paired_currentKind h ?_
  extract_lets endsHere rest
  have hrests : ∀ argument there, there < first.size → cursor < there →
      Paired first second there (rest argument) (rest argument) (Moved cursor) :=
    fun argument there hwithin hlt => (paired_endStatement h hwithin).andKept
      fun _ next hwithin hle =>
      paired_push h hwithin _ _ (by omega)
  have hbare := hrests none _ hwithin (Nat.lt_succ_self cursor)
  refine paired_onNewLine h fun later => .ite (fun _ => hbare) fun _ => ?_
  refine .ite (fun _ => hbare) fun _ => ?_
  exact (hg.expression (Nat.le_refl _) hwithin _).andThen fun argument next hwithin hlt =>
    hrests (some argument) next hwithin (by omega)

theorem paired_whileStatement (here : (first.get cursor).kind = .word .while_) :
    Paired first second cursor (whileStatement g) (whileStatement g') (Moved cursor) := by
  refine paired_read h hinside here (by decide) fun hwithin => ?_
  refine (paired_condition h hwithin (hg.mono (by omega) (by omega))).andThen
    fun test next hwithin hlt => ?_
  exact (hg.statement (by omega) hwithin).andThen fun body last hwithin hlt' =>
    paired_push h hwithin _ _ (by omega)

end Nested

section Parts

/- The first part of a `for` loop and other optional parts may read nothing, so what is nested in
them may begin where they do. -/
variable (hg : Pairs first second g g' cursor (cursor + 1))

include hg

theorem paired_forInit : Paired first second cursor (forInit g) (forInit g') (Kept cursor) := by
  refine paired_currentKind h <| .ite (fun _ => .pure hinside ⟨rfl, Nat.le_refl cursor⟩) fun _ => ?_
  split
  case h_1 declared here =>
    exact (paired_declaration h hinside (hg.mono (Nat.le_succ cursor) (Nat.le_refl _)) here).andThen
      fun id next hwithin hlt => .pure hwithin ⟨rfl, Nat.le_of_lt hlt⟩
  case h_2 =>
    exact (hg.expression (Nat.le_refl cursor) hinside _).andThen fun id next hwithin hlt =>
      .pure hwithin ⟨rfl, Nat.le_of_lt hlt⟩

theorem paired_optionalExpression (close : TokenKind) :
    Paired first second cursor (optionalExpression g close) (optionalExpression g' close)
      (Kept cursor) := by
  refine paired_isAt h _ fun closed _ => .ite
    (fun _ => .pure hinside ⟨rfl, Nat.le_refl cursor⟩) fun _ => ?_
  exact (hg.expression (Nat.le_refl cursor) hinside _).andThen fun id next hwithin hlt =>
    .pure hwithin ⟨rfl, Nat.le_of_lt hlt⟩

theorem paired_expressionStatement :
    Paired first second cursor (expressionStatement g) (expressionStatement g') (Moved cursor) :=
  paired_position h <| (hg.expression (Nat.le_refl cursor) hinside _).andThen
    fun expr next hwithin hlt => (paired_endStatement h hwithin).andKept fun _ last hwithin hle =>
      paired_push h hwithin _ _ (by omega)

end Parts

section Nested

variable (hg : Pairs first second g g' (cursor + 1) (cursor + 1))

theorem paired_catchParameter :
    Paired first second cursor catchParameter catchParameter (Kept cursor) := by
  refine paired_isAt h _ fun opened hat => .ite (fun hfound => ?_) fun _ =>
    .pure hinside ⟨rfl, Nat.le_refl cursor⟩
  refine paired_read h hinside (hat.mp hfound) (by decide) fun hwithin => ?_
  refine paired_position h <| paired_expect h hwithin (by decide) fun _ hwithin _ => ?_
  refine paired_pushThen h hwithin _ _ fun parameter => ?_
  exact paired_expect h hwithin (by decide) fun _ hwithin _ => .pure hwithin ⟨rfl, by omega⟩

include hg

theorem paired_forStatement (here : (first.get cursor).kind = .word .for_) :
    Paired first second cursor (forStatement g) (forStatement g') (Moved cursor) := by
  refine paired_read h hinside here (by decide) fun hwithin => ?_
  refine paired_expect h hwithin (by decide) fun _ hwithin _ => ?_
  refine (paired_forInit h hwithin (hg.mono (by omega) (by omega))).andKept
    fun init next hwithin hle => ?_
  refine paired_expect h hwithin (by decide) fun _ hwithin _ => ?_
  refine (paired_optionalExpression h hwithin (hg.mono (by omega) (by omega)) _).andKept
    fun test next hwithin hle' => ?_
  refine paired_expect h hwithin (by decide) fun _ hwithin _ => ?_
  refine (paired_optionalExpression h hwithin (hg.mono (by omega) (by omega)) _).andKept
    fun update next hwithin hle'' => ?_
  refine paired_expect h hwithin (by decide) fun _ hwithin _ => ?_
  exact (hg.statement (by omega) hwithin).andThen fun body last hwithin hlt =>
    paired_push h hwithin _ _ (by omega)

theorem paired_catchClause :
    Paired first second cursor (catchClause g) (catchClause g') (Kept cursor) := by
  refine paired_isAt h _ fun caught hat => .ite (fun hfound => ?_) fun _ =>
    .pure hinside ⟨rfl, Nat.le_refl cursor⟩
  refine paired_read h hinside (hat.mp hfound) (by decide) fun hwithin => ?_
  refine (paired_catchParameter h hwithin).andKept fun parameter next hwithin hle => ?_
  refine (paired_block h hwithin (hg.mono (by omega) (by omega))).andThen
    fun body last hwithin hlt => ?_
  exact paired_pushThen h hwithin _ _ fun id => .pure hwithin ⟨rfl, by omega⟩

theorem paired_tryStatement (here : (first.get cursor).kind = .word .try_) :
    Paired first second cursor (tryStatement g) (tryStatement g') (Moved cursor) := by
  refine paired_read h hinside here (by decide) fun hwithin => ?_
  refine (paired_block h hwithin (hg.mono (by omega) (by omega))).andThen
    fun body next hwithin hlt => ?_
  refine (paired_catchClause h hwithin (hg.mono (by omega) (by omega))).andKept
    fun handler next hwithin hle => ?_
  refine paired_isAt h _ fun final hat => ?_
  extract_lets rest
  have hrests : ∀ finalizer there, there < first.size → cursor < there →
      Paired first second there (rest finalizer) (rest finalizer) (Moved cursor) := by
    intro finalizer there hwithin hlt
    refine .ite (fun _ => ?_) fun _ => paired_push h hwithin _ _ hlt
    exact (paired_expected h _ _).stop
  refine .ite (fun hfound => ?_) fun _ => hrests none _ hwithin (by omega)
  refine paired_read h hwithin (hat.mp hfound) (by decide) fun hwithin => ?_
  exact (paired_block h hwithin (hg.mono (by omega) (by omega))).andThen
    fun finalizer last hwithin hlt' => hrests (some finalizer) last hwithin (by omega)

theorem paired_throwStatement (here : (first.get cursor).kind = .word .throw_) :
    Paired first second cursor (throwStatement g) (throwStatement g') (Moved cursor) := by
  refine paired_read h hinside here (by decide) fun hwithin => ?_
  refine (hg.expression (Nat.le_refl _) hwithin _).andThen fun argument next hwithin hlt => ?_
  exact (paired_endStatement h hwithin).andKept fun _ last hwithin hle =>
    paired_push h hwithin _ _ (by omega)

omit hg

theorem paired_jump (kind : NodeKind) (hplain : (first.get cursor).kind.IsPlain) :
    Paired first second cursor (jump kind) (jump kind) (Moved cursor) :=
  paired_read h hinside rfl hplain fun hwithin =>
    (paired_endStatement h hwithin).andKept fun _ next hwithin hle =>
      paired_push h hwithin _ _ (by omega)

theorem paired_emptyStatement (here : (first.get cursor).kind = .mark .semicolon) :
    Paired first second cursor emptyStatement emptyStatement (Moved cursor) :=
  paired_read h hinside here (by decide) fun hwithin =>
    paired_push h hwithin _ _ (Nat.lt_succ_self cursor)

end Nested

theorem paired_statementAt (hg : Pairs first second g g' cursor (cursor + 1)) :
    Paired first second cursor (statementAt g) (statementAt g') (Moved cursor) := by
  have hlater := hg.mono (Nat.le_succ cursor) (Nat.le_refl _)
  refine paired_currentKind h ?_
  split
  case h_1 => exact paired_function h hinside hlater _
  case h_2 here => exact paired_ifStatement h hinside hlater here
  case h_3 => exact paired_block h hinside hlater
  case h_4 here => exact paired_returnStatement h hinside hlater here
  case h_5 here => exact paired_whileStatement h hinside hlater here
  case h_6 here => exact paired_forStatement h hinside hlater here
  case h_7 here => exact paired_tryStatement h hinside hlater here
  case h_8 here => exact paired_throwStatement h hinside hlater here
  case h_9 here => exact paired_jump h hinside _ (by rw [here]; decide)
  case h_10 here => exact paired_jump h hinside _ (by rw [here]; decide)
  case h_11 here => exact paired_emptyStatement h hinside here
  case h_12 =>
    split
    case h_1 declared here =>
      exact (paired_declaration h hinside hlater here).andThen fun id next hwithin hlt =>
        (paired_endStatement h hwithin).andKept fun _ last hwithin hle =>
          .pure hwithin ⟨rfl, by omega⟩
    case h_2 => exact paired_expressionStatement h hinside hg

/-! ## The grammar as a whole -/

omit hinside in
/-- Grammars deep enough for what is left of the streams do the same on both: a statement nests no
deeper than there are tokens, twice over, and an expression one level less. -/
theorem pairs_upTo {depth depth' expressions statements : Nat}
    (henough : 2 * (first.size - expressions) ≤ depth + 1 ∧ 2 * (first.size - statements) ≤ depth)
    (henough' : 2 * (first.size - expressions) ≤ depth' + 1 ∧
      2 * (first.size - statements) ≤ depth') :
    Pairs first second (upTo depth) (upTo depth') expressions statements := by
  induction depth generalizing depth' expressions statements with
  | zero => exact ⟨fun _ _ => by omega, fun _ _ => by omega⟩
  | succ depth ih =>
      cases depth' with
      | zero => exact ⟨fun _ _ => by omega, fun _ _ => by omega⟩
      | succ depth' =>
          refine ⟨fun {cursor} hle hinside power => ?_, fun {cursor} hle hinside => ?_⟩
          · exact paired_expressionAt h hinside (ih (by omega) (by omega)) power
          · exact paired_statementAt h hinside (ih (by omega) (by omega))

omit hinside in
/-- A program is read up to a token that ends the input. -/
theorem paired_program (hg : Pairs first second g g' 0 0) :
    Paired first second 0 (program g) (program g') fun root other next =>
      other = root ∧ (first.get next).kind = .endOfInput := by
  refine paired_position h ?_
  refine (Paired.loop (I := fun _ => True) (R := fun next => (first.get next).kind = .endOfInput) h
    first.size_pos trivial fun body here hwithin _ => ?_).bind ?_
  · refine paired_isAt h _ fun done hat => .ite (fun hfound => .pure hwithin ⟨rfl, hat.mp hfound⟩)
      fun _ => ?_
    exact (hg.statement (Nat.zero_le here) hwithin).andThen fun id next hwithin hmoved =>
      .pure hwithin ⟨rfl, hmoved, trivial⟩
  · rintro _ body next hwithin ⟨rfl, hended⟩
    refine (paired_pushHere h hwithin (.refl _)).mono ?_
    rintro _ root _ ⟨rfl, rfl⟩
    exact ⟨rfl, hended⟩

end Grammar

end ScriptCheck
