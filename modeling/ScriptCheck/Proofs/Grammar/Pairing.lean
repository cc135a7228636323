import ScriptCheck.Grammar.Program

/-!
# Two runs side by side

Two token streams may differ in the texts of their strings and in nothing else.  Run on them,
a parser does the same step by step: it either gives the same result at the same place or ends
in the same fault, and the texts are all that may differ in what it leaves.  On one stream this
says that a parser gives a result or ends in a fault, and that it does not run out of depth.
-/

namespace ScriptCheck

/-! ## What is alike -/

/-- Two tokens differ in the text of a string at most. -/
structure Token.Alike (token other : Token) : Prop where
  kind_eq : other.kind = token.kind
  span_eq : other.span = token.span
  value_eq : token.kind ≠ .string → other.value = token.value

/-- Two streams differ in the texts of strings at most, and such a text is a reserved word in
both or in neither where it stands after a point.  The last token ends the input. -/
structure TokenStream.Alike (first second : TokenStream) : Prop where
  size_eq : second.size = first.size
  token : ∀ index, (first.get index).Alike (second.get index)
  isReserved_eq : ∀ index, (first.get index).kind = .mark .dot →
    Grammar.isReserved (second.get (index + 1)).value =
      Grammar.isReserved (first.get (index + 1)).value
  kind_last : (first.get (first.size - 1)).kind = .endOfInput

section

variable (first second : TokenStream)

/-- Two causes of a fault are one, or they show the texts of one string. -/
inductive Fault.Cause.Alike : Fault.Cause → Fault.Cause → Prop
  | refl (cause : Fault.Cause) : Alike cause cause
  | unexpectedToken {index : Nat} (string : (first.get index).kind = .string) :
      Alike (.unexpectedToken (first.get index).value) (.unexpectedToken (second.get index).value)
  | unexpectedTokenDetailed {index : Nat} (message : String)
      (string : (first.get index).kind = .string) :
      Alike (.unexpectedTokenDetailed (first.get index).value message)
        (.unexpectedTokenDetailed (second.get index).value message)

/-- Two faults arise at one place from causes that are alike. -/
structure Fault.Alike (fault other : Fault) : Prop where
  position_eq : other.position = fault.position
  cause : Fault.Cause.Alike first second fault.cause other.cause

/-- Two kinds of nodes that begin at one place are one, or both are the literal of one string,
properties with one string as their key, or members named by one string. -/
inductive NodeKind.Alike (start : Position) : NodeKind → NodeKind → Prop
  | refl (kind : NodeKind) : Alike start kind kind
  | literal {index : Nat} (string : (first.get index).kind = .string)
      (starts : (first.get index).span.start = start) :
      Alike start (.literal (.string (first.get index).value))
        (.literal (.string (second.get index).value))
  | property {index : Nat} (value : NodeId) (string : (first.get index).kind = .string)
      (starts : (first.get index).span.start = start) :
      Alike start (.property (first.get index).value value)
        (.property (second.get index).value value)
  | member {index : Nat} (owner : NodeId) (point : (first.get index).kind = .mark .dot)
      (string : (first.get (index + 1)).kind = .string) :
      Alike start (.member owner (.named (first.get (index + 1)).value))
        (.member owner (.named (second.get (index + 1)).value))

/-- Two nodes were read from one stretch of text and are of kinds that are alike. -/
structure Node.Alike (node other : Node) : Prop where
  span_eq : other.span = node.span
  kind : NodeKind.Alike first second node.span.start node.kind other.kind

structure ArenasAlike (nodes others : Array Node) : Prop where
  size_eq : others.size = nodes.size
  node : ∀ id, Node.Alike first second (nodes.getD id default) (others.getD id default)

namespace Parse

variable {α β σ : Type}

/-- What two runs leave: results that are related, at one cursor within the stream and with
arenas that are alike, or faults that are alike. -/
inductive Outcome (Q : α → α → Nat → Prop) :
    Except Halt (α × ParseState) → Except Halt (α × ParseState) → Prop
  | ok {result other : α} {cursor : Nat} {nodes others : Array Node} (inside : cursor < first.size)
      (alike : ArenasAlike first second nodes others) (related : Q result other cursor) :
      Outcome Q (.ok (result, ⟨cursor, nodes⟩)) (.ok (other, ⟨cursor, others⟩))
  | fault {fault other : Fault} (alike : Fault.Alike first second fault other) :
      Outcome Q (.error (.fault fault)) (.error (.fault other))

/-- From one cursor on, two parsers run on two streams leave the same up to the texts of
strings. -/
def Paired (cursor : Nat) (parser other : Parse α) (Q : α → α → Nat → Prop) : Prop :=
  ∀ nodes others, ArenasAlike first second nodes others →
    Outcome first second Q (parser first ⟨cursor, nodes⟩) (other second ⟨cursor, others⟩)

end Parse

end

/-! ## What is alike in alike streams -/

/-- The kind of tokens that are alike only if they are the same, and that do not end the input. -/
def TokenKind.IsPlain (kind : TokenKind) : Prop :=
  kind ≠ .string ∧ kind ≠ .endOfInput

instance (kind : TokenKind) : Decidable kind.IsPlain := inferInstanceAs (Decidable (_ ∧ _))

theorem TokenKind.isPlain_of_listed {α : Type} {table : TokenKind → Option α} {kind : TokenKind}
    {entry : α} (hlisted : table kind = some entry) (hstring : table .string = none)
    (hended : table .endOfInput = none) : kind.IsPlain := by
  constructor
  · rintro rfl
    cases hstring.symm.trans hlisted
  · rintro rfl
    cases hended.symm.trans hlisted

theorem Token.Alike.eq_of_plain {token other : Token} (h : token.Alike other)
    (hplain : token.kind ≠ .string) : other = token := by
  obtain ⟨hkind, hspan, hvalue⟩ := h
  cases token
  cases other
  simp_all

namespace TokenStream.Alike

variable {first second : TokenStream} (h : first.Alike second)

include h

theorem kind_eq (index : Nat) : (second.get index).kind = (first.get index).kind :=
  (h.token index).kind_eq

theorem span_eq (index : Nat) : (second.get index).span = (first.get index).span :=
  (h.token index).span_eq

theorem get_eq {index : Nat} (hplain : (first.get index).kind ≠ .string) :
    second.get index = first.get index :=
  (h.token index).eq_of_plain hplain

/-- A token that does not end the input is not the last. -/
theorem succ_lt {index : Nat} (hlt : index < first.size)
    (hmore : (first.get index).kind ≠ .endOfInput) : index + 1 < first.size := by
  refine Nat.lt_of_le_of_ne hlt fun hlast => hmore ?_
  rw [← h.kind_last, ← hlast]
  rfl

end TokenStream.Alike

theorem ArenasAlike.refl {first second : TokenStream} (nodes : Array Node) :
    ArenasAlike first second nodes nodes :=
  ⟨rfl, fun _ => ⟨rfl, .refl _⟩⟩

theorem ArenasAlike.push {first second : TokenStream} {nodes others : Array Node}
    (h : ArenasAlike first second nodes others) {node other : Node}
    (halike : Node.Alike first second node other) :
    ArenasAlike first second (nodes.push node) (others.push other) where
  size_eq := by simp [h.size_eq]
  node id := by
    have hown := h.node id
    simp only [Array.getD_eq_getD_getElem?, Array.getElem?_push, h.size_eq] at hown ⊢
    split
    · exact halike
    · exact hown

namespace Parse

variable {first second : TokenStream} {α β σ : Type} {cursor : Nat}

/-- The results are one, and the cursor is no earlier. -/
def Kept (cursor : Nat) (result other : α) (next : Nat) : Prop :=
  other = result ∧ cursor ≤ next

/-- The results are one, and a token was read. -/
def Moved (cursor : Nat) (result other : α) (next : Nat) : Prop :=
  other = result ∧ cursor < next

/-! ## Combining parsers -/

namespace Paired

variable {parser other : Parse α} {Q Q' : α → α → Nat → Prop} {R : β → β → Nat → Prop}

theorem pure {a b : α} (hinside : cursor < first.size) (hrelated : Q a b cursor) :
    Paired first second cursor (Pure.pure a) (Pure.pure b) Q :=
  fun _ _ halike => .ok hinside halike hrelated

theorem bind {f g : α → Parse β} (h : Paired first second cursor parser other Q)
    (hrest : ∀ a b next, next < first.size → Q a b next → Paired first second next (f a) (g b) R) :
    Paired first second cursor (parser >>= f) (other >>= g) R := by
  intro nodes others halike
  have hruns := h nodes others halike
  change Outcome first second R (Except.bind (parser first ⟨cursor, nodes⟩) _)
    (Except.bind (other second ⟨cursor, others⟩) _)
  generalize parser first ⟨cursor, nodes⟩ = run, other second ⟨cursor, others⟩ = run' at hruns ⊢
  cases hruns with
  | ok hinside halike hrelated => exact hrest _ _ _ hinside hrelated _ _ halike
  | fault halike => exact .fault halike

/-- Nothing comes after a parser that ends in a fault. -/
theorem stop {f g : α → Parse β} (h : Paired first second cursor parser other fun _ _ _ => False) :
    Paired first second cursor (parser >>= f) (other >>= g) R :=
  h.bind fun _ _ _ _ => False.elim

/-- What comes after a parser that reads a token. -/
theorem andThen {f g : α → Parse β} (h : Paired first second cursor parser other (Moved cursor))
    (hrest : ∀ a next, next < first.size → cursor < next → Paired first second next (f a) (g a) R) :
    Paired first second cursor (parser >>= f) (other >>= g) R :=
  h.bind fun a _ next hwithin hmoved => hmoved.1 ▸ hrest a next hwithin hmoved.2

/-- What comes after a parser that need not read a token. -/
theorem andKept {f g : α → Parse β} (h : Paired first second cursor parser other (Kept cursor))
    (hrest : ∀ a next, next < first.size → cursor ≤ next → Paired first second next (f a) (g a) R) :
    Paired first second cursor (parser >>= f) (other >>= g) R :=
  h.bind fun a _ next hwithin hkept => hkept.1 ▸ hrest a next hwithin hkept.2

theorem mono (h : Paired first second cursor parser other Q)
    (hweaker : ∀ a b next, Q a b next → Q' a b next) :
    Paired first second cursor parser other Q' := by
  intro nodes others halike
  have hruns := h nodes others halike
  generalize parser first ⟨cursor, nodes⟩ = run, other second ⟨cursor, others⟩ = run' at hruns ⊢
  cases hruns with
  | ok hinside halike hrelated => exact .ok hinside halike (hweaker _ _ _ hrelated)
  | fault halike => exact .fault halike

theorem ite {c : Prop} [Decidable c] {parser' other' : Parse α}
    (hyes : c → Paired first second cursor parser other Q)
    (hno : ¬ c → Paired first second cursor parser' other' Q) :
    Paired first second cursor (if c then parser else parser') (if c then other else other') Q := by
  split
  · exact hyes ‹_›
  · exact hno ‹_›

/-- What a round of a loop leaves: it went on and read a token, or it gave a result. -/
def Round (I R : Nat → Prop) (cursor : Nat) (outcome other : σ ⊕ β) (next : Nat) : Prop :=
  other = outcome ∧ match outcome with
    | .inl _ => cursor < next ∧ I next
    | .inr _ => R next

/-- Rounds that read a token each come to an end: there are fewer than tokens. -/
theorem iterate {step step' : σ → Parse (σ ⊕ β)} {I R : Nat → Prop}
    (heach : ∀ s here, here < first.size → I here →
      Paired first second here (step s) (step' s) (Round I R here))
    {rounds : Nat} (henough : first.size < rounds + cursor) (hinside : cursor < first.size) (s : σ)
    (hstart : I cursor) :
    Paired first second cursor (Parse.iterate step rounds s) (Parse.iterate step' rounds s)
      fun result other next => other = result ∧ R next := by
  induction rounds generalizing cursor s with
  | zero => omega
  | succ rounds ih =>
      refine (heach s cursor hinside hstart).bind ?_
      rintro _ outcome next hwithin ⟨rfl, hround⟩
      cases outcome with
      | inl state => exact ih (by omega) hwithin state hround.2
      | inr result => exact .pure hwithin ⟨rfl, hround⟩

theorem loop (h : first.Alike second) {step step' : σ → Parse (σ ⊕ β)} {I R : Nat → Prop} {s : σ}
    (hinside : cursor < first.size) (hstart : I cursor)
    (heach : ∀ s here, here < first.size → I here →
      Paired first second here (step s) (step' s) (Round I R here)) :
    Paired first second cursor (Parse.loop step s) (Parse.loop step' s)
      fun result other next => other = result ∧ R next := by
  intro nodes others halike
  have hruns := iterate heach (by omega : first.size < (first.size + 1) + cursor) hinside s hstart
    nodes others halike
  change Outcome first second _ (Parse.iterate step (first.size + 1) s first ⟨cursor, nodes⟩)
    (Parse.iterate step' (second.size + 1) s second ⟨cursor, others⟩)
  rwa [h.size_eq]

end Paired

/-! ## Looking at tokens and nodes -/

section Look

variable {Q : β → β → Nat → Prop}

theorem paired_current {f g : Token → Parse β}
    (hrest : Paired first second cursor (f (first.get cursor)) (g (second.get cursor)) Q) :
    Paired first second cursor (current >>= f) (current >>= g) Q := hrest

theorem paired_currentKind (h : first.Alike second) {f g : TokenKind → Parse β}
    (hrest : Paired first second cursor (f (first.get cursor).kind) (g (first.get cursor).kind) Q) :
    Paired first second cursor (currentKind >>= f) (currentKind >>= g) Q := by
  intro nodes others halike
  change Outcome first second Q (f (first.get cursor).kind first _)
    (g (second.get cursor).kind second _)
  rw [h.kind_eq]
  exact hrest nodes others halike

theorem paired_position (h : first.Alike second) {f g : Position → Parse β}
    (hrest : Paired first second cursor (f (first.get cursor).span.start)
      (g (first.get cursor).span.start) Q) :
    Paired first second cursor (position >>= f) (position >>= g) Q := by
  intro nodes others halike
  change Outcome first second Q (f (first.get cursor).span.start first _)
    (g (second.get cursor).span.start second _)
  rw [h.span_eq]
  exact hrest nodes others halike

theorem paired_isAt (h : first.Alike second) (kind : TokenKind) {f g : Bool → Parse β}
    (hrest : ∀ here : Bool, (here = true ↔ (first.get cursor).kind = kind) →
      Paired first second cursor (f here) (g here) Q) :
    Paired first second cursor (isAt kind >>= f) (isAt kind >>= g) Q := by
  intro nodes others halike
  change Outcome first second Q (f (decide ((first.get cursor).kind = kind)) first _)
    (g (decide ((second.get cursor).kind = kind)) second _)
  rw [h.kind_eq]
  exact hrest _ decide_eq_true_iff nodes others halike

theorem paired_peekKind (h : first.Alike second) (offset : Nat) {f g : Token → Parse β}
    (hrest : ∀ token other : Token, other.kind = token.kind →
      Paired first second cursor (f token) (g other) Q) :
    Paired first second cursor (peek offset >>= f) (peek offset >>= g) Q :=
  hrest _ _ (h.kind_eq (cursor + offset))

theorem kinds_eq (h : first.Alike second) :
    second.tokens.toList.map Token.kind = first.tokens.toList.map Token.kind := by
  refine List.ext_getElem (by simpa [TokenStream.size] using h.size_eq) fun index hlt hlt' => ?_
  have halike := h.kind_eq index
  rw [TokenStream.get_of_lt (by simpa using hlt),
    TokenStream.get_of_lt (by simpa using hlt')] at halike
  simpa using halike

theorem paired_isArrowAhead (h : first.Alike second) {f g : Bool → Parse β}
    (hrest : ∀ ahead, Paired first second cursor (f ahead) (g ahead) Q) :
    Paired first second cursor (isArrowAhead >>= f) (isArrowAhead >>= g) Q := by
  intro nodes others halike
  change Outcome first second Q
    (f (arrowFollows 0 ((first.tokens.toList.drop cursor).map Token.kind)) first _)
    (g (arrowFollows 0 ((second.tokens.toList.drop cursor).map Token.kind)) second _)
  rw [List.map_drop, List.map_drop, kinds_eq h]
  exact hrest _ nodes others halike

theorem paired_previousEnd (h : first.Alike second) {f g : Position → Parse β}
    (hrest : ∀ stop, Paired first second cursor (f stop) (g stop) Q) :
    Paired first second cursor (previousEnd >>= f) (previousEnd >>= g) Q := by
  intro nodes others halike
  cases cursor with
  | zero =>
      change Outcome first second Q (f (first.get 0).span.start first _)
        (g (second.get 0).span.start second _)
      rw [h.span_eq]
      exact hrest _ nodes others halike
  | succ before =>
      change Outcome first second Q (f (first.get before).span.stop first _)
        (g (second.get before).span.stop second _)
      rw [h.span_eq]
      exact hrest _ nodes others halike

theorem paired_onNewLine (h : first.Alike second) {f g : Bool → Parse β}
    (hrest : ∀ later, Paired first second cursor (f later) (g later) Q) :
    Paired first second cursor (onNewLine >>= f) (onNewLine >>= g) Q := by
  intro nodes others halike
  cases cursor with
  | zero => exact hrest false nodes others halike
  | succ before =>
      change Outcome first second Q
        (f (decide ((first.get before).span.stop.line <
          (first.get (before + 1)).span.start.line)) first _)
        (g (decide ((second.get before).span.stop.line <
          (second.get (before + 1)).span.start.line)) second _)
      rw [h.span_eq, h.span_eq]
      exact hrest _ nodes others halike

theorem paired_nodeAt (id : NodeId) {f g : Node → Parse β}
    (hrest : ∀ node other, Node.Alike first second node other →
      Paired first second cursor (f node) (g other) Q) :
    Paired first second cursor (nodeAt id >>= f) (nodeAt id >>= g) Q :=
  fun nodes others halike => hrest _ _ (halike.node id) nodes others halike

theorem paired_startOf (id : NodeId) {f g : Position → Parse β}
    (hrest : ∀ start, Paired first second cursor (f start) (g start) Q) :
    Paired first second cursor (startOf id >>= f) (startOf id >>= g) Q := by
  intro nodes others halike
  change Outcome first second Q (f (nodes.getD id default).span.start first _)
    (g (others.getD id default).span.start second _)
  rw [(halike.node id).span_eq]
  exact hrest _ nodes others halike

end Look

/-! ## Faults -/

theorem paired_fail (cause : Fault.Cause) (position : Position) (Q : α → α → Nat → Prop) :
    Paired first second cursor (fail cause position) (fail cause position) Q :=
  fun _ _ _ => .fault ⟨rfl, .refl cause⟩

theorem paired_unexpected (h : first.Alike second) (Q : α → α → Nat → Prop) :
    Paired first second cursor unexpected unexpected Q := by
  intro nodes others halike
  refine .fault ⟨congrArg Span.start (h.span_eq cursor), ?_⟩
  by_cases hstring : (first.get cursor).kind = .string
  · exact .unexpectedToken hstring
  · change Fault.Cause.Alike first second _ (.unexpectedToken (second.get cursor).value)
    rw [h.get_eq hstring]
    exact .refl _

theorem paired_expected (h : first.Alike second) (message : String) (Q : α → α → Nat → Prop) :
    Paired first second cursor (expected message) (expected message) Q := by
  intro nodes others halike
  refine .fault ⟨congrArg Span.start (h.span_eq cursor), ?_⟩
  by_cases hstring : (first.get cursor).kind = .string
  · exact .unexpectedTokenDetailed message hstring
  · change Fault.Cause.Alike first second _
      (.unexpectedTokenDetailed (second.get cursor).value message)
    rw [h.get_eq hstring]
    exact .refl _

/-! ## Reading tokens -/

/-- At the last token the cursor stays, at any other it moves on. -/
theorem paired_advance (h : first.Alike second) (hinside : cursor < first.size) :
    Paired first second cursor advance advance fun token other next =>
      token = first.get cursor ∧ other = second.get cursor ∧ cursor ≤ next ∧
        (cursor + 1 < first.size → next = cursor + 1) := by
  intro nodes others halike
  change Outcome first second _
    (.ok (first.get cursor, if cursor < first.size - 1 then ⟨cursor + 1, nodes⟩
      else ⟨cursor, nodes⟩))
    (.ok (second.get cursor, if cursor < second.size - 1 then ⟨cursor + 1, others⟩
      else ⟨cursor, others⟩))
  rw [h.size_eq]
  split
  case isTrue hmore =>
    exact .ok (by omega) halike ⟨rfl, rfl, Nat.le_succ cursor, fun _ => rfl⟩
  case isFalse hlast =>
    exact .ok hinside halike ⟨rfl, rfl, Nat.le_refl cursor, fun hmore => by omega⟩

theorem paired_readAny (h : first.Alike second) (hinside : cursor < first.size)
    (hmore : (first.get cursor).kind ≠ .endOfInput) {f g : Token → Parse β} {Q : β → β → Nat → Prop}
    (hrest : cursor + 1 < first.size → Paired first second (cursor + 1) (f (first.get cursor))
      (g (second.get cursor)) Q) :
    Paired first second cursor (advance >>= f) (advance >>= g) Q := by
  refine (paired_advance h hinside).bind ?_
  rintro _ _ next hwithin ⟨rfl, rfl, -, hmoves⟩
  have hmore := h.succ_lt hinside hmore
  obtain rfl := hmoves hmore
  exact hrest hmore

theorem paired_read (h : first.Alike second) (hinside : cursor < first.size)
    {kind : TokenKind} (here : (first.get cursor).kind = kind) (hplain : kind.IsPlain)
    {f g : Token → Parse β} {Q : β → β → Nat → Prop}
    (hrest : cursor + 1 < first.size → Paired first second (cursor + 1) (f (first.get cursor))
      (g (first.get cursor)) Q) :
    Paired first second cursor (advance >>= f) (advance >>= g) Q :=
  paired_readAny h hinside (here ▸ hplain.2) fun hwithin =>
    (h.get_eq (here ▸ hplain.1)).symm ▸ hrest hwithin

theorem paired_expect (h : first.Alike second) (hinside : cursor < first.size) {kind : TokenKind}
    (hplain : kind.IsPlain) {f g : Token → Parse β} {Q : β → β → Nat → Prop}
    (hrest : ∀ token, cursor + 1 < first.size → (first.get cursor).kind = kind →
      Paired first second (cursor + 1) (f token) (g token) Q) :
    Paired first second cursor (expect kind >>= f) (expect kind >>= g) Q := by
  have hreads : Paired first second cursor (expect kind) (expect kind) fun token other next =>
      (first.get cursor).kind = kind ∧ other = token ∧ next = cursor + 1 := by
    refine paired_isAt h kind fun here hat => .ite (fun hfound => ?_) fun _ => paired_unexpected h _
    have hfound := hat.mp hfound
    refine (paired_advance h hinside).mono ?_
    rintro _ _ next ⟨rfl, rfl, -, hmoves⟩
    exact ⟨hfound, h.get_eq (hfound ▸ hplain.1), hmoves (h.succ_lt hinside (hfound ▸ hplain.2))⟩
  refine hreads.bind ?_
  rintro _ token next hwithin ⟨hfound, rfl, rfl⟩
  exact hrest token hwithin hfound

theorem paired_expectName (h : first.Alike second) (hinside : cursor < first.size)
    (message : String) {f g : String → Parse β} {Q : β → β → Nat → Prop}
    (hrest : ∀ name, cursor + 1 < first.size →
      Paired first second (cursor + 1) (f name) (g name) Q) :
    Paired first second cursor (expectName message >>= f) (expectName message >>= g) Q := by
  have hreads : Paired first second cursor (expectName message) (expectName message)
      fun name other next => other = name ∧ next = cursor + 1 := by
    refine paired_isAt h .identifier fun here hat => .ite (fun hfound => ?_) fun _ =>
      paired_expected h message _
    exact paired_read h hinside (hat.mp hfound) (by decide) fun hwithin => .pure hwithin ⟨rfl, rfl⟩
  refine hreads.bind ?_
  rintro _ name next hwithin ⟨rfl, rfl⟩
  exact hrest name hwithin

theorem paired_endStatement (h : first.Alike second) (hinside : cursor < first.size) :
    Paired first second cursor endStatement endStatement (Kept cursor) := by
  refine paired_currentKind h ?_
  split
  case h_1 here =>
    exact paired_read h hinside here (by decide) fun hwithin =>
      .pure hwithin ⟨rfl, Nat.le_succ cursor⟩
  case h_2 => exact .pure hinside ⟨rfl, Nat.le_refl cursor⟩
  case h_3 => exact .pure hinside ⟨rfl, Nat.le_refl cursor⟩
  case h_4 =>
    refine paired_onNewLine h fun later => .ite (fun _ => ?_) fun _ => paired_unexpected h _
    exact .pure hinside ⟨rfl, Nat.le_refl cursor⟩

/-! ## Nodes -/

theorem paired_pushHere (h : first.Alike second) (hinside : cursor < first.size) {start : Position}
    {kind other : NodeKind} (halike : NodeKind.Alike first second start kind other) :
    Paired first second cursor (push kind start) (push other start)
      fun id other next => other = id ∧ next = cursor := by
  refine paired_previousEnd h fun stop => ?_
  intro nodes others harenas
  exact .ok hinside (harenas.push ⟨rfl, halike⟩) ⟨harenas.size_eq, rfl⟩

theorem paired_pushAlike (h : first.Alike second) (hinside : cursor < first.size) {start : Position}
    {kind other : NodeKind} (halike : NodeKind.Alike first second start kind other) {before : Nat}
    (hlt : before < cursor) :
    Paired first second cursor (push kind start) (push other start) (Moved before) := by
  refine (paired_pushHere h hinside halike).mono ?_
  rintro _ id next ⟨rfl, rfl⟩
  exact ⟨rfl, hlt⟩

theorem paired_push (h : first.Alike second) (hinside : cursor < first.size) (kind : NodeKind)
    (start : Position) {before : Nat} (hlt : before < cursor) :
    Paired first second cursor (push kind start) (push kind start) (Moved before) :=
  paired_pushAlike h hinside (.refl kind) hlt

theorem paired_pushThen (h : first.Alike second) (hinside : cursor < first.size) (kind : NodeKind)
    (start : Position) {f g : NodeId → Parse β} {Q : β → β → Nat → Prop}
    (hrest : ∀ id, Paired first second cursor (f id) (g id) Q) :
    Paired first second cursor (push kind start >>= f) (push kind start >>= g) Q := by
  refine (paired_pushHere h hinside (.refl kind)).bind ?_
  rintro _ id next hwithin ⟨rfl, rfl⟩
  exact hrest id

end Parse

end ScriptCheck
