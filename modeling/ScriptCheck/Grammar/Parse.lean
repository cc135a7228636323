import ScriptCheck.Fault
import ScriptCheck.Grammar.Power
import ScriptCheck.Tree.Basic

/-!
# Parsers

A parser reads a fixed stream of tokens at a cursor and appends nodes to an
arena.  The cursor never leaves the stream: at its last token it stays.  Loops
are bounded by the number of tokens, since every round of a loop reads at least
one.
-/

namespace ScriptCheck

/-- Tokens that are there to be read; there is always at least one. -/
structure TokenStream where
  tokens : Array Token
  nonempty : 0 < tokens.size

namespace TokenStream

/-- The stream of some tokens, closed by an end mark where they have none. -/
def ofTokens (tokens : List Token) : TokenStream :=
  match h : tokens.getLast? with
  | none => ⟨#[.endOfInput .nowhere], by simp⟩
  | some last =>
      if last.kind = .endOfInput then
        ⟨tokens.toArray, by cases tokens <;> simp_all⟩
      else ⟨tokens.toArray.push (.endOfInput last.span.stop), by simp⟩

def size (stream : TokenStream) : Nat := stream.tokens.size

theorem size_pos (stream : TokenStream) : 0 < stream.size := stream.nonempty

def get (stream : TokenStream) (index : Nat) : Token :=
  have := stream.nonempty
  stream.tokens[min index (stream.tokens.size - 1)]

/-- Within the stream, the token at an index is that of the list it came from. -/
theorem get_of_lt {stream : TokenStream} {index : Nat} (h : index < stream.tokens.size) :
    stream.get index = stream.tokens[index] := by
  have hmin : min index (stream.tokens.size - 1) = index := by omega
  simp [get, hmin]

end TokenStream

/-- What a parser changes: its place in the stream and the arena. -/
structure ParseState where
  cursor : Nat := 0
  nodes : Array Node := #[]

/-- A computation that reads tokens and may end in a fault. -/
abbrev Parse := ReaderT TokenStream (StateT ParseState (Except Halt))

namespace Parse

/-- The token so many places ahead. -/
def peek (offset : Nat) : Parse Token := do
  return (← read).get ((← get).cursor + offset)

def current : Parse Token := peek 0

def currentKind : Parse TokenKind := do
  return (← current).kind

/-- Where the token at the cursor begins. -/
def position : Parse Position := do
  return (← current).span.start

/-- Moves the cursor on, unless it is at the last token, and gives the token that it
stood at. -/
def advance : Parse Token := do
  let stream ← read
  let token ← current
  modify fun state =>
    if state.cursor < stream.size - 1 then { state with cursor := state.cursor + 1 }
    else state
  return token

def fail {α : Type} (cause : Fault.Cause) (position : Position) : Parse α :=
  throw (.fault ⟨cause, position⟩)

/-- Ends because of the token at the cursor. -/
def unexpected {α : Type} : Parse α := do
  let token ← current
  fail (.unexpectedToken token.value) token.span.start

/-- Ends because of the token at the cursor, and says what should stand there. -/
def expected {α : Type} (message : String) : Parse α := do
  let token ← current
  fail (.unexpectedTokenDetailed token.value message) token.span.start

def isAt (kind : TokenKind) : Parse Bool := do
  return (← currentKind) = kind

def expect (kind : TokenKind) : Parse Token := do
  if ← isAt kind then advance else unexpected

/-- Reads a name, or ends with a message that says what for. -/
def expectName (message : String) : Parse String := do
  if ← isAt .identifier then return (← advance).value else expected message

def previousEnd : Parse Position := do
  match (← get).cursor with
  | 0 => position
  | index + 1 => return ((← read).get index).span.stop

/-- Whether the token at the cursor begins a later line than the one before ends. -/
def onNewLine : Parse Bool := do
  if (← get).cursor = 0 then return false
  return (← previousEnd).line < (← position).line

/-- Ends a statement: with a semicolon, or without one before a closing brace, at
the end of the input and at a line break. -/
def endStatement : Parse Unit := do
  match ← currentKind with
  | .mark .semicolon => let _ ← advance
  | .mark .closeCurly | .endOfInput => return
  | _ => if ← onNewLine then return else unexpected

/-- Appends a node that spans from `start` to the token before the cursor. -/
def push (kind : NodeKind) (start : Position) : Parse NodeId := do
  let stop ← previousEnd
  modifyGet fun state =>
    (state.nodes.size, { state with nodes := state.nodes.push ⟨kind, ⟨start, stop⟩⟩ })

def nodeAt (id : NodeId) : Parse Node := do
  return (← get).nodes.getD id default

/-- Where a node already in the arena begins. -/
def startOf (id : NodeId) : Parse Position := do
  return (← nodeAt id).span.start

/-- Whether a group that opens at the beginning of some tokens is followed by an
arrow; `depth` groups are open already. -/
def arrowFollows (depth : Nat) : List TokenKind → Bool
  | [] => false
  | .endOfInput :: _ => false
  | .mark .openParen :: rest => arrowFollows (depth + 1) rest
  | .mark .closeParen :: rest =>
      if depth ≤ 1 then rest.head? == some (.mark .arrow) else arrowFollows (depth - 1) rest
  | _ :: rest => arrowFollows depth rest

/-- Whether the group at the cursor is the parameter list of an arrow function. -/
def isArrowAhead : Parse Bool := do
  let ahead := (← read).tokens.toList.drop (← get).cursor
  return arrowFollows 0 (ahead.map Token.kind)

/-- Runs a step until it gives a result, at most so many times. -/
def iterate {σ β : Type} (step : σ → Parse (σ ⊕ β)) : Nat → σ → Parse β
  | 0, _ => throw .depthExceeded
  | rounds + 1, state => do
    match ← step state with
    | .inl next => iterate step rounds next
    | .inr result => return result

/-- Runs a step that reads at least one token each time until it gives a result. -/
def loop {σ β : Type} (step : σ → Parse (σ ⊕ β)) (start : σ) : Parse β := do
  iterate step ((← read).size + 1) start

end Parse

/-- The parsers of nested expressions and statements, for the parts of the grammar
that contain them. -/
structure Grammar where
  expression : Power → Parse NodeId
  statement : Parse NodeId

end ScriptCheck
