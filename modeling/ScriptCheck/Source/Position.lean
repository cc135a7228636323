/-!
# Positions in a source text

A position counts three things at once: the bytes of the text's UTF-8 form, its
lines and the code points since the last line break.  Positions only ever move
by reading a character, so the three counts cannot drift apart.
-/

namespace ScriptCheck

/-- A point of a source text.  Lines count from one, columns and offsets from
zero; the offset is in bytes, the column in code points. -/
structure Position where
  offset : Nat
  line : Nat
  column : Nat
deriving DecidableEq, Repr, Inhabited

namespace Position

/-- The position of something that stands nowhere in a text. -/
def nowhere : Position := ⟨0, 0, 0⟩

def start : Position := ⟨0, 1, 0⟩

def next (p : Position) (c : Char) : Position :=
  if c = '\n' then ⟨p.offset + c.utf8Size, p.line + 1, 0⟩
  else ⟨p.offset + c.utf8Size, p.line, p.column + 1⟩

/-- The position after reading a run of characters. -/
def advance (p : Position) (text : List Char) : Position :=
  text.foldl next p

@[simp] theorem advance_nil (p : Position) : p.advance [] = p := rfl

@[simp] theorem advance_cons (p : Position) (c : Char) (text : List Char) :
    p.advance (c :: text) = (p.next c).advance text := rfl

theorem advance_append (p : Position) (s t : List Char) :
    p.advance (s ++ t) = (p.advance s).advance t := by
  simp [advance, List.foldl_append]

end Position

/-- The stretch of text from `start` up to, but not including, `stop`. -/
structure Span where
  start : Position
  stop : Position
deriving DecidableEq, Repr, Inhabited

def Span.point (p : Position) : Span := ⟨p, p⟩

/-- Number of bytes of a run of characters in UTF-8. -/
def byteSize : List Char → Nat
  | [] => 0
  | c :: text => c.utf8Size + byteSize text

@[simp] theorem byteSize_nil : byteSize [] = 0 := rfl

@[simp] theorem byteSize_cons (c : Char) (text : List Char) :
    byteSize (c :: text) = c.utf8Size + byteSize text := rfl

theorem byteSize_append (s t : List Char) :
    byteSize (s ++ t) = byteSize s + byteSize t := by
  induction s with
  | nil => simp
  | cons c s ih => simp [ih, Nat.add_assoc]

theorem Position.offset_next (p : Position) (c : Char) :
    (p.next c).offset = p.offset + c.utf8Size := by
  unfold Position.next
  split <;> rfl

/-- Reading a run moves the offset by its size in bytes. -/
theorem Position.offset_advance (p : Position) (text : List Char) :
    (p.advance text).offset = p.offset + byteSize text := by
  induction text generalizing p with
  | nil => simp
  | cons c text ih => simp [ih, Position.offset_next, Nat.add_assoc]

end ScriptCheck
