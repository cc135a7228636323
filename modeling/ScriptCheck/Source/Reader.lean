import ScriptCheck.Source.Position

/-!
# Reading a text by bytes

A reader stands at a position of a text with the unread rest before it.
-/

namespace ScriptCheck

/-- A position and the text from there on. -/
structure Reader where
  position : Position
  rest : List Char

namespace Reader

def ofText (text : String) : Reader := ⟨.start, text.toList⟩

/-- The longest prefix of a text that has at most so many bytes. -/
def prefixOfSize : Nat → List Char → List Char
  | _, [] => []
  | bytes, c :: rest =>
      if c.utf8Size ≤ bytes then c :: prefixOfSize (bytes - c.utf8Size) rest else []

/-- The reader so many bytes further on, or at the end. -/
def advance (reader : Reader) (bytes : Nat) : Reader :=
  let text := prefixOfSize bytes reader.rest
  ⟨reader.position.advance text, reader.rest.drop text.length⟩

/-- The character at the reader, the null character at the end. -/
def current (reader : Reader) : Char :=
  reader.rest.headD '\x00'

def atEnd (reader : Reader) : Bool :=
  reader.rest.isEmpty

end Reader

end ScriptCheck
