import ScriptCheck.Source.Position
import ScriptCheck.Text.Blank

/-!
# Excerpts of a source text

The line around a place of the text, shown above a caret that points at the
place.  Places are found by byte offset, or by line and column.
-/

namespace ScriptCheck.Source

/-- The lines of a text, each with the line break that ends it.  A text that ends
in a line break has no empty line after it. -/
def lines : List Char → List (List Char)
  | [] => []
  | c :: rest =>
      if c = '\n' then [c] :: lines rest
      else
        match lines rest with
        | [] => [[c]]
        | line :: more => (c :: line) :: more

theorem flatten_lines (text : List Char) : (lines text).flatten = text := by
  fun_induction lines text <;> simp_all

structure Line where
  number : Nat
  text : List Char
  offset : Nat
deriving DecidableEq, Repr

def holding? (number offset : Nat) : List (List Char) → Option Line
  | [] => none
  | line :: more =>
      if offset < byteSize line then some ⟨number, line, offset⟩
      else holding? (number + 1) (offset - byteSize line) more

/-- What follows the last line break of a text. -/
def lastLine (text : List Char) : List Char :=
  (text.reverse.takeWhile (· ≠ '\n')).reverse

/-- The place at the very end of a text.  The line number is that of the last
line that has any characters. -/
def atEnd (text : List Char) : Line :=
  ⟨max (lines text).length 1, lastLine text, byteSize (lastLine text)⟩

def lineAt? (text : List Char) (offset : Nat) : Option Line :=
  if byteSize text < offset then none
  else some ((holding? 1 offset (lines text)).getD (atEnd text))

/-- The byte offset of a line and column, none where there is no such line.  A
column beyond the line stands for its end. -/
def offsetOf? (text : List Char) (line column : Nat) : Option Nat :=
  match line with
  | 0 => none
  | index + 1 =>
      (lines text)[index]?.map fun found =>
        byteSize ((lines text).take index).flatten + byteSize (found.take column)

/-- A mark set at the end of so many columns filled with `fill`. -/
def padLeft (width : Nat) (fill : Char) (mark : String) : String :=
  String.ofList (List.replicate (width - mark.length) fill) ++ mark

/-- The line around a byte offset between a rule and a caret.  Spaces in front of
the line are left out, and the caret's indent is less by as many. -/
def excerpt (text : List Char) (offset : Nat) : List String :=
  match lineAt? text offset with
  | none => []
  | some line =>
      let number := toString line.number
      let rule := padLeft (number.length + 2) ' ' "|"
      let indent := (line.text.takeWhile (· = ' ')).length
      let shown := Text.trimRight (line.text.drop indent)
      [rule,
       number ++ " | " ++ String.ofList shown,
       rule ++ " " ++ padLeft (line.offset - indent + 1) '-' "^"]

end ScriptCheck.Source
