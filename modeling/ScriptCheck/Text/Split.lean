/-!
# Splitting at a separator
-/

namespace ScriptCheck.Text

/-- The pieces of a text between the occurrences of a separator, taken from left
to right without overlap; `piece` is the reversed beginning of the first one. -/
def segmentsFrom (separator : List Char) (piece : List Char) :
    List Char → List (List Char)
  | [] => [piece.reverse]
  | c :: rest =>
      if separator.isPrefixOf (c :: rest) then
        piece.reverse :: segmentsFrom separator [] (rest.drop (separator.length - 1))
      else segmentsFrom separator (c :: piece) rest
termination_by text => text.length

/-- The pieces of a text between the occurrences of a non-empty separator. -/
def segments (separator text : List Char) : List (List Char) :=
  segmentsFrom separator [] text

end ScriptCheck.Text
