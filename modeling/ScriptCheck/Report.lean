import ScriptCheck.Diagnostic
import ScriptCheck.Fault
import ScriptCheck.Source.Excerpt

/-!
# Reports

The text in which a fault or a diagnostic is shown to the author of a script: a
headline, the place, the excerpt around it and, for a diagnostic, the calls that
led there.
-/

namespace ScriptCheck

/-- Lines as one text, each ended by a line break. -/
def unlines (lines : List String) : String :=
  String.join (lines.map (· ++ "\n"))

def Fault.report (fault : Fault) (source file : String) : String :=
  let headline := match fault.cause.tip? with
    | none => "Error: " ++ fault.cause.name
    | some tip => "Error: " ++ fault.cause.name ++ " (" ++ tip ++ ")"
  unlines ([headline, "-> " ++ file] ++
    Source.excerpt source.toList fault.position.offset)

def Diagnostic.report (diagnostic : Diagnostic) (source file : String) : String :=
  let location := diagnostic.location
  let excerpt := match Source.offsetOf? source.toList location.line location.column with
    | none => []
    | some offset => Source.excerpt source.toList offset
  unlines (["Error: " ++ diagnostic.message, "-> " ++ file ++ ":" ++ location.display] ++
    excerpt ++ diagnostic.trace.map ("    at " ++ ·))

end ScriptCheck
