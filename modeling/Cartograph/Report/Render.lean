import Cartograph.Json.Write
import Cartograph.Report.Json

/-!
# Reports as text

Three forms of a report: `text` for reading, with a summary at the end and colours if the terminal has
them, `compact` with one line for each finding, and `json`.
-/

namespace Cartograph

inductive Format where
  | text
  | json
  | compact
  deriving DecidableEq, Repr

namespace Format

def ofName? : String → Option Format
  | "text" => some text
  | "json" => some json
  | "compact" => some compact
  | _ => none

end Format

inductive Colour where
  | red
  | green
  | yellow
  | blue
  deriving DecidableEq, Repr

namespace Colour

def code : Colour → String
  | red => "31"
  | green => "32"
  | yellow => "33"
  | blue => "34"

def paint (colour : Colour) (on : Bool) (text : String) : String :=
  if on then "\x1b[" ++ colour.code ++ "m" ++ text ++ "\x1b[0m" else text

end Colour

def Severity.colour : Severity → Colour
  | error => .red
  | warning => .yellow
  | info => .blue

namespace Report

def colour (r : Report) : Colour :=
  if r.tally.error > 0 then .red else if r.tally.warning > 0 then .yellow else .green

def findingsLine (r : Report) : String :=
  "Found " ++ toString r.tally.error ++ " error(s), " ++ toString r.tally.warning ++
    " warning(s), " ++ toString r.tally.info ++ " info(s) in " ++
    toString r.summary.filesScanned ++ " file(s) across " ++ toString r.summary.packages ++
    " package(s)"

/-- The line that tells the sizes of the run. The share of hits is a whole number of percent. -/
def sizesLine (r : Report) : String :=
  let s := r.summary
  toString s.edges ++ " import edge(s), cache hit ratio " ++ (s.hitRatio.times 100).places 0 ++
    "% (" ++ toString s.cacheHits ++ " hit(s), " ++ toString s.cacheMisses ++ " miss(es)), " ++
    toString s.elapsedMs ++ " ms"

def renderText (r : Report) (colours : Bool) : String :=
  let label (s : Severity) := s.colour.paint colours s.name
  String.join (r.diagnostics.map fun d => d.render label ++ "\n") ++
    r.colour.paint colours r.findingsLine ++ "\n" ++ r.sizesLine ++ "\n"

def renderCompact (r : Report) : String :=
  String.join (r.diagnostics.map fun d => d.brief ++ "\n")

def renderJson (r : Report) : String := r.toJson.pretty ++ "\n"

def render (r : Report) (format : Format) (colours : Bool) : String :=
  match format with
  | .text => r.renderText colours
  | .json => r.renderJson
  | .compact => r.renderCompact

end Report

end Cartograph
