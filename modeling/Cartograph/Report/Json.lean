import Cartograph.Diagnostic.Json
import Cartograph.Report

/-!
# Reports as JSON

The JSON form of reports, written by `Report.toJson` and read by `Report.ofJson?`.
-/

namespace Cartograph

def Tally.toJson (t : Tally) : Json :=
  .object [("error", .ofNat t.error), ("warning", .ofNat t.warning), ("info", .ofNat t.info)]

def Tally.ofJson? (j : Json) : Option Tally :=
  match j.fields? ["error", "warning", "info"] with
  | some [some error, some warning, some info] => do
    return { error := ← error.natural?, warning := ← warning.natural?, info := ← info.natural? }
  | _ => none

namespace Summary

def countsToJson (s : Summary) : Json :=
  .object (s.countList.map fun (c, t) => (c.name, t.toJson))

def toJson (s : Summary) : Json :=
  .object [("files_scanned", .ofNat s.filesScanned), ("packages", .ofNat s.packages),
    ("edges", .ofNat s.edges), ("counts", s.countsToJson), ("elapsed_ms", .ofNat s.elapsedMs),
    ("cache_hits", .ofNat s.cacheHits), ("cache_misses", .ofNat s.cacheMisses)]

/-- Reads the numbers of findings; of two entries for a category the last counts. -/
def countsOfJson? : Json → Option (Category → Option Tally)
  | .object entries => do
    let read ← entries.mapM fun (key, value) => do
      return (← Category.ofName? key, ← Tally.ofJson? value)
    return fun c => (read.reverse.find? (·.1 == c)).map (·.2)
  | _ => none

def ofJson? (j : Json) : Option Summary :=
  let names := ["files_scanned", "packages", "edges", "counts", "elapsed_ms", "cache_hits",
    "cache_misses"]
  match j.fields? names with
  | some [some files, some packages, some edges, some counts, some elapsed, some hits,
      some misses] => do
    return {
      filesScanned := ← files.natural?
      packages := ← packages.natural?
      edges := ← edges.natural?
      counts := ← countsOfJson? counts
      elapsedMs := ← elapsed.natural?
      cacheHits := ← hits.natural?
      cacheMisses := ← misses.natural? }
  | _ => none

end Summary

namespace Report

def toJson (r : Report) : Json :=
  .object [("diagnostics", .ofList Diagnostic.toJson r.diagnostics), ("summary", r.summary.toJson)]

def ofJson? (j : Json) : Option Report :=
  match j.fields? ["diagnostics", "summary"] with
  | some [some diagnostics, some summary] => do
    return {
      diagnostics := ← diagnostics.list? Diagnostic.ofJson?
      summary := ← Summary.ofJson? summary }
  | _ => none

end Report

end Cartograph
