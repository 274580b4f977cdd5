import Cartograph.Analysis

/-!
# Dependency usage

The dependencies that a package declares are compared with the packages that its modules import. A
declared dependency that no module imports is unused; an imported package that is not declared is
missing. A missing dependency stays at least a warning.
-/

namespace Cartograph.Dependencies

/-- The package that an import counts as a use of, for a package of the given name: packages outside
that are not part of the runtime, and packages of the workspace that are imported by name. -/
def usedName? (g : Graph) (countTypeOnly : Bool) (own : String) (e : Edge) : Option String :=
  if e.kind = .typeOnly && !countTypeOnly then none
  else
    let name? : Option String :=
      match g.node? e.target with
      | some (.external x) => if x.origin = .builtin then none else some x.name
      | some (.module _) =>
        if Specifier.isBare e.specifier then some (Specifier.packageName e.specifier) else none
      | none => none
    name?.filter (· != own)

/-- The imports of a package's modules that count as a use, each with the name that it uses. -/
def uses (g : Graph) (countTypeOnly : Bool) (index : Nat) (p : Package) : List (String × Edge) :=
  (g.modulesOf index).flatMap fun i =>
    (g.outgoing i).filterMap fun e => (usedName? g countTypeOnly p.name e).map (·, e)

def unused (policy : DependencyPolicy) (p : Package) (name : String) : Diagnostic :=
  let line := p.lineOf name
  { code := "AG201"
    rule := "unused-dependency"
    category := .dependency
    severity := policy.unusedSeverity
    location := { file := p.manifest, line, column := if line > 0 then 1 else 0 }
    message := "`" ++ name ++ "` is declared by package `" ++ p.name ++ "` but never imported"
    help := some ("remove `" ++ name ++ "` from " ++ p.manifest ++ ", or add it to dependencies.ignore") }

/-- The finding on an imported package that is not declared, at its first import. -/
def missing (policy : DependencyPolicy) (g : Graph) (p : Package) (name : String) (first : Edge)
    (rest : List Edge) : Diagnostic :=
  let found : Diagnostic := {
    code := "AG202"
    rule := "missing-dependency"
    category := .dependency
    severity := policy.missingSeverity
    location := g.edgeLocation first
    message := "package `" ++ p.name ++ "` imports `" ++ name ++ "` but does not declare it in " ++ p.manifest }
  let found := (found.withFloor .warning).withHelp ("add `" ++ name ++ "` to " ++ p.manifest)
  rest.foldl (fun d e => d.withEvidence {
    location := g.edgeLocation e
    message := "also imported via `" ++ e.specifier ++ "`" }) found

def findIn (policy : DependencyPolicy) (g : Graph) (index : Nat) (p : Package) : List Diagnostic :=
  match p.declared with
  | none => []
  | some declared =>
    let uses := uses g policy.countTypeOnly index p
    let used := Names.ofList (uses.map (·.1))
    let unusedNames := declared.toList.filter fun n => !used.contains n && !policy.isIgnored n
    let missingNames := used.toList.filter fun n => !declared.contains n && !policy.isIgnored n
    unusedNames.map (unused policy p) ++ missingNames.filterMap fun n =>
      match (uses.filter (·.1 == n)).map (·.2) with
      | first :: rest => some (missing policy g p n first rest)
      | [] => none

def find (context : AnalysisContext) : List Diagnostic :=
  context.graph.packages.zipIdx.flatMap fun (p, i) =>
    findIn context.config.dependencies context.graph i p

end Dependencies

def dependencyUsage : Analyzer where
  name := "dependency-usage"
  category := .dependency
  codes := ["AG201", "AG202"]
  description := "Compares package.json dependencies with the packages actually imported"
  analyze context := { diagnostics := Dependencies.find context }

end Cartograph
