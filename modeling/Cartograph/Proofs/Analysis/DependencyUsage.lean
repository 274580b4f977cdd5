import Cartograph.Proofs.Analysis.Missing

/-!
# The use of dependencies

What a package uses is read off the imports of its modules (`Counts`): an import counts if it refers to a name by which
packages are known, other than the package's own, unless it is for types only and these are left out. Main statement:
`dependencyUsage_reportsUsage`. For each package with a usable manifest it finds the declared names that no import counts
for, and the names that imports count for and that are not declared, each once and nothing else.

The imports behind a missing name are collected module by module, and come in the order of edges all the same: the edges
of a graph that was built are sorted by their source (`pairwise_source_build`, `flatMap_outgoing`).
-/

namespace Cartograph

open List

/-! ### Evidence -/

namespace Diagnostic

/-- The label that a change adds. -/
def Change.label? : Change → Option Label
  | evidence label => some label
  | _ => none

/-- **The evidence after several changes** is what they added, in their order. -/
theorem evidence_changed (d : Diagnostic) (changes : List Change) :
    (d.changed changes).evidence = d.evidence ++ changes.filterMap Change.label? := by
  induction changes generalizing d with
  | nil => exact (append_nil _).symm
  | cons change changes ih =>
    refine (ih (change.apply d)).trans ?_
    cases change with
    -- only this one adds a label
    | evidence label => exact append_assoc _ [label] _
    | floor least => rfl
    | help text => rfl
    | grade severity => rfl

end Diagnostic

/-! ### Edges in the order of their modules -/

namespace Graph

variable {g : Graph}

/-- **The edges of several modules**, one module after the other, are in the order of all edges. -/
theorem flatMap_outgoing (hg : g.edges.toList.Pairwise (·.source ≤ ·.source)) {modules : List Nat}
    (hmodules : modules.Pairwise (· < ·)) :
    modules.flatMap g.outgoing = g.edges.toList.filter fun e => modules.contains e.source := by
  induction modules with
  | nil => simp
  | cons i modules ih =>
    obtain ⟨hi, hmodules⟩ := pairwise_cons.1 hmodules
    rw [flatMap_cons, ih hmodules, outgoing, filter_append_filter]
    · refine filter_congr fun e _ => ?_
      rw [contains_cons]
    · -- an edge of the first module is not an edge of another one
      intro e _ he
      rw [eq_of_beq he, Bool.eq_false_iff]
      exact fun hmem => Nat.lt_irrefl i (hi i (contains_iff_mem.1 hmem))
    · -- what comes after an edge of a later module starts at a later module too
      refine hg.imp fun {a b} hab ha => ?_
      have hlt := hi a.source (contains_iff_mem.1 ha)
      exact beq_false_of_ne (Nat.ne_of_gt (Nat.lt_of_lt_of_le hlt hab))

theorem pairwise_source_links (r : Resolver) (files : List SourceFile) :
    (links r files).Pairwise (·.source ≤ ·.source) := by
  have hnumbers : files.zipIdx.Pairwise fun a b => a.2 < b.2 := by
    rw [← pairwise_map, zipIdx_map_snd]
    exact pairwise_lt_range'
  refine pairwise_flatMap.2 ⟨?_, hnumbers.imp ?_⟩
  · -- all imports of one file start at its module
    rintro ⟨f, i⟩ -
    rw [pairwise_map]
    exact pairwise_of_forall fun _ _ => Nat.le_refl i
  · rintro ⟨f, i⟩ ⟨f', j⟩ hij a ha b hb
    obtain ⟨_, -, rfl⟩ := mem_map.1 ha
    obtain ⟨_, -, rfl⟩ := mem_map.1 hb
    exact Nat.le_of_lt hij

/-- **The edges of a graph that was built** are sorted by their source. -/
theorem pairwise_source_build (packages : List Package) (config : Config) (files : List SourceFile) :
    (build packages config files).1.edges.toList.Pairwise (·.source ≤ ·.source) := by
  refine (pairwise_source_links _ files).filterMap _ ?_
  intro a b hab e he e' he'
  obtain ⟨_, -, rfl⟩ := Option.map_eq_some_iff.1 he
  obtain ⟨_, -, rfl⟩ := Option.map_eq_some_iff.1 he'
  exact hab

end Graph

namespace Dependencies

open Cartograph.Graph (written resolverFor StandsFor)

/-! ### What is to be reported -/

/-- An import that counts as a use of a name by a package. -/
structure Counts (g : Graph) (policy : DependencyPolicy) (i : Nat) (p : Package) (name : String) (e : Edge) :
    Prop where
  references : References g policy.countTypeOnly i name e
  other : name ≠ p.name

/-- A declared name that no import counts for. -/
structure IsUnused (g : Graph) (policy : DependencyPolicy) (i : Nat) (p : Package) (declared : Names)
    (name : String) : Prop where
  declared : name ∈ declared.toList
  checked : policy.isIgnored name = false
  unused : ∀ e, ¬Counts g policy i p name e

/-- A name that an import counts for and that is not declared. -/
structure IsMissing (g : Graph) (policy : DependencyPolicy) (i : Nat) (p : Package) (declared : Names)
    (name : String) : Prop where
  undeclared : name ∉ declared.toList
  checked : policy.isIgnored name = false
  used : ∃ e, Counts g policy i p name e

/-- A finding on a declared name that is not used. -/
structure TellsUnused (policy : DependencyPolicy) (p : Package) (name : String) (d : Diagnostic) : Prop where
  code : d.code = "AG201"
  category : d.category = .dependency
  severity : d.severity = policy.unusedSeverity
  file : d.location.file = p.manifest
  message : d.message = "`" ++ name ++ "` is declared by package `" ++ p.name ++ "` but never imported"

open Classical in
/-- A finding on a name that is used and not declared: at the first import that counts, with all others as evidence. -/
structure TellsMissing (g : Graph) (policy : DependencyPolicy) (i : Nat) (p : Package) (name : String)
    (d : Diagnostic) : Prop where
  code : d.code = "AG202"
  category : d.category = .dependency
  message : d.message = "package `" ++ p.name ++ "` imports `" ++ name ++ "` but does not declare it in " ++ p.manifest
  places : ∃ first rest, (g.edges.toList.filter fun e => Counts g policy i p name e) = first :: rest ∧
    d.location = g.edgeLocation first ∧
    d.evidence = rest.map fun e => ⟨g.edgeLocation e, "also imported via `" ++ e.specifier ++ "`"⟩

/-- The findings on one package: one for each declared name that is not used and one for each name that is used and not
declared, or none at all if the manifest cannot be used. -/
structure ReportsPackage (g : Graph) (policy : DependencyPolicy) (i : Nat) (p : Package) (found : List Diagnostic) :
    Prop where
  unusable : p.declared = none → found = []
  usable : ∀ declared, p.declared = some declared →
    ∃ (unusedNames missingNames : List String) (unusedFound missingFound : List Diagnostic),
      found = unusedFound ++ missingFound ∧
      unusedNames.Nodup ∧ (∀ name, name ∈ unusedNames ↔ IsUnused g policy i p declared name) ∧
      Forall₂ (TellsUnused policy p) unusedNames unusedFound ∧
      missingNames.Nodup ∧ (∀ name, name ∈ missingNames ↔ IsMissing g policy i p declared name) ∧
      Forall₂ (TellsMissing g policy i p) missingNames missingFound

/-- The findings on the packages of a graph: those on each package, one package after the other. -/
structure ReportsUsage (packages : List Package) (files : List SourceFile) (g : Graph) (policy : DependencyPolicy)
    (found : List Diagnostic) : Prop where
  reported : ∃ blocks : List (List Diagnostic), found = blocks.flatten ∧
    Forall₂ (fun entry block => ReportsPackage g policy entry.2 entry.1 block) packages.zipIdx blocks
  /-- Edges are in the order of files, and in the order of the text within a file. -/
  order : Forall₂ (StandsFor g (resolverFor packages files))
    ((written files).filter fun w => w.answer (resolverFor packages files) ≠ .unresolved) g.edges.toList

/-! ### The imports of a name -/

variable {g : Graph} {policy : DependencyPolicy} {i : Nat} {p : Package} {name : String} {declared : Names}

theorem uses_eq_filterMap (hg : g.edges.toList.Pairwise (·.source ≤ ·.source)) (countTypeOnly : Bool) (i : Nat)
    (p : Package) : uses g countTypeOnly i p =
      (g.edges.toList.filter fun e => (g.modulesOf i).contains e.source).filterMap fun e =>
        (usedName? g countTypeOnly p.name e).map (·, e) := by
  rw [← Graph.flatMap_outgoing hg (Graph.pairwise_modulesOf g i), filterMap_flatMap]
  rfl

open Classical in
/-- **The imports of a name** are those that count, in the order of edges. -/
theorem importsOf_eq_filter (hg : g.edges.toList.Pairwise (·.source ≤ ·.source)) (policy : DependencyPolicy) (i : Nat)
    (p : Package) (name : String) :
    importsOf policy g i p name = g.edges.toList.filter fun e => Counts g policy i p name e := by
  rw [importsOf, uses_eq_filterMap hg, map_filter_filterMap, filter_filter]
  -- both sides select from all edges, and select the same ones
  refine filter_congr fun e he => ?_
  rw [Bool.eq_iff_iff, Bool.and_eq_true, beq_iff_eq, usedName?_eq_some_iff, contains_iff_mem,
    Graph.mem_modulesOf, decide_eq_true_eq]
  constructor
  · rintro ⟨⟨hkind, htarget, hne⟩, howner⟩
    exact ⟨⟨he, howner, hkind, htarget⟩, hne⟩
  · rintro ⟨⟨-, howner, hkind, htarget⟩, hne⟩
    exact ⟨⟨hkind, htarget, hne⟩, howner⟩

/-! ### The findings on a package -/

theorem mem_used : name ∈ (Names.ofList ((uses g policy.countTypeOnly i p).map (·.1))).toList ↔
    ∃ e, Counts g policy i p name e := by
  rw [Names.mem_ofList, mem_map]
  constructor
  · rintro ⟨⟨_, e⟩, huse, rfl⟩
    obtain ⟨hreferences, hne⟩ := mem_uses.1 huse
    exact ⟨e, hreferences, hne⟩
  · rintro ⟨e, hreferences, hne⟩
    exact ⟨(name, e), mem_uses.2 ⟨hreferences, hne⟩, rfl⟩

/-- The declared names of a package that are not used, in order. -/
def unusedNames (policy : DependencyPolicy) (g : Graph) (i : Nat) (p : Package) (declared : Names) : List String :=
  declared.toList.filter fun n =>
    !(Names.ofList ((uses g policy.countTypeOnly i p).map (·.1))).contains n && !policy.isIgnored n

theorem mem_unusedNames : name ∈ unusedNames policy g i p declared ↔ IsUnused g policy i p declared name := by
  rw [unusedNames, mem_filter, Bool.and_eq_true, Bool.not_eq_true', Bool.not_eq_true', Names.contains,
    Bool.eq_false_iff, ne_eq, contains_iff_mem, mem_used, not_exists]
  exact ⟨fun h => ⟨h.1, h.2.2, h.2.1⟩, fun h => ⟨h.declared, h.unused, h.checked⟩⟩

theorem mem_lacked_iff (hdeclared : p.declared = some declared) :
    name ∈ lacked policy g i p ↔ IsMissing g policy i p declared name := by
  rw [lacked, hdeclared, Option.elim_some, mem_filter, Bool.and_eq_true, Bool.not_eq_true', Bool.not_eq_true',
    Names.contains, Bool.eq_false_iff, ne_eq, contains_iff_mem, mem_used]
  exact ⟨fun h => ⟨h.2.1, h.2.2, h.1⟩, fun h => ⟨h.used, h.undeclared, h.checked⟩⟩

theorem findIn_eq (hdeclared : p.declared = some declared) : findIn policy g i p =
    (unusedNames policy g i p declared).map (unused policy p) ++
      (lacked policy g i p).filterMap (missing? policy g i p) := by
  rw [findIn, lacked, hdeclared]
  rfl

theorem evidence_missing (policy : DependencyPolicy) (g : Graph) (p : Package) (name : String) (first : Edge)
    (rest : List Edge) : (missing policy g p name first rest).evidence =
      rest.map fun e => ⟨g.edgeLocation e, "also imported via `" ++ e.specifier ++ "`"⟩ := by
  have hlabels : (otherImports g rest).filterMap Diagnostic.Change.label? =
      rest.map fun e => ⟨g.edgeLocation e, "also imported via `" ++ e.specifier ++ "`"⟩ := by
    rw [otherImports, filterMap_map, ← filterMap_eq_map]
    rfl
  rw [missing_eq_changed, Diagnostic.evidence_changed, ← hlabels]
  rfl

/-- **A name that is used and not declared is found** where it is used. -/
theorem exists_tellsMissing (hg : g.edges.toList.Pairwise (·.source ≤ ·.source)) (h : ∃ e, Counts g policy i p name e) :
    ∃ d, missing? policy g i p name = some d ∧ TellsMissing g policy i p name d := by
  obtain ⟨e, hreferences, hne⟩ := h
  -- there is an import of the name, so there is a first one
  have he : e ∈ importsOf policy g i p name := mem_importsOf.2 ⟨hreferences, hne⟩
  obtain ⟨first, rest, himports⟩ := exists_cons_of_ne_nil (ne_nil_of_mem he)
  obtain ⟨hlocation, hcode, hmessage, hcategory⟩ := missing_keeps policy g p name first rest
  refine ⟨missing policy g p name first rest, ?_, hcode, hcategory, hmessage, first, rest, ?_, hlocation,
    evidence_missing policy g p name first rest⟩
  · rw [missing?, himports]
  · rw [← himports, importsOf_eq_filter hg]

/-- **The findings on a package** of a graph whose edges are sorted by their source. -/
theorem reportsPackage_findIn (hg : g.edges.toList.Pairwise (·.source ≤ ·.source)) (policy : DependencyPolicy)
    (i : Nat) (p : Package) : ReportsPackage g policy i p (findIn policy g i p) where
  unusable hdeclared := by rw [findIn, hdeclared]
  usable declared hdeclared := by
    refine ⟨unusedNames policy g i p declared, lacked policy g i p, _, _, findIn_eq hdeclared,
      declared.nodup.filter _, fun name => mem_unusedNames, ?_, nodup_lacked policy g i p,
      fun name => mem_lacked_iff hdeclared, ?_⟩
    · exact forall₂_self_map fun name _ => ⟨rfl, rfl, rfl, rfl, rfl⟩
    · refine forall₂_filterMap _ fun name hname => ?_
      exact exists_tellsMissing hg ((mem_lacked_iff hdeclared).1 hname).used

end Dependencies

/-- **Dependency usage is exact.** For every graph that was built and every policy, the analyzer finds for each package
with a usable manifest one unused dependency for each declared name that no import counts for, and one missing
dependency for each other name that imports count for, located at the first of these imports in the order of files and
then of the text, with all others as evidence in that order. It finds nothing for other packages, and nothing else. -/
theorem dependencyUsage_reportsUsage (packages : List Package) (built config : Config) (files : List SourceFile)
    (label : String) :
    Dependencies.ReportsUsage packages files (Graph.build packages built files).1 config.dependencies
      (dependencyUsage.analyze
        { graph := (Graph.build packages built files).1, config, configLabel := label }).diagnostics := by
  have hsorted := Graph.pairwise_source_build packages built files
  refine ⟨⟨_, flatMap_def, forall₂_self_map fun entry _ => ?_⟩,
    Graph.resolverOf_eq packages files ▸ Graph.standsFor_edges⟩
  exact Dependencies.reportsPackage_findIn hsorted config.dependencies entry.2 entry.1

end Cartograph
