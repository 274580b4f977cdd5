import Cartograph.Check
import Cartograph.Proofs.Diagnostic.Floor
import Cartograph.Proofs.Digraph.ShortestCycle
import Cartograph.Proofs.Graph.Faithful
import Cartograph.Proofs.Workspace.Scan

/-!
# Codes and categories of findings

Every finding of an analyzer has one of the codes that the analyzer names, and the category of the analyzer, with
one exception: a circle of layers is found by the analyzer for layer boundaries but is a finding on the
configuration (`Check.of_mem_analyze`). Nothing else finds circles of layers: neither scanning a workspace nor
building its graph does (`Scan.not_isLayerCircle`, `Graph.not_isLayerCircle`).
-/

namespace Cartograph

open Diagnostic List

/-- Whether a finding is about layers that may import each other in a circle. -/
def Diagnostic.isLayerCircle (d : Diagnostic) : Bool := d.code == "AG102"

/-! ### Analyzers -/

variable {context : AnalysisContext} {d : Diagnostic} {read : String → Except OsError ByteArray}
  {policy : AnalyzerPolicy} {extensions paths : List String} {root label : String} {found : Scan}

theorem Cycles.of_mem_find {severity : Severity} (h : d ∈ Cycles.find severity context) :
    d.code ∈ ["AG001", "AG002"] ∧ d.category = .circularImport := by
  unfold Cycles.find at h
  split at h
  · obtain h | h := mem_append.1 h
    · obtain ⟨e, -, rfl⟩ := mem_map.1 h
      exact ⟨by simp [selfImport], rfl⟩
    · obtain ⟨knot, -, rfl⟩ := mem_map.1 h
      exact ⟨by simp [circularImport], rfl⟩
  · obtain ⟨knot, -, rfl⟩ := mem_map.1 h
    exact ⟨by simp [circularImport], rfl⟩

namespace Layers

variable {severity : Severity} {context : AnalysisContext} {e : Edge}

/-- **What makes an edge a violation.** -/
theorem violation?_eq_some_iff : violation? severity context e = some d ↔ ∃ source target a b,
      context.graph.module? e.source = some source ∧ context.graph.module? e.target = some target ∧
        source.layer = some a ∧ target.layer = some b ∧ context.config.layers.allows a b = false ∧
        context.config.architecture.exempts source.path source.reexportOnly = false ∧
        d = violation severity context.config.layers e source target a b := by
  unfold violation?
  constructor
  · intro h
    split at h
    · next source target hsource htarget =>
      split at h
      · next a b ha hb =>
        split at h
        · cases h
        · next hallows =>
          split at h
          · cases h
          · next hexempt =>
            exact ⟨source, target, a, b, hsource, htarget, ha, hb, Bool.eq_false_iff.2 hallows,
              Bool.eq_false_iff.2 hexempt, (Option.some.inj h).symm⟩
      · cases h
    · cases h
  · rintro ⟨source, target, a, b, hsource, htarget, ha, hb, hallows, hexempt, rfl⟩
    simp [hsource, htarget, ha, hb, hallows, hexempt]

theorem of_violation?_eq_some (h : violation? severity context e = some d) :
    d.code = "AG101" ∧ d.category = .architecture := by
  obtain ⟨source, target, a, b, -, -, -, -, -, -, rfl⟩ := violation?_eq_some_iff.1 h
  exact ⟨rfl, rfl⟩

theorem of_mem_find (h : d ∈ find severity context) :
    d.code = "AG101" ∧ d.category = .architecture ∨ ∃ names, d = layerCycle context.configLabel names := by
  unfold find at h
  split at h
  · cases h
  · obtain h | h := mem_append.1 h
    · obtain ⟨knot, -, rfl⟩ := mem_map.1 h
      exact .inr ⟨_, rfl⟩
    · obtain ⟨e, -, he⟩ := mem_filterMap.1 h
      exact .inl (of_violation?_eq_some he)

theorem inRange_allowGraph (layers : List Layer) : (allowGraph layers).InRange := by
  intro v w harc
  obtain ⟨⟨layer, i⟩, hlayer, harc⟩ := mem_flatMap.1 harc
  obtain ⟨j, hj, hedge⟩ := mem_filterMap.1 harc
  obtain ⟨name, -, hname⟩ := mem_filterMap.1 hj
  split at hedge
  · cases hedge
  · cases hedge
    have hlt := (mem_zipIdx hlayer).2.1
    rw [Nat.zero_add] at hlt
    exact ⟨hlt, (findIdx?_eq_some_iff_getElem.1 hname).1⟩

/-- **Circles of layers are found** exactly if the allowed imports between layers have a cycle. -/
theorem exists_mem_find_iff (severity : Severity) (context : AnalysisContext) :
    (∃ d ∈ find severity context, d.isLayerCircle = true) ↔
      ∃ cycle, (allowGraph context.config.layers.layers).IsCycle cycle := by
  rw [← Digraph.knots_ne_nil_iff (inRange_allowGraph context.config.layers.layers)]
  constructor
  · rintro ⟨d, hd, hcircle⟩
    unfold find at hd
    split at hd
    · cases hd
    · obtain hd | hd := mem_append.1 hd
      · obtain ⟨knot, hknot, -⟩ := mem_map.1 hd
        exact ne_nil_of_mem hknot
      · obtain ⟨e, -, he⟩ := mem_filterMap.1 hd
        rw [isLayerCircle, (of_violation?_eq_some he).1] at hcircle
        cases hcircle
  · intro hknots
    obtain ⟨knot, hknot⟩ := exists_mem_of_ne_nil _ hknots
    have hlayers : ¬context.config.layers.layers.isEmpty = true := by
      intro hempty
      rw [isEmpty_iff.1 hempty] at hknots
      exact hknots rfl
    unfold find
    rw [if_neg hlayers]
    exact ⟨_, mem_append_left _ (mem_map_of_mem hknot), rfl⟩

end Layers

namespace Dependencies

variable (policy : DependencyPolicy) (g : Graph) (k : Package) (name : String) (first : Edge) (rest : List Edge)

/-- A missing dependency at its first import. -/
def undeclared : Diagnostic where
  code := "AG202"
  rule := "missing-dependency"
  category := .dependency
  severity := policy.missingSeverity
  location := g.edgeLocation first
  message := "package `" ++ k.name ++ "` imports `" ++ name ++ "` but does not declare it in " ++ k.manifest

/-- The other imports of a missing dependency, as evidence. -/
def otherImports : List Change :=
  rest.map fun e => .evidence ⟨g.edgeLocation e, "also imported via `" ++ e.specifier ++ "`"⟩

theorem missing_eq_changed : missing policy g k name first rest =
    (undeclared policy g k name first).changed
      (.floor .warning :: .help ("add `" ++ name ++ "` to " ++ k.manifest) :: otherImports g rest) := by
  unfold changed otherImports
  rw [foldl_cons, foldl_cons, foldl_map]
  rfl

/-- A missing dependency has the code, the category and the text with which it is found. -/
theorem missing_keeps : (missing policy g k name first rest).location = g.edgeLocation first ∧
    (missing policy g k name first rest).code = "AG202" ∧
    (missing policy g k name first rest).message =
      "package `" ++ k.name ++ "` imports `" ++ name ++ "` but does not declare it in " ++ k.manifest ∧
    (missing policy g k name first rest).category = .dependency := by
  rw [missing_eq_changed]
  exact (undeclared policy g k name first).changed_keeps _

theorem floor_missing : (missing policy g k name first rest).floor = some .warning := by
  rw [missing_eq_changed]
  change (((undeclared policy g k name first).withFloor .warning).changed (.help _ :: otherImports g rest)).floor = _
  apply floor_changed
  intro change hchange least
  obtain rfl | hchange := mem_cons.1 hchange
  · exact nofun
  · obtain ⟨e, -, rfl⟩ := mem_map.1 hchange
    exact nofun

end Dependencies

theorem Dependencies.of_mem_find (h : d ∈ Dependencies.find context) :
    d.code ∈ ["AG201", "AG202"] ∧ d.category = .dependency := by
  obtain ⟨⟨k, i⟩, -, h⟩ := mem_flatMap.1 h
  dsimp only at h
  unfold findIn at h
  split at h
  · cases h
  · obtain h | h := mem_append.1 h
    · obtain ⟨name, -, rfl⟩ := mem_map.1 h
      exact ⟨by simp [unused], rfl⟩
    · obtain ⟨name, -, hname⟩ := mem_filterMap.1 h
      split at hname
      · next first rest _ =>
        cases hname
        obtain ⟨-, hcode, -, hcategory⟩ := missing_keeps context.config.dependencies context.graph k name first rest
        exact ⟨by simp [hcode], hcategory⟩
      · cases hname

/-- **What an analyzer finds** has one of its codes, and its category unless it is a circle of layers. -/
theorem Check.of_mem_analyze {analyzer : Analyzer} (hanalyzer : analyzer ∈ Check.analyzers)
    (hd : d ∈ (analyzer.analyze context).diagnostics) :
    d.code ∈ analyzer.codes ∧
      (d.isLayerCircle = false ∧ d.category = analyzer.category ∨
        analyzer = layerBoundaries ∧ ∃ names, d = Layers.layerCycle context.configLabel names) := by
  have hnot : ∀ {l : List String}, "AG102" ∉ l → d.code ∈ l → d.isLayerCircle = false :=
    fun hl hcode => beq_false_of_ne fun heq => hl (heq ▸ hcode)
  simp only [Check.analyzers, mem_cons, not_mem_nil, or_false] at hanalyzer
  obtain rfl | rfl | rfl := hanalyzer
  · obtain ⟨hcode, hcategory⟩ := Cycles.of_mem_find hd
    exact ⟨hcode, .inl ⟨hnot (by decide) hcode, hcategory⟩⟩
  · obtain ⟨hcode, hcategory⟩ | ⟨names, rfl⟩ := Layers.of_mem_find hd
    · have hmem : d.code ∈ ["AG101"] := by simp [hcode]
      exact ⟨mem_append_left ["AG102"] hmem, .inl ⟨hnot (by decide) hmem, hcategory⟩⟩
    · exact ⟨by simp [layerBoundaries, Layers.layerCycle], .inr ⟨rfl, names, rfl⟩⟩
  · obtain ⟨hcode, hcategory⟩ := Dependencies.of_mem_find hd
    exact ⟨hcode, .inl ⟨hnot (by decide) hcode, hcategory⟩⟩

/-! ### Before the analyzers -/

/-- What building a graph finds is about files that cannot be read and imports that lead nowhere. -/
theorem Graph.not_isLayerCircle {packages : List Package} {config : Config} {files : List SourceFile}
    (hd : d ∈ (build packages config files).2) : d.isLayerCircle = false := by
  obtain hcode | hcode := code_of_mem_build hd <;> rw [isLayerCircle, hcode] <;> rfl

/-- What scanning a workspace finds is about manifests that cannot be used and patterns without packages. -/
theorem Scan.code_of_mem_diagnostics
    (h : ofPaths? read root policy extensions label paths = some found) (hd : d ∈ found.diagnostics) :
    d.code = "AG303" ∨ d.code = "AG302" := by
  rw [(of_ofPaths? h).2.2] at hd
  obtain hd | hd := mem_append.1 hd
  · obtain ⟨manifest, -, defect, rfl⟩ := of_mem_defects hd
    exact .inl rfl
  · obtain ⟨pattern, -, rfl⟩ := mem_map.1 hd
    exact .inr rfl

theorem Scan.not_isLayerCircle
    (h : ofPaths? read root policy extensions label paths = some found) (hd : d ∈ found.diagnostics) :
    d.isLayerCircle = false := by
  obtain hcode | hcode := code_of_mem_diagnostics h hd <;> rw [isLayerCircle, hcode] <;> rfl

end Cartograph
