import Cartograph.Proofs.Run.Categories

/-!
# Where the configuration lies

A configuration knows the file that it was read from. Runs use it for one thing: to locate the findings on the
configuration, which are patterns without packages and circles of layers. So a run with the same configuration from
another file ends alike, and reports the same but for the location of those findings (`Plan.fresh_relocate`).

Each phase commutes with `Diagnostic.relabel`: scanning, analyzing, regrading and leaving out. Only the order of the
report may change with the location.
-/

namespace Cartograph

open Diagnostic List

/-! ### Findings on the configuration -/

namespace Diagnostic

variable {label : String} {d : Diagnostic} {l : List Diagnostic}

/-- Whether a finding is located at the file of the configuration: it is about a pattern without packages, or about
a circle of layers. -/
def isAtConfig (d : Diagnostic) : Bool := d.code == "AG302" || d.isLayerCircle

/-- The finding when the configuration lies elsewhere. -/
def relabel (label : String) (d : Diagnostic) : Diagnostic :=
  if d.isAtConfig then { d with location := { d.location with file := label } } else d

theorem not_isAtConfig {codes : List String} (h : d.code ∈ codes) (hpattern : "AG302" ∉ codes)
    (hcircle : "AG102" ∉ codes) : d.isAtConfig = false := by
  rw [isAtConfig, Bool.or_eq_false_iff]
  exact ⟨beq_false_of_ne fun heq => hpattern (heq ▸ h), beq_false_of_ne fun heq => hcircle (heq ▸ h)⟩

theorem isAtConfig_relabel (label : String) (d : Diagnostic) : (d.relabel label).isAtConfig = d.isAtConfig := by
  unfold relabel
  split <;> rfl

theorem file_relabel (h : d.isAtConfig = true) : (d.relabel label).location.file = label := by
  rw [relabel, if_pos h]

/-- Findings that lie where they should stay. -/
theorem map_relabel_eq_self (h : ∀ d ∈ l, d.isAtConfig = true → d.location.file = label) :
    l.map (relabel label) = l := by
  have hself : ∀ d ∈ l, d.relabel label = id d := by
    intro d hd
    unfold relabel
    split
    · next hat => rw [← h d hd hat]; rfl
    · rfl
  rw [map_congr_left hself, map_id]

theorem map_relabel_of_codes (codes : List String) (h : ∀ d ∈ l, d.code ∈ codes)
    (hpattern : "AG302" ∉ codes) (hcircle : "AG102" ∉ codes) : l.map (relabel label) = l := by
  refine map_relabel_eq_self fun d hd hat => ?_
  rw [not_isAtConfig (h d hd) hpattern hcircle] at hat
  cases hat

end Diagnostic

/-! ### Reports -/

/-- Two reports that differ in where the configuration lies. -/
structure Relocated (label label' : String) (found found' : List Diagnostic) : Prop where
  perm : found'.Perm (found.map (relabel label'))
  located : ∀ d ∈ found, d.isAtConfig = true → d.location.file = label
  located' : ∀ d ∈ found', d.isAtConfig = true → d.location.file = label'
  eq_iff : found' = found ↔ label' = label ∨ ∀ d ∈ found, d.isAtConfig = false

namespace Config

variable {label : String}

theorem isAtConfig_regrade (c : Config) (d : Diagnostic) : (c.regrade d).isAtConfig = d.isAtConfig := by
  unfold regrade
  split <;> rfl

theorem location_regrade (c : Config) (d : Diagnostic) : (c.regrade d).location = d.location := by
  unfold regrade
  split <;> rfl

theorem regrade_relabel (c : Config) (label : String) (d : Diagnostic) :
    c.regrade (d.relabel label) = (c.regrade d).relabel label := by
  have hat := c.isAtConfig_regrade d
  unfold relabel
  rw [hat]
  split
  · unfold regrade
    dsimp only
    split <;> rfl
  · rfl

theorem isReported_relabel (c : Config) (label : String) (d : Diagnostic) :
    c.isReported (d.relabel label) = c.isReported d := by
  unfold relabel
  split <;> rfl

/-- The findings that are reported, before they are sorted. -/
def kept (c : Config) (found : List Diagnostic) : List Diagnostic := (found.map c.regrade).filter c.isReported

theorem kept_relabel (c : Config) (label : String) (found : List Diagnostic) :
    c.kept (found.map (relabel label)) = (c.kept found).map (relabel label) := by
  -- regrading looks at the category, and leaving out at the severity too: neither is relabelled
  have hregrade : c.regrade ∘ relabel label = relabel label ∘ c.regrade := funext (c.regrade_relabel label)
  have hreported : c.isReported ∘ relabel label = c.isReported := funext (c.isReported_relabel label)
  rw [kept, kept, map_map, hregrade, ← map_map, filter_map, hreported]

/-- **Moving the configuration** moves the findings on it in the report, and does no more. -/
theorem relocated_finish (c : Config) {found : List Diagnostic} (label' : String)
    (hfound : ∀ d ∈ found, d.isAtConfig = true → d.location.file = label) :
    Relocated label label' (c.finish found) (c.finish (found.map (relabel label'))) := by
  have hkept : ∀ d ∈ c.kept found, d.isAtConfig = true → d.location.file = label := by
    intro d hd hat
    obtain ⟨e, he, rfl⟩ := mem_map.1 (mem_filter.1 hd).1
    rw [isAtConfig_regrade] at hat
    rw [location_regrade, hfound e he hat]
  have hfinish : c.finish found = sort (c.kept found) := rfl
  have hfinish' : c.finish (found.map (relabel label')) =
      sort ((c.kept found).map (relabel label')) := by
    rw [← kept_relabel]
    rfl
  rw [hfinish, hfinish']
  have hmem : ∀ {l : List Diagnostic} {d : Diagnostic}, d ∈ sort l ↔ d ∈ l := mem_mergeSort
  have hperm : ∀ l : List Diagnostic, (sort l).Perm l := fun l => mergeSort_perm l _
  have hlocated' : ∀ d ∈ sort ((c.kept found).map (relabel label')), d.isAtConfig = true →
      d.location.file = label' := by
    intro d hd hat
    obtain ⟨e, -, rfl⟩ := mem_map.1 (hmem.1 hd)
    exact file_relabel (isAtConfig_relabel label' e ▸ hat)
  refine ⟨(hperm _).trans ((hperm _).map _).symm, fun d hd => hkept d (hmem.1 hd), hlocated', ?_⟩
  constructor
  · intro heq
    by_cases hnone : ∀ d ∈ sort (c.kept found), d.isAtConfig = false
    · exact .inr hnone
    · -- a finding on the configuration lies in both places
      push Not at hnone
      obtain ⟨d, hd, hat⟩ := hnone
      have hat := Bool.ne_false_iff.1 hat
      exact .inl ((hlocated' d (heq ▸ hd) hat).symm.trans (hkept d (hmem.1 hd) hat))
  · rintro (rfl | hnone)
    · rw [map_relabel_eq_self hkept]
    · rw [map_relabel_eq_self fun d hd hat => ?_]
      rw [hnone d (hmem.2 hd)] at hat
      cases hat

end Config

/-! ### Phases -/

/-- The scan when the configuration lies elsewhere. -/
def Scan.relabel (label : String) (scan : Scan) : Scan :=
  { scan with diagnostics := scan.diagnostics.map (Diagnostic.relabel label) }

theorem Scan.ofPaths?_relabel (read : String → Except OsError ByteArray) (root : String) (policy : AnalyzerPolicy)
    (extensions : List String) (label label' : String) (paths : List String) :
    ofPaths? read root policy extensions label' paths =
      (ofPaths? read root policy extensions label paths).map (Scan.relabel label') := by
  have hmanifests : (((packageManifests policy paths).map (readPackage read root)).filterMap (·.2)).map
      (Diagnostic.relabel label') = ((packageManifests policy paths).map (readPackage read root)).filterMap (·.2) := by
    refine map_relabel_of_codes ["AG303"] (fun d hd => ?_) (by decide) (by decide)
    obtain ⟨manifest, -, defect, rfl⟩ := of_mem_defects hd
    exact mem_singleton.2 rfl
  have hpatterns : ((unmatched policy paths).map (unmatchedDiagnostic label)).map (Diagnostic.relabel label') =
      (unmatched policy paths).map (unmatchedDiagnostic label') := by
    rw [map_map]
    rfl
  unfold ofPaths?
  dsimp only
  split
  · rfl
  · rw [Option.map_some, Scan.relabel]
    rw [map_append, hmanifests, hpatterns]

theorem Scan.scan_relabel (fs : FileSystem) (root : String) (policy : AnalyzerPolicy) (extensions : List String)
    (label label' : String) (own : Option String) :
    scan fs root policy extensions label' own =
      (scan fs root policy extensions label own).map (Scan.relabel label') := by
  unfold scan
  split
  · rfl
  · dsimp only
    rw [ofPaths?_relabel _ root policy extensions label label']
    cases ofPaths? _ root policy extensions label _ <;> rfl

theorem Graph.map_relabel_build (label : String) (packages : List Package) (config : Config) (files : List SourceFile) :
    (build packages config files).2.map (relabel label) = (build packages config files).2 := by
  refine map_relabel_of_codes ["AG301", "AG203"] (fun d hd => ?_) (by decide) (by decide)
  obtain hd | hd := mem_append.1 hd
  · obtain ⟨file, -, hfile⟩ := mem_filterMap.1 hd
    unfold SourceFile.diagnostic? at hfile
    split at hfile <;> cases hfile
    exact mem_cons_self
  · obtain ⟨link, -, hlink⟩ := mem_filterMap.1 hd
    unfold unresolvedDiagnostic? at hlink
    split at hlink <;> cases hlink
    exact mem_cons_of_mem _ mem_cons_self

theorem Layers.find_relabel (severity : Severity) (context : AnalysisContext) (label : String) :
    find severity { context with configLabel := label } = (find severity context).map (relabel label) := by
  have hviolations : (context.graph.edges.toList.filterMap (violation? severity context)).map
      (relabel label) = context.graph.edges.toList.filterMap (violation? severity context) := by
    refine map_relabel_of_codes ["AG101"] (fun d hd => ?_) (by decide) (by decide)
    obtain ⟨e, -, he⟩ := mem_filterMap.1 hd
    exact mem_singleton.2 (of_violation?_eq_some he).1
  have hcycles : (layerCycles context).map (relabel label) =
      layerCycles { context with configLabel := label } := by
    rw [layerCycles, map_map]
    rfl
  unfold find
  split
  · rfl
  · rw [map_append, hviolations, hcycles]
    rfl

/-- **Analyzers** locate what they find on the configuration at its label, and use the label for nothing else. -/
theorem Check.analyze_relabel {analyzer : Analyzer} (hanalyzer : analyzer ∈ Check.analyzers)
    (context : AnalysisContext) (label : String) :
    (analyzer.analyze { context with configLabel := label }).diagnostics =
      (analyzer.analyze context).diagnostics.map (relabel label) := by
  simp only [Check.analyzers, mem_cons, not_mem_nil, or_false] at hanalyzer
  obtain rfl | rfl | rfl := hanalyzer
  · exact (map_relabel_of_codes _ (fun d hd => (Cycles.of_mem_find hd).1) (by decide) (by decide)).symm
  · exact Layers.find_relabel .error context label
  · exact (map_relabel_of_codes _ (fun d hd => (Dependencies.of_mem_find hd).1) (by decide)
      (by decide)).symm

/-! ### Runs -/

namespace Plan

/-- The plan of the same run with its configuration from another file. -/
def relocate (p : Plan) (origin : Option String) : Plan := { p with config := { p.config with origin } }

variable {p : Plan} {s : Session} {scan : Scan}

/-- What is found in a run by all that is run. -/
def gathered (p : Plan) (scan : Scan) (files : List SourceFile) : List Diagnostic :=
  (Graph.build scan.packages p.config files).2 ++ scan.diagnostics ++
    p.analyzers.flatMap (p.freshFindings (p.context scan files))

theorem scanned_relocate (p : Plan) (origin : Option String) (fs : FileSystem) :
    (p.relocate origin).scanned fs = (p.scanned fs).map (Scan.relabel (p.relocate origin).configLabel) := by
  have hscan := Scan.scan_relabel fs p.root p.config.analyzer p.extensions p.configLabel
    (p.relocate origin).configLabel p.ownIgnoreFile
  change (Scan.scan fs p.root p.config.analyzer p.extensions (p.relocate origin).configLabel
    p.ownIgnoreFile).mapError RunError.scan = _
  rw [hscan, scanned]
  cases Scan.scan fs p.root p.config.analyzer p.extensions p.configLabel p.ownIgnoreFile <;> rfl

section

variable (hanalyzers : p.analyzers = Check.analyzers)
include hanalyzers

theorem gathered_relocate (origin : Option String) (scan : Scan) (files : List SourceFile) :
    (p.relocate origin).gathered (scan.relabel (p.relocate origin).configLabel) files =
      (p.gathered scan files).map (relabel (p.relocate origin).configLabel) := by
  have hfindings : ∀ analyzer ∈ p.analyzers,
      (p.relocate origin).freshFindings
          ((p.relocate origin).context (scan.relabel (p.relocate origin).configLabel) files) analyzer =
        (p.freshFindings (p.context scan files) analyzer).map (relabel (p.relocate origin).configLabel) := by
    intro analyzer hanalyzer
    rw [hanalyzers] at hanalyzer
    -- the origin of the configuration reaches an analyzer only through the label
    have hanalyze : analyzer.analyze
          ((p.relocate origin).context (scan.relabel (p.relocate origin).configLabel) files) =
        analyzer.analyze { p.context scan files with configLabel := (p.relocate origin).configLabel } :=
      analyze_eq_of_sameChecks hanalyzer rfl ⟨rfl, rfl, rfl, rfl⟩ rfl
    have hruns : (p.relocate origin).runs analyzer = p.runs analyzer := rfl
    rw [freshFindings, freshFindings, hanalyze, hruns, Check.analyze_relabel hanalyzer]
    split <;> rfl
  rw [gathered, gathered, map_append, map_append, Graph.map_relabel_build, map_flatMap]
  congr 1
  exact flatMap_congr hfindings

/-- A run locates all findings on the configuration at its label. -/
theorem file_of_mem_gathered (hscan : p.scanned s.files = .ok scan) {files : List SourceFile} {d : Diagnostic}
    (hd : d ∈ p.gathered scan files) (hat : d.isAtConfig = true) : d.location.file = p.configLabel := by
  -- the run is its own relocation, so its findings were relabelled before they were gathered
  have hself : p.relocate p.config.origin = p := rfl
  have hrelabel : scan.relabel p.configLabel = scan := by
    have hscanned := scanned_relocate p p.config.origin s.files
    rw [hself, hscan] at hscanned
    exact (Except.ok.inj hscanned).symm
  have hgathered := gathered_relocate hanalyzers p.config.origin scan files
  rw [hself, hrelabel] at hgathered
  rw [hgathered] at hd
  obtain ⟨e, -, rfl⟩ := mem_map.1 hd
  rw [isAtConfig_relabel] at hat
  exact file_relabel hat

theorem relocated_freshDiagnostics (origin : Option String) (hscan : p.scanned s.files = .ok scan)
    (files : List SourceFile) :
    Relocated p.configLabel (p.relocate origin).configLabel (p.freshDiagnostics scan files)
      ((p.relocate origin).freshDiagnostics (scan.relabel (p.relocate origin).configLabel) files) := by
  have hfile : ∀ d ∈ p.gathered scan files, d.isAtConfig = true → d.location.file = p.configLabel :=
    fun d => file_of_mem_gathered hanalyzers hscan
  have hrelocated := p.config.relocated_finish (p.relocate origin).configLabel hfile
  rw [← gathered_relocate hanalyzers] at hrelocated
  exact hrelocated

end

/-- Whether a run that has its store comes to an end depends on the session alone. -/
theorem freshRest_cases (s : Session) :
    (∃ e, ∀ (p : Plan) (scan : Scan), p.freshRest s scan = .error e) ∨
      ∀ (p : Plan) (scan : Scan),
        p.freshRest s scan = .ok (p.freshReport scan (scan.files.map (p.freshFile s.files))) := by
  unfold freshRest
  cases check s .parse with
  | error e => exact .inl ⟨e, fun _ _ => rfl⟩
  | ok _ =>
    cases check s .build with
    | error e => exact .inl ⟨e, fun _ _ => rfl⟩
    | ok _ =>
      cases check s .analyze with
      | error e => exact .inl ⟨e, fun _ _ => rfl⟩
      | ok _ =>
        cases check s .aggregate with
        | error e => exact .inl ⟨e, fun _ _ => rfl⟩
        | ok _ => exact .inr fun _ _ => rfl

/-- **A run with its configuration from another file** ends as the run does, and its report differs only in where
the findings on the configuration are located. -/
theorem fresh_relocate (hanalyzers : p.analyzers = Check.analyzers) (origin : Option String) (s : Session) :
    (∃ e, p.fresh s = .error e ∧ (p.relocate origin).fresh s = .error e) ∨
      ∃ report report', p.fresh s = .ok report ∧ (p.relocate origin).fresh s = .ok report' ∧
        Relocated p.configLabel (p.relocate origin).configLabel report.diagnostics report'.diagnostics := by
  rw [fresh, fresh, scanned_relocate]
  cases check s .scan with
  | error e => exact .inl ⟨e, rfl, rfl⟩
  | ok _ =>
    cases hscan : p.scanned s.files with
    | error e => exact .inl ⟨e, rfl, rfl⟩
    | ok scan =>
      have hrefusal : (p.relocate origin).refusal? s (scan.relabel (p.relocate origin).configLabel) =
          p.refusal? s scan := by
        -- of the scan, only the packages count here
        have hsame : p.refusal? s (scan.relabel (p.relocate origin).configLabel) = p.refusal? s scan := by
          rw [refusal?, refusal?, Scan.relabel]
        refine refusal?_eq ?_ ?_ ?_ s _ <;> rfl
      simp only [bind, Except.bind, Except.map, freshScanned, hrefusal]
      cases p.refusal? s scan with
      | some error => exact .inl ⟨.cache error, rfl, rfl⟩
      | none =>
        obtain ⟨e, he⟩ | hok := freshRest_cases s
        · exact .inl ⟨e, he _ _, he _ _⟩
        · exact .inr ⟨_, _, hok p scan, hok (p.relocate origin) _, relocated_freshDiagnostics hanalyzers origin hscan _⟩

end Plan

end Cartograph
