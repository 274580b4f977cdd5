import Cartograph.Proofs.Analysis.Missing
import Cartograph.Proofs.Run.Categories

/-!
# Missing dependencies stay in the report

A configuration can choose the severity of missing dependencies, give the findings on dependencies another severity, and
leave out what is below some severity. It cannot take a missing dependency below a warning: the analyzer sets a floor
before anything else can see the finding, and grading keeps to the floor (`Diagnostic.meetsFloor_changed`). So a report
that shows warnings has one finding for each name that a package lacks, with any settings
(`Plan.exec_run_keepsMissing`).

The analyzer finds each of them once (`Dependencies.reportsLacking_find`), and the way from the findings to the report
loses none: the store gives back what was stored, and the filter on severities lets pass what is at least a warning.
-/

namespace Cartograph

open Dependencies List

/-! ### Grading -/

namespace Config

theorem floor_regrade (c : Config) (d : Diagnostic) : (c.regrade d).floor = d.floor := by
  rw [regrade_eq_changed]
  apply Diagnostic.floor_changed
  intro change hchange least
  obtain ⟨severity, -, rfl⟩ := mem_map.1 hchange
  exact nofun

theorem meetsFloor_regrade (c : Config) {d : Diagnostic} (h : d.MeetsFloor) : (c.regrade d).MeetsFloor := by
  rw [regrade_eq_changed]
  exact Diagnostic.meetsFloor_changed (.inl h)

end Config

namespace Dependencies

variable {g : Graph} {policy : DependencyPolicy} {i : Nat} {name : String} {d : Diagnostic}
  {found other : List Diagnostic}

theorem meetsFloor_missing (policy : DependencyPolicy) (g : Graph) (k : Package) (name : String) (first : Edge)
    (rest : List Edge) : (missing policy g k name first rest).MeetsFloor := by
  rw [missing_eq_changed]
  exact Diagnostic.meetsFloor_changed (.inr ⟨.floor .warning, mem_cons_self, rfl⟩)

/-- **A missing dependency is at least a warning**, whatever severity the configuration gives it. -/
theorem warning_le_regrade (c : Config) {context : AnalysisContext} (hd : d ∈ find context) (hcode : d.code = "AG202") :
    .warning ≤ (c.regrade d).severity := by
  have hmem : d ∈ (rows context.config.dependencies context.graph).map (·.2) := by
    rw [map_rows]
    exact mem_filter.2 ⟨hd, decide_eq_true hcode⟩
  obtain ⟨row, hrow, rfl⟩ := mem_map.1 hmem
  obtain ⟨p, -, -, hmissing⟩ := mem_rows.1 hrow
  obtain ⟨first, rest, -, hrow⟩ := of_missing? hmissing
  rw [hrow]
  apply c.meetsFloor_regrade (meetsFloor_missing _ _ _ _ _ _)
  rw [c.floor_regrade, floor_missing]

theorem Tells.regrade (h : Tells g policy i name d) (c : Config) : Tells g policy i name (c.regrade d) := by
  obtain ⟨hlocation, hcode, hmessage, hcategory⟩ :=
    d.changed_keeps ((c.categories d.category).severity.toList.map .grade)
  rw [← c.regrade_eq_changed] at hlocation hcode hmessage hcategory
  obtain ⟨code, category, ⟨e, he, place⟩, p, hp, message⟩ := h
  exact ⟨hcode.trans code, hcategory.trans category, ⟨e, he, hlocation.trans place⟩, p, hp, hmessage.trans message⟩

theorem ReportsLacking.regrade (h : ReportsLacking g policy found) (c : Config) :
    ReportsLacking g policy (found.map c.regrade) := by
  obtain ⟨table, hnodup, hpairs, htells, hperm⟩ := h
  refine ⟨table.map fun row => (row.1, c.regrade row.2), ?_, ?_, ?_, ?_⟩
  · rw [map_map]
    exact hnodup
  · intro i name
    rw [map_map]
    exact hpairs i name
  · intro row hrow
    obtain ⟨old, hold, rfl⟩ := mem_map.1 hrow
    exact (htells old hold).regrade c
  · rw [map_map]
    have hgraded := hperm.map c.regrade
    rwa [map_map] at hgraded

theorem ReportsLacking.of_perm (h : ReportsLacking g policy found)
    (hperm : found.Perm other) : ReportsLacking g policy other := by
  obtain ⟨table, hnodup, hpairs, htells, htable⟩ := h
  exact ⟨table, hnodup, hpairs, htells, htable.trans hperm⟩

end Dependencies

namespace Plan

/-! ### From findings to the report -/

variable {p : Plan} {s : Session} {scan : Scan} {files : List SourceFile}

/-- Other analyzers find no missing dependencies. -/
theorem filter_freshFindings {analyzer : Analyzer} (hanalyzer : analyzer ∈ Check.analyzers)
    (hcode : "AG202" ∉ analyzer.codes) (context : AnalysisContext) :
    (p.freshFindings context analyzer).filter (·.code = "AG202") = [] := by
  rw [filter_eq_nil_iff]
  intro d hd hmissing
  unfold freshFindings at hd
  split at hd
  · apply hcode
    rw [← of_decide_eq_true hmissing]
    exact (Check.of_mem_analyze hanalyzer hd).1
  · cases hd

/-- Missing dependencies are what one analyzer finds. -/
theorem filter_findings (hanalyzers : p.analyzers = Check.analyzers) (hscan : p.scanned s.files = .ok scan) :
    ((Graph.build scan.packages p.config files).2 ++ scan.diagnostics ++
        p.analyzers.flatMap (p.freshFindings (p.context scan files))).filter (·.code = "AG202") =
      (p.freshFindings (p.context scan files) dependencyUsage).filter (·.code = "AG202") := by
  obtain ⟨paths, -, hfound⟩ := IsFor.of_scanned hscan
  have hbuilt : (Graph.build scan.packages p.config files).2.filter (·.code = "AG202") = [] := by
    rw [filter_eq_nil_iff]
    intro d hd
    obtain hcode | hcode := Graph.code_of_mem_build hd <;> simp [hcode]
  have hscanned : scan.diagnostics.filter (·.code = "AG202") = [] := by
    rw [filter_eq_nil_iff]
    intro d hd
    obtain hcode | hcode := Scan.code_of_mem_diagnostics hfound hd <;> simp [hcode]
  -- of the three analyzers two have other codes
  have hcycles := @filter_freshFindings p circularImports (by simp [Check.analyzers]) (by decide)
  have hlayers := @filter_freshFindings p layerBoundaries (by simp [Check.analyzers]) (by decide)
  rw [filter_append, filter_append, hbuilt, hscanned, hanalyzers, Check.analyzers, flatMap_cons,
    flatMap_cons, flatMap_singleton, filter_append, filter_append, hcycles, hlayers]
  rfl

/-- What a report is to say about missing dependencies. -/
structure KeepsMissing (config : Config) (g : Graph) (found : List Diagnostic) : Prop where
  severity : ∀ d ∈ found, d.code = "AG202" → .warning ≤ d.severity
  reported : (config.categories .dependency).enabled = true → config.analyzer.minSeverity ≤ .warning →
    ReportsLacking g config.dependencies (found.filter (·.code = "AG202"))

/-- The missing dependencies of a report are those that the analyzer finds, graded and filtered. -/
theorem filter_freshDiagnostics (hanalyzers : p.analyzers = Check.analyzers) (hscan : p.scanned s.files = .ok scan) :
    (p.freshDiagnostics scan files).filter (·.code = "AG202") =
      p.config.finish ((p.freshFindings (p.context scan files) dependencyUsage).filter (·.code = "AG202")) := by
  -- grading keeps the code, so it makes no difference which of the two is done first
  have hkeep : ∀ d, decide ((p.config.regrade d).code = "AG202") = decide (d.code = "AG202") := by
    intro d
    rw [p.config.regrade_eq_changed, (d.changed_keeps _).2.1]
  rw [freshDiagnostics, ← Config.finish_filter _ hkeep, filter_findings hanalyzers hscan]

/-- **What is found afresh keeps missing dependencies.** -/
theorem keepsMissing_freshDiagnostics (hanalyzers : p.analyzers = Check.analyzers)
    (hscan : p.scanned s.files = .ok scan) (files : List SourceFile) :
    KeepsMissing p.config (p.context scan files).graph (p.freshDiagnostics scan files) where
  severity := by
    intro d hd hcode
    have hmem : d ∈ (p.freshDiagnostics scan files).filter (·.code = "AG202") :=
      mem_filter.2 ⟨hd, decide_eq_true hcode⟩
    rw [filter_freshDiagnostics hanalyzers hscan, Config.finish, Diagnostic.sort, mem_mergeSort] at hmem
    obtain ⟨found, hfound, rfl⟩ := mem_map.1 (mem_filter.1 hmem).1
    obtain ⟨hfound, hmissing⟩ := mem_filter.1 hfound
    unfold freshFindings at hfound
    split at hfound
    · exact warning_le_regrade p.config hfound (of_decide_eq_true hmissing)
    · cases hfound
  reported := by
    intro henabled hshown
    have hruns : p.runs dependencyUsage = true := henabled
    have hfound : p.freshFindings (p.context scan files) dependencyUsage = find (p.context scan files) := by
      rw [freshFindings, if_pos hruns]
      rfl
    -- nothing is left out on the way: every finding is of a category that is shown, and at least a warning
    have hreported : ∀ d ∈ ((find (p.context scan files)).filter (·.code = "AG202")).map p.config.regrade,
        p.config.isReported d = true := by
      intro d hd
      obtain ⟨found, hmem, rfl⟩ := mem_map.1 hd
      obtain ⟨hmem, hmissing⟩ := mem_filter.1 hmem
      have hwarning := warning_le_regrade p.config hmem (of_decide_eq_true hmissing)
      rw [Config.isReported, Config.category_regrade, (of_mem_find hmem).2, henabled]
      simpa using Severity.le_trans hshown hwarning
    rw [filter_freshDiagnostics hanalyzers hscan, hfound, Config.finish, filter_eq_self.2 hreported]
    -- what is left is sorted, which the table of the findings allows for
    have hlacking := (reportsLacking_find (p.context scan files)).regrade p.config
    exact hlacking.of_perm (mergeSort_perm _ _).symm

/-! ### Runs -/

/-- A run of all analyzers that is reliable, or that has no store and languages that do not end it. -/
def RunsAll (p : Plan) (s : Session) : Prop :=
  p.IsReliable s ∨ p.analyzers = Check.analyzers ∧ p.IsQuiet ∧ p.config.cache.enabled = false

theorem RunsAll.analyzers (h : p.RunsAll s) : p.analyzers = Check.analyzers := h.elim (·.analyzers) (·.1)

theorem RunsAll.exec_run (h : p.RunsAll s) :
    (exec p.run s).1.map (·.diagnostics) = (p.fresh s).map (·.diagnostics) := by
  obtain h | ⟨-, hquiet, hcache⟩ := h
  · exact h.exec_run id
  · rw [← (hquiet.exec_run hcache s).1]
    cases (exec p.run s).1 <;> rfl

/-- **Missing dependencies cannot be configured away.** Whatever is done to a finding, its severity is not below its
floor. So the missing dependencies in a report are at least warnings, and a report that shows warnings on dependencies
has one for each name that a package of the workspace lacks. -/
theorem exec_run_keepsMissing (h : p.RunsAll s) {report : Report} (hrun : (exec p.run s).1 = .ok report) :
    (∀ (d : Diagnostic) (changes : List Diagnostic.Change),
        (d.MeetsFloor ∨ ∃ change ∈ changes, change.isGrading = true) → (d.changed changes).MeetsFloor) ∧
      ∃ scan, p.scanned s.files = .ok scan ∧
        KeepsMissing p.config (p.context scan (scan.files.map (p.freshFile s.files))).graph report.diagnostics := by
  refine ⟨fun d changes => Diagnostic.meetsFloor_changed, ?_⟩
  obtain ⟨scan, hscan, hdiagnostics⟩ := of_exec_run_eq_fresh h.exec_run hrun
  rw [hdiagnostics]
  exact ⟨scan, hscan, keepsMissing_freshDiagnostics h.analyzers hscan _⟩

end Plan

/-! ### Settings that would hide a missing dependency -/

/-- A language in which a file is the name of what it imports. -/
def nameLanguage : Language where
  id := "name"
  extensions := ["ts"]
  read _ source := { outcome := .parsed { imports := [⟨source, .static, 1, 1⟩] } }

/-- A run that takes missing dependencies and all findings for remarks, and shows warnings only. -/
def lenientPlan : Plan where
  root := FileSystem.spell ["w"]
  config :=
    { analyzer := { respectIgnoreFiles := false, minSeverity := .warning }
      cache := { enabled := false }
      dependencies := { missingSeverity := .info }
      categories := fun _ => { severity := some .info } }
  languages := [nameLanguage]
  analyzers := Check.analyzers

/-- A workspace with a module that imports `zod`, and a manifest that declares nothing. -/
def lenientFiles : FileSystem :=
  { nodes := [(["w"], .dir), (["w", "a.ts"], .file "zod".toByteArray),
      (["w", "package.json"], .file "\x7b\x7d".toByteArray)] }

/-- What a scan picks from the paths of that workspace. -/
def lenientScan? : Option Scan :=
  Scan.ofPaths? (fun path => lenientFiles.read (Path.Spelling.under lenientPlan.root path)) lenientPlan.root
    lenientPlan.config.analyzer lenientPlan.extensions lenientPlan.configLabel ["a.ts", "package.json"]

theorem scanned_lenientFiles {scan : Scan} (h : lenientScan? = some scan) :
    lenientPlan.scanned lenientFiles = .ok scan := by
  -- as the paths are sorted already, sorting them need not be evaluated
  have hsorted : Workspace.walk lenientFiles lenientPlan.root false none =
      .ok (["a.ts", "package.json"].mergeSort (· ≤ ·)) := rfl
  rw [mergeSort_of_pairwise (by decide)] at hsorted
  exact Plan.scanned_of_walk hsorted h

theorem runsAll_lenientPlan : lenientPlan.RunsAll { files := lenientFiles } := by
  refine .inr ⟨rfl, ⟨?_, ?_⟩, rfl⟩
  · intro language hlanguage path text
    rw [mem_singleton.1 hlanguage]
    rfl
  · intro analyzer hanalyzer context
    simp only [lenientPlan, Check.analyzers, mem_cons, not_mem_nil, or_false] at hanalyzer
    obtain rfl | rfl | rfl := hanalyzer <;> rfl

/-- What the modules of that workspace and their imports are. -/
def lenientGraph (scan : Scan) : Graph :=
  (lenientPlan.context scan (scan.files.map (lenientPlan.freshFile lenientFiles))).graph

theorem exists_lenientScan? : ∃ scan, lenientScan? = some scan ∧
    Lacks (lenientGraph scan) lenientPlan.config.dependencies 0 "zod" := by
  have hrows : lenientScan?.any (fun scan =>
      (rows lenientPlan.config.dependencies (lenientGraph scan)).map (·.1) = [(0, "zod")]) = true := by
    decide +kernel
  rw [Option.any_eq_true] at hrows
  obtain ⟨scan, hscan, hrows⟩ := hrows
  refine ⟨scan, hscan, mem_map_rows.1 ?_⟩
  rw [of_decide_eq_true hrows]
  exact mem_cons_self

/-- The missing dependency is reported as a warning. -/
theorem Plan.exec_run_keepsMissing_lenient :
    lenientPlan.RunsAll { files := lenientFiles } ∧
      ∃ report, (exec lenientPlan.run { files := lenientFiles }).1 = .ok report ∧
        ∃ d ∈ report.diagnostics, d.code = "AG202" ∧ .warning ≤ d.severity := by
  obtain ⟨scan, hscan, hlacks⟩ := exists_lenientScan?
  have hfresh : lenientPlan.fresh { files := lenientFiles } = .ok (lenientPlan.freshReport scan
      (scan.files.map (lenientPlan.freshFile lenientFiles))) := by
    rw [fresh, scanned_lenientFiles hscan]
    rfl
  have hrun := runsAll_lenientPlan.exec_run
  rw [hfresh] at hrun
  cases hreport : (exec lenientPlan.run { files := lenientFiles }).1 with
  | error e => rw [hreport] at hrun; cases hrun
  | ok report =>
    obtain ⟨-, scan', hscan', hkeeps⟩ := exec_run_keepsMissing runsAll_lenientPlan hreport
    cases (scanned_lenientFiles hscan).symm.trans hscan'
    obtain ⟨table, -, hpairs, htells, hperm⟩ := hkeeps.reported rfl (by decide)
    obtain ⟨row, hrow, -⟩ := mem_map.1 ((hpairs 0 "zod").2 hlacks)
    have hmem := (mem_filter.1 (hperm.mem_iff.1 (mem_map_of_mem hrow))).1
    have hcode := (htells row hrow).code
    exact ⟨runsAll_lenientPlan, report, rfl, row.2, hmem, hcode, hkeeps.severity _ hmem hcode⟩

end Cartograph
