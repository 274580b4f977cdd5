import Cartograph.Proofs.Analysis.Places
import Cartograph.Proofs.Run.Pool

/-!
# Reports do not depend on the order of analyses

A report is sorted, and sorting is stable: findings that the order of reports leaves undecided would keep the order
in which they came in, and with it the order of the analyzers. There are no such findings in one run
(`Plan.distinguished_found`): what the scan, the graph and each of the three analyzers find is told apart, and no two
of them share a code. So a report is the same for every order in which the parts are put together
(`Config.finish_eq_of_perm`), and for every order of the analyzers (`Plan.report_eq_of_perm`).
-/

namespace Cartograph

open List

open Diagnostic (Tied Distinguished)

/-! ### Grading and sorting -/

namespace Config

variable {codes : List String} {l m : List Diagnostic}

/-- Grading changes nothing that the order of reports looks at. -/
theorem regrade_keeps (c : Config) (d : Diagnostic) :
    (c.regrade d).location = d.location ∧ (c.regrade d).code = d.code ∧ (c.regrade d).message = d.message := by
  unfold regrade
  split <;> exact ⟨rfl, rfl, rfl⟩

theorem tied_regrade {c : Config} {d e : Diagnostic} (h : Tied (c.regrade d) (c.regrade e)) : Tied d e := by
  obtain ⟨hlocation, hcode, hmessage⟩ := c.regrade_keeps d
  obtain ⟨hlocation', hcode', hmessage'⟩ := c.regrade_keeps e
  obtain ⟨file, line, column, code, message⟩ := h
  rw [hlocation, hlocation'] at file line column
  exact ⟨file, line, column, by rw [← hcode, code, hcode'], by rw [← hmessage, message, hmessage']⟩

theorem distinguished_regrade (c : Config) (h : Distinguished codes l) : Distinguished codes (l.map c.regrade) where
  code d hd := by
    obtain ⟨d, hmem, rfl⟩ := mem_map.1 hd
    rw [(regrade_keeps c d).2.1]
    exact h.code d hmem
  eq_of_tied d hd e he htied := by
    obtain ⟨d, hd', rfl⟩ := mem_map.1 hd
    obtain ⟨e, he', rfl⟩ := mem_map.1 he
    rw [h.eq_of_tied d hd' e he' (tied_regrade htied)]

/-- **Findings that are told apart are reported in one order.** -/
theorem finish_eq_of_perm (c : Config) (h : Distinguished codes l) (hperm : m.Perm l) : c.finish m = c.finish l := by
  have hgraded : Distinguished codes ((l.map c.regrade).filter c.isReported) :=
    (c.distinguished_regrade h).subset fun d hd => (mem_filter.1 hd).1
  exact hgraded.sort_eq_of_perm ((hperm.map c.regrade).filter c.isReported)

end Config

/-! ### Scans -/

/-- **What a scan finds is told apart.** -/
theorem Scan.distinguished_diagnostics {fs : FileSystem} (hfs : fs.IsProper) (honce : (fs.nodes.map (·.1)).Nodup)
    {root : String} {policy : AnalyzerPolicy} {extensions : List String} {label : String} {own : Option String}
    {found : Scan} (h : scan fs root policy extensions label own = .ok found) :
    Distinguished ["AG303", "AG302"] found.diagnostics := by
  obtain ⟨paths, -, hordinary, hfound⟩ := of_scan hfs honce h
  have hmanifests : Distinguished ["AG303"] (((packageManifests policy paths).map
      (readPackage (fun path => fs.read (Path.Spelling.under root path)) root)).filterMap (·.2)) := by
    have hdefect : ∀ d ∈ ((packageManifests policy paths).map
        (readPackage (fun path => fs.read (Path.Spelling.under root path)) root)).filterMap (·.2),
        ∃ manifest, ∃ defect : Manifest.Defect, Path.IsCanonical manifest ∧ d = defect.diagnostic manifest := by
      intro d hd
      obtain ⟨manifest, hmanifest, defect, rfl⟩ := of_mem_defects hd
      exact ⟨manifest, defect, .inr (hordinary manifest (mem_filter.1 hmanifest).1), rfl⟩
    refine .of_alike (fun d hd => ?_) (fun d hd e he => ?_)
    · obtain ⟨manifest, defect, -, rfl⟩ := hdefect d hd
      rfl
    · obtain ⟨manifest, defect, hpath, rfl⟩ := hdefect d hd
      obtain ⟨manifest', defect', hpath', rfl⟩ := hdefect e he
      exact ⟨rfl, Path.eq_of_compare_eq hpath hpath'⟩
  have hpatterns : Distinguished ["AG302"] ((unmatched policy paths).map (unmatchedDiagnostic label)) := by
    refine .of_alike (fun d hd => ?_) (fun d hd e he => ?_)
    · obtain ⟨pattern, -, rfl⟩ := mem_map.1 hd
      rfl
    · obtain ⟨pattern, -, rfl⟩ := mem_map.1 hd
      obtain ⟨other, -, rfl⟩ := mem_map.1 he
      exact ⟨rfl, fun _ => rfl⟩
  rw [(of_ofPaths? hfound).2.2]
  exact hmanifests.append hpatterns (by decide)

/-! ### Runs -/

namespace Plan

/-- All that is found in one run: by building the graph, by the scan, and by the analyzers, also by those whose
category is left out. -/
def found (p : Plan) (scan : Scan) (files : List SourceFile) : List Diagnostic :=
  (Graph.build scan.packages p.config files).2 ++ scan.diagnostics ++
    p.analyzers.flatMap fun analyzer => (analyzer.analyze (p.context scan files)).diagnostics

variable {p : Plan} {a b : Severity} {fs : FileSystem} {scan : Scan} {files : List SourceFile}

/-- What an analyzer finds that is run is among all that is found. -/
theorem freshFindings_subset (p : Plan) (scan : Scan) (files : List SourceFile) :
    p.analyzers.flatMap (p.freshFindings (p.context scan files)) ⊆
      p.analyzers.flatMap fun analyzer => (analyzer.analyze (p.context scan files)).diagnostics := by
  intro d hd
  obtain ⟨analyzer, hanalyzer, hd⟩ := mem_flatMap.1 hd
  refine mem_flatMap.2 ⟨analyzer, hanalyzer, ?_⟩
  unfold freshFindings at hd
  split at hd
  · exact hd
  · cases hd

section

variable (hanalyzers : p.analyzers.Perm [circularImports a, layerBoundaries b, dependencyUsage]) (hfs : fs.IsProper)
  (honce : (fs.nodes.map (·.1)).Nodup) (hscan : p.scanned fs = .ok scan)
  (hfiles : files.map (fun f => (f.path, f.package)) = scan.files)
  (himports : ∀ f ∈ files, (f.imports.map fun item => (item.line, item.column)).Nodup)
include hanalyzers hfs honce hscan hfiles himports

/-- **What is found in one run is told apart.** -/
theorem distinguished_found : ∃ codes, Distinguished codes (p.found scan files) := by
  have hok := scan_eq_ok hscan
  have hregular := Scan.isRegular_of_scan hfs honce hok
  have hlocated := Graph.isLocated_build hregular hfiles himports p.config
  have hcanonical : ∀ f ∈ files, Path.IsCanonical f.path := by
    intro f hf
    have hmem : (f.path, f.package) ∈ scan.files := by
      rw [← hfiles]
      exact mem_map_of_mem hf
    exact hregular.file _ hmem
  have hbuilt : Distinguished _ (Graph.build scan.packages p.config files).2 :=
    Graph.distinguished_build hcanonical p.config
  have hscanned := Scan.distinguished_diagnostics hfs honce hok
  have hcycles : Distinguished _ (Cycles.find a (p.context scan files)) :=
    Cycles.distinguished_find hlocated (Cycles.inRange_fileGraph scan.packages p.config files) a
  have hlayers : Distinguished _ (Layers.find b (p.context scan files)) := Layers.distinguished_find hlocated b
  have hdependencies : Distinguished _ (Dependencies.find (p.context scan files)) :=
    Dependencies.distinguished_find hlocated
  -- no two parts have a code in common, so only findings of one part can be tied
  have hall := (hbuilt.append hscanned (by decide)).append
    (hcycles.append (hlayers.append hdependencies (by decide)) (by decide)) (by decide)
  refine ⟨_, hall.subset (Perm.subset ?_)⟩
  refine Perm.append_left _ ((hanalyzers.flatMap_right _).trans ?_)
  simp only [flatMap_cons, flatMap_nil, append_nil]
  exact .refl _

/-- The findings of a run, whatever the order in which they are put together. -/
theorem finish_eq_freshDiagnostics {analyzers : List Analyzer} {found : List Diagnostic}
    (hperm : analyzers.Perm p.analyzers)
    (hfound : found.Perm ((Graph.build scan.packages p.config files).2 ++ scan.diagnostics ++
      analyzers.flatMap (p.freshFindings (p.context scan files)))) :
    p.config.finish found = p.freshDiagnostics scan files := by
  obtain ⟨codes, hdistinguished⟩ := distinguished_found hanalyzers hfs honce hscan hfiles himports
  -- leaving out analyzers leaves out findings, and the others are still told apart
  refine p.config.finish_eq_of_perm (hdistinguished.subset ?_)
    (hfound.trans (Perm.append_left _ (hperm.flatMap_right _)))
  exact append_subset.2 ⟨subset_append_left _ _,
    fun d hd => mem_append_right _ (p.freshFindings_subset scan files hd)⟩

end

/-- **Reports do not depend on the order of analyses.** Two findings of one run between which the order of reports
does not decide are the same finding. So the findings are reported in one order, whatever the order of the analyzers
and whatever the order in which the partial results are put together; and a run without a store gives one report,
whatever the order of its analyzers. -/
theorem report_eq_of_perm
    (hanalyzers : p.analyzers.Perm [circularImports a, layerBoundaries b, dependencyUsage])
    (hfs : fs.IsProper) (honce : (fs.nodes.map (·.1)).Nodup) (hscan : p.scanned fs = .ok scan)
    (hfiles : files.map (fun f => (f.path, f.package)) = scan.files)
    (himports : ∀ f ∈ files, (f.imports.map fun item => (item.line, item.column)).Nodup) :
    (∀ d ∈ p.found scan files, ∀ e ∈ p.found scan files, Diagnostic.compare d e = .eq → d = e) ∧
      ∀ analyzers : List Analyzer, analyzers.Perm p.analyzers →
        (∀ found : List Diagnostic,
          found.Perm ((Graph.build scan.packages p.config files).2 ++ scan.diagnostics ++
            analyzers.flatMap (p.freshFindings (p.context scan files))) →
          p.config.finish found = p.freshDiagnostics scan files) ∧
        ∀ s : Session, s.files = fs → files = scan.files.map (p.freshFile fs) → p.config.cache.enabled = false →
          (∀ language ∈ p.languages, ∀ path text, (language.read path text).cancels = false) →
          (exec { p with analyzers := analyzers }.run s).1.map Report.withoutCache =
            (exec p.run s).1.map Report.withoutCache := by
  refine ⟨fun d hd e he h => ?_, fun analyzers hperm => ⟨fun found hfound => ?_, ?_⟩⟩
  · obtain ⟨codes, hdistinguished⟩ := distinguished_found hanalyzers hfs honce hscan hfiles himports
    exact hdistinguished.eq_of_tied d hd e he (Diagnostic.tied_of_compare_eq h)
  · exact finish_eq_freshDiagnostics hanalyzers hfs honce hscan hfiles himports hperm hfound
  · rintro s rfl hread hcache hlanguages
    have hquiet : ∀ analyzers : List Analyzer, analyzers.Perm p.analyzers →
        IsQuiet { p with analyzers := analyzers } := by
      intro analyzers hperm
      refine ⟨hlanguages, fun analyzer hanalyzer context => ?_⟩
      have hmem := (hperm.trans hanalyzers).mem_iff.1 hanalyzer
      simp only [mem_cons, not_mem_nil, or_false] at hmem
      obtain rfl | rfl | rfl := hmem <;> rfl
    -- a run without a store is the same as one that computes everything afresh
    have hfresh : (Plan.fresh { p with analyzers := analyzers } s).map id = (p.fresh s).map id := by
      have hscanned : Plan.scanned { p with analyzers := analyzers } s.files = p.scanned s.files := rfl
      refine map_fresh_eq hscanned (fun scan => ?_) fun scan' hscan' => ?_
      · refine refusal?_eq ?_ ?_ ?_ s scan <;> rfl
      obtain rfl : scan = scan' := Except.ok.inj (hscan.symm.trans hscan')
      have hsame : Plan.freshDiagnostics { p with analyzers := analyzers } scan files =
          p.freshDiagnostics scan files :=
        finish_eq_freshDiagnostics hanalyzers hfs honce hscan hfiles himports hperm (.refl _)
      change Plan.freshReport { p with analyzers := analyzers } scan (scan.files.map (p.freshFile s.files)) = _
      rw [← hread, freshReport, hsame]
      rfl
    calc (exec { p with analyzers := analyzers }.run s).1.map Report.withoutCache
      _ = Plan.fresh { p with analyzers := analyzers } s := ((hquiet analyzers hperm).exec_run hcache s).1
      _ = p.fresh s := by simpa only [Except.map_id, id] using hfresh
      _ = (exec p.run s).1.map Report.withoutCache := ((hquiet p.analyzers (.refl _)).exec_run hcache s).1.symm

end Plan

/-- A language in which every line of a file names what it imports. -/
def lineLanguage : Language where
  id := "lines"
  extensions := ["ts"]
  read _ source :=
    { outcome := .parsed { imports := (source.toList.splitOn '\n').zipIdx.map fun (line, i) =>
        ⟨String.ofList line, .static, i + 1, 1⟩ } }

/-- A workspace whose module has an import twice that leads out of it, and with a dependency that is not used. -/
def mixedFiles : FileSystem :=
  { nodes := [(["w"], .dir), (["w", "a.ts"], .file "../y\n../y".toByteArray),
      (["w", "package.json"], .file "\x7b\"dependencies\":\x7b\"x\":\"1\"\x7d\x7d".toByteArray)] }

/-- A run over it without a store, with a pattern that no package matches. -/
def mixedPlan : Plan where
  root := FileSystem.spell ["w"]
  config :=
    { analyzer := { respectIgnoreFiles := false, packages := patterns [".", "lib"] }
      cache := { enabled := false } }
  languages := [lineLanguage]
  analyzers := Check.analyzers

theorem mixedPlan_isQuiet : mixedPlan.IsQuiet where
  read language hlanguage path text := by
    rw [mem_singleton.1 hlanguage]
    rfl
  analyze analyzer hanalyzer context := by
    simp only [mixedPlan, Check.analyzers, mem_cons, not_mem_nil, or_false] at hanalyzer
    obtain rfl | rfl | rfl := hanalyzer <;> rfl

theorem mixedFiles_isProper : mixedFiles.IsProper := by decide +kernel

/-- What a scan picks from the paths of that workspace. -/
def mixedScan? : Option Scan :=
  Scan.ofPaths? (fun path => mixedFiles.read (Path.Spelling.under mixedPlan.root path)) mixedPlan.root
    mixedPlan.config.analyzer mixedPlan.extensions mixedPlan.configLabel ["a.ts", "package.json"]

theorem scanned_mixedFiles {scan : Scan} (h : mixedScan? = some scan) : mixedPlan.scanned mixedFiles = .ok scan := by
  -- sorting does not compute in the kernel: the paths are left under it, and are sorted already
  have hsorted : Workspace.walk mixedFiles mixedPlan.root false none =
      .ok (["a.ts", "package.json"].mergeSort (· ≤ ·)) := rfl
  have hwalk : Workspace.walk mixedFiles mixedPlan.root mixedPlan.config.analyzer.respectIgnoreFiles
      mixedPlan.ownIgnoreFile = .ok ["a.ts", "package.json"] := by
    rw [← mergeSort_of_pairwise (by decide : ["a.ts", "package.json"].Pairwise (decide <| · ≤ ·))]
    exact hsorted
  exact Plan.scanned_of_walk hwalk h

theorem exists_mixedScan? : ∃ scan, mixedScan? = some scan ∧
    (∀ f ∈ scan.files.map (mixedPlan.freshFile mixedFiles),
      f.imports.map (fun item => (item.line, item.column)) = [(1, 1), (2, 1)]) ∧
    (mixedPlan.found scan (scan.files.map (mixedPlan.freshFile mixedFiles))).map (·.code) =
      ["AG203", "AG203", "AG302", "AG201"] := by
  have hfound : mixedScan?.any (fun scan =>
      (scan.files.map (mixedPlan.freshFile mixedFiles)).all
          (·.imports.map (fun item => (item.line, item.column)) == [(1, 1), (2, 1)]) &&
        (mixedPlan.found scan (scan.files.map (mixedPlan.freshFile mixedFiles))).map (·.code) ==
          ["AG203", "AG203", "AG302", "AG201"]) = true := by decide +kernel
  rw [Option.any_eq_true] at hfound
  obtain ⟨scan, hscan, hall⟩ := hfound
  rw [Bool.and_eq_true, all_eq_true, beq_iff_eq] at hall
  exact ⟨scan, hscan, fun f hf => beq_iff_eq.1 (hall.1 f hf), hall.2⟩

/-- The analyzers in another order give the same report of two imports that cannot be told apart but by their places. -/
theorem Plan.report_eq_of_perm_reverse :
    ∃ scan, mixedPlan.scanned mixedFiles = .ok scan ∧
      (mixedPlan.found scan (scan.files.map (mixedPlan.freshFile mixedFiles))).map (·.code) =
        ["AG203", "AG203", "AG302", "AG201"] ∧
      (exec { mixedPlan with analyzers := Check.analyzers.reverse }.run { files := mixedFiles }).1.map
        Report.withoutCache = (exec mixedPlan.run { files := mixedFiles }).1.map Report.withoutCache := by
  obtain ⟨scan, hscan, himports, hcodes⟩ := exists_mixedScan?
  have hnodup : ∀ f ∈ scan.files.map (mixedPlan.freshFile mixedFiles),
      (f.imports.map fun item => (item.line, item.column)).Nodup := by
    intro f hf
    rw [himports f hf]
    decide
  have hreport := report_eq_of_perm (p := mixedPlan) (a := .error) (b := .error) (.refl _) mixedFiles_isProper
    (by decide) (scanned_mixedFiles hscan) (map_freshFile mixedPlan mixedFiles scan.files) hnodup
  exact ⟨scan, scanned_mixedFiles hscan, hcodes,
    (hreport.2 _ (reverse_perm _)).2 _ rfl rfl rfl mixedPlan_isQuiet.read⟩

end Cartograph
