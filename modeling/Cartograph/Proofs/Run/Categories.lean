import Cartograph.Proofs.Analysis.Codes
import Cartograph.Proofs.Diagnostic.Order
import Cartograph.Proofs.Run.Transparency

/-!
# Leaving out a category

A category is left out in two places: analyzers of the category are not run, and what others found in the category
is not reported. So the report of a run without a category is that of the run with it, in the same order, without
the findings of the category, and without what analyzers of the category found in others. The only such findings
are circles of layers: the analyzer for layer boundaries is of the category `architecture`, but a circle of layers
is a finding on the configuration (`Plan.exec_run_disable`).
-/

namespace Cartograph

open Diagnostic Config List
open Digest (Collisionless)
open FileSystem (spell)

/-- Whether a finding is reported still when a category is left out. -/
def Diagnostic.survives (X : Category) (d : Diagnostic) : Bool :=
  d.category != X && !(X == .architecture && d.isLayerCircle)

/-! ### Reports without a category -/

namespace Config

/-- The configuration without a category. -/
def disable (c : Config) (X : Category) (fingerprint : String) : Config :=
  { c with
    categories := fun k => { c.categories k with enabled := (c.categories k).enabled && k != X }
    fingerprint }

theorem regrade_disable (c : Config) (X : Category) (fingerprint : String) :
    (c.disable X fingerprint).regrade = c.regrade := by
  rfl

theorem isReported_disable (c : Config) (X : Category) (fingerprint : String) (d : Diagnostic) :
    (c.disable X fingerprint).isReported d = (d.category != X && c.isReported d) := by
  rw [isReported, isReported, ← Bool.and_assoc, Bool.and_comm (d.category != X)]
  rfl

theorem category_regrade (c : Config) (d : Diagnostic) : (c.regrade d).category = d.category := by
  unfold regrade
  split <;> rfl

theorem isLayerCircle_regrade (c : Config) (d : Diagnostic) : (c.regrade d).isLayerCircle = d.isLayerCircle := by
  unfold regrade
  split <;> rfl

/-- Whether circles of layers are reported: there is one, the analyzer that finds them is run, and findings on the
configuration are kept with the severity that they get. -/
structure ReportsCircles (c : Config) : Prop where
  runs : (c.categories .architecture).enabled = true
  configuration : (c.categories .configuration).enabled = true
  severity : c.analyzer.minSeverity ≤ (c.categories .configuration).severity.getD .warning
  cycle : ∃ cycle, (Layers.allowGraph c.layers.layers).IsCycle cycle

theorem isReported_layerCycle (c : Config) {label : String} {names : List String} :
    c.isReported (c.regrade (Layers.layerCycle label names)) = true ↔
      (c.categories .configuration).enabled = true ∧
        c.analyzer.minSeverity ≤ (c.categories .configuration).severity.getD .warning := by
  have hseverity : (c.regrade (Layers.layerCycle label names)).severity =
      (c.categories .configuration).severity.getD .warning := by
    have hcategory : (Layers.layerCycle label names).category = .configuration := rfl
    rw [regrade, hcategory]
    cases (c.categories .configuration).severity <;> rfl
  rw [isReported, category_regrade, hseverity, Bool.and_eq_true, decide_eq_true_iff]
  rfl

/-- What is left out before findings are regraded and sorted may as well be left out after it. -/
theorem finish_filter (c : Config) {keep : Diagnostic → Bool} (hkeep : ∀ d, keep (c.regrade d) = keep d)
    (found : List Diagnostic) : c.finish (found.filter keep) = (c.finish found).filter keep := by
  have hcomp : keep ∘ c.regrade = keep := funext hkeep
  have hmap : (found.filter keep).map c.regrade = (found.map c.regrade).filter keep := by
    rw [filter_map, hcomp]
  rw [finish, finish, ← sort_filter, hmap, filter_filter, filter_filter]
  simp only [Bool.and_comm]

theorem finish_disable (c : Config) (X : Category) (fingerprint : String) (found : List Diagnostic) :
    (c.disable X fingerprint).finish found = c.finish (found.filter fun d => d.category != X) := by
  rw [finish_filter c fun d => by rw [category_regrade], finish, finish, regrade_disable, ← sort_filter,
    filter_filter]
  congr 2
  exact funext (isReported_disable c X fingerprint)

end Config

namespace Plan

/-- The plan of the same run without a category. -/
def disable (p : Plan) (X : Category) (fingerprint : String) : Plan :=
  { p with config := p.config.disable X fingerprint }

variable {p : Plan} {s : Session} {scan : Scan} {report : Report}

section

variable (hanalyzers : p.analyzers = Check.analyzers)
include hanalyzers

/-- Without a category, what is found is the same, up to findings that are not reported then. -/
theorem freshFindings_disable (X : Category) (fingerprint : String) (files : List SourceFile) {analyzer : Analyzer}
    (hanalyzer : analyzer ∈ p.analyzers) :
    ((p.disable X fingerprint).freshFindings ((p.disable X fingerprint).context scan files) analyzer).filter
        (fun d => d.category != X) =
      (p.freshFindings (p.context scan files) analyzer).filter (survives X) := by
  rw [hanalyzers] at hanalyzer
  have hanalyze : analyzer.analyze ((p.disable X fingerprint).context scan files) =
      analyzer.analyze (p.context scan files) :=
    analyze_eq_of_sameChecks hanalyzer rfl ⟨rfl, rfl, rfl, rfl⟩ rfl
  have hruns : (p.disable X fingerprint).runs analyzer = (p.runs analyzer && analyzer.category != X) := rfl
  rw [freshFindings, freshFindings, hanalyze, hruns]
  cases p.runs analyzer with
  | false => rfl
  | true =>
    by_cases hcategory : analyzer.category = X
    · -- an analyzer of the category is not run, and nothing that it finds survives
      rw [if_neg (by simp [hcategory]), filter_nil, eq_comm, filter_eq_nil_iff]
      intro d hd
      obtain ⟨-, hfound⟩ | ⟨rfl, names, rfl⟩ := (Check.of_mem_analyze hanalyzer hd).2
      · simp [survives, hfound, hcategory]
      · rw [← hcategory]
        exact Bool.false_ne_true
    · -- a circle that another analyzer finds would be one of the category `architecture`
      rw [if_pos (by simpa using hcategory)]
      refine filter_congr fun d hd => ?_
      obtain ⟨hcircle, -⟩ | ⟨rfl, -⟩ := (Check.of_mem_analyze hanalyzer hd).2
      · simp [survives, hcircle]
      · have hX : X ≠ .architecture := Ne.symm hcategory
        simp [survives, hX]

/-- **The findings of a run without a category.** -/
theorem freshDiagnostics_disable (X : Category) (fingerprint : String) (hscan : p.scanned s.files = .ok scan)
    (files : List SourceFile) :
    (p.disable X fingerprint).freshDiagnostics scan files = (p.freshDiagnostics scan files).filter (survives X) := by
  have hsurvives : ∀ l : List Diagnostic, (∀ d ∈ l, d.isLayerCircle = false) →
      l.filter (fun d => d.category != X) = l.filter (survives X) := by
    intro l hl
    refine filter_congr fun d hd => ?_
    simp [survives, hl d hd]
  obtain ⟨paths, -, hfound⟩ := IsFor.of_scanned hscan
  have hfilter : ∀ d, (p.config.regrade d).survives X = d.survives X := by
    intro d
    rw [survives, category_regrade, isLayerCircle_regrade, survives]
  rw [freshDiagnostics, freshDiagnostics, ← finish_filter _ hfilter]
  change (p.config.disable X fingerprint).finish ((Graph.build scan.packages p.config files).2 ++ scan.diagnostics ++
    p.analyzers.flatMap ((p.disable X fingerprint).freshFindings ((p.disable X fingerprint).context scan files))) = _
  rw [finish_disable, filter_append, filter_append, filter_append, filter_append,
    hsurvives _ fun d => Graph.not_isLayerCircle, hsurvives _ fun d => Scan.not_isLayerCircle hfound,
    filter_flatMap, filter_flatMap]
  congr 2
  exact flatMap_congr fun analyzer => freshFindings_disable hanalyzers X fingerprint files

/-- What is said about the circles of layers in a report. -/
theorem of_isLayerCircle (hscan : p.scanned s.files = .ok scan) {files : List SourceFile} {d : Diagnostic}
    (hd : d ∈ p.freshDiagnostics scan files) (hcircle : d.isLayerCircle = true) :
    d.category = .configuration ∧ p.config.ReportsCircles := by
  obtain ⟨paths, -, hfound⟩ := IsFor.of_scanned hscan
  rw [freshDiagnostics, finish, sort, mem_mergeSort] at hd
  obtain ⟨hd, hreported⟩ := mem_filter.1 hd
  obtain ⟨e, he, rfl⟩ := mem_map.1 hd
  rw [isLayerCircle_regrade] at hcircle
  obtain he | he := mem_append.1 he
  · obtain he | he := mem_append.1 he
    · rw [Graph.not_isLayerCircle he] at hcircle
      cases hcircle
    · rw [Scan.not_isLayerCircle hfound he] at hcircle
      cases hcircle
  · obtain ⟨analyzer, hanalyzer, he⟩ := mem_flatMap.1 he
    rw [freshFindings] at he
    split at he
    · next hruns =>
      obtain ⟨hnot, -⟩ | ⟨rfl, names, rfl⟩ := (Check.of_mem_analyze (hanalyzers ▸ hanalyzer) he).2
      · rw [hnot] at hcircle
        cases hcircle
      · obtain ⟨hconfiguration, hseverity⟩ := p.config.isReported_layerCycle.1 hreported
        exact ⟨p.config.category_regrade _, hruns, hconfiguration, hseverity,
          (Layers.exists_mem_find_iff .error (p.context scan files)).1 ⟨_, he, hcircle⟩⟩
    · cases he

/-- Where the configuration asks for it, circles of layers are reported. -/
theorem exists_isLayerCircle (h : p.config.ReportsCircles) (scan : Scan) (files : List SourceFile) :
    ∃ d ∈ p.freshDiagnostics scan files, d.isLayerCircle = true := by
  obtain ⟨e, he, hcircle⟩ := (Layers.exists_mem_find_iff .error (p.context scan files)).2 h.cycle
  have hmem : layerBoundaries ∈ p.analyzers := by
    rw [hanalyzers]
    exact mem_cons_of_mem _ mem_cons_self
  have hruns : p.runs layerBoundaries = true := h.runs
  have hfindings : e ∈ p.freshFindings (p.context scan files) layerBoundaries := by
    rw [freshFindings, if_pos hruns]
    exact he
  obtain ⟨hcode, -⟩ | ⟨names, rfl⟩ := Layers.of_mem_find he
  · rw [isLayerCircle, hcode] at hcircle
    cases hcircle
  · refine ⟨p.config.regrade (Layers.layerCycle (p.context scan files).configLabel names), ?_, ?_⟩
    · rw [freshDiagnostics, finish, sort, mem_mergeSort]
      refine mem_filter.2 ⟨mem_map_of_mem ?_, ?_⟩
      · exact mem_append_right _ (mem_flatMap.2 ⟨layerBoundaries, hmem, hfindings⟩)
      · exact p.config.isReported_layerCycle.2 ⟨h.configuration, h.severity⟩
    · rw [isLayerCircle_regrade]
      exact hcircle

end

/-! ### Runs without a category -/

/-- A run of a check that has no store, or one that only such runs have written to. -/
structure IsReliable (p : Plan) (s : Session) : Prop where
  languages : p.languages = Check.languages
  analyzers : p.analyzers = Check.analyzers
  store : p.config.cache.enabled = false ∨
    ∃ streams settings home, Collisionless streams ∧ History streams home s ∧ p.IsFor settings home s ∧
      ∀ stream ∈ p.hashed settings s, stream ∈ streams

/-- A reliable run reports what is found afresh. -/
theorem IsReliable.exec_run (h : p.IsReliable s) {α : Type} (f : List Diagnostic → α) :
    (exec p.run s).1.map (fun report => f report.diagnostics) = (p.fresh s).map fun report => f report.diagnostics := by
  have hfresh : (exec p.run s).1.map Report.withoutCache = p.fresh s := by
    obtain hcache | ⟨streams, settings, home, hstreams, history, hplan, hhashed⟩ := h.store
    · exact ((isQuiet_of_check h.languages h.analyzers).exec_run hcache s).1
    · exact runIn_nil p ▸ (hplan.exec_runIn hstreams hhashed (history.isSound hstreams) []).1
  rw [← hfresh]
  cases (exec p.run s).1 <;> rfl

/-- What a run gives afresh without a category. -/
theorem fresh_disable (hanalyzers : p.analyzers = Check.analyzers) (X : Category) (fingerprint : String) :
    ((p.disable X fingerprint).fresh s).map (·.diagnostics) =
      (p.fresh s).map (·.diagnostics.filter (survives X)) := by
  have hscanned : (p.disable X fingerprint).scanned s.files = p.scanned s.files := rfl
  refine map_fresh_eq hscanned (fun scan => ?_) fun scan hscan => ?_
  · refine refusal?_eq ?_ ?_ ?_ s scan <;> rfl
  · exact freshDiagnostics_disable hanalyzers X fingerprint hscan _

/-- A fresh report is that of the files that a scan picks. -/
theorem of_fresh_eq_ok (h : p.fresh s = .ok report) :
    ∃ scan, p.scanned s.files = .ok scan ∧ report = p.freshReport scan (scan.files.map (p.freshFile s.files)) := by
  obtain ⟨_, -, h⟩ := of_bind_eq_ok h
  obtain ⟨scan, hscan, h⟩ := of_bind_eq_ok h
  unfold freshScanned at h
  split at h
  · cases h
  · obtain ⟨_, -, h⟩ := of_bind_eq_ok h
    obtain ⟨_, -, h⟩ := of_bind_eq_ok h
    obtain ⟨_, -, h⟩ := of_bind_eq_ok h
    obtain ⟨_, -, h⟩ := of_bind_eq_ok h
    cases h
    exact ⟨scan, hscan, rfl⟩

theorem of_exec_run_eq_fresh (hfresh : (exec p.run s).1.map (·.diagnostics) = (p.fresh s).map (·.diagnostics))
    (hrun : (exec p.run s).1 = .ok report) :
    ∃ scan, p.scanned s.files = .ok scan ∧
      report.diagnostics = p.freshDiagnostics scan (scan.files.map (p.freshFile s.files)) := by
  rw [hrun] at hfresh
  cases hreport : p.fresh s with
  | error e => rw [hreport] at hfresh; cases hfresh
  | ok found =>
    rw [hreport] at hfresh
    obtain ⟨scan, hscan, rfl⟩ := of_fresh_eq_ok hreport
    exact ⟨scan, hscan, Except.ok.inj hfresh⟩

/-- A report has what is found in the files of a workspace. -/
theorem IsReliable.of_exec_run (h : p.IsReliable s) (hrun : (exec p.run s).1 = .ok report) :
    ∃ scan files, p.scanned s.files = .ok scan ∧ report.diagnostics = p.freshDiagnostics scan files := by
  obtain ⟨scan, hscan, hdiagnostics⟩ := of_exec_run_eq_fresh (h.exec_run id) hrun
  exact ⟨scan, _, hscan, hdiagnostics⟩

/-- **Leaving out a category** leaves out its findings and, where the category is that of architecture, the circles
of layers, and changes nothing else. So it is no more than a filter on categories, unless the category is that of
architecture and a report is given with circles of layers. -/
theorem exec_run_disable (hp : p.IsReliable s) (X : Category) (fingerprint : String)
    (hdisabled : (p.disable X fingerprint).IsReliable s) :
    (exec (p.disable X fingerprint).run s).1.map (·.diagnostics) =
        (exec p.run s).1.map (·.diagnostics.filter (Diagnostic.survives X)) ∧
      ((exec (p.disable X fingerprint).run s).1.map (·.diagnostics) =
          (exec p.run s).1.map (·.diagnostics.filter (·.category != X)) ↔
        (X = .architecture → p.config.ReportsCircles → ∃ error, (exec p.run s).1 = .error error)) := by
  have hsurvives : (exec (p.disable X fingerprint).run s).1.map (·.diagnostics) =
      (exec p.run s).1.map (·.diagnostics.filter (Diagnostic.survives X)) :=
    calc
      _ = ((p.disable X fingerprint).fresh s).map (·.diagnostics) := hdisabled.exec_run id
      _ = (p.fresh s).map (·.diagnostics.filter (Diagnostic.survives X)) := fresh_disable hp.analyzers X fingerprint
      _ = _ := (hp.exec_run (filter (Diagnostic.survives X))).symm
  refine ⟨hsurvives, ?_⟩
  rw [hsurvives]
  cases hrun : (exec p.run s).1 with
  | error e => exact ⟨fun _ _ _ => ⟨e, rfl⟩, fun _ => rfl⟩
  | ok report =>
    obtain ⟨scan, files, hscan, hdiagnostics⟩ := hp.of_exec_run hrun
    constructor
    · rintro hfilter rfl hreports
      have hfilter : report.diagnostics.filter (Diagnostic.survives .architecture) =
        report.diagnostics.filter (·.category != .architecture) := Except.ok.inj hfilter
      obtain ⟨d, hd, hcircle⟩ := exists_isLayerCircle hp.analyzers hreports scan files
      have hcategory := (of_isLayerCircle hp.analyzers hscan hd hcircle).1
      have hmem : d ∈ report.diagnostics.filter (·.category != .architecture) :=
        mem_filter.2 ⟨hdiagnostics ▸ hd, by rw [hcategory]; rfl⟩
      rw [← hfilter] at hmem
      simp [Diagnostic.survives, hcircle] at hmem
    · intro hnone
      refine congrArg Except.ok (filter_congr fun d hd => ?_)
      rw [Diagnostic.survives]
      by_cases hX : X = .architecture
      · have hcircle : d.isLayerCircle = false := by
          by_contra hcircle
          rw [hdiagnostics] at hd
          obtain ⟨-, hreports⟩ := of_isLayerCircle hp.analyzers hscan hd (Bool.not_eq_false _ ▸ hcircle)
          obtain ⟨error, herror⟩ := hnone hX hreports
          cases herror
        simp [hcircle]
      · simp [hX]

end Plan

/-- Settings with two layers that may import each other, and no store. -/
def circleSettings : Settings :=
  { cache := { enabled := some false }
    layers := [
      { name := "a", paths := ["a/**"], allow := ["b"] }, { name := "b", paths := ["b/**"], allow := ["a"] }] }

/-- The same settings without the category of architecture. -/
def boundlessSettings : Settings :=
  { circleSettings with categories := [("architecture", { enabled := some false })] }

/-- A run with those settings. -/
def circlePlan : Plan where
  root := spell ["w"]
  config :=
    { cache := { enabled := false }
      categories := Config.Check.policyOf []
      layers := ⟨[⟨"a", patterns ["a/**"], .ofList ["b"]⟩, ⟨"b", patterns ["b/**"], .ofList ["a"]⟩], by decide⟩
      fingerprint := circleSettings.fingerprint }
  languages := Check.languages
  analyzers := Check.analyzers

/-- The run without the category of architecture. -/
def boundlessPlan : Plan := circlePlan.disable .architecture boundlessSettings.fingerprint

/-- A workspace that has no more than a manifest. -/
def circleSession : Session :=
  { files := { nodes := [(["w"], .dir), (["w", "package.json"], .file "{}".toByteArray)] } }

theorem circlePlan_isReliable : circlePlan.IsReliable circleSession := ⟨rfl, rfl, .inl rfl⟩

theorem boundlessPlan_isReliable : boundlessPlan.IsReliable circleSession := ⟨rfl, rfl, .inl rfl⟩

theorem ofSettings_circleSettings : ofSettings circleSettings none = .ok circlePlan.config := rfl

theorem ofSettings_boundlessSettings : ofSettings boundlessSettings none = .ok boundlessPlan.config := by
  have hcategories : boundlessPlan.config.categories =
      Check.policyOf [(.architecture, { enabled := false })] := by
    funext k
    cases k <;> rfl
  have hconfig : boundlessPlan.config = { boundlessPlan.config with
      categories := Check.policyOf [(.architecture, { enabled := false })] } := by
    rw [← hcategories]
  rw [hconfig]
  rfl

theorem circlePlan_reportsCircles : circlePlan.config.ReportsCircles where
  runs := rfl
  configuration := rfl
  severity := by decide
  cycle := ⟨[0, 1], by decide, by unfold Digraph.Arc; decide⟩

/-- Without the category of architecture the circle of layers is left out; without that of dependencies, no more
than the findings of the category are. -/
theorem Plan.exec_run_disable_circle :
    circlePlan.IsReliable circleSession ∧ boundlessPlan.IsReliable circleSession ∧
      (circlePlan.disable .dependency "").IsReliable circleSession ∧
      (exec boundlessPlan.run circleSession).1.map (·.diagnostics) =
        (exec circlePlan.run circleSession).1.map (·.diagnostics.filter (Diagnostic.survives .architecture)) ∧
      (exec (circlePlan.disable .dependency "").run circleSession).1.map (·.diagnostics) =
        (exec circlePlan.run circleSession).1.map (·.diagnostics.filter (·.category != .dependency)) := by
  have hother : (circlePlan.disable .dependency "").IsReliable circleSession := ⟨rfl, rfl, .inl rfl⟩
  refine ⟨circlePlan_isReliable, boundlessPlan_isReliable, hother, ?_, ?_⟩
  · exact (exec_run_disable circlePlan_isReliable .architecture boundlessSettings.fingerprint
      boundlessPlan_isReliable).1
  · exact (exec_run_disable circlePlan_isReliable .dependency "" hother).2.2 nofun

/-- **Leaving out a category is not always a filter on categories**: a circle of layers is a finding on the
configuration, but it is lost with the category of architecture. -/
theorem Plan.exec_run_disable_not_filter :
    Config.ofSettings circleSettings none = .ok circlePlan.config ∧
      Config.ofSettings boundlessSettings none = .ok boundlessPlan.config ∧
      (exec boundlessPlan.run circleSession).1.map (·.diagnostics) = .ok [] ∧
      ∃ report, (exec circlePlan.run circleSession).1 = .ok report ∧
        ∃ d ∈ report.diagnostics, d.code = "AG102" ∧ d.category = .configuration := by
  have hlost : ((exec boundlessPlan.run circleSession).1.map (·.diagnostics)).toOption = some [] := by
    decide +kernel
  have hscanned : (circlePlan.scanned circleSession.files).toOption.isSome = true := by decide +kernel
  refine ⟨ofSettings_circleSettings, ofSettings_boundlessSettings, ?_, ?_⟩
  · cases hrun : (exec boundlessPlan.run circleSession).1.map (·.diagnostics) with
    | error e => rw [hrun] at hlost; cases hlost
    | ok found =>
      rw [hrun] at hlost
      cases hlost
      rfl
  · cases hscan : circlePlan.scanned circleSession.files with
    | error e => rw [hscan] at hscanned; cases hscanned
    | ok scan =>
      have hfresh : circlePlan.fresh circleSession = .ok (circlePlan.freshReport scan
          (scan.files.map (circlePlan.freshFile circleSession.files))) := by
        rw [fresh, hscan]
        rfl
      have hrun := circlePlan_isReliable.exec_run id
      rw [hfresh] at hrun
      cases hreport : (exec circlePlan.run circleSession).1 with
      | error e => rw [hreport] at hrun; cases hrun
      | ok report =>
        rw [hreport] at hrun
        obtain ⟨d, hd, hcircle⟩ := exists_isLayerCircle rfl circlePlan_reportsCircles scan
          (scan.files.map (circlePlan.freshFile circleSession.files))
        have hcategory := (of_isLayerCircle rfl hscan hd hcircle).1
        have hdiagnostics : report.diagnostics = _ := Except.ok.inj hrun
        exact ⟨report, rfl, d, hdiagnostics ▸ hd, eq_of_beq hcircle, hcategory⟩

end Cartograph
