import Cartograph.Proofs.Report.Order
import Cartograph.Proofs.Run.Schedule

/-!
# Consistent reports

The parts of a report agree with the configuration, with what the run has found and with each other
(`Report.IsConsistent`). So it is with every run that comes to its end, whatever its workspace and its store, and
whatever its workers do first (`Plan.isConsistent_of_exec_runIn`): what is reported is what `Config.finish` leaves of all
that was found (`Config.mem_finish`), the numbers are taken from it, and each file that was scanned is either a hit or a
miss (`Plan.length_parseIn`).
-/

namespace Cartograph

open List

/-! ### Grading -/

namespace Config

/-- The severity of a finding in a report: its own, or else that of its category, but not one below its floor. -/
def severityOf (c : Config) (d : Diagnostic) : Severity :=
  match (c.categories d.category).severity, d.floor with
  | none, _ => d.severity
  | some given, none => given
  | some given, some floor => given.max floor

/-- What is left of findings: those that are serious enough then and whose category is not left out. -/
def survivors (c : Config) (found : List Diagnostic) : List Diagnostic :=
  (found.map fun d => { d with severity := c.severityOf d }).filter fun d =>
    (c.categories d.category).enabled ∧ c.analyzer.minSeverity ≤ d.severity

variable {c : Config} {d : Diagnostic} {found : List Diagnostic}

theorem regrade_eq (c : Config) (d : Diagnostic) : c.regrade d = { d with severity := c.severityOf d } := by
  unfold regrade severityOf Diagnostic.override
  cases (c.categories d.category).severity with
  | none => rfl
  | some given => cases d.floor <;> rfl

theorem regrade_regrade (c : Config) (d : Diagnostic) : c.regrade (c.regrade d) = c.regrade d := by
  rw [regrade_eq, regrade_eq]
  unfold severityOf
  cases (c.categories d.category).severity with
  | none => rfl
  | some given => cases d.floor <;> rfl

theorem finish_perm (c : Config) (found : List Diagnostic) : (c.finish found).Perm (c.survivors found) := by
  have hreported : c.isReported = fun d =>
      decide ((c.categories d.category).enabled ∧ c.analyzer.minSeverity ≤ d.severity) := by
    funext d
    rw [isReported, Bool.decide_and, Bool.decide_eq_true]
  rw [survivors, ← hreported, ← funext (regrade_eq c)]
  exact mergeSort_perm _ _

theorem mem_finish : d ∈ c.finish found ↔ (∃ e ∈ found, c.regrade e = d) ∧ c.isReported d = true := by
  rw [finish, Diagnostic.sort, mem_mergeSort, mem_filter, mem_map]

theorem sorted_finish (c : Config) (found : List Diagnostic) :
    (c.finish found).Pairwise fun d e => (Diagnostic.compare d e).isLE = true :=
  pairwise_mergeSort Diagnostic.isLE_trans Diagnostic.isLE_total _

/-- **What is reported stays as it is** when it is graded, filtered and sorted again. -/
theorem finish_finish (c : Config) (found : List Diagnostic) : c.finish (c.finish found) = c.finish found := by
  have hgraded : (c.finish found).map c.regrade = c.finish found := by
    refine (map_congr_left fun d hd => ?_).trans (map_id _)
    obtain ⟨⟨e, -, rfl⟩, -⟩ := mem_finish.1 hd
    exact c.regrade_regrade e
  rw [finish, hgraded, filter_eq_self.2 fun d hd => (mem_finish.1 hd).2]
  exact mergeSort_of_pairwise (sorted_finish c found)

/-- Where a category is given a severity, its findings have it, or their floor if that is higher. -/
theorem rank_of_mem_finish (hd : d ∈ c.finish found) {given : Severity}
    (hgiven : (c.categories d.category).severity = some given) :
    d.severity.rank = max given.rank ((d.floor.map Severity.rank).getD 0) := by
  have hmax (a b : Severity) : (a.max b).rank = max a.rank b.rank := by cases a <;> cases b <;> rfl
  obtain ⟨⟨e, -, rfl⟩, -⟩ := mem_finish.1 hd
  rw [regrade_eq] at hgiven ⊢
  simp only [severityOf, hgiven]
  cases e.floor with
  | none => exact (Nat.max_zero _).symm
  | some floor => exact hmax given floor

end Config

/-! ### Counting -/

/-- The numbers of findings are counted. -/
theorem Tally.of_eq (l : List Diagnostic) :
    Tally.of l = ⟨l.countP (·.severity = .error), l.countP (·.severity = .warning), l.countP (·.severity = .info)⟩ := by
  have hfold (t : Tally) : l.foldl (fun t d => t.add d.severity) t =
      ⟨t.error + l.countP (·.severity = .error), t.warning + l.countP (·.severity = .warning),
        t.info + l.countP (·.severity = .info)⟩ := by
    induction l generalizing t with
    | nil => rfl
    | cons d l ih =>
      rw [foldl_cons, ih, countP_cons, countP_cons, countP_cons]
      cases h : d.severity <;> simp [Tally.add, Nat.add_assoc, Nat.add_comm]
  rw [Tally.of, hfold]
  simp

/-- The number of findings of a category and a severity. -/
def numberOf (l : List Diagnostic) (category : Category) (severity : Severity) : Nat :=
  l.countP fun d => d.category = category ∧ d.severity = severity

theorem Summary.countsOf_eq (l : List Diagnostic) (category : Category) :
    countsOf l category =
      if ∃ d ∈ l, d.category = category then
        some ⟨numberOf l category .error, numberOf l category .warning, numberOf l category .info⟩
      else none := by
  have hnumber (severity : Severity) :
      (l.filter (·.category == category)).countP (·.severity = severity) = numberOf l category severity := by
    rw [countP_filter]
    congr
    funext d
    rw [Bool.decide_and, Bool.and_comm]
    rfl
  have hsome : (∃ d ∈ l, d.category = category) ↔ l.filter (·.category == category) ≠ [] := by simp
  rw [← hnumber, ← hnumber, ← hnumber, ← Tally.of_eq, countsOf]
  simp only [hsome]
  split
  next h => rw [h]; rfl
  next h => rw [if_pos h]

/-! ### Reports -/

/-- **A report is consistent** with a configuration and with what was found. -/
structure Report.IsConsistent (r : Report) (c : Config) (found : List Diagnostic) : Prop where
  perm : r.diagnostics.Perm (c.survivors found)
  sorted : r.diagnostics.Pairwise (·.sortKey ≤ ·.sortKey)
  enabled : ∀ d ∈ r.diagnostics, (c.categories d.category).enabled = true
  serious : ∀ d ∈ r.diagnostics, c.analyzer.minSeverity ≤ d.severity
  graded : ∀ d ∈ r.diagnostics, ∀ given, (c.categories d.category).severity = some given →
    d.severity.rank = max given.rank ((d.floor.map Severity.rank).getD 0)
  counted : ∀ category, r.summary.counts category =
    if ∃ d ∈ r.diagnostics, d.category = category then
      some ⟨numberOf r.diagnostics category .error, numberOf r.diagnostics category .warning,
        numberOf r.diagnostics category .info⟩
    else none
  looked : r.summary.cacheHits + r.summary.cacheMisses = r.summary.filesScanned
  finished : c.finish r.diagnostics = r.diagnostics

namespace Plan

/-- Every file is read once. -/
theorem length_parseIn (p : Plan) (schedule : List Nat) (store : Option Store) (files : List (String × Nat))
    (s : Session) : ((p.parseIn schedule store files).run s).1.length = files.length := by
  obtain ⟨read, htasks, hresults⟩ := Pool.exists_results fun _ => Pool.exists_done p store files s schedule
  have hfiles := Pool.map_follow p store files s (schedule ++ Pool.inTurn (range files.length))
  rw [htasks, map_map] at hfiles
  rw [run_parseIn]
  dsimp only
  rw [hresults, length_map, ← length_map, hfiles]

theorem of_exec_runIn {p : Plan} {schedule : List Nat} {s left : Session} {report : Report}
    (h : exec (p.runIn schedule) s = (.ok report, left)) :
    ∃ scan store t, p.Opens s scan store t ∧ exec (p.restIn schedule scan store) t = (.ok report, left) := by
  obtain ⟨_, _, hcheck, h⟩ := of_exec_bind h
  rw [exec_checkpoint] at hcheck
  obtain ⟨hstart, rfl⟩ := Prod.mk.inj hcheck
  obtain ⟨scan, _, hexec, h⟩ := of_exec_bind h
  rw [exec_scan] at hexec
  obtain ⟨hscan, rfl⟩ := Prod.mk.inj hexec
  obtain ⟨store, t, hopen, h⟩ := of_exec_bind h
  exact ⟨scan, store, t, ⟨hstart, hscan, hopen⟩, h⟩

/-- **Every completed report is consistent** with the configuration and with what the run has found: while it built the
graph, scanned the workspace and ran its analyzers, or took their results from its store. -/
theorem isConsistent_of_exec_runIn {p : Plan} {schedule : List Nat} {s left : Session} {report : Report}
    (h : exec (p.runIn schedule) s = (.ok report, left)) :
    ∃ scan store t, p.Opens s scan store t ∧
      let parsed := (p.parseIn schedule store scan.files).run t
      let analyzed := (p.analyzeAll store (p.context scan (parsed.1.map (·.file)))).run parsed.2
      report.IsConsistent p.config (p.produced scan parsed.1 analyzed.1) := by
  obtain ⟨scan, store, t, hopens, hrest⟩ := of_exec_runIn h
  refine ⟨scan, store, t, hopens, ?_⟩
  have hlength := p.length_parseIn schedule store scan.files t
  obtain ⟨rfl, -⟩ := of_exec_restIn hrest
  dsimp only
  generalize (p.parseIn schedule store scan.files).run t = parsed at hlength ⊢
  generalize p.produced scan parsed.1 _ = found
  constructor
  case perm => exact p.config.finish_perm found
  case sorted => exact (p.config.sorted_finish found).imp Diagnostic.isLE_compare_iff.1
  case enabled => exact fun d hd => (Bool.and_eq_true_iff.1 (Config.mem_finish.1 hd).2).1
  case serious => exact fun d hd => of_decide_eq_true (Bool.and_eq_true_iff.1 (Config.mem_finish.1 hd).2).2
  case graded => exact fun d hd given => Config.rank_of_mem_finish hd
  case counted => exact Summary.countsOf_eq (p.config.finish found)
  case looked =>
    change parsed.1.countP (·.hit) + (parsed.1.length - parsed.1.countP (·.hit)) = scan.files.length
    rw [Nat.add_sub_cancel' countP_le_length, hlength]
  case finished => exact p.config.finish_finish found

/-- Findings on two imports, on the packages and on a dependency. -/
theorem isConsistent_mixedFiles :
    ∃ report left, exec (mixedPlan.runIn []) { files := mixedFiles } = (.ok report, left) ∧
      report.diagnostics.length = 4 ∧
      ∃ scan store t, mixedPlan.Opens { files := mixedFiles } scan store t ∧
        let parsed := (mixedPlan.parseIn [] store scan.files).run t
        let analyzed := (mixedPlan.analyzeAll store (mixedPlan.context scan (parsed.1.map (·.file)))).run parsed.2
        report.IsConsistent mixedPlan.config (mixedPlan.produced scan parsed.1 analyzed.1) := by
  obtain ⟨scan, hscan, -, hcodes⟩ := exists_mixedScan?
  have hrun := (mixedPlan_isQuiet.exec_run rfl { files := mixedFiles }).1
  rw [← runIn_nil, fresh, scanned_mixedFiles hscan] at hrun
  cases hexec : exec (mixedPlan.runIn []) { files := mixedFiles } with
  | mk outcome left =>
    rw [hexec] at hrun
    cases outcome with
    | error e => cases hrun
    | ok report =>
      refine ⟨report, left, rfl, ?_, isConsistent_of_exec_runIn hexec⟩
      have hdiagnostics : report.diagnostics = mixedPlan.freshDiagnostics scan _ :=
        congrArg Report.diagnostics (Except.ok.inj hrun)
      have hall (d : Diagnostic) : mixedPlan.config.isReported (mixedPlan.config.regrade d) = true :=
        decide_eq_true (Nat.zero_le d.severity.rank)
      rw [hdiagnostics, freshDiagnostics, Config.finish, Diagnostic.sort, length_mergeSort,
        filter_eq_self.2 (forall_mem_map.2 fun d _ => hall d), length_map]
      change (mixedPlan.found scan _).length = 4
      simpa using congrArg length hcodes

end Plan

end Cartograph
