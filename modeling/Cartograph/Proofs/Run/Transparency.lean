import Cartograph.Proofs.Run.Steps

/-!
# Stores are transparent

What a run with a store reports is what the same run reports without one. A session may have any history: it
starts with an empty store, runs of all kinds use the store, and others change the workspace and the settings
between them (`History`). By induction the store is sound after every history (`History.isSound`), so the next
run gives the fresh report (`History.exec_runIn_eq_uncached`).
-/

namespace Cartograph

open List

open Digest (Collisionless Fingerprint)
open FileSystem (Place Kept Spared spell)
open Path.Spelling (under)

variable {streams : Set (List UInt8)} {home : Place}

namespace Plan

/-- The plan of the same run without a store. -/
def uncached (p : Plan) : Plan :=
  { p with config := { p.config with cache := { p.config.cache with enabled := false } } }

/-- What a run gives afresh does not depend on its store, unless it insists on one that it cannot have. -/
theorem IsFor.fresh_eq {p : Plan} {settings : Settings} {s : Session} (h : p.IsFor settings home s) :
    p.fresh s = p.uncached.fresh s ∨
      ∃ scan error, p.scanned s.files = .ok scan ∧ p.refusal? s scan = some error ∧
        p.fresh s = .error (.cache error) := by
  have hfindings : ∀ scan files,
      p.uncached.analyzers.flatMap (p.uncached.freshFindings (p.uncached.context scan files)) =
        p.analyzers.flatMap (p.freshFindings (p.context scan files)) := by
    intro scan files
    refine flatMap_congr fun analyzer hanalyzer => ?_
    have hanalyze : analyzer.analyze (p.uncached.context scan files) = analyzer.analyze (p.context scan files) :=
      analyze_eq_of_sameChecks (h.analyzers ▸ hanalyzer) rfl ⟨rfl, rfl, rfl, rfl⟩ rfl
    rw [freshFindings, freshFindings, hanalyze]
    rfl
  have hdiagnostics : ∀ scan files, p.uncached.freshDiagnostics scan files = p.freshDiagnostics scan files := by
    intro scan files
    rw [freshDiagnostics, freshDiagnostics, hfindings]
    rfl
  have hrest : ∀ scan, p.uncached.freshRest s scan = p.freshRest s scan := by
    intro scan
    simp only [freshRest, freshReport, hdiagnostics]
    rfl
  have hscanned : p.uncached.scanned s.files = p.scanned s.files := rfl
  rw [fresh, fresh, hscanned]
  cases check s .scan with
  | error e => exact .inl rfl
  | ok _ =>
    cases hscan : p.scanned s.files with
    | error e => exact .inl rfl
    | ok scan =>
      change p.freshScanned s scan = p.uncached.freshScanned s scan ∨ _
      have huncached : p.uncached.freshScanned s scan = p.freshRest s scan := hrest scan
      cases hrefusal : p.refusal? s scan with
      | none =>
        rw [huncached, freshScanned, hrefusal]
        exact .inl rfl
      | some error =>
        refine .inr ⟨scan, error, rfl, hrefusal, ?_⟩
        change p.freshScanned s scan = _
        rw [freshScanned, hrefusal]

end Plan

/-! ### Histories -/

/-- What can have happened to a session. It starts with an empty store; others may change anything, except that
they put nothing into the store; and runs of any plans use the store, in whatever order their workers read the
files, and whether or not they come to their end. -/
inductive History (streams : Set (List UInt8)) (home : Place) : Session → Prop where
  | start {s : Session} (memory : s.memory.entries = [])
      (files : ∀ name, Cache.IsStoreName name → s.files.node? (home ++ [name]) = none) : History streams home s
  | change {s s' : Session} (before : History streams home s)
      (memory : ∀ e ∈ s'.memory.entries, e ∈ s.memory.entries)
      (files : ∀ name, Cache.IsStoreName name →
        s'.files.node? (home ++ [name]) = s.files.node? (home ++ [name]) ∨
          s'.files.node? (home ++ [name]) = none) : History streams home s'
  | run {s : Session} (before : History streams home s) {p : Plan} {settings : Settings}
      (plan : p.IsFor settings home s) (hashed : ∀ stream ∈ p.hashed settings s, stream ∈ streams)
      (schedule : List Nat) : History streams home (Plan.exec (p.runIn schedule) s).2

/-- **After every history the store is sound.** -/
theorem History.isSound (hstreams : Collisionless streams) {s : Session} (h : History streams home s) :
    s.IsSound streams home := by
  induction h with
  | start memory files =>
    refine ⟨fun e he => ?_, fun hname target => ?_, fun hname hfile => ?_⟩
    · rw [memory] at he
      cases he
    · simp [files _ hname]
    · rw [files _ hname] at hfile
      cases hfile
  | change before memory files ih =>
    refine ⟨fun e he => ih.memory e (memory e he), fun hname target => ?_, fun hname hfile => ?_⟩
    · obtain hsame | hnone := files _ hname
      · rw [hsame]
        exact ih.disk.unlinked hname target
      · simp [hnone]
    · obtain hsame | hnone := files _ hname
      · rw [hsame] at hfile
        exact ih.disk.entry hname hfile
      · rw [hnone] at hfile
        cases hfile
  | run before plan hashed schedule ih => exact (plan.exec_runIn hstreams hashed ih schedule).2.1

/-- A store is the one in memory, or the one in a given directory. -/
def Store.IsAt (home : Place) (s : Session) : Store → Prop
  | memory => True
  | disk d => s.files.locate d.dir true = .ok home

/-- **Stores are transparent.** After every history of runs that share a store, where no two of the streams that
they hash have the same hash, each entry that is found in the store is genuine, and a run with the store gives the
report of the same run without one, up to the numbers of hits and misses, in whatever order the workers of the two
read the files. The one exception is a run whose configuration insists on a store in a directory that cannot be used:
it gives no report but says so. -/
theorem History.exec_runIn_eq_uncached (hstreams : Collisionless streams) {s : Session}
    (history : History streams home s) :
    (∀ (own : Store) (key : String) (e : CacheEntry), own.IsAt home s → Cache.isDigest key.toList = true →
      own.get? s key = some e → e.IsGenuine streams) ∧
    ∀ (p : Plan) (settings : Settings), p.IsFor settings home s →
      (∀ stream ∈ p.hashed settings s, stream ∈ streams) → ∀ schedule other : List Nat,
      (Plan.exec (p.runIn schedule) s).1.map Report.withoutCache =
          (Plan.exec (p.uncached.runIn other) s).1.map Report.withoutCache ∨
        ∃ scan error, p.scanned s.files = .ok scan ∧ p.refusal? s scan = some error ∧
          (Plan.exec (p.runIn schedule) s).1 = .error (.cache error) := by
  have hsound := history.isSound hstreams
  constructor
  · intro own key e hat hkey hget
    have hopen : own.IsOpen streams home s := by
      cases own with
      | memory => trivial
      | disk d => exact ⟨hat, hsound.disk⟩
    exact (Store.isGenuine_of_get? hsound hopen hkey hget).1
  · intro p settings hp hhashed schedule other
    have hquiet : p.uncached.IsQuiet := ⟨hp.isQuiet.read, hp.isQuiet.analyze⟩
    obtain ⟨hreport, -⟩ := hp.exec_runIn hstreams hhashed hsound schedule
    rw [(hquiet.exec_runIn rfl s other).1, hreport]
    obtain hfresh | ⟨scan, error, hscan, hrefusal, hfresh⟩ := hp.fresh_eq
    · exact .inl hfresh
    · refine .inr ⟨scan, error, hscan, hrefusal, ?_⟩
      rw [hfresh] at hreport
      cases hrun : (Plan.exec (p.runIn schedule) s).1 with
      | ok report => rw [hrun] at hreport; cases hreport
      | error e => rw [hrun] at hreport; cases hreport; rfl

/-! ### A workspace with a store -/

/-- A package with two source files of one content, and a link in the place of its ignore file. -/
def sampleFiles : FileSystem :=
  let content := "import \"./b\";\n".toByteArray
  { nodes := [(["rules"], .file "*.js".toByteArray), (["w"], .dir), (["w", ".gitignore"], .link "/rules"),
      (["w", "a.ts"], .file content), (["w", "b.ts"], .file content), (["w", "package.json"], .file "{}".toByteArray)] }

/-- The directory of its store. -/
def sampleHome : Place := ["w", ".archgraph-cache"]

/-- What is hashed of settings that are left as they are, in a form that is quick to evaluate. -/
def sampleFrame : Fingerprint :=
  { domain := "config", fields := [({} : Settings).canonical.toJson.compactChars.flatMap String.utf8EncodeChar] }

theorem frame_eq_sampleFrame : ({} : Settings).frame = sampleFrame := by
  rw [Settings.frame, Fingerprint.text, Text.utf8_eq, Json.compact, String.toList_ofList]
  rfl

/-- A run over that package with these settings. -/
def samplePlan (inMemory : Bool) : Plan where
  root := spell ["w"]
  config := { categories := Config.Check.policyOf [], fingerprint := sampleFrame.digest }
  languages := Check.languages
  analyzers := Check.analyzers
  inMemory := inMemory

theorem of_link_sampleFiles {place : Place} {target : String} (h : sampleFiles.node? place = some (.link target)) :
    place = ["w", ".gitignore"] ∧ target = "/rules" := by
  have hmem := FileSystem.mem_nodes_of_node? h fun hplace => by rw [hplace] at h; cases h
  simpa [sampleFiles] using hmem

theorem sampleFiles_isWellFormed : sampleFiles.IsWellFormed where
  toIsProper := by decide +kernel
  nodup := by decide
  target hlink := by rw [(of_link_sampleFiles hlink).2]; decide
  current := rfl

/-- The store is empty. -/
theorem node?_sampleHome (name : String) : sampleFiles.node? (sampleHome ++ [name]) = none := by
  simp [sampleFiles, sampleHome, FileSystem.node?]

/-- The run can be made whatever its store did to the files before. -/
theorem samplePlan_isFor (inMemory : Bool) {s : Session} (hspared : Spared sampleFiles s.files)
    (hproper : s.files.IsProper) : (samplePlan inMemory).IsFor {} sampleHome s := by
  have hconfig : Config.ofSettings {} none = .ok (samplePlan inMemory).config := by
    rw [samplePlan, ← frame_eq_sampleFrame]
    rfl
  refine ⟨rfl, rfl, ⟨none, hconfig⟩, ⟨["w"], hspared.dir rfl, rfl⟩, hproper, fun _ _ place hplace => ?_⟩
  have hdir : ∀ inMemory, (samplePlan inMemory).cacheDir = spell sampleHome := by decide +kernel
  rw [hdir] at hplace
  refine FileSystem.eq_of_locate_spell (by decide) (by decide) (fun front hfront target hlink => ?_) hplace
  have hmade : FileSystem.Touched (fun _ => True) sampleHome s.files _ := FileSystem.touched_makeDirs (spell sampleHome)
  rw [(of_link_sampleFiles (hspared.link.1 (hmade.spared.link.1 hlink))).1] at hfront
  exact absurd hfront (by decide)

/-- The linked ignore file of the package is read as before. -/
theorem samplePlan_keepsRules (inMemory : Bool) {fs : FileSystem} (hspared : Spared sampleFiles fs)
    (hcurrent : fs.current = sampleFiles.current) : (samplePlan inMemory).KeepsRules sampleFiles fs := by
  intro _ root hdir hroot path houtside
  have hroot : root = ["w"] := by
    by_contra hne
    have hplace : root ≠ [] := by
      rintro rfl
      exact absurd (show spell ["w"] = spell [] from hroot) (by decide)
    simpa [sampleFiles, hne] using FileSystem.mem_nodes_of_node? hdir hplace
  subst hroot
  cases houtside with
  | own hmem => cases hmem
  | linked dir name _ hname hlink heq =>
    simp only [Workspace.IsPlain, not_forall, not_not] at hlink
    obtain ⟨front, hne, hfront, target, hlink⟩ := hlink
    have hplace := (of_link_sampleFiles hlink).1
    obtain ⟨rfl, rfl⟩ : dir = [] ∧ front = [".gitignore"] := by
      simpa [append_eq_singleton_iff, hne] using hplace
    obtain rfl : name = [".gitignore"] := by
      simp only [Workspace.ruleNames, mem_cons, not_mem_nil, or_false] at hname
      obtain rfl | rfl | rfl := hname
      · exact absurd hfront (by decide)
      · rfl
      · exact absurd hfront (by decide)
    have hlocate : sampleFiles.locate path true = .ok ([] ++ ["rules"]) := by rw [heq]; rfl
    rw [Workspace.read_eq_of_isForeign hspared hcurrent hlocate (Cache.isForeign_of_any (by decide)) rfl]

/-- What the run hashes. -/
def sampleStreams : Set (List UInt8) := {stream | stream ∈ (samplePlan true).hashed {} { files := sampleFiles }}

/-- What a scan picks from the paths of the package. -/
def sampleScan? : Option Scan :=
  Scan.ofPaths? (fun path => sampleFiles.read (under (spell ["w"]) path)) (spell ["w"]) {} TypeScript.extensions
    "archgraph.toml" ["a.ts", "b.ts", "package.json"]

theorem exists_sampleScan : ∃ scan, (samplePlan true).scanned sampleFiles = .ok scan ∧
    scan.files = [("a.ts", 0), ("b.ts", 0)] ∧ Collisionless sampleStreams := by
  let streams (scan : Scan) := (samplePlan true).streamsOf sampleFiles (scan.files.map (·.1)) parseFrame ++
    sampleFrame.stream :: ((samplePlan true).analysisStreams {} sampleFiles scan).tail
  have hall : sampleScan?.any (fun scan => scan.files == [("a.ts", 0), ("b.ts", 0)] &&
      (streams scan).all fun a => decide (a.length < 2 ^ 60) && (streams scan).all fun b =>
        (Digest.Sha256.hash a).head? != (Digest.Sha256.hash b).head? || a == b) = true := by decide +kernel
  obtain ⟨scan, hscan, hall⟩ := (Option.any_eq_true _ _).1 hall
  rw [Bool.and_eq_true, beq_iff_eq] at hall
  -- as the paths are sorted already, sorting them need not be evaluated
  have hsorted : Workspace.walk sampleFiles (spell ["w"]) true none =
      .ok (["a.ts", "b.ts", "package.json"].mergeSort (· ≤ ·)) := rfl
  rw [mergeSort_of_pairwise (by decide)] at hsorted
  have hscanned : (samplePlan true).scanned sampleFiles = .ok scan := Plan.scanned_of_walk hsorted hscan
  have hhashed : (samplePlan true).hashed {} { files := sampleFiles } = streams scan := by
    rw [Plan.hashed, hscanned]
    dsimp only [streams]
    rw [← frame_eq_sampleFrame]
    rfl
  refine ⟨scan, hscanned, hall.1, ?_⟩
  rw [sampleStreams, hhashed]
  exact .of_all hall.2

/-- A run that was stopped before its end, over a store in the directory of the package, and the run after it. -/
theorem History.exec_runIn_eq_uncached_rerun :
    let first : Session := { files := sampleFiles, interrupted := (· == .aggregate) }
    let left := (Plan.exec ((samplePlan false).runIn [1, 0]) first).2
    let again : Session := { left with interrupted := fun _ => false }
    Collisionless sampleStreams ∧ History sampleStreams sampleHome again ∧
      (samplePlan false).IsFor {} sampleHome again ∧
      (∀ stream ∈ (samplePlan false).hashed {} again, stream ∈ sampleStreams) ∧
      (Plan.exec ((samplePlan false).runIn [0, 1]) again).1.map Report.withoutCache =
        (Plan.exec ((samplePlan false).uncached.runIn []) again).1.map Report.withoutCache := by
  intro first left again
  obtain ⟨-, -, -, hstreams⟩ := exists_sampleScan
  have hfirst : (samplePlan false).IsFor {} sampleHome first :=
    samplePlan_isFor false (.refl _) sampleFiles_isWellFormed.toIsProper
  have hhashed : ∀ stream ∈ (samplePlan false).hashed {} first, stream ∈ sampleStreams := fun _ h => h
  have hstart : History sampleStreams sampleHome first := .start rfl fun name _ => node?_sampleHome name
  have hhistory : History sampleStreams sampleHome again :=
    (hstart.run hfirst hhashed [1, 0]).change (fun _ h => h) fun _ _ => .inl rfl
  -- the first run did not come to prune its store, so it left all that it had put there
  obtain ⟨-, -, store, t, ht, hleft⟩ := hfirst.exec_runIn hstreams hhashed (hstart.isSound hstreams) [1, 0]
  replace hleft : left = t := hleft.resolve_right fun h => by cases h.1
  have hspared : Spared sampleFiles left.files := hleft ▸ ht.touched.spared
  have hkept : Kept sampleFiles left.files := hleft ▸ ht.kept
  have hagain := samplePlan_isFor (s := again) false hspared (hkept.wellFormed sampleFiles_isWellFormed).toIsProper
  have hsame : (samplePlan false).hashed {} again = (samplePlan false).hashed {} first := by
    refine hfirst.hashed_eq sampleFiles_isWellFormed hspared hkept
      (samplePlan_keepsRules false hspared hkept.current) fun phase hphase => ?_
    have hcancelled : left.cancelled = false := hleft ▸ ht.cancelled
    change (left.cancelled || false) = (phase == .aggregate)
    rw [hcancelled]
    exact (beq_false_of_ne hphase).symm
  rw [← hsame] at hhashed
  refine ⟨hstreams, hhistory, hagain, hhashed, ?_⟩
  obtain hreport | ⟨_, _, -, hrefusal, -⟩ :=
    (History.exec_runIn_eq_uncached hstreams hhistory).2 (samplePlan false) {} hagain hhashed [0, 1] []
  · exact hreport
  · cases hrefusal

end Cartograph
