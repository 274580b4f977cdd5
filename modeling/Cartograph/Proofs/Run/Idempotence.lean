import Cartograph.Proofs.Run.Stocking

/-!
# Running again

A run that comes to its end leaves in its store what the next one looks up. So the next one, over what the first has
left, gives the same report with every file a hit, and leaves the store as it is (`Plan.exec_runIn_again`). The store
may lie in the workspace; still, the next run finds the workspace as it was (`Plan.Leaves.isFor`,
`Plan.IsFor.scanned_eq`). The store is opened again, perhaps by another process: `Plan.Restored` says what has to be the
same then, and everything that a run computes follows from that.
-/

namespace Cartograph

open List

open Digest (Collisionless)
open Path.Spelling (under)
open FileSystem (Place IsStore IsWellFormed Kept Spared spell)

/-- A report in which every file is a hit. -/
def Report.allHits (r : Report) : Report :=
  { r with summary := { r.summary with cacheHits := r.summary.filesScanned, cacheMisses := 0 } }

namespace Plan

variable {p : Plan} {home : Place} {own own' : Store} {s t again u : Session} {scan : Scan}
  {packages packages' : List Package} {left : Session} {bound : Nat}

/-! ### Reports -/

/-- A run that is not given up ends in a report. -/
theorem check_concluded_of_quiet (hquiet : ∀ phase, s.stops phase = false) (tasks : List Task)
    (found : Analyzer → List Diagnostic) :
    (check s .parse >>= fun _ => p.concluded s scan tasks found) = .ok (p.conclusion scan tasks found) :=
  check_bind_eq_ok.2 ⟨hquiet _, concluded_eq_ok_iff.2 ⟨hquiet _, hquiet _, hquiet _, rfl⟩⟩

/-- Which of the files were hits only shows in the numbers of hits and misses. -/
theorem conclusion_eq_allHits {tasks tasks' : List Task} (hfiles : tasks'.map (·.file) = tasks.map (·.file))
    (hlength : tasks.length = scan.files.length) (hhits : ∀ task ∈ tasks', task.hit = true)
    (found : Analyzer → List Diagnostic) :
    p.conclusion scan tasks' found = (p.conclusion scan tasks found).allHits := by
  have hcount : tasks'.countP (·.hit) = tasks'.length := countP_eq_length.2 hhits
  have hlength' : tasks'.length = scan.files.length := by
    rw [← hlength]
    simpa using congrArg length hfiles
  simp only [conclusion, summary, Report.allHits, Summary.count, hfiles, hcount, hlength', Nat.sub_self]

/-! ### Restored sessions -/

/-- The files are as they were when a run read them, and the store has what the run served. -/
structure Restored (p : Plan) (scan : Scan) (own : Store) (s : Session) (own' : Store) (t : Session) : Prop where
  read : ∀ file ∈ scan.files, t.files.read (under p.root file.1) = s.files.read (under p.root file.1)
  keyed : ∀ file ∈ scan.files, ∃ key, p.keyOf? s.files file = some key
  has : ∀ key value, p.Serves scan (some own) s key value → own'.Has t key value

namespace Restored

variable (h : p.Restored scan own s own' t) {file : String × Nat} {analyzer : Analyzer}

include h

section

variable (hfile : file ∈ scan.files)
include hfile

theorem keyOf?_eq : p.keyOf? t.files file = p.keyOf? s.files file := by
  unfold keyOf?
  rw [h.read file hfile]

theorem freshFile_eq : p.freshFile t.files file = p.freshFile s.files file :=
  IsFor.freshFile_congr (h.read file hfile)

/-- **Every file is in the store**, as it was served. -/
theorem stored?_eq : p.stored? (some own') t file = some (p.served (some own) s file).outcome := by
  obtain ⟨key, hkey⟩ := h.keyed file hfile
  rw [Plan.stored?_eq ((h.keyOf?_eq hfile).trans hkey), ← Store.has_parse_iff]
  exact h.has key _ (.inl ⟨file, hfile, hkey, rfl⟩)

theorem served_eq : p.served (some own') t file = p.served (some own) s file := by
  have hfresh := h.freshFile_eq hfile
  have hstored := h.stored?_eq hfile
  rw [served] at hstored ⊢
  rw [hstored, hfresh]
  rfl

end

theorem servedContext_eq : p.servedContext (some own') t scan = p.servedContext (some own) s scan := by
  rw [servedContext, servedContext, map_congr_left fun file hfile => h.served_eq hfile]

/-- **What every analyzer finds is in the store**, as it was served. -/
theorem findings?_eq (hanalyzer : analyzer ∈ p.analyzers.filter p.runs) :
    own'.findings? t (analysisKey p (p.servedContext (some own) s scan) analyzer) =
      some (p.servedFindings (some own) s (p.servedContext (some own) s scan) analyzer) := by
  rw [← Store.has_analysis_iff]
  exact h.has _ _ (.inr ⟨analyzer, hanalyzer, rfl, rfl⟩)

theorem servedFindings_eq (hanalyzer : analyzer ∈ p.analyzers) :
    p.servedFindings (some own') t (p.servedContext (some own') t scan) analyzer =
      p.servedFindings (some own) s (p.servedContext (some own) s scan) analyzer := by
  rw [h.servedContext_eq]
  by_cases hruns : p.runs analyzer = true
  · have hfound := h.findings?_eq (mem_filter.2 ⟨hanalyzer, hruns⟩)
    rw [servedFindings, if_pos hruns, Option.bind_some, hfound, Option.getD_some]
  · rw [servedFindings, servedFindings, if_neg hruns, if_neg hruns]

theorem usedKeys_eq : p.usedKeys scan (some own') t = p.usedKeys scan (some own) s := by
  rw [usedKeys, usedKeys, h.servedContext_eq, filterMap_congr fun file hfile => h.keyOf?_eq hfile]

theorem lookedUp_eq : p.lookedUp scan (some own') t = p.lookedUp scan (some own) s := by
  have hstreams : p.streamsOf t.files (scan.files.map (·.1)) parseFrame =
      p.streamsOf s.files (scan.files.map (·.1)) parseFrame := by
    refine streamsOf_congr (fun path hpath => ?_) parseFrame
    obtain ⟨file, hfile, rfl⟩ := mem_map.1 hpath
    exact h.read file hfile
  rw [lookedUp, lookedUp, hstreams, h.servedContext_eq]

/-- **The store lacks nothing** that is due. -/
theorem not_lacks {key : String} {value : CachedValue}
    (hdue : p.dueIn t scan.files (p.servedContext (some own') t scan) key value) : ¬ own'.Lacks t key value := by
  intro hlacks
  obtain ⟨file, hfile, hkey, rfl⟩ | ⟨analyzer, hanalyzer, rfl, rfl⟩ := hdue
  · have hstored := h.stored?_eq hfile
    rw [Plan.stored?_eq hkey] at hstored
    exact nomatch hstored.symm.trans hlacks
  · rw [h.servedContext_eq] at hlacks
    exact nomatch (h.findings?_eq hanalyzer).symm.trans hlacks

/-- **Reading the files again**: each is a hit. -/
theorem hit_of_areServed {tasks : List Task} (hserved : p.AreServed (some own') t scan.files tasks) :
    ∀ task ∈ tasks, task.hit = true := by
  have hlength : tasks.length = scan.files.length := by simpa using congrArg length hserved.map_file
  have havailable : p.available (some own') t scan.files = scan.files.length := by
    refine countP_eq_length.2 fun file hfile => ?_
    rw [h.stored?_eq hfile]
    rfl
  have hle := hserved.available_le
  rw [havailable, ← hlength] at hle
  exact countP_eq_length.1 (Nat.le_antisymm countP_le_length hle)

/-- **The phases after the store is open, again**: the report is the one that follows from what was served, with every
file a hit, and the store has what it had, as far as it is used. -/
theorem exec_restIn (hsteady : p.IsSteady home (some own') t scan.files)
    (hkeys : p.KeysDiffer t.files scan.files (p.servedContext (some own') t scan)) {bound : Nat}
    (hready : own'.IsReady home (p.usedKeys scan (some own') t) bound t) (hquiet : ∀ phase, t.stops phase = false)
    {tasks : List Task} (htasks : p.AreServed (some own) s scan.files tasks) (schedule : List Nat) :
    ∃ left, exec (p.restIn schedule scan (some own')) t =
        (.ok (p.conclusion scan tasks (p.servedFindings (some own) s (p.servedContext (some own) s scan))).allHits,
          left) ∧
      ∀ key, Cache.isDigest key.toList = true →
        own'.get? left key = if key ∈ p.usedKeys scan (some own) s then own'.get? t key else none := by
  have hserved := (hsteady.run_parseIn schedule).1
  have hreport := hsteady.exec_restIn hkeys schedule
  rw [check_concluded_of_quiet hquiet] at hreport
  generalize ((p.parseIn schedule (some own') scan.files).run t).1 = again at hserved hreport
  have hfiles : again.map (·.file) = tasks.map (·.file) := by
    rw [hserved.map_file, htasks.map_file]
    exact map_congr_left fun file hfile => h.served_eq hfile
  have hlength : tasks.length = scan.files.length := by simpa using congrArg length htasks.map_file
  have hfound : p.analyzers.flatMap (p.servedFindings (some own') t (p.servedContext (some own') t scan)) =
      p.analyzers.flatMap (p.servedFindings (some own) s (p.servedContext (some own) s scan)) :=
    flatMap_congr fun analyzer hanalyzer => h.servedFindings_eq hanalyzer
  have hsame : p.conclusion scan again (p.servedFindings (some own') t (p.servedContext (some own') t scan)) =
      p.conclusion scan again (p.servedFindings (some own) s (p.servedContext (some own) s scan)) := by
    rw [conclusion, conclusion, hfound]
  rw [hsame, conclusion_eq_allHits hfiles hlength (h.hit_of_areServed hserved)] at hreport
  refine ⟨_, Prod.ext hreport rfl, fun key hkey => ?_⟩
  -- nothing was lacking, so nothing was put
  obtain ⟨u, hprogressed, hleft⟩ := (hsteady.leaves hkeys hready
    (fun key value hdue hlacks => absurd hlacks (h.not_lacks hdue)) (Prod.ext hreport rfl)).get?_eq
  have hkept : own'.get? u key = own'.get? t key := by
    obtain hsame | ⟨value, hdue, hlacks, -⟩ := hprogressed.2 own' rfl key hkey
    · exact hsame
    · exact absurd hlacks (h.not_lacks hdue)
  rw [hleft key hkey, hkept, h.usedKeys_eq]

end Restored

/-! ### Opening the store again -/

theorem of_exec_openStore (h : exec (p.openStore packages) s = (.ok (some own), t)) :
    p.inMemory = true ∧ own = .memory ∧ t = s ∨
      p.inMemory = false ∧ own = .disk ⟨p.cacheDir, s.process⟩ ∧
        Disk.prepare ⟨p.cacheDir, s.process⟩ s.tickets s.files = (.ok (), t.files) := by
  rw [IsFor.exec_openStore] at h
  split at h
  · split at h
    · next hmemory =>
      obtain ⟨hown, rfl⟩ := Prod.mk.inj h
      exact .inl ⟨hmemory, (Option.some.inj (Except.ok.inj hown)).symm, rfl⟩
    · next hmemory =>
      refine .inr ⟨Bool.eq_false_iff.2 hmemory, ?_⟩
      unfold openDisk at h
      dsimp only at h
      cases hpackage : p.packageAt? s.files p.cacheDir packages with
      | some package =>
        rw [hpackage] at h
        dsimp only at h
        split at h <;> cases h
      | none =>
        rw [hpackage] at h
        generalize Disk.prepare ⟨p.cacheDir, s.process⟩ s.tickets s.files = prepared at h ⊢
        obtain ⟨result, files⟩ := prepared
        cases result with
        | error error =>
          dsimp only [Except.map] at h
          split at h <;> cases h
        | ok _ =>
          cases h
          exact ⟨rfl, rfl⟩
  · cases h

/-- **A store that is opened again** has what was left in it, and nothing fails for it. -/
theorem Leaves.reopened
    (h : p.Leaves home scan own bound t left) (hopen : exec (p.openStore packages) s = (.ok (some own), t))
    (hagain : exec (p.openStore packages') again = (.ok (some own'), u)) (hfiles : again.files = left.files)
    (hmemory : again.memory = left.memory) :
    (∀ key, Cache.isDigest key.toList = true → own'.get? u key = own.get? left key) ∧
      own'.IsReady home (p.usedKeys scan (some own) t) 0 u := by
  obtain ⟨hkind, rfl, -⟩ | ⟨hkind, rfl, -⟩ := of_exec_openStore hopen
  · obtain ⟨-, rfl, rfl⟩ | ⟨hkind', -⟩ := of_exec_openStore hagain
    · refine ⟨fun key _ => ?_, trivial⟩
      rw [Store.get?, Store.get?, hmemory]
    · rw [hkind] at hkind'
      cases hkind'
  · obtain ⟨hkind', -⟩ | ⟨-, rfl, hprepare⟩ := of_exec_openStore hagain
    · rw [hkind] at hkind'
      cases hkind'
    · -- the two stores differ in nothing but the process that uses them
      have hopen : Disk.IsOpen AnyBytes home ⟨p.cacheDir, again.process⟩ left.files := ⟨h.usable.dir, h.usable.store⟩
      have hready : Disk.IsReady home _ bound ⟨p.cacheDir, s.process⟩ left.files left.tickets := h.ready
      have hdir := hready.node?_home h.usable
      rw [hfiles] at hprepare
      refine ⟨fun key hkey => hopen.get?_prepare hdir hprepare hkey, ?_⟩
      obtain ⟨hways, -⟩ := hopen.prepare_eq hdir hprepare
      refine ⟨⟨_, FileSystem.list_eq_ok_iff.2 ⟨home, hways.locate hopen.dir, hways.dir hdir, rfl⟩⟩,
        hready.unlinked.of_sameWays hways, fun {ticket} _ hlt => absurd hlt (Nat.not_lt_zero ticket)⟩

/-! ### The workspace -/

variable {streams : Set (List UInt8)} {settings : Settings}

/-- **What a run leaves** is a workspace for the next one. -/
theorem Leaves.isFor (h : p.Leaves home scan own bound t left)
    (hp : p.IsFor settings home s) (hopen : exec (p.openStore packages) s = (.ok (some own), t))
    (hspared : Spared s.files left.files) (hproper : left.files.IsProper) (hfiles : again.files = left.files) :
    p.IsFor settings home again := by
  refine IsFor.of_files (hp.of_spared hspared hproper fun hmemory place hplace => ?_) hfiles
  obtain ⟨hkind, -⟩ | ⟨-, rfl, -⟩ := of_exec_openStore hopen
  · rw [hmemory] at hkind
    cases hkind
  · -- the directory of the store is there, so none is made
    have hopen : Disk.IsOpen AnyBytes home ⟨p.cacheDir, s.process⟩ left.files := h.usable
    have hready : Disk.IsReady home _ bound ⟨p.cacheDir, s.process⟩ left.files left.tickets := h.ready
    rw [FileSystem.makeDirs_of_resolve (hopen.resolve_dir (hready.node?_home hopen))] at hplace
    exact Except.ok.inj (hplace.symm.trans hopen.dir)

/-! ### Stores in memory -/

/-- A step of a file leaves all files as they are, if the store is in memory. -/
theorem files_advance_memory (p : Plan) (file : String × Nat) (stage : Stage) (s : Session) :
    (p.advance (some .memory) file (stage, s)).2.files = s.files := by
  cases stage <;> rfl

theorem files_analyze_memory (p : Plan) (context : AnalysisContext) (analyzer : Analyzer) (s : Session) :
    ((p.analyze (some .memory) context analyzer).run s).2.files = s.files := by
  rw [run_analyze]
  split
  · dsimp only
    cases Store.memory.findings? s (analysisKey p context analyzer) <;> rfl
  · rfl

/-- **A run with a store in memory leaves the files as they are.** -/
theorem files_exec_restIn_memory {schedule : List Nat} {report : Report}
    (h : exec (p.restIn schedule scan (some .memory)) s = (.ok report, left)) : left.files = s.files := by
  have hparse : ∀ files, ((p.parseIn schedule (some .memory) files).run s).2.files = s.files := by
    intro files
    refine Pool.follow_induction p (some .memory) (fun pool => pool.session.files = s.files) (fun pool i hpool => ?_) rfl _
    obtain hsame | ⟨file, stage, next, u, -, hnext, rfl, -⟩ := Pool.step_cases p (some .memory) pool i
    · rwa [hsame]
    · have hfiles := files_advance_memory p file stage pool.session
      rw [hnext] at hfiles
      exact hfiles.trans hpool
  have hanalyze : ∀ (context : AnalysisContext) {t : Session}, t.files = s.files →
      ((p.analyzeAll (some .memory) context).run t).2.files = s.files := by
    intro context t ht
    refine (run_mapM (I := fun t => t.files = s.files) (R := fun _ _ => True) (fun analyzer _ t ht => ⟨trivial, ?_⟩) ht).2
    rw [files_analyze_memory, ht]
  have hleft := left_of_exec_restIn h
  rw [hleft]
  exact hanalyze _ (hparse scan.files)

/-! ### Two runs -/

/-- **Running again changes nothing.** When a run has come to its end, its store has results under the keys of its
files and of the analyzers that were run, and under no others. A second run, over what the first has left, gives the
same report with every file a hit, and leaves in the store what is there. -/
theorem exec_runIn_again (hstreams : Collisionless streams) (hp : p.IsFor settings home s)
    (hwell : s.files.IsWellFormed) (hstore : IsStore AnyBytes home s.files)
    (hopens : p.Opens s scan (some own) t) (hlooked : ∀ stream ∈ p.lookedUp scan (some own) t, stream ∈ streams)
    (hreadable : ∀ file ∈ scan.files, ∃ raw, s.files.read (under p.root file.1) = .ok raw)
    (hheld : p.IsHeld scan own t) {schedule : List Nat} {report : Report} {left : Session}
    (hrun : exec (p.runIn schedule) s = (.ok report, left))
    (hready : own.IsReady home (p.usedKeys scan (some own) t) left.tickets t) {again u : Session}
    (hfiles : again.files = left.files) (hmemory : again.memory = left.memory)
    (hrules : p.KeepsRules s.files again.files) (hquiet : ∀ phase, again.stops phase = false)
    (hopened : exec (p.openStore scan.packages) again = (.ok (some own'), u)) (other : List Nat) :
    (∀ key, Cache.isDigest key.toList = true →
        ((own.get? left key).isSome = true ↔ key ∈ p.usedKeys scan (some own) t)) ∧
      ∃ final, exec (p.runIn other) again = (.ok report.allHits, final) ∧
        ∀ key, Cache.isDigest key.toList = true → own'.get? final key = own.get? left key := by
  have hcontinues := hp.continues_of_opens hstore hopens
  have hsteady := hp.isSteady hstreams hopens.scanned hcontinues hlooked
  have hkeys := hp.keysDiffer hstreams hopens.scanned hlooked
  -- the first run
  rw [hopens.exec_runIn] at hrun
  have hleaves := hsteady.leaves hkeys hready hheld hrun
  have hserved := (hsteady.run_parseIn schedule).1
  have hreport := hsteady.exec_restIn hkeys schedule
  rw [hrun] at hreport
  generalize ((p.parseIn schedule (some own) scan.files).run t).1 = tasks at hserved hreport
  obtain ⟨-, -, -, rfl⟩ := concluded_eq_ok_iff.1 (check_bind_eq_ok.1 hreport.symm).2
  have hstored : ∀ key, Cache.isDigest key.toList = true →
      ((own.get? left key).isSome = true ↔ key ∈ p.usedKeys scan (some own) t) :=
    fun key hkey => hleaves.isSome_get?_iff (Nat.le_refl _) hkey
  refine ⟨hstored, ?_⟩
  -- the second run finds the workspace as it was, and the store as it was left
  have hspared := hcontinues.touched.spared.trans hleaves.spared
  have hkept := hcontinues.kept.trans hleaves.kept
  have hp' := hleaves.isFor hp hopens.opened hspared (hkept.wellFormed hwell).toIsProper hfiles
  have hscanned : p.scanned again.files = .ok scan := by
    rw [hfiles] at hrules ⊢
    rw [hp.scanned_eq hwell hspared hkept hrules, hopens.scanned]
  have hopens' : p.Opens again scan (some own') u := ⟨by rw [check, hquiet]; rfl, hscanned, hopened⟩
  have hstore' : IsStore AnyBytes home again.files := hfiles ▸ hleaves.store (hstore.touched hcontinues.touched)
  have hcontinues' := hp'.continues_of_opens hstore' hopens'
  obtain ⟨hsame, hready'⟩ := hleaves.reopened hopens.opened hopens'.opened hfiles hmemory
  have hread : ∀ file ∈ scan.files, u.files.read (under p.root file.1) =
      t.files.read (under p.root file.1) := by
    intro file hfile
    rw [hp'.read_eq_of_continues hopens'.scanned hfile hcontinues', hfiles,
      hp.read_eq_of_spared hopens.scanned hfile hspared, hp.read_eq_of_continues hopens.scanned hfile hcontinues]
  have hkeyed : ∀ file ∈ scan.files, ∃ key, p.keyOf? t.files file = some key := by
    intro file hfile
    obtain ⟨raw, hraw⟩ := hreadable file hfile
    obtain ⟨-, hsource, -⟩ := hp.of_mem_files hopens.scanned hfile
    rw [← hp.read_eq_of_continues hopens.scanned hfile hcontinues] at hraw
    exact ⟨_, Reads.keyOf?_eq ⟨raw, hraw, hp.language?_eq hsource, rfl⟩⟩
  have hrestored : p.Restored scan own t own' u := by
    refine ⟨hread, hkeyed, fun key value hvalue => ?_⟩
    have hdigest := isDigest_of_mem_usedKeys (mem_usedKeys_iff.2 ⟨value, hvalue⟩)
    unfold Store.Has
    rw [hsame key hdigest]
    exact hleaves.has (Nat.le_refl _) key value hvalue
  rw [← hrestored.usedKeys_eq] at hready'
  rw [← hrestored.lookedUp_eq] at hlooked
  have hsteady' := hp'.isSteady hstreams hopens'.scanned hcontinues' hlooked
  have hkeys' := hp'.keysDiffer hstreams hopens'.scanned hlooked
  obtain ⟨final, hfinal, hget⟩ := hrestored.exec_restIn hsteady' hkeys' hready'
    (fun phase => by rw [hcontinues'.stops]; exact hquiet phase) hserved other
  refine ⟨final, (hopens'.exec_runIn other).trans hfinal, fun key hkey => ?_⟩
  rw [hget key hkey]
  split
  · exact hsame key hkey
  · next hunused => exact (Option.not_isSome_iff_eq_none.1 fun hsome => hunused ((hstored key hkey).1 hsome)).symm

/-- Two files with one content and a store in memory: the second run finds there what both files and all analyzers
gave. -/
theorem exec_runIn_again_twins :
    ∃ scan report left, (samplePlan true).Opens twinSession scan (some .memory) twinSession ∧
      exec ((samplePlan true).runIn []) twinSession = (.ok report, left) ∧
      let again : Session := { files := sampleFiles, memory := left.memory }
      Collisionless sampleStreams ∧ (samplePlan true).IsFor {} sampleHome twinSession ∧ sampleFiles.IsWellFormed ∧
      IsStore AnyBytes sampleHome twinSession.files ∧
      (∀ stream ∈ (samplePlan true).lookedUp scan (some .memory) twinSession, stream ∈ sampleStreams) ∧
      (∀ file ∈ scan.files, ∃ raw, sampleFiles.read (under (samplePlan true).root file.1) = .ok raw) ∧
      (samplePlan true).KeepsRules sampleFiles again.files ∧
      exec ((samplePlan true).openStore scan.packages) again = (.ok (some .memory), again) ∧
      (∀ key, Cache.isDigest key.toList = true →
        ((Store.memory.get? left key).isSome = true ↔
          key ∈ (samplePlan true).usedKeys scan (some .memory) twinSession)) ∧
      ∃ final, exec ((samplePlan true).runIn [1, 0]) again = (.ok report.allHits, final) ∧
        ∀ key, Cache.isDigest key.toList = true → Store.memory.get? final key = Store.memory.get? left key := by
  obtain ⟨scan, hscan, hstreams, hopens, hlooked⟩ := exists_twinScan
  replace hlooked := (hlooked _ _ _ hopens).2.2.2
  obtain ⟨-, hfirst⟩ := twinSession_isFor.exec_runIn_served hstreams twinSession_isStore hopens hlooked []
  obtain ⟨left, hresult⟩ : ∃ left, exec ((samplePlan true).runIn []) twinSession = (.ok _, left) :=
    ⟨_, Prod.ext hfirst rfl⟩
  have hfiles : left.files = sampleFiles := files_exec_restIn_memory ((hopens.exec_runIn []).symm.trans hresult)
  have hreadable : ∀ file ∈ scan.files, ∃ raw, sampleFiles.read (under (samplePlan true).root file.1) = .ok raw := by
    intro file hfile
    rw [hscan] at hfile
    simp only [mem_cons, not_mem_nil, or_false] at hfile
    obtain rfl | rfl := hfile <;> exact ⟨_, rfl⟩
  have hrules := samplePlan_keepsRules true (.refl sampleFiles) rfl
  have hopened : exec ((samplePlan true).openStore scan.packages) { files := sampleFiles, memory := left.memory } =
      (.ok (some .memory), { files := sampleFiles, memory := left.memory }) :=
    IsFor.exec_openStore (samplePlan true) scan.packages _
  have hmemory : ({ files := sampleFiles, memory := left.memory } : Session).memory = left.memory := rfl
  refine ⟨scan, _, left, hopens, hresult, hstreams, twinSession_isFor, sampleFiles_isWellFormed, twinSession_isStore,
    hlooked, hreadable, hrules, hopened, ?_⟩
  exact exec_runIn_again hstreams twinSession_isFor sampleFiles_isWellFormed twinSession_isStore hopens hlooked hreadable
    (fun _ _ _ _ => trivial) hresult trivial hfiles.symm hmemory hrules (fun _ => rfl) hopened [1, 0]

end Plan

end Cartograph
