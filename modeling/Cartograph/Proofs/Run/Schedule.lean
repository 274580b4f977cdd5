import Cartograph.Proofs.Run.Interleaving
import Cartograph.Proofs.Run.Transparency

/-!
# Runs in the order of a schedule

Whatever the workers of a run do first, its report is the same up to the numbers of hits and misses
(`Plan.exec_runIn_schedules`), whatever the store held when the run began. The numbers can differ, because two files
with one key share a result: if both are looked up before either is put, both are misses, and if not, one is a hit
(`Plan.exec_runIn_hits_differ`). Only files with a key that the store lacks can differ so, and at least one file of each
such key is a miss; with no two files of one such key, the whole report is the same.
-/

namespace Cartograph

open List Pool
open Digest (Collisionless)
open FileSystem (Place IsStore)
open Path.Spelling (under)

variable {streams : Set (List UInt8)} {home : Place}

namespace Plan

variable {p : Plan} {settings : Settings} {s t : Session} {scan : Scan} {store : Option Store}
  {file other : String × Nat} {language language' : Language} {content content' : Content}

/-- What the keys are made of under which a run looks results up. -/
def lookedUp (p : Plan) (scan : Scan) (store : Option Store) (s : Session) : List (List UInt8) :=
  p.streamsOf s.files (scan.files.map (·.1)) parseFrame ++
    (p.analyzers.filter p.runs).map fun analyzer => (analysisFrame (p.servedContext store s scan) analyzer).stream

namespace IsFor

variable {file : String × Nat}

/-- The key of a source file and what is read from it. -/
theorem of_keyOf? (h : p.IsFor settings home s) (hsource : TypeScript.IsSource file.1)
    {fs : FileSystem} {key : String} (hkey : p.keyOf? fs file = some key) :
    ∃ raw, fs.read (under p.root file.1) = .ok raw ∧ key = (parseFrame file.1 raw).digest ∧
      (p.freshFile fs file).outcome = Content.outcome raw file.1 := by
  cases hread : fs.read (under p.root file.1) with
  | error cause =>
    unfold keyOf? at hkey
    rw [hread] at hkey
    cases hkey
  | ok raw =>
    have hreads : p.Reads fs file TypeScript.language (Content.ofBytes raw) := ⟨raw, hread, h.language?_eq hsource, rfl⟩
    refine ⟨raw, rfl, ?_, by rw [h.freshFile_eq hsource hread]⟩
    rw [hreads.keyOf?_eq] at hkey
    exact (Option.some.inj hkey).symm

/-- The streams of the keys of files are among those that are looked up. -/
theorem mem_lookedUp (hfile : file ∈ scan.files) {raw : ByteArray}
    (hread : t.files.read (under p.root file.1) = .ok raw) :
    (parseFrame file.1 raw).stream ∈ p.lookedUp scan store t :=
  mem_append_left _ (mem_streamsOf parseFrame (mem_map_of_mem hfile) hread)

section

variable (h : p.IsFor settings home s) (hstreams : Collisionless streams) (hscan : p.scanned s.files = .ok scan)
include h hstreams hscan

/-- **Reading is steady** in a session in which the store was opened. -/
theorem isSteady (hopen : s.Continues AnyBytes home store t)
    (hlooked : ∀ stream ∈ p.lookedUp scan store t, stream ∈ streams) : p.IsSteady home store t scan.files where
  quiet := h.isQuiet
  start := ⟨hopen.isOpen, .refl _ _ _, .refl _, rfl, rfl⟩
  read file hfile u hu := by
    have hsince : s.Continues AnyBytes home store u :=
      ⟨hu.isOpen, hopen.touched.trans hu.touched, hopen.kept.trans hu.kept, hu.cancelled.trans hopen.cancelled,
        hu.interrupted.trans hopen.interrupted⟩
    rw [h.read_eq_of_continues hscan hfile hsince, h.read_eq_of_continues hscan hfile hopen]
  agree file hfile other hother key hkey hkey' := by
    obtain ⟨-, hsource, -⟩ := h.of_mem_files hscan hfile
    obtain ⟨-, hsource', -⟩ := h.of_mem_files hscan hother
    obtain ⟨raw, hread, rfl, houtcome⟩ := h.of_keyOf? hsource hkey
    obtain ⟨raw', hread', hdigest, houtcome'⟩ := h.of_keyOf? hsource' hkey'
    rw [houtcome, houtcome']
    exact outcome_eq_of_parseKey hstreams hsource hsource' (hlooked _ (mem_lookedUp hfile hread))
      (hlooked _ (mem_lookedUp hother hread')) hdigest

/-- **Keys differ**, where digests do not collide. -/
theorem keysDiffer (hlooked : ∀ stream ∈ p.lookedUp scan store t, stream ∈ streams) :
    p.KeysDiffer t.files scan.files (p.servedContext store t scan) := by
  have hmem : ∀ analyzer ∈ p.analyzers.filter p.runs,
      (analysisFrame (p.servedContext store t scan) analyzer).stream ∈ streams := fun analyzer hanalyzer =>
    hlooked _ (mem_append_right _ (mem_map_of_mem hanalyzer))
  have hkey : ∀ analyzer, analysisKey p (p.servedContext store t scan) analyzer =
      (analysisFrame (p.servedContext store t scan) analyzer).digest := analysisKey_eq h.languages rfl
  constructor
  · intro file hfile analyzer hanalyzer heq
    obtain ⟨-, hsource, -⟩ := h.of_mem_files hscan hfile
    obtain ⟨raw, hread, hdigest, -⟩ := h.of_keyOf? hsource heq
    rw [hkey] at hdigest
    exact parseFrame_ne_analysisFrame _ _ _ _
      (hstreams.eq_of_digest_eq (hlooked _ (mem_lookedUp hfile hread)) (hmem analyzer hanalyzer) hdigest.symm)
  · intro a ha b hb heq
    rw [hkey, hkey] at heq
    have hfields := congrArg Digest.Fingerprint.fields (hstreams.eq_of_digest_eq (hmem a ha) (hmem b hb) heq)
    simp only [analysisFrame, Digest.Fingerprint.texts, nil_append, map_cons, map_nil,
      cons_append, cons.injEq] at hfields
    rw [h.analyzers] at ha hb
    exact eq_of_name_eq (mem_filter.1 ha).1 (mem_filter.1 hb).1 (Digest.utf8_injective hfields.1)

end

end IsFor

/-- A run has scanned its workspace and opened its store, if it is to have one. -/
structure Opens (p : Plan) (s : Session) (scan : Scan) (store : Option Store) (t : Session) : Prop where
  start : check s .scan = .ok ()
  scanned : p.scanned s.files = .ok scan
  opened : exec (p.openStore scan.packages) s = (.ok store, t)

/-- What is left to do of a run that has opened its store. -/
theorem Opens.exec_runIn (h : p.Opens s scan store t) (schedule : List Nat) :
    exec (p.runIn schedule) s = exec (p.restIn schedule scan store) t := by
  rw [runIn, exec_bind, exec_checkpoint, h.start]
  dsimp only
  rw [exec_bind, exec_scan, h.scanned]
  dsimp only
  rw [exec_bind, h.opened]

/-- A run that does not come to open its store ends alike under all schedules. -/
theorem exec_runIn_of_not_opens (h : ∀ scan store t, ¬ p.Opens s scan store t) (schedule other : List Nat) :
    (exec (p.runIn schedule) s).1 = (exec (p.runIn other) s).1 := by
  rw [runIn, runIn, exec_bind, exec_bind, exec_checkpoint]
  cases hstart : check s .scan with
  | error e => rfl
  | ok _ =>
    dsimp only
    rw [exec_bind, exec_bind, exec_scan]
    cases hscan : p.scanned s.files with
    | error e => rfl
    | ok scan =>
      dsimp only
      rw [exec_bind, exec_bind]
      cases hopen : exec (p.openStore scan.packages) s with
      | mk result t =>
        cases result with
        | error e => rfl
        | ok store => exact absurd ⟨hstart, hscan, hopen⟩ (h scan store t)

/-- Opening the store touches nothing but its files. -/
theorem IsFor.continues_of_opens (h : p.IsFor settings home s) (hstore : IsStore AnyBytes home s.files)
    (hopens : p.Opens s scan store t) : s.Continues AnyBytes home store t := by
  obtain ⟨result, u, hopen, -, ⟨own, rfl, -, hu⟩ | ⟨error, rfl, -⟩⟩ := h.exec_openStore_continues hstore scan
  · obtain ⟨hown, rfl⟩ := Prod.mk.inj (hopen.symm.trans hopens.opened)
    rwa [← Except.ok.inj hown]
  · exact nomatch (Prod.mk.inj (hopen.symm.trans hopens.opened)).1

/-- What a run reports that has opened its store, in the order of a schedule. -/
theorem IsFor.exec_runIn_served (h : p.IsFor settings home s) (hstreams : Collisionless streams)
    (hstore : IsStore AnyBytes home s.files) (hopens : p.Opens s scan store t)
    (hlooked : ∀ stream ∈ p.lookedUp scan store t, stream ∈ streams) (schedule : List Nat) :
    p.AreServed store t scan.files ((p.parseIn schedule store scan.files).run t).1 ∧
      (exec (p.runIn schedule) s).1 = (do
        check t .parse
        p.concluded t scan ((p.parseIn schedule store scan.files).run t).1
          (p.servedFindings store t (p.servedContext store t scan))) := by
  have hsteady := h.isSteady hstreams hopens.scanned (h.continues_of_opens hstore hopens) hlooked
  refine ⟨(hsteady.run_parseIn schedule).1, ?_⟩
  rw [hopens.exec_runIn]
  exact hsteady.exec_restIn (h.keysDiffer hstreams hopens.scanned hlooked) schedule

/-- **Schedules do not change the report.** Whatever the store holds when a run begins, and in whatever order its
workers take their steps, the run gives the same report up to the numbers of hits and misses. Those add up to the
number of files. Each file that the store had is a hit, and of the files with a key that it lacked, at least one for
each such key is a miss. So if no two files have one such key, the whole report is the same. -/
theorem exec_runIn_schedules (hstreams : Collisionless streams) (hp : p.IsFor settings home s)
    (hstore : IsStore AnyBytes home s.files)
    (hlooked : ∀ scan store t, p.Opens s scan store t → ∀ stream ∈ p.lookedUp scan store t, stream ∈ streams)
    (schedule other : List Nat) :
    (exec (p.runIn schedule) s).1.map Report.withoutCache = (exec (p.runIn other) s).1.map Report.withoutCache ∧
      ∀ scan store t, p.Opens s scan store t →
        let available := p.available store t scan.files
        let lacked := p.lacked store t scan.files
        (∀ report, (exec (p.runIn schedule) s).1 = .ok report →
          report.summary.cacheHits + report.summary.cacheMisses = scan.files.length ∧
          available ≤ report.summary.cacheHits ∧
          report.summary.cacheHits ≤ available + (lacked.length - lacked.dedup.length)) ∧
        (lacked.Nodup → (exec (p.runIn schedule) s).1 = (exec (p.runIn other) s).1) := by
  constructor
  · by_cases hopens : ∃ scan store t, p.Opens s scan store t
    · obtain ⟨scan, store, t, hopens⟩ := hopens
      obtain ⟨hserved, hrun⟩ := hp.exec_runIn_served hstreams hstore hopens (hlooked _ _ _ hopens) schedule
      obtain ⟨hserved', hrun'⟩ := hp.exec_runIn_served hstreams hstore hopens (hlooked _ _ _ hopens) other
      -- said of any first phase: the two runs share theirs
      have hsame : ∀ {x : Except RunError Unit} {a b : Except RunError Report},
          a.map Report.withoutCache = b.map Report.withoutCache →
            (x >>= fun _ => a).map Report.withoutCache = (x >>= fun _ => b).map Report.withoutCache := by
        rintro (e | _) a b hab
        · rfl
        · exact hab
      rw [hrun, hrun']
      exact hsame (hserved.concluded_eq hserved' _).1
    · rw [exec_runIn_of_not_opens fun scan store t h => hopens ⟨scan, store, t, h⟩]
  · intro scan store t hopens
    obtain ⟨hserved, hrun⟩ := hp.exec_runIn_served hstreams hstore hopens (hlooked _ _ _ hopens) schedule
    obtain ⟨hserved', hrun'⟩ := hp.exec_runIn_served hstreams hstore hopens (hlooked _ _ _ hopens) other
    rw [hrun, hrun']
    refine ⟨fun report hreport => ?_, fun hnodup => ?_⟩
    · -- the report counts the tasks, and those are bounded both ways
      generalize ((p.parseIn schedule store scan.files).run t).1 = tasks at hserved hreport
      obtain ⟨hhits, hmisses⟩ := of_concluded_eq_ok (check_bind_eq_ok.1 hreport).2
      have hlength := congrArg length hserved.map_file
      rw [length_map, length_map] at hlength
      have hle : tasks.countP (·.hit) ≤ tasks.length := countP_le_length
      have hge := hserved.available_le
      have hmost := hserved.le_available
      omega
    · rw [(hserved.concluded_eq hserved' _).2 hnodup]

/-! ### Files with one key -/

/-- **Two files with one key that a store in memory lacks**: read one after the other, the second is a hit; if both
are looked up first, none is. -/
theorem IsQuiet.countP_hit_twins (hquiet : p.IsQuiet) (hfile : p.Reads s.files file language content)
    (hother : p.Reads s.files other language' content')
    (hkey : parseKey language' other.1 content' = parseKey language file.1 content)
    (hlacks : Store.memory.outcome? s (parseKey language file.1 content) = none) :
    ((p.parseIn [] (some .memory) [file, other]).run s).1.countP (·.hit) = 1 ∧
      ((p.parseIn [0, 1] (some .memory) [file, other]).run s).1.countP (·.hit) = 0 := by
  constructor
  · obtain ⟨raw, hread, hlanguage, hcontent⟩ := hfile
    obtain ⟨raw', hread', hlanguage', hcontent'⟩ := hother
    -- the second file is read after the result of the first was put
    let t := Store.memory.put s (parseKey language file.1 content) (.parse (content.readBy language file.1).outcome)
    have hfound : Store.memory.outcome? t (parseKey language' other.1 content') =
        some (content.readBy language file.1).outcome := by
      have hget : Store.memory.get? t (parseKey language file.1 content) = some
          ⟨parseKey language file.1 content, s.stamp, .parse (content.readBy language file.1).outcome⟩ :=
        Memory.get?_put_self _ _
      rw [hkey, Store.outcome?, hget]
    obtain ⟨task, hhit, hfirst⟩ : ∃ task, task.hit = false ∧
        (p.parse (some .memory) file.1 file.2).run s = (task, t) := by
      rw [run_parse, hread]
      dsimp only
      rw [hlanguage, ← hcontent]
      dsimp only
      rw [Option.bind_some, hlacks, hquiet.readBy hlanguage, cancelIf_false]
      exact ⟨_, rfl, rfl⟩
    obtain ⟨task', hhit', hsecond⟩ : ∃ task, task.hit = true ∧
        (p.parse (some .memory) other.1 other.2).run t = (task, t) := by
      have hread' : t.files.read (under p.root other.1) = .ok raw' := hread'
      rw [run_parse, hread']
      dsimp only
      rw [hlanguage', ← hcontent']
      dsimp only
      rw [Option.bind_some, hfound]
      exact ⟨_, rfl, rfl⟩
    rw [parseIn_nil, parseAll, run_mapM_cons, hfirst]
    dsimp only
    rw [run_mapM_cons, hsecond]
    change [task, task'].countP (·.hit) = 1
    rw [countP_cons_of_neg (by simp [hhit]), countP_cons_of_pos hhit', countP_nil]
  · have hlook : ∀ {file language content}, p.Reads s.files file language content →
        Store.memory.outcome? s (parseKey language file.1 content) = none →
        p.look (some .memory) file s = .missed language content := by
      rintro file language _ ⟨raw, hread, hlanguage, rfl⟩ hnone
      unfold look
      rw [hread]
      rw [hlanguage]
      dsimp only
      rw [Option.bind_some, hnone]
    have hboth : (start [file, other] s).follow p (some .memory) [0, 1] =
        ⟨[(file, .missed language content), (other, .missed language' content')], s⟩ := by
      simp [follow, start, step, advance, hlook hfile hlacks, hlook hother (by rw [hkey, hlacks])]
    rw [run_parseIn]
    rw [follow_append, hboth]
    rfl

end Plan

/-- A session with a package of two source files of one content, and an empty store. -/
def twinSession : Session := { files := sampleFiles }

theorem twinSession_isFor : (samplePlan true).IsFor {} sampleHome twinSession :=
  samplePlan_isFor true (.refl _) sampleFiles_isWellFormed.toIsProper

theorem twinSession_isStore : IsStore AnyBytes sampleHome twinSession.files :=
  ⟨fun {name} _ target => by rw [twinSession, node?_sampleHome name]; simp, fun _ _ => trivial⟩

/-- What the run opens and looks up. -/
theorem exists_twinScan :
    ∃ scan, scan.files = [("a.ts", 0), ("b.ts", 0)] ∧ Collisionless sampleStreams ∧
      (samplePlan true).Opens twinSession scan (some .memory) twinSession ∧
      ∀ scan' store t, (samplePlan true).Opens twinSession scan' store t →
        scan' = scan ∧ store = some .memory ∧ t = twinSession ∧
          ∀ stream ∈ (samplePlan true).lookedUp scan' store t, stream ∈ sampleStreams := by
  obtain ⟨scan, hscan, hfiles, hstreams⟩ := exists_sampleScan
  have hopen : ∀ packages, Plan.exec ((samplePlan true).openStore packages) twinSession =
      (.ok (some .memory), twinSession) := fun packages => Plan.IsFor.exec_openStore (samplePlan true) packages twinSession
  refine ⟨scan, hfiles, hstreams, ⟨rfl, hscan, hopen _⟩, fun scan' store t h => ?_⟩
  obtain ⟨hstore, rfl⟩ := Prod.mk.inj ((hopen _).symm.trans h.opened)
  obtain rfl := Except.ok.inj (hscan.symm.trans h.scanned)
  obtain rfl := Except.ok.inj hstore
  refine ⟨rfl, rfl, rfl, fun stream hstream => ?_⟩
  -- the store has nothing, so the files are served as they are read
  have hserved : ∀ file, (samplePlan true).served (some .memory) twinSession file =
      (samplePlan true).freshFile sampleFiles file := by
    intro file
    refine Plan.served_of_none ?_
    unfold Plan.stored?
    cases (samplePlan true).keyOf? twinSession.files file <;> rfl
  rw [Plan.lookedUp, Plan.servedContext, map_congr_left fun file _ => hserved file] at hstream
  change stream ∈ (samplePlan true).hashed {} twinSession
  have hhashed : (samplePlan true).hashed {} twinSession =
      (samplePlan true).streamsOf sampleFiles (scan.files.map (·.1)) parseFrame ++
        (samplePlan true).analysisStreams {} sampleFiles scan := by
    unfold Plan.hashed
    rw [twinSession, hscan]
    rfl
  rw [hhashed]
  obtain hstream | hstream := mem_append.1 hstream
  · exact mem_append_left _ hstream
  · exact mem_append_right _ (mem_cons_of_mem _ (mem_cons_of_mem _ (mem_append_right _ hstream)))

theorem reads_twinSession (path : String) (hpath : path ∈ ["a.ts", "b.ts"]) :
    (samplePlan true).Reads sampleFiles (path, 0) TypeScript.language
      (Content.ofBytes "import \"./b\";\n".toByteArray) := by
  simp only [mem_cons, not_mem_nil, or_false] at hpath
  obtain rfl | rfl := hpath <;> exact ⟨_, rfl, rfl, rfl⟩

/-- The number of hits in the report of the two files. -/
theorem hits_twinSession (schedule : List Nat) :
    (Plan.exec ((samplePlan true).runIn schedule) twinSession).1.map (·.summary.cacheHits) =
      .ok ((((samplePlan true).parseIn schedule (some .memory) [("a.ts", 0), ("b.ts", 0)]).run twinSession).1.countP
        (·.hit)) := by
  obtain ⟨scan, hfiles, hstreams, hopens, hlooked⟩ := exists_twinScan
  obtain ⟨-, hrun⟩ := twinSession_isFor.exec_runIn_served hstreams twinSession_isStore hopens
    (hlooked _ _ _ hopens).2.2.2 schedule
  rw [hrun, hfiles]
  generalize (((samplePlan true).parseIn schedule (some .memory) [("a.ts", 0), ("b.ts", 0)]).run twinSession).1 = tasks
  rfl

/-- Two files with one content, of which the store has none, read in two orders: the reports agree up to the numbers
of hits and misses. -/
theorem Plan.exec_runIn_schedules_twins :
    Collisionless sampleStreams ∧ (samplePlan true).IsFor {} sampleHome twinSession ∧
      IsStore AnyBytes sampleHome twinSession.files ∧
      (∀ scan store t, (samplePlan true).Opens twinSession scan store t →
        ∀ stream ∈ (samplePlan true).lookedUp scan store t, stream ∈ sampleStreams) ∧
      (exec ((samplePlan true).runIn [0, 1]) twinSession).1.map Report.withoutCache =
        (exec (samplePlan true).run twinSession).1.map Report.withoutCache := by
  obtain ⟨scan, -, hstreams, -, hopens⟩ := exists_twinScan
  have hlooked : ∀ scan store t, (samplePlan true).Opens twinSession scan store t →
      ∀ stream ∈ (samplePlan true).lookedUp scan store t, stream ∈ sampleStreams :=
    fun scan store t h => (hopens scan store t h).2.2.2
  refine ⟨hstreams, twinSession_isFor, twinSession_isStore, hlooked, ?_⟩
  rw [← runIn_nil]
  exact (exec_runIn_schedules hstreams twinSession_isFor twinSession_isStore hlooked [0, 1] []).1

/-- Read one after the other, the second of two files with one content is a hit. If both are looked up first, neither
is. -/
theorem Plan.exec_runIn_hits_differ :
    (exec (samplePlan true).run twinSession).1.map (·.summary.cacheHits) = .ok 1 ∧
      (exec ((samplePlan true).runIn [0, 1]) twinSession).1.map (·.summary.cacheHits) = .ok 0 := by
  obtain ⟨hturn, hboth⟩ := twinSession_isFor.isQuiet.countP_hit_twins
    (s := twinSession) (reads_twinSession "a.ts" (by simp)) (reads_twinSession "b.ts" (by simp)) rfl rfl
  rw [← runIn_nil, hits_twinSession, hits_twinSession, hturn]
  exact ⟨rfl, rfl⟩

end Cartograph
