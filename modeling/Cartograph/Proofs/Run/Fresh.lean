import Mathlib.Data.List.Forall2
import Cartograph.Run

/-!
# What a run gives afresh

`Plan.fresh` says what a run reports when every file is read and every analyzer is run: it is a function of the
plan, the files, and the phases before which the run is given up. As long as the analyzers give what they give
afresh, a run that has read the files concludes as `Plan.concluded` says (`Plan.exec_afterParse`), and it prunes its
store only if it comes to its end (`Plan.Left`).
-/

namespace Cartograph

open List

/-- Whether a run ends before a phase. -/
def Session.stops (s : Session) (phase : Phase) : Bool := s.cancelled || s.interrupted phase

/-- A report without the numbers of hits and misses. -/
def Report.withoutCache (r : Report) : Report :=
  { r with summary := { r.summary with cacheHits := 0, cacheMisses := 0 } }

namespace Plan

/-! ### The fresh report -/

/-- Ends a run before a phase that it does not come to. -/
def check (s : Session) (phase : Phase) : Except RunError Unit :=
  if s.stops phase then .error (.cancelled phase) else .ok ()

/-- What scanning the workspace gives. -/
def scanned (p : Plan) (fs : FileSystem) : Except RunError Scan :=
  (Scan.scan fs p.root p.config.analyzer p.extensions p.configLabel p.ownIgnoreFile).mapError .scan

/-- What is read from a file. -/
def freshFile (p : Plan) (fs : FileSystem) (file : String × Nat) : SourceFile :=
  match fs.read (Path.Spelling.under p.root file.1) with
  | .error cause => ⟨file.1, file.2, "", .failed (.unreadable cause.message)⟩
  | .ok raw =>
    let content := Content.ofBytes raw
    match p.language? file.1 with
    | none => ⟨file.1, file.2, content.hash, .failed (.internal "no parser registered for this extension")⟩
    | some language => ⟨file.1, file.2, content.hash, (content.readBy language file.1).outcome⟩

/-- What is read from files are those files. -/
theorem map_freshFile (p : Plan) (fs : FileSystem) (files : List (String × Nat)) :
    (files.map (p.freshFile fs)).map (fun f => (f.path, f.package)) = files := by
  have hfile : ∀ file, ((p.freshFile fs file).path, (p.freshFile fs file).package) = file := by
    intro file
    unfold freshFile
    split
    · rfl
    · split <;> rfl
  rw [map_map]
  exact (map_congr_left fun file _ => hfile file).trans (map_id files)

/-- What the analyzers look at. -/
def context (p : Plan) (scan : Scan) (files : List SourceFile) : AnalysisContext :=
  { graph := (Graph.build scan.packages p.config files).1, config := p.config, configLabel := p.configLabel }

/-- Whether an analyzer is run. -/
def runs (p : Plan) (analyzer : Analyzer) : Bool := (p.config.categories analyzer.category).enabled

/-- What an analyzer finds, unless it is not run. -/
def freshFindings (p : Plan) (context : AnalysisContext) (analyzer : Analyzer) : List Diagnostic :=
  if p.runs analyzer then (analyzer.analyze context).diagnostics else []

/-- The findings of a run that reads these files. -/
def freshDiagnostics (p : Plan) (scan : Scan) (files : List SourceFile) : List Diagnostic :=
  p.config.finish ((Graph.build scan.packages p.config files).2 ++ scan.diagnostics ++
    p.analyzers.flatMap (p.freshFindings (p.context scan files)))

/-- The report of a run that reads these files, without hits and misses. -/
def freshReport (p : Plan) (scan : Scan) (files : List SourceFile) : Report :=
  let diagnostics := p.freshDiagnostics scan files
  { diagnostics, summary := summary scan [] (Graph.build scan.packages p.config files).1 diagnostics }

/-- What a run gives that has scanned the workspace and opened its store. -/
def freshRest (p : Plan) (s : Session) (scan : Scan) : Except RunError Report := do
  check s .parse
  check s .build
  check s .analyze
  check s .aggregate
  return p.freshReport scan (scan.files.map (p.freshFile s.files))

/-- Why a run that insists on its store cannot have it. -/
def refusal? (p : Plan) (s : Session) (scan : Scan) : Option CacheError :=
  if p.config.cache.enabled && !p.inMemory && p.config.cache.strict then
    match (p.openDisk scan.packages s).1 with
    | .error error => some error
    | .ok _ => none
  else none

/-- What a run gives that has scanned the workspace. -/
def freshScanned (p : Plan) (s : Session) (scan : Scan) : Except RunError Report :=
  match p.refusal? s scan with
  | some error => .error (.cache error)
  | none => p.freshRest s scan

/-- **What a run gives afresh.** -/
def fresh (p : Plan) (s : Session) : Except RunError Report := do
  check s .scan
  let scan ← p.scanned s.files
  p.freshScanned s scan

variable {p : Plan} {s : Session}

theorem scan_eq_ok {fs : FileSystem} {scan : Scan} (h : p.scanned fs = .ok scan) :
    Scan.scan fs p.root p.config.analyzer p.extensions p.configLabel p.ownIgnoreFile = .ok scan := by
  rw [scanned] at h
  cases hfound : Scan.scan fs p.root p.config.analyzer p.extensions p.configLabel p.ownIgnoreFile with
  | error e => rw [hfound] at h; cases h
  | ok found =>
    rw [hfound] at h
    cases h
    rfl

/-- A scan is made from the paths of a walk. -/
theorem scanned_of_walk {fs : FileSystem} {paths : List String} {scan : Scan}
    (hwalk : Workspace.walk fs p.root p.config.analyzer.respectIgnoreFiles p.ownIgnoreFile = .ok paths)
    (h : Scan.ofPaths? (fun path => fs.read (Path.Spelling.under p.root path)) p.root p.config.analyzer p.extensions
      p.configLabel paths = some scan) : p.scanned fs = .ok scan := by
  unfold scanned Scan.scan
  rw [hwalk]
  dsimp only
  rw [h]
  rfl

/-- Whether a run can have its store depends on the workspace and on the settings of the store. -/
theorem refusal?_eq {q : Plan} (hroot : q.root = p.root) (hcache : q.config.cache = p.config.cache)
    (hmemory : q.inMemory = p.inMemory) (s : Session) (scan : Scan) : q.refusal? s scan = p.refusal? s scan := by
  have hopen : q.openDisk scan.packages s = p.openDisk scan.packages s := by
    unfold openDisk packageAt? insideRoot? cacheDir
    rw [hroot, hcache]
  rw [refusal?, refusal?, hopen, hcache, hmemory]

/-- Two runs that scan and open their stores alike give alike what they report alike. -/
theorem map_fresh_eq {α : Type} {q : Plan} (hscanned : q.scanned s.files = p.scanned s.files)
    (hrefusal : ∀ scan, q.refusal? s scan = p.refusal? s scan) {f g : Report → α}
    (hreport : ∀ scan, p.scanned s.files = .ok scan →
      f (q.freshReport scan (scan.files.map (q.freshFile s.files))) =
        g (p.freshReport scan (scan.files.map (p.freshFile s.files)))) :
    (q.fresh s).map f = (p.fresh s).map g := by
  rw [fresh, fresh, hscanned]
  cases check s .scan with
  | error e => simp only [bind, Except.bind, Except.map]
  | ok _ =>
    cases hscan : p.scanned s.files with
    | error e => simp only [bind, Except.bind, Except.map]
    | ok scan =>
      simp only [bind, Except.bind, freshScanned, hrefusal]
      cases p.refusal? s scan with
      | some error => simp only [Except.map]
      | none =>
        change f <$> q.freshRest s scan = g <$> p.freshRest s scan
        simp only [freshRest, map_bind, map_pure, hreport scan hscan]

/-! ### Actions -/

variable {α β : Type}

/-- What an action gives in a session, and the session that it leaves. -/
def exec (action : Action α) (s : Session) : Except RunError α × Session := action.run.run s

theorem exec_bind (action : Action α) (next : α → Action β) (s : Session) :
    exec (action >>= next) s =
      match exec action s with
      | (.ok a, t) => exec (next a) t
      | (.error e, t) => (.error e, t) := by
  rw [exec, ExceptT.run_bind, StateT.run_bind, exec]
  generalize action.run.run s = result
  obtain ⟨outcome, t⟩ := result
  cases outcome <;> rfl

theorem exec_checkpoint (phase : Phase) (s : Session) : exec (checkpoint phase) s = (check s phase, s) := by
  have hbind : exec (checkpoint phase) s =
      exec (if s.cancelled || s.interrupted phase then throw (.cancelled phase) else pure ()) s := rfl
  rw [hbind, check, Session.stops]
  split <;> rfl

/-- An action that succeeds has succeeded with its first part. -/
theorem of_exec_bind {action : Action α} {next : α → Action β} {b : β} {u : Session}
    (h : exec (action >>= next) s = (.ok b, u)) : ∃ a t, exec action s = (.ok a, t) ∧ exec (next a) t = (.ok b, u) := by
  rw [exec_bind] at h
  generalize exec action s = result at h
  obtain ⟨outcome, t⟩ := result
  cases outcome with
  | error e => cases h
  | ok a => exact ⟨a, t, rfl, h⟩

theorem of_exec_checkpoint {phase : Phase} {next : Unit → Action β} {b : β} {u : Session}
    (h : exec (checkpoint phase >>= next) s = (.ok b, u)) : exec (next ()) s = (.ok b, u) := by
  obtain ⟨_, t, hcheck, h⟩ := of_exec_bind h
  rw [exec_checkpoint] at hcheck
  obtain rfl := (Prod.mk.inj hcheck).2
  exact h

theorem exec_lift (action : StateM Session α) (s : Session) :
    exec (liftM action) s = (.ok (action.run s).1, (action.run s).2) := rfl

/-! ### Steps and runs -/

theorem exec_scan (p : Plan) (s : Session) : exec p.scan s = (p.scanned s.files, s) := by
  have hget : exec (get : Action Session) s = (.ok s, s) := rfl
  rw [scan, exec_bind, scanned, hget]
  cases hscan : Scan.scan s.files p.root p.config.analyzer p.extensions p.configLabel p.ownIgnoreFile with
  | ok found =>
    simp only [hscan]
    rfl
  | error cause =>
    simp only [hscan]
    rfl

theorem run_mapM_cons (f : α → StateM Session β) (a : α) (l : List α) (s : Session) :
    ((a :: l).mapM f).run s =
      let (b, t) := (f a).run s
      let (bs, u) := (l.mapM f).run t
      (b :: bs, u) := by
  rw [mapM_cons]
  rfl

/-- What each step of a loop keeps and gives, the whole loop keeps and gives. -/
theorem run_mapM {f : α → StateM Session β} {I : Session → Prop} {R : α → β → Prop} {l : List α}
    (hstep : ∀ a ∈ l, ∀ t, I t → R a ((f a).run t).1 ∧ I ((f a).run t).2) {t : Session} (ht : I t) :
    Forall₂ R l ((l.mapM f).run t).1 ∧ I ((l.mapM f).run t).2 := by
  induction l generalizing t with
  | nil => exact ⟨.nil, ht⟩
  | cons a l ih =>
    obtain ⟨hgives, hinv⟩ := hstep a mem_cons_self t ht
    obtain ⟨hrest, hend⟩ := ih (forall_mem_cons.1 hstep).2 hinv
    rw [run_mapM_cons]
    exact ⟨.cons hgives hrest, hend⟩

/-- A session after a run: the invariant holds, up to what is removed from the store when the run comes to its end. -/
def Left (s : Session) (store : Option Store) (Inv : Session → Prop) (left : Session) : Prop :=
  ∃ t, Inv t ∧ (left = t ∨ s.stops .aggregate = false ∧ ∃ own live, store = some own ∧ left = own.prune t live)

theorem exec_tidy (store : Option Store) (live : List String) (s : Session) :
    exec (tidy store live) s = (.ok (), (store.map fun own => own.prune s live).getD s) := by
  cases store <;> rfl

theorem withoutCache_summary (scan : Scan) (tasks : List Task) (graph : Graph) (diagnostics : List Diagnostic) :
    Report.withoutCache { diagnostics, summary := summary scan tasks graph diagnostics } =
      { diagnostics, summary := summary scan [] graph diagnostics } := rfl

theorem stops_of_check {phase : Phase} {u : Unit} (h : check s phase = .ok u) : s.stops phase = false := by
  rw [check] at h
  split at h
  · cases h
  · next hstops => exact Bool.eq_false_iff.2 hstops

/-- A run goes on to the next phase unless it is given up before it. -/
theorem check_bind_eq_ok {phase : Phase} {next : Except RunError α} {a : α} :
    (check s phase >>= fun _ => next) = .ok a ↔ s.stops phase = false ∧ next = .ok a := by
  unfold check
  cases s.stops phase with
  | false => exact ⟨fun h => ⟨rfl, h⟩, And.right⟩
  | true => exact ⟨nofun, nofun⟩

section AfterParse

variable {p : Plan} {s : Session} {scan : Scan} {store : Option Store} {Inv : Session → Prop} {t : Session}
  {found : Analyzer → List Diagnostic}

/-- The report of a run that has read the files and whose analyzers find this. -/
def conclusion (p : Plan) (scan : Scan) (tasks : List Task) (found : Analyzer → List Diagnostic) : Report :=
  let (graph, built) := Graph.build scan.packages p.config (tasks.map (·.file))
  let diagnostics := p.config.finish (built ++ scan.diagnostics ++ p.analyzers.flatMap found)
  { diagnostics, summary := summary scan tasks graph diagnostics }

/-- What such a run gives, which may be given up before it has its report. -/
def concluded (p : Plan) (s : Session) (scan : Scan) (tasks : List Task) (found : Analyzer → List Diagnostic) :
    Except RunError Report := do
  check s .build
  check s .analyze
  check s .aggregate
  return p.conclusion scan tasks found

theorem concluded_eq_ok_iff {tasks : List Task} {report : Report} :
    p.concluded s scan tasks found = .ok report ↔
      s.stops .build = false ∧ s.stops .analyze = false ∧ s.stops .aggregate = false ∧
        report = p.conclusion scan tasks found := by
  rw [concluded, check_bind_eq_ok, check_bind_eq_ok, check_bind_eq_ok]
  exact and_congr_right' (and_congr_right' (and_congr_right' ⟨fun h => (Except.ok.inj h).symm, fun h => h ▸ rfl⟩))

theorem run_analyzeAll {context : AnalysisContext}
    (hanalyze : ∀ analyzer ∈ p.analyzers, ∀ t, Inv t →
      ((p.analyze store context analyzer).run t).1.1 = found analyzer ∧
        Inv ((p.analyze store context analyzer).run t).2) (ht : Inv t) :
    ((p.analyzeAll store context).run t).1.flatMap (·.1) = p.analyzers.flatMap found ∧
      Inv ((p.analyzeAll store context).run t).2 := by
  have hfindings : ∀ {analyzers : List Analyzer} {results : List (List Diagnostic × Option String)},
      Forall₂ (fun analyzer result => result.1 = found analyzer) analyzers results →
        results.flatMap (·.1) = analyzers.flatMap found := by
    intro analyzers results h
    induction h with
    | nil => rfl
    | cons hfound _ ih => rw [flatMap_cons, flatMap_cons, hfound, ih]
  have hrun := run_mapM (R := fun analyzer (result : List Diagnostic × Option String) => result.1 = found analyzer)
    hanalyze ht
  exact ⟨hfindings hrun.1, hrun.2⟩

/-- **The phases after reading** give what follows from the files and from what the analyzers find, as long as each
step keeps an invariant under which the run is given up no sooner. -/
theorem exec_afterParse {tasks : List Task}
    (hstops : ∀ t, Inv t → t.stops = s.stops)
    (hanalyze : s.stops .build = false → s.stops .analyze = false → ∀ analyzer ∈ p.analyzers, ∀ t, Inv t →
      ((p.analyze store (p.context scan (tasks.map (·.file))) analyzer).run t).1.1 = found analyzer ∧
        Inv ((p.analyze store (p.context scan (tasks.map (·.file))) analyzer).run t).2) (ht : Inv t) :
    (exec (p.afterParse scan store tasks) t).1 = p.concluded s scan tasks found ∧
      Left s store Inv (exec (p.afterParse scan store tasks) t).2 := by
  have hcheck : ∀ {t}, Inv t → ∀ phase, check t phase = check s phase := by
    intro t ht phase
    rw [check, check, hstops t ht]
  rw [afterParse, exec_bind, exec_checkpoint, hcheck ht, concluded]
  cases hbuild : check s .build with
  | error e => exact ⟨rfl, t, ht, .inl rfl⟩
  | ok _ =>
    simp only
    rw [exec_bind, exec_checkpoint, hcheck ht]
    cases hstart : check s .analyze with
    | error e => exact ⟨rfl, t, ht, .inl rfl⟩
    | ok _ =>
      simp only
      rw [exec_bind, exec_lift]
      -- the analyzers are run
      obtain ⟨hfound, ht⟩ := run_analyzeAll (hanalyze (stops_of_check hbuild) (stops_of_check hstart)) ht
      rw [context] at hfound ht
      generalize (p.analyzeAll store _).run t = analyzed at hfound ht ⊢
      obtain ⟨results, t⟩ := analyzed
      simp only at hfound ht ⊢
      rw [exec_bind, exec_checkpoint, hcheck ht, hfound]
      cases hcount : check s .aggregate with
      | error e => exact ⟨rfl, t, ht, .inl rfl⟩
      | ok _ =>
        simp only
        rw [exec_bind, exec_tidy]
        refine ⟨rfl, t, ht, ?_⟩
        cases store with
        | none => exact .inl rfl
        | some own => exact .inr ⟨stops_of_check hcount, own, _, rfl, rfl⟩

end AfterParse

/-! ### Single steps -/

theorem run_parse (p : Plan) (store : Option Store) (path : String) (package : Nat) (t : Session) :
    (p.parse store path package).run t =
      match t.files.read (Path.Spelling.under p.root path) with
      | .error cause => ({ file := ⟨path, package, "", .failed (.unreadable cause.message)⟩ }, t)
      | .ok raw =>
        let content := Content.ofBytes raw
        match p.language? path with
        | none =>
          let failure := ReadFailure.internal "no parser registered for this extension"
          ({ file := ⟨path, package, content.hash, .failed failure⟩ }, t)
        | some language =>
          let key := parseKey language path content
          match store.bind fun own => own.outcome? t key with
          | some outcome => ({ file := ⟨path, package, content.hash, outcome⟩, key := some key, hit := true }, t)
          | none =>
            let reading := content.readBy language path
            ({ file := ⟨path, package, content.hash, reading.outcome⟩, key := store.map fun _ => key },
              match store with
              | none => t.cancelIf reading.cancels
              | some own => own.put (t.cancelIf reading.cancels) key (.parse reading.outcome)) := by
  have hget : (p.parse store path package).run t =
      StateT.run (match t.files.read (Path.Spelling.under p.root path) with
        | .error cause => pure { file := ⟨path, package, "", .failed (.unreadable cause.message)⟩ }
        | .ok raw => _) t := rfl
  rw [hget]
  split
  · rfl
  · cases p.language? path with
    | none => rfl
    | some language =>
      cases store with
      | none => rfl
      | some own =>
        dsimp only [Option.bind_some]
        cases own.outcome? t (parseKey language path _) <;> rfl

theorem run_analyze (p : Plan) (store : Option Store) (context : AnalysisContext) (analyzer : Analyzer) (t : Session) :
    (p.analyze store context analyzer).run t =
      if p.runs analyzer then
        let found := analyzer.analyze context
        match store with
        | none => ((found.diagnostics, none), t.cancelIf found.cancels)
        | some own =>
          let key := analysisKey p context analyzer
          match own.findings? t key with
          | some found => ((found, some key), t)
          | none =>
            ((found.diagnostics, some key), own.put (t.cancelIf found.cancels) key (.analysis found.diagnostics))
      else (([], none), t) := by
  unfold runs analyze
  cases (p.config.categories analyzer.category).enabled with
  | false => rfl
  | true =>
    cases store with
    | none => rfl
    | some own =>
      change StateT.run (match own.findings? t (analysisKey p context analyzer) with
        | some found => pure (found, some (analysisKey p context analyzer))
        | none => _) t = _
      dsimp only [if_true]
      split <;> rfl

/-! ### Runs without a store -/

/-- No reader and no analyzer gives the run up. -/
structure IsQuiet (p : Plan) : Prop where
  read : ∀ language ∈ p.languages, ∀ path text, (language.read path text).cancels = false
  analyze : ∀ analyzer ∈ p.analyzers, ∀ context, (analyzer.analyze context).cancels = false

theorem cancelIf_false (s : Session) : s.cancelIf false = s := by
  rw [Session.cancelIf, Bool.or_false]

theorem IsQuiet.readBy (h : p.IsQuiet) {path : String} {language : Language}
    (hlanguage : p.language? path = some language) (content : Content) :
    (content.readBy language path).cancels = false := by
  obtain ⟨extension, -, hfind⟩ := Option.bind_eq_some_iff.1 hlanguage
  unfold Content.readBy
  split
  · exact h.read language (mem_of_find?_eq_some hfind) _ _
  · rfl

end Plan

end Cartograph
