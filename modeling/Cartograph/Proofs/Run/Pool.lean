import Mathlib.Logic.Function.Iterate
import Cartograph.Proofs.Run.Fresh

/-!
# Reading by a pool of workers

Workers read the files of a workspace and share the store. Reading one file takes three steps: its result is looked up,
computed if the store does not have it, and put into the store (`Plan.advance`). A schedule says which file's step is
next; when it is over, the files that are left are finished one after the other (`Plan.parseIn`), so every list of
numbers is a schedule, and whatever holds of all schedules holds of every number of workers.

A pool finishes every file (`Pool.exists_done`), and under the empty schedule it reads one file after the other, as a
run does (`Plan.runIn_nil`). Whatever a run does with its store, as long as each step gives what it gives afresh
(`Plan.Keeps`), its report is the fresh one up to the numbers of hits and misses (`Plan.Keeps.exec_restIn`). A run
without a store does nothing else (`Plan.IsQuiet.exec_runIn`).
-/

namespace Cartograph

open List
open Path.Spelling (under)

/-- How far the reading of a file has come. -/
inductive Stage where
  | waiting
  /-- The store has no result. -/
  | missed (language : Language) (content : Content)
  | computed (language : Language) (content : Content) (outcome : Outcome)
  | done (task : Task)

/-- The result of reading a file that is done. -/
def Stage.task? : Stage → Option Task
  | done task => some task
  | _ => none

namespace Plan

/-- Looks a file up in the store. -/
def look (p : Plan) (store : Option Store) (file : String × Nat) (s : Session) : Stage :=
  match s.files.read (under p.root file.1) with
  | .error cause => .done { file := ⟨file.1, file.2, "", .failed (.unreadable cause.message)⟩ }
  | .ok raw =>
    let content := Content.ofBytes raw
    match p.language? file.1 with
    | none =>
      let failure := ReadFailure.internal "no parser registered for this extension"
      .done { file := ⟨file.1, file.2, content.hash, .failed failure⟩ }
    | some language =>
      let key := parseKey language file.1 content
      match store.bind fun own => own.outcome? s key with
      | some outcome =>
        .done { file := ⟨file.1, file.2, content.hash, outcome⟩, key := some key, hit := true }
      | none => .missed language content

/-- **One step of reading a file.** -/
def advance (p : Plan) (store : Option Store) (file : String × Nat) : Stage × Session → Stage × Session
  | (.waiting, s) => (p.look store file s, s)
  | (.missed language content, s) =>
    let reading := content.readBy language file.1
    (.computed language content reading.outcome, s.cancelIf reading.cancels)
  | (.computed language content outcome, s) =>
    let key := parseKey language file.1 content
    let task : Task := { file := ⟨file.1, file.2, content.hash, outcome⟩, key := store.map fun _ => key }
    (.done task,
      match store with
      | none => s
      | some own => own.put s key (.parse outcome))
  | (.done task, s) => (.done task, s)

/-- Three steps read a file. -/
theorem iterate_advance_waiting (p : Plan) (store : Option Store) (file : String × Nat) (s : Session) :
    (p.advance store file)^[3] (.waiting, s) =
      (.done ((p.parse store file.1 file.2).run s).1, ((p.parse store file.1 file.2).run s).2) := by
  rw [run_parse]
  -- looking up is the first step, and each of its four ends determines the other two
  change (p.advance store file)^[2] (p.look store file s, s) = _
  unfold look
  cases s.files.read (under p.root file.1) with
  | error cause => rfl
  | ok raw =>
    cases p.language? file.1 with
    | none => rfl
    | some language =>
      dsimp only
      cases store.bind fun own => own.outcome? s (parseKey language file.1 (Content.ofBytes raw)) <;> rfl

/-- Only looking a file up hits the store. -/
theorem of_advance_hit {p : Plan} {store : Option Store} {file : String × Nat} {stage : Stage} {s t : Session}
    {task : Task} (h : p.advance store file (stage, s) = (.done task, t)) (hhit : task.hit = true) :
    stage = .done task ∨ p.look store file s = .done task := by
  cases stage with
  | waiting => exact .inr (Prod.mk.inj h).1
  | missed language content => exact nomatch (Prod.mk.inj h).1
  | computed language content outcome =>
    obtain rfl := Stage.done.inj (Prod.mk.inj h).1
    cases hhit
  | done task' => exact .inl (Prod.mk.inj h).1

/-- After three steps a file is done, however far it had come. -/
theorem exists_iterate_advance (p : Plan) (store : Option Store) (file : String × Nat) (x : Stage × Session) :
    ∃ task, ((p.advance store file)^[3] x).1 = .done task := by
  obtain ⟨stage, s⟩ := x
  cases stage with
  | waiting => exact ⟨_, by rw [iterate_advance_waiting]⟩
  | missed language content => exact ⟨_, rfl⟩
  | computed language content outcome => exact ⟨_, rfl⟩
  | done task => exact ⟨task, rfl⟩

/-! ### What is read -/

/-- What is found when a file is read. -/
def Reads (p : Plan) (fs : FileSystem) (file : String × Nat) (language : Language) (content : Content) : Prop :=
  ∃ raw, fs.read (under p.root file.1) = .ok raw ∧ p.language? file.1 = some language ∧ content = Content.ofBytes raw

/-- The key of reading a file, unless it cannot be read. -/
def keyOf? (p : Plan) (fs : FileSystem) (file : String × Nat) : Option String :=
  match fs.read (under p.root file.1) with
  | .error _ => none
  | .ok raw => (p.language? file.1).map fun language => parseKey language file.1 (Content.ofBytes raw)

variable {p : Plan} {fs : FileSystem} {file : String × Nat} {language : Language} {content : Content}

theorem Reads.keyOf?_eq (h : p.Reads fs file language content) :
    p.keyOf? fs file = some (parseKey language file.1 content) := by
  obtain ⟨raw, hread, hlanguage, rfl⟩ := h
  unfold keyOf?
  rw [hread]
  dsimp only
  rw [hlanguage, Option.map_some]

theorem Reads.freshFile_eq (h : p.Reads fs file language content) :
    p.freshFile fs file = ⟨file.1, file.2, content.hash, (content.readBy language file.1).outcome⟩ := by
  obtain ⟨raw, hread, hlanguage, rfl⟩ := h
  unfold freshFile
  rw [hread]
  rw [hlanguage]

/-- **What looking a file up gives**, in a session in which the file is as before. -/
theorem look_cases (store : Option Store) {s t : Session} (hread : t.files.read (under p.root file.1) =
      s.files.read (under p.root file.1)) :
    (p.keyOf? s.files file = none ∧ p.look store file t = .done { file := p.freshFile s.files file }) ∨
      ∃ language content, p.Reads s.files file language content ∧
        p.look store file t =
          match store.bind fun own => own.outcome? t (parseKey language file.1 content) with
          | some outcome =>
            .done { file := { p.freshFile s.files file with outcome }, key := p.keyOf? s.files file, hit := true }
          | none => .missed language content := by
  unfold look keyOf? freshFile
  rw [hread]
  cases hraw : s.files.read (under p.root file.1) with
  | error cause => exact .inl ⟨rfl, rfl⟩
  | ok raw =>
    cases hlanguage : p.language? file.1 with
    | none => exact .inl ⟨rfl, rfl⟩
    | some language =>
      refine .inr ⟨language, _, ⟨raw, hraw, hlanguage, rfl⟩, rfl⟩

end Plan

/-! ### Pools -/

/-- The files with how far each has come, and the session that the workers share. -/
structure Pool where
  tasks : List ((String × Nat) × Stage)
  session : Session

namespace Pool

/-- A pool that has not begun. -/
def start (files : List (String × Nat)) (s : Session) : Pool := ⟨files.map (·, .waiting), s⟩

/-- A step of one of the files. -/
def step (p : Plan) (store : Option Store) (pool : Pool) (i : Nat) : Pool :=
  match pool.tasks[i]? with
  | none => pool
  | some (file, stage) =>
    let (stage, s) := p.advance store file (stage, pool.session)
    ⟨pool.tasks.set i (file, stage), s⟩

/-- The steps of a schedule. -/
def follow (p : Plan) (store : Option Store) (pool : Pool) (schedule : List Nat) : Pool :=
  schedule.foldl (step p store) pool

/-- The results of the files that are done. -/
def results (pool : Pool) : List Task := pool.tasks.filterMap (·.2.task?)

/-- One file after the other. -/
def inTurn (files : List Nat) : List Nat := files.flatMap fun i => [i, i, i]

variable (p : Plan) (store : Option Store) {pool : Pool} {i j : Nat} {file : String × Nat} {stage : Stage} {task : Task}

theorem step_eq (h : pool.tasks[i]? = some (file, stage)) :
    pool.step p store i =
      ⟨pool.tasks.set i (file, (p.advance store file (stage, pool.session)).1),
        (p.advance store file (stage, pool.session)).2⟩ := by
  rw [step, h]

theorem step_set (hlt : i < pool.tasks.length) (s : Session) :
    (⟨pool.tasks.set i (file, stage), s⟩ : Pool).step p store i =
      ⟨pool.tasks.set i (file, (p.advance store file (stage, s)).1), (p.advance store file (stage, s)).2⟩ := by
  rw [step_eq p store (getElem?_set_self hlt), set_set]

theorem step_of_none (h : pool.tasks[i]? = none) : pool.step p store i = pool := by rw [step, h]

/-- **What a step can do**: nothing, or one file goes on. -/
theorem step_cases (pool : Pool) (i : Nat) :
    pool.step p store i = pool ∨ ∃ file stage next u, (file, stage) ∈ pool.tasks ∧
      p.advance store file (stage, pool.session) = (next, u) ∧ (pool.step p store i).session = u ∧
      (file, next) ∈ (pool.step p store i).tasks ∧
      ∀ entry ∈ (pool.step p store i).tasks, entry ∈ pool.tasks ∨ entry = (file, next) := by
  cases htask : pool.tasks[i]? with
  | none => exact .inl (step_of_none p store htask)
  | some entry =>
    obtain ⟨file, stage⟩ := entry
    rw [step_eq p store htask]
    exact .inr ⟨file, stage, _, _, mem_of_getElem? htask, rfl, rfl,
      List.mem_set (List.getElem?_eq_some_iff.1 htask).1 _, fun entry => List.mem_or_eq_of_mem_set⟩

theorem follow_append (schedule rest : List Nat) :
    pool.follow p store (schedule ++ rest) = (pool.follow p store schedule).follow p store rest :=
  foldl_append

/-- **What each step keeps, a schedule keeps.** -/
theorem follow_induction (Inv : Pool → Prop) (hstep : ∀ pool i, Inv pool → Inv (pool.step p store i))
    (hpool : Inv pool) (schedule : List Nat) : Inv (pool.follow p store schedule) := by
  induction schedule generalizing pool with
  | nil => exact hpool
  | cons i schedule ih => exact ih (hstep pool i hpool)

theorem follow_three (h : pool.tasks[i]? = some (file, stage)) :
    pool.follow p store [i, i, i] =
      ⟨pool.tasks.set i (file, ((p.advance store file)^[3] (stage, pool.session)).1),
        ((p.advance store file)^[3] (stage, pool.session)).2⟩ := by
  have hlt := (List.getElem?_eq_some_iff.1 h).1
  change ((pool.step p store i).step p store i).step p store i = _
  rw [step_eq p store h, step_set p store hlt, step_set p store hlt]
  rfl

theorem map_step (pool : Pool) (i : Nat) : (pool.step p store i).tasks.map (·.1) = pool.tasks.map (·.1) := by
  cases htask : pool.tasks[i]? with
  | none => rw [step_of_none p store htask]
  | some task =>
    obtain ⟨hlt, heq⟩ := List.getElem?_eq_some_iff.1 htask
    rw [step_eq p store htask, map_set]
    -- a place is set to the file that stands there already
    refine ext_getElem? fun j => ?_
    by_cases hij : i = j
    · subst hij
      rw [getElem?_set_self (by rwa [length_map]), getElem?_map, htask]
      rfl
    · rw [getElem?_set_ne hij]

/-- The files of a pool stay the same. -/
theorem map_follow (files : List (String × Nat)) (s : Session) (schedule : List Nat) :
    ((start files s).follow p store schedule).tasks.map (·.1) = files := by
  refine follow_induction p store (fun pool => pool.tasks.map (·.1) = files) (fun pool i h => ?_) ?_ schedule
  · rw [map_step, h]
  · rw [start, map_map]
    exact map_id files

/-- A file that is done stays done. -/
theorem step_done (h : pool.tasks[j]? = some (file, .done task)) (i : Nat) :
    (pool.step p store i).tasks[j]? = some (file, .done task) := by
  cases htask : pool.tasks[i]? with
  | none => rwa [step_of_none p store htask]
  | some other =>
    rw [step_eq p store htask]
    by_cases hij : i = j
    · subst hij
      obtain rfl := Option.some.inj (htask.symm.trans h)
      exact List.getElem?_set_self (List.getElem?_eq_some_iff.1 h).1
    · exact (getElem?_set_ne hij).trans h

theorem follow_done (h : pool.tasks[j]? = some (file, .done task)) (schedule : List Nat) :
    (pool.follow p store schedule).tasks[j]? = some (file, .done task) :=
  follow_induction p store (fun pool => pool.tasks[j]? = some (file, .done task))
    (fun _ i h => step_done p store h i) h schedule

/-- A file is done after its turn. -/
theorem exists_follow_three (h : pool.tasks[i]? = some (file, stage)) :
    ∃ task, (pool.follow p store [i, i, i]).tasks[i]? = some (file, .done task) := by
  obtain ⟨task, hdone⟩ := p.exists_iterate_advance store file (stage, pool.session)
  refine ⟨task, ?_⟩
  rw [follow_three p store h, ← hdone]
  exact List.getElem?_set_self (List.getElem?_eq_some_iff.1 h).1

/-- **A pool finishes every file.** -/
theorem exists_done (files : List (String × Nat)) (s : Session) (schedule : List Nat) {entry : (String × Nat) × Stage}
    (hentry : entry ∈ ((start files s).follow p store (schedule ++ inTurn (range files.length))).tasks) :
    ∃ task, entry.2 = .done task := by
  have hlength : ∀ schedule, ((start files s).follow p store schedule).tasks.length = files.length := by
    intro schedule
    rw [← length_map (f := (·.1)), map_follow]
  obtain ⟨i, hi, rfl⟩ := mem_iff_getElem.1 hentry
  have hmem : i ∈ range files.length := by rwa [hlength, ← mem_range] at hi
  -- the turn of the file comes after some steps, and leaves it done
  obtain ⟨before, after, hsplit⟩ := append_of_mem hmem
  have hschedule : schedule ++ inTurn (range files.length) =
      (schedule ++ inTurn before) ++ ([i, i, i] ++ inTurn after) := by
    rw [hsplit, inTurn, inTurn, inTurn, flatMap_append, flatMap_cons, append_assoc]
  have hlt : i < ((start files s).follow p store (schedule ++ inTurn before)).tasks.length := by
    rw [hlength]
    exact mem_range.1 hmem
  obtain ⟨task, hturn⟩ := exists_follow_three p store (getElem?_eq_getElem hlt)
  have hend := follow_done p store hturn (inTurn after)
  rw [← follow_append, ← follow_append, ← hschedule] at hend
  exact ⟨task, congrArg Prod.snd (Option.some.inj ((getElem?_eq_getElem hi).symm.trans hend))⟩

/-- A pool in which every file is done is a list of files with their results. -/
theorem exists_results (h : ∀ entry ∈ pool.tasks, ∃ task, entry.2 = .done task) :
    ∃ read : List ((String × Nat) × Task),
      pool.tasks = read.map (fun e => (e.1, .done e.2)) ∧ pool.results = read.map (·.2) := by
  unfold results
  generalize pool.tasks = tasks at h ⊢
  induction tasks with
  | nil => exact ⟨[], rfl, rfl⟩
  | cons entry tasks ih =>
    obtain ⟨task, htask⟩ := h entry mem_cons_self
    obtain ⟨read, htasks, hresults⟩ := ih (forall_mem_cons.1 h).2
    refine ⟨(entry.1, task) :: read, ?_, ?_⟩
    · rw [map_cons, ← htasks, ← htask]
    · rw [map_cons, ← hresults, filterMap_cons_some (by rw [htask]; rfl)]

/-- Files in turn are read one after the other. -/
theorem follow_inTurn (files : List (String × Nat)) (finished : List ((String × Nat) × Stage)) (s : Session) :
    (⟨finished ++ files.map (·, .waiting), s⟩ : Pool).follow p store
        (inTurn (range' finished.length files.length)) =
      ⟨finished ++ zipWith (fun file task => (file, .done task)) files ((p.parseAll store files).run s).1,
        ((p.parseAll store files).run s).2⟩ := by
  -- the finished files stand in front, so that the place of the next one is their number
  induction files generalizing finished s with
  | nil => rfl
  | cons file files ih =>
    have htask : (finished ++ (file :: files).map (·, Stage.waiting))[finished.length]? = some (file, .waiting) := by
      rw [getElem?_append_right (Nat.le_refl _), Nat.sub_self]
      rfl
    have hrun : (p.parseAll store (file :: files)).run s =
        let (task, t) := (p.parse store file.1 file.2).run s
        let (tasks, u) := (p.parseAll store files).run t
        (task :: tasks, u) := Plan.run_mapM_cons _ file files s
    rw [length_cons, range'_succ, inTurn, flatMap_cons, follow_append, follow_three p store htask,
      Plan.iterate_advance_waiting, hrun]
    generalize (p.parse store file.1 file.2).run s = read
    have hset : (finished ++ (file :: files).map (·, Stage.waiting)).set finished.length (file, .done read.1) =
        (finished ++ [(file, .done read.1)]) ++ files.map (·, .waiting) := by
      rw [set_append_right _ _ (Nat.le_refl _), Nat.sub_self, append_assoc]
      rfl
    have hnext := ih (finished ++ [(file, .done read.1)]) read.2
    rw [length_append, length_singleton, inTurn] at hnext
    rw [hset, hnext, append_assoc]
    rfl

end Pool

/-! ### Runs -/

namespace Plan

/-- Reads the source files in the order of a schedule. -/
def parseIn (p : Plan) (schedule : List Nat) (store : Option Store) (files : List (String × Nat)) :
    StateM Session (List Task) := do
  let pool := (Pool.start files (← get)).follow p store (schedule ++ Pool.inTurn (range files.length))
  set pool.session
  return pool.results

/-- The phases of a run that has scanned the workspace and opened its store, with a schedule for reading. -/
def restIn (p : Plan) (schedule : List Nat) (scan : Scan) (store : Option Store) : Action Report := do
  checkpoint .parse
  let tasks ← p.parseIn schedule store scan.files
  p.afterParse scan store tasks

/-- **A run whose workers read the files in the order of a schedule.** -/
def runIn (p : Plan) (schedule : List Nat) : Action Report := do
  checkpoint .scan
  let scan ← p.scan
  let store ← p.openStore scan.packages
  p.restIn schedule scan store

theorem run_parseIn (p : Plan) (schedule : List Nat) (store : Option Store) (files : List (String × Nat))
    (s : Session) :
    (p.parseIn schedule store files).run s =
      let pool := (Pool.start files s).follow p store (schedule ++ Pool.inTurn (range files.length))
      (pool.results, pool.session) := rfl

/-- All that a run has found that has read its files and run its analyzers. -/
def produced (p : Plan) (scan : Scan) (tasks : List Task) (results : List (List Diagnostic × Option String)) :
    List Diagnostic :=
  (Graph.build scan.packages p.config (tasks.map (·.file))).2 ++ scan.diagnostics ++ results.flatMap (·.1)

/-- **A run that comes to its end** reports what it has found, and removes from its store what it has not used. -/
theorem of_exec_restIn {p : Plan} {schedule : List Nat} {scan : Scan} {store : Option Store} {report : Report}
    {s left : Session} (h : exec (p.restIn schedule scan store) s = (.ok report, left)) :
    let parsed := (p.parseIn schedule store scan.files).run s
    let analyzed := (p.analyzeAll store (p.context scan (parsed.1.map (·.file)))).run parsed.2
    let diagnostics := p.config.finish (p.produced scan parsed.1 analyzed.1)
    report = ⟨diagnostics,
      summary scan parsed.1 (Graph.build scan.packages p.config (parsed.1.map (·.file))).1 diagnostics⟩ ∧
    exec (tidy store (parsed.1.filterMap (·.key) ++ analyzed.1.filterMap (·.2))) analyzed.2 = (.ok (), left) := by
  obtain ⟨tasks, t, hparse, h⟩ := of_exec_bind (of_exec_checkpoint h)
  obtain ⟨rfl, rfl⟩ : _ ∧ _ := ⟨Except.ok.inj (Prod.mk.inj hparse).1, (Prod.mk.inj hparse).2⟩
  obtain ⟨results, u, hanalyze, h⟩ := of_exec_bind (of_exec_checkpoint (of_exec_checkpoint h))
  obtain ⟨rfl, rfl⟩ : _ ∧ _ := ⟨Except.ok.inj (Prod.mk.inj hanalyze).1, (Prod.mk.inj hanalyze).2⟩
  obtain ⟨_, v, htidy, h⟩ := of_exec_bind (of_exec_checkpoint h)
  obtain ⟨hreport, rfl⟩ := Prod.mk.inj h
  exact ⟨(Except.ok.inj hreport).symm, htidy⟩

theorem parseIn_nil (p : Plan) (store : Option Store) (files : List (String × Nat)) :
    p.parseIn [] store files = p.parseAll store files := by
  have hresults : ∀ {files : List (String × Nat)} {tasks : List Task}, tasks.length = files.length →
      (zipWith (fun file task => (file, Stage.done task)) files tasks).filterMap (·.2.task?) = tasks := by
    intro files tasks hlength
    induction files generalizing tasks with
    | nil => rw [eq_nil_of_length_eq_zero hlength]; rfl
    | cons file files ih =>
      cases tasks with
      | nil => cases hlength
      | cons task tasks =>
        exact congrArg (task :: ·) (ih (Nat.succ.inj hlength))
  funext s
  have hfollow : ((⟨[] ++ files.map (·, .waiting), s⟩ : Pool).follow p store
      (Pool.inTurn (range' 0 files.length))) = _ := Pool.follow_inTurn p store files [] s
  have hlength : ((p.parseAll store files).run s).1.length = files.length :=
    (run_mapM (I := fun _ => True) (R := fun _ _ => True) (f := fun file : String × Nat => p.parse store file.1 file.2)
      (fun _ _ _ _ => ⟨trivial, trivial⟩) trivial).1.length_eq.symm
  change (p.parseIn [] store files).run s = (p.parseAll store files).run s
  rw [run_parseIn, nil_append, range_eq_range']
  rw [nil_append] at hfollow
  rw [Pool.start, hfollow]
  exact Prod.ext (hresults hlength) rfl

/-- **Under the empty schedule** a run reads one file after the other. -/
theorem runIn_nil (p : Plan) : p.runIn [] = p.run := by
  unfold runIn restIn run
  simp only [parseIn_nil]

/-! ### Runs that read afresh -/

/-- What is known of a file at each stage of reading it afresh. -/
def IsFresh (p : Plan) (fs : FileSystem) (file : String × Nat) : Stage → Prop
  | .waiting => True
  | .missed language content => p.Reads fs file language content
  | .computed language content outcome =>
    p.Reads fs file language content ∧ outcome = (p.freshFile fs file).outcome
  | .done task => task.file = p.freshFile fs file

/-- Files are as they were, what the store has for them and for the analyzers is what they give afresh, and using the
store keeps an invariant of the session. -/
structure Keeps (p : Plan) (s : Session) (scan : Scan) (store : Option Store) (Inv : Session → Prop) :
    Prop where
  quiet : p.IsQuiet
  stops : ∀ t, Inv t → t.stops = s.stops
  read : ∀ file ∈ scan.files, ∀ t, Inv t → t.files.read (under p.root file.1) = s.files.read (under p.root file.1)
  parse : s.stops .parse = false → ∀ own, store = some own → ∀ file ∈ scan.files, ∀ language content,
    p.Reads s.files file language content → ∀ t, Inv t →
      (∀ outcome, own.outcome? t (parseKey language file.1 content) = some outcome →
        outcome = (p.freshFile s.files file).outcome) ∧
      Inv (own.put t (parseKey language file.1 content) (.parse (p.freshFile s.files file).outcome))
  analyze : s.stops .parse = false → s.stops .build = false → s.stops .analyze = false →
    ∀ context, context = p.context scan (scan.files.map (p.freshFile s.files)) →
    ∀ analyzer ∈ p.analyzers, ∀ t, Inv t →
      ((p.analyze store context analyzer).run t).1.1 = p.freshFindings context analyzer ∧
        Inv ((p.analyze store context analyzer).run t).2

variable {p : Plan} {s t : Session} {scan : Scan} {store : Option Store} {Inv : Session → Prop} {file : String × Nat}

section

variable (h : p.Keeps s scan store Inv)
include h

/-- **One step of a file** gives what it gives afresh. -/
theorem Keeps.advance (hparse : s.stops .parse = false) (hfile : file ∈ scan.files) {stage : Stage}
    (hstage : p.IsFresh s.files file stage) (ht : Inv t) :
    p.IsFresh s.files file (p.advance store file (stage, t)).1 ∧ Inv (p.advance store file (stage, t)).2 := by
  cases stage with
  | waiting =>
    refine ⟨?_, ht⟩
    change p.IsFresh s.files file (p.look store file t)
    obtain ⟨-, hlook⟩ | ⟨language, content, hreads, hlook⟩ := look_cases store (h.read file hfile t ht)
    · rw [hlook]
      exact rfl
    · rw [hlook]
      cases store with
      | none => exact hreads
      | some own =>
        rw [Option.bind_some]
        cases hfound : own.outcome? t (parseKey language file.1 content) with
        | none => exact hreads
        | some outcome =>
          change { p.freshFile s.files file with outcome } = p.freshFile s.files file
          rw [(h.parse hparse own rfl file hfile language content hreads t ht).1 outcome hfound]
  | missed language content =>
    obtain ⟨_, _, hlanguage, _⟩ := id hstage
    change (_ ∧ _) ∧ Inv (t.cancelIf _)
    rw [h.quiet.readBy hlanguage, cancelIf_false, Reads.freshFile_eq hstage]
    exact ⟨⟨hstage, rfl⟩, ht⟩
  | computed language content outcome =>
    obtain ⟨hreads, rfl⟩ := hstage
    refine ⟨?_, ?_⟩
    · change SourceFile.mk _ _ _ _ = _
      rw [hreads.freshFile_eq]
    · cases store with
      | none => exact ht
      | some own => exact (h.parse hparse own rfl file hfile language content hreads t ht).2
  | done task => exact ⟨hstage, ht⟩

/-- **Reading in the order of a schedule** gives what it gives afresh. -/
theorem Keeps.parseIn (hparse : s.stops .parse = false) (ht : Inv t) (schedule : List Nat) :
    ((p.parseIn schedule store scan.files).run t).1.map (·.file) = scan.files.map (p.freshFile s.files) ∧
      Inv ((p.parseIn schedule store scan.files).run t).2 := by
  rw [run_parseIn]
  have hmap := Pool.map_follow p store scan.files t (schedule ++ Pool.inTurn (range scan.files.length))
  have hdone := fun entry hentry => @Pool.exists_done p store scan.files t schedule entry hentry
  have hpool := @Pool.follow_induction p store (Pool.start scan.files t)
    (fun pool => (∀ entry ∈ pool.tasks, entry.1 ∈ scan.files ∧ p.IsFresh s.files entry.1 entry.2) ∧ Inv pool.session)
    (fun pool i hpool => ?_) ⟨?_, ht⟩ (schedule ++ Pool.inTurn (range scan.files.length))
  · generalize (Pool.start scan.files t).follow p store _ = pool at hmap hdone hpool ⊢
    obtain ⟨read, htasks, hresults⟩ := Pool.exists_results hdone
    refine ⟨?_, hpool.2⟩
    rw [htasks, map_map] at hmap
    dsimp only
    rw [hresults, ← hmap, map_map, map_map]
    refine map_congr_left fun e he => (hpool.1 (e.1, .done e.2) ?_).2
    rw [htasks]
    exact mem_map_of_mem he
  · obtain hsame | ⟨file, stage, next, u, hmem, hnext, rfl, -, hold⟩ := Pool.step_cases p store pool i
    · rwa [hsame]
    · obtain ⟨hfile, hstage⟩ := hpool.1 _ hmem
      have hadvance := h.advance hparse hfile hstage hpool.2
      rw [hnext] at hadvance
      refine ⟨fun entry hentry => ?_, hadvance.2⟩
      obtain hentry | rfl := hold entry hentry
      · exact hpool.1 entry hentry
      · exact ⟨hfile, hadvance.1⟩
  · intro entry hentry
    obtain ⟨file, hfile, rfl⟩ := mem_map.1 hentry
    exact ⟨hfile, trivial⟩

/-- **A run gives the fresh report**, whatever its store does, as long as each step gives what it gives afresh. -/
theorem Keeps.exec_restIn (ht : Inv t) (schedule : List Nat) :
    (exec (p.restIn schedule scan store) t).1.map Report.withoutCache = p.freshRest s scan ∧
      Left s store Inv (exec (p.restIn schedule scan store) t).2 := by
  have hcheck : check t .parse = check s .parse := by rw [check, check, h.stops t ht]
  rw [restIn, exec_bind, exec_checkpoint, hcheck, freshRest]
  cases hparse : check s .parse with
  | error e => exact ⟨rfl, t, ht, .inl rfl⟩
  | ok _ =>
    simp only
    rw [exec_bind, exec_lift]
    -- the files are read
    obtain ⟨hfiles, ht⟩ := h.parseIn (stops_of_check hparse) ht schedule
    generalize (p.parseIn schedule store scan.files).run t = parsed at hfiles ht ⊢
    obtain ⟨tasks, t⟩ := parsed
    have hrest : (exec (p.afterParse scan store tasks) t).1 =
        p.concluded s scan tasks (p.freshFindings (p.context scan (tasks.map (·.file)))) ∧
          Left s store Inv (exec (p.afterParse scan store tasks) t).2 :=
      exec_afterParse h.stops
        (fun hbuild hanalyze => h.analyze (stops_of_check hparse) hbuild hanalyze _ (by rw [hfiles])) ht
    refine ⟨?_, hrest.2⟩
    rw [hrest.1]
    change Report.withoutCache <$> p.concluded s scan tasks _ = _
    simp only [concluded, conclusion, map_bind, hfiles]
    rfl

end

/-- Without a store, each step gives what it gives afresh and leaves the session as it is. -/
theorem IsQuiet.keeps_none (h : p.IsQuiet) (s : Session) (scan : Scan) : p.Keeps s scan none (· = s) where
  quiet := h
  stops t ht := by rw [ht]
  read _ _ t ht := by rw [ht]
  parse _ own hown := nomatch hown
  analyze _ _ _ context _ analyzer hanalyzer t ht := by
    rw [run_analyze, freshFindings, ht]
    split
    · dsimp only
      rw [h.analyze analyzer hanalyzer, cancelIf_false]
      exact ⟨rfl, rfl⟩
    · exact ⟨rfl, rfl⟩

/-- **A run without a store gives the fresh report** and leaves the session as it is. -/
theorem IsQuiet.exec_runIn (h : p.IsQuiet) (hcache : p.config.cache.enabled = false) (s : Session)
    (schedule : List Nat) :
    (exec (p.runIn schedule) s).1.map Report.withoutCache = p.fresh s ∧ (exec (p.runIn schedule) s).2 = s := by
  have hopen : ∀ packages, exec (p.openStore packages) s = (.ok none, s) := by
    intro packages
    unfold openStore
    rw [hcache]
    rfl
  have hrefusal : ∀ scan, p.refusal? s scan = none := by
    intro scan
    rw [refusal?, hcache]
    rfl
  rw [runIn, exec_bind, exec_checkpoint, fresh]
  cases check s .scan with
  | error e => exact ⟨rfl, rfl⟩
  | ok _ =>
    dsimp only
    rw [exec_bind, exec_scan]
    cases p.scanned s.files with
    | error e => exact ⟨rfl, rfl⟩
    | ok scan =>
      dsimp only
      rw [exec_bind, hopen]
      obtain ⟨hreport, t, rfl, hleft⟩ := (h.keeps_none s scan).exec_restIn rfl schedule
      refine ⟨?_, ?_⟩
      · change _ = p.freshScanned t scan
        rw [freshScanned, hrefusal]
        exact hreport
      obtain hleft | ⟨-, own, _, hown, _⟩ := hleft
      · exact hleft
      · cases hown

theorem IsQuiet.exec_run (h : p.IsQuiet) (hcache : p.config.cache.enabled = false) (s : Session) :
    (exec p.run s).1.map Report.withoutCache = p.fresh s ∧ (exec p.run s).2 = s :=
  runIn_nil p ▸ h.exec_runIn hcache s []

end Plan

end Cartograph
