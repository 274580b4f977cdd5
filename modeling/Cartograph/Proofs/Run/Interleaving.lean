import Mathlib.Data.List.Dedup
import Mathlib.Data.List.Perm.Subperm
import Cartograph.Proofs.Run.Steps

/-!
# Schedules do not change the report

Whatever the schedule, each file is read as the store has it before the first step, and afresh if the store does
not have it (`Plan.served`): what the workers put under a key is what is due there, because files with one key give
one outcome (`Pool.Reached.step`, `Pool.reached_follow`).
-/

namespace Cartograph

open List
open Path.Spelling (under)
open FileSystem (Place)

/-- Any bytes. -/
def AnyBytes (_ : ByteArray) : Prop := True

namespace Plan

/-- What the store has for a file. -/
def stored? (p : Plan) (store : Option Store) (s : Session) (file : String × Nat) : Option Outcome :=
  store.bind fun own => (p.keyOf? s.files file).bind (own.outcome? s)

/-- **A file as it is read with a store**: as the store has it, or afresh. -/
def served (p : Plan) (store : Option Store) (s : Session) (file : String × Nat) : SourceFile :=
  let fresh := p.freshFile s.files file
  { fresh with outcome := (p.stored? store s file).getD fresh.outcome }

variable {p : Plan} {fs : FileSystem} {file : String × Nat} {language : Language} {content : Content}

theorem isDigest_keyOf? {key : String} (h : p.keyOf? fs file = some key) : Cache.isDigest key.toList = true := by
  unfold keyOf? at h
  split at h
  · cases h
  · obtain ⟨language, -, rfl⟩ := Option.map_eq_some_iff.1 h
    exact Digest.isDigest_digest _

end Plan

/-! ### One schedule -/

/-- What reading files with a store relies on: nobody gives the run up, the files stay as they are while the store is
used, and files with one key give one outcome. -/
structure Plan.IsSteady (p : Plan) (home : Place) (store : Option Store) (s : Session)
    (files : List (String × Nat)) : Prop where
  quiet : p.IsQuiet
  start : s.Continues AnyBytes home store s
  read : ∀ file ∈ files, ∀ t, s.Continues AnyBytes home store t →
    t.files.read (under p.root file.1) = s.files.read (under p.root file.1)
  agree : ∀ file ∈ files, ∀ other ∈ files, ∀ key, p.keyOf? s.files file = some key →
    p.keyOf? s.files other = some key → (p.freshFile s.files file).outcome = (p.freshFile s.files other).outcome

/-- What is known of a file at each stage, from the session in which the pool started. -/
def Stage.IsCorrect (p : Plan) (store : Option Store) (s : Session) (file : String × Nat) : Stage → Prop
  | waiting => True
  | missed language content => p.Reads s.files file language content ∧ p.stored? store s file = none
  | computed language content outcome =>
    p.Reads s.files file language content ∧ p.stored? store s file = none ∧
      outcome = (p.freshFile s.files file).outcome
  | done task => task.file = p.served store s file ∧ (task.hit = false → p.stored? store s file = none)

namespace Plan

variable {p : Plan} {home : Place} {store : Option Store} {s t : Session} {files : List (String × Nat)}
  {file : String × Nat} {due : String → CachedValue → Prop}

theorem stored?_eq {own : Store} {key : String} (hkey : p.keyOf? s.files file = some key) :
    p.stored? (some own) s file = own.outcome? s key := by
  rw [stored?, Option.bind_some, hkey, Option.bind_some]

theorem served_of_none (h : p.stored? store s file = none) : p.served store s file = p.freshFile s.files file := by
  rw [served, h, Option.getD_none]

/-- What is due under the key of a file is what is read from it. -/
def Expects (p : Plan) (s : Session) (due : String → CachedValue → Prop) (file : String × Nat) : Prop :=
  ∀ key value, p.keyOf? s.files file = some key → due key value → value = .parse (p.freshFile s.files file).outcome

section

variable (h : p.IsSteady home store s files) (hfile : file ∈ files) (ht : s.Continues AnyBytes home store t)
  (hfilled : ∀ own, store = some own → own.Filled due s t) (hdue : p.Expects s due file)
include h hfile ht hfilled hdue

/-- **Looking a file up** finds what the store had, or what was due there. -/
theorem IsSteady.look_spec :
    (p.look store file t).IsCorrect p store s file ∧
      ∀ task, p.look store file t = .done task → task.hit = true →
        ∃ key, p.keyOf? s.files file = some key ∧ (p.stored? store s file = none → ∃ value, due key value) := by
  obtain ⟨hkey, hlook⟩ | ⟨language, content, hreads, hlook⟩ := look_cases store (h.read file hfile t ht)
  · -- without a key nothing is looked up
    have hstored : p.stored? store s file = none := by
      rw [stored?, hkey]
      cases store <;> rfl
    rw [hlook]
    refine ⟨⟨(served_of_none hstored).symm, fun _ => hstored⟩, fun task htask hhit => ?_⟩
    obtain rfl := Stage.done.inj htask
    cases hhit
  · have hkey := hreads.keyOf?_eq
    rw [hlook]
    cases store with
    | none => exact ⟨⟨hreads, rfl⟩, nofun⟩
    | some own =>
      have hsame := (hfilled own rfl).outcome? (isDigest_keyOf? hkey) fun value => hdue _ value hkey
      rw [← stored?_eq hkey] at hsame
      rw [Option.bind_some]
      cases hfound : own.outcome? t (parseKey language file.1 content) with
      | none =>
        -- what is not there now was not there at the start
        rw [hfound] at hsame
        obtain hsame | ⟨hnone, -⟩ := hsame
        · exact ⟨⟨hreads, hsame.symm⟩, nofun⟩
        · exact ⟨⟨hreads, hnone⟩, nofun⟩
      | some outcome =>
        rw [hfound] at hsame
        obtain hsame | ⟨hnone, hfresh, hput⟩ := hsame
        · refine ⟨⟨?_, nofun⟩, fun task _ _ => ⟨_, hkey, fun hnone => ?_⟩⟩
          · rw [served, ← hsame, Option.getD_some]
          · rw [hnone] at hsame
            cases hsame
        · -- another worker has put it since, and read the same from its own file
          refine ⟨⟨?_, nofun⟩, fun task _ _ => ⟨_, hkey, fun _ => ⟨_, hput⟩⟩⟩
          rw [served_of_none hnone, Option.some.inj hfresh]

/-- **One step of a file** keeps what is known of it, of the session and of the store. -/
theorem IsSteady.advance_spec {stage next : Stage} {u : Session} (hstage : stage.IsCorrect p store s file)
    (hnext : p.advance store file (stage, t) = (next, u)) (due' : String → CachedValue → Prop) :
    next.IsCorrect p store s file ∧ s.Continues AnyBytes home store u ∧
      ((∀ key value, due key value → due' key value) →
        (∀ task key, next = .done task → task.hit = false → p.keyOf? s.files file = some key →
          due' key (.parse (p.freshFile s.files file).outcome)) →
        ∀ own, store = some own → own.Filled due' s u) := by
  cases stage with
  | waiting =>
    obtain ⟨rfl, rfl⟩ := Prod.mk.inj hnext
    exact ⟨(h.look_spec hfile ht hfilled hdue).1, ht, fun hmono _ own hown => (hfilled own hown).mono hmono⟩
  | missed language content =>
    obtain ⟨hreads, hstored⟩ := hstage
    obtain ⟨_, _, hlanguage, _⟩ := id hreads
    obtain ⟨rfl, rfl⟩ := Prod.mk.inj hnext
    rw [h.quiet.readBy hlanguage, cancelIf_false]
    refine ⟨⟨hreads, hstored, ?_⟩, ht, fun hmono _ own hown => (hfilled own hown).mono hmono⟩
    rw [hreads.freshFile_eq]
  | computed language content outcome =>
    obtain ⟨hreads, hstored, rfl⟩ := hstage
    obtain ⟨rfl, rfl⟩ := Prod.mk.inj hnext
    have hkey := hreads.keyOf?_eq
    have hfresh : (⟨file.1, file.2, content.hash, (p.freshFile s.files file).outcome⟩ : SourceFile) =
        p.freshFile s.files file := by rw [hreads.freshFile_eq]
    refine ⟨⟨?_, fun _ => hstored⟩, ?_, fun hmono hput own hown => ?_⟩
    · rw [served_of_none hstored, hfresh]
    · cases store with
      | none => exact ht
      | some own => exact ht.put rfl (isDigest_keyOf? hkey) trivial
    · obtain rfl := hown
      refine ((hfilled own rfl).mono hmono).put (ht.isOpen own rfl) (isDigest_keyOf? hkey) trivial
        (hput _ _ rfl rfl hkey) ?_
      exact (stored?_eq hkey).symm.trans hstored
  | done task =>
    obtain ⟨rfl, rfl⟩ := Prod.mk.inj hnext
    exact ⟨hstage, ht, fun hmono _ own hown => (hfilled own hown).mono hmono⟩

end

end Plan

namespace Pool

variable {p : Plan} {home : Place} {store : Option Store} {s : Session} {files : List (String × Nat)} {pool : Pool}

/-- A file with a key was read because the store did not have it. -/
def Missed (p : Plan) (s : Session) (pool : Pool) (key : String) : Prop :=
  ∃ file task, (file, Stage.done task) ∈ pool.tasks ∧ task.hit = false ∧ p.keyOf? s.files file = some key

/-- What a pool may have put under a key: what was read from a file that the store did not have. -/
def due (p : Plan) (s : Session) (pool : Pool) (key : String) (value : CachedValue) : Prop :=
  pool.Missed p s key ∧
    ∃ file ∈ pool.tasks.map (·.1), p.keyOf? s.files file = some key ∧
      value = .parse (p.freshFile s.files file).outcome

/-- **The invariant of a pool** that started in a session: nothing was touched but the store, the store was filled
with what was due, and each file is where its stage says. -/
structure Reached (p : Plan) (home : Place) (store : Option Store) (s : Session) (files : List (String × Nat))
    (pool : Pool) : Prop where
  files : pool.tasks.map (·.1) = files
  session : s.Continues AnyBytes home store pool.session
  filled : ∀ own, store = some own → own.Filled (pool.due p s) s pool.session
  correct : ∀ file stage, (file, stage) ∈ pool.tasks → stage.IsCorrect p store s file
  hit : ∀ file task, (file, Stage.done task) ∈ pool.tasks → task.hit = true →
    ∃ key, p.keyOf? s.files file = some key ∧ (p.stored? store s file = none → pool.Missed p s key)

theorem Missed.step {key : String} (h : pool.Missed p s key) (store : Option Store) (i : Nat) :
    (pool.step p store i).Missed p s key := by
  obtain ⟨file, task, hmem, hhit, hkey⟩ := h
  obtain ⟨j, hj, htask⟩ := mem_iff_getElem.1 hmem
  have hdone : pool.tasks[j]? = some (file, .done task) := by rw [getElem?_eq_getElem hj, htask]
  exact ⟨file, task, mem_of_getElem? (step_done p store hdone i), hhit, hkey⟩

/-- What is due under the key of a file is what is read from it, because files with one key give one outcome. -/
theorem Reached.expects (h : pool.Reached p home store s files) (hsteady : p.IsSteady home store s files)
    {file : String × Nat} (hfile : file ∈ files) : p.Expects s (pool.due p s) file := by
  rintro key value hkey ⟨-, other, hother, hkey', rfl⟩
  rw [h.files] at hother
  rw [hsteady.agree file hfile other hother key hkey hkey']

/-- **Every step keeps the invariant.** -/
theorem Reached.step (hsteady : p.IsSteady home store s files) (h : pool.Reached p home store s files) (i : Nat) :
    (pool.step p store i).Reached p home store s files := by
  obtain hsame | ⟨file, stage, next, u, hmem, hnext, rfl, hnew, hold⟩ := step_cases p store pool i
  · rwa [hsame]
  have hfile : file ∈ files := h.files ▸ mem_map_of_mem hmem
  have hexpects := h.expects hsteady hfile
  have hmissed : ∀ {key}, pool.Missed p s key → (pool.step p store i).Missed p s key := fun hkey => hkey.step store i
  have hmap := map_step p store pool i
  generalize pool.step p store i = after at hnext hnew hold hmissed hmap ⊢
  obtain ⟨hcorrect, hcontinues, hfilled⟩ := hsteady.advance_spec hfile h.session h.filled hexpects
    (h.correct file stage hmem) hnext (after.due p s)
  refine ⟨hmap.trans h.files, hcontinues, ?_, fun other stage' hother => ?_, fun other task hother hhit => ?_⟩
  · -- what was put now is due, because the file missed
    refine hfilled (fun key value ⟨hkey, hvalue⟩ => ⟨hmissed hkey, hmap ▸ hvalue⟩) fun task key hdone hhit hkey => ?_
    exact ⟨⟨file, task, hdone ▸ hnew, hhit, hkey⟩, file, mem_map_of_mem hnew, hkey, rfl⟩
  · obtain hother | heq := hold _ hother
    · exact h.correct other stage' hother
    · obtain ⟨rfl, rfl⟩ := Prod.mk.inj heq
      exact hcorrect
  · have hbefore : ∀ task', (other, Stage.done task') ∈ pool.tasks → task'.hit = true →
        ∃ key, p.keyOf? s.files other = some key ∧ (p.stored? store s other = none → after.Missed p s key) := by
      intro task' hother hhit
      obtain ⟨key, hkey, hmiss⟩ := h.hit other task' hother hhit
      exact ⟨key, hkey, fun hstored => hmissed (hmiss hstored)⟩
    -- a new hit comes from looking up, which found what the store had or what a miss has put
    obtain hother | heq := hold _ hother
    · exact hbefore task hother hhit
    · obtain ⟨rfl, rfl⟩ := Prod.mk.inj heq
      obtain rfl | hlook := Plan.of_advance_hit hnext hhit
      · exact hbefore task hmem hhit
      · obtain ⟨key, hkey, hput⟩ := (hsteady.look_spec hfile h.session h.filled hexpects).2 task hlook hhit
        exact ⟨key, hkey, fun hstored => (hput hstored).elim fun _ hdue => hmissed hdue.1⟩

/-- **Every schedule keeps the invariant.** -/
theorem reached_follow (hsteady : p.IsSteady home store s files) (schedule : List Nat) :
    ((start files s).follow p store schedule).Reached p home store s files := by
  refine follow_induction p store (Reached p home store s files) (fun _ i h => h.step hsteady i) ?_ schedule
  have hwaiting : ∀ {file stage}, (file, stage) ∈ (start files s).tasks → stage = .waiting := by
    intro file stage hmem
    obtain ⟨_, -, heq⟩ := mem_map.1 hmem
    exact (Prod.mk.inj heq).2.symm
  refine ⟨?_, hsteady.start, fun own _ => .refl own _ s, fun file stage hmem => ?_, fun file task hmem => ?_⟩
  · rw [start, map_map]
    exact map_id files
  · rw [hwaiting hmem]
    trivial
  · cases hwaiting hmem

end Pool

/-! ### Hits and misses -/

namespace Plan

variable {p : Plan} {store : Option Store} {s : Session} {files : List (String × Nat)}

/-- How many of the files the store has. -/
def available (p : Plan) (store : Option Store) (s : Session) (files : List (String × Nat)) : Nat :=
  files.countP fun file => (p.stored? store s file).isSome

/-- The key of a file that the store does not have. -/
def lackedKey? (p : Plan) (store : Option Store) (s : Session) (file : String × Nat) : Option String :=
  if (p.stored? store s file).isSome then none else p.keyOf? s.files file

/-- The keys of the files that the store does not have. -/
def lacked (p : Plan) (store : Option Store) (s : Session) (files : List (String × Nat)) : List String :=
  files.filterMap (p.lackedKey? store s)

/-- What is due under a key: what is read from a file that has it. -/
def dueOf (p : Plan) (s : Session) (files : List (String × Nat)) (key : String) (value : CachedValue) : Prop :=
  ∃ file ∈ files, p.keyOf? s.files file = some key ∧ value = .parse (p.freshFile s.files file).outcome

/-- The key of a file that missed. -/
def missedKey? (p : Plan) (s : Session) (e : (String × Nat) × Task) : Option String :=
  if e.2.hit then none else p.keyOf? s.files e.1

/-- The files as the store serves them, with numbers of hits that are possible: each file that the store had is a
hit, and of the files with one key that it did not have one at least is a miss. -/
structure AreServed (p : Plan) (store : Option Store) (s : Session) (files : List (String × Nat))
    (tasks : List Task) : Prop where
  map_file : tasks.map (·.file) = files.map (p.served store s)
  available_le : p.available store s files ≤ tasks.countP (·.hit)
  le_available : tasks.countP (·.hit) + (p.lacked store s files).dedup.length ≤
    p.available store s files + (p.lacked store s files).length

/-- A file that hits was there, or its key was lacking; a file that misses was not there. -/
theorem countP_hit_add_le {read : List ((String × Nat) × Task)}
    (hstored : ∀ e ∈ read, e.2.hit = false → p.stored? store s e.1 = none)
    (hkey : ∀ e ∈ read, e.2.hit = true → ∃ key, p.keyOf? s.files e.1 = some key) :
    (read.map (·.2)).countP (·.hit) + (read.filterMap (p.missedKey? s)).length ≤
      p.available store s (read.map (·.1)) + (p.lacked store s (read.map (·.1))).length := by
  induction read with
  | nil => exact Nat.le_refl _
  | cons e read ih =>
    have hrest := ih (forall_mem_cons.1 hstored).2 (forall_mem_cons.1 hkey).2
    have hstored := hstored e mem_cons_self
    have hkey := hkey e mem_cons_self
    simp only [available, lacked] at hrest ⊢
    rw [map_cons, map_cons, countP_cons, countP_cons, filterMap_cons, filterMap_cons]
    cases hhit : e.2.hit with
    | false =>
      have hmiss : p.missedKey? s e = p.lackedKey? store s e.1 := by
        rw [missedKey?, lackedKey?, hhit, hstored hhit]
        rfl
      rw [hmiss, hstored hhit]
      cases p.lackedKey? store s e.1 with
      | none => simpa using hrest
      | some key => simp only [length_cons, Option.isSome_none, Bool.false_eq_true, if_false]; omega
    | true =>
      obtain ⟨key, hkey⟩ := hkey hhit
      have hmiss : p.missedKey? s e = none := by rw [missedKey?, hhit]; rfl
      rw [hmiss, lackedKey?, hkey]
      cases p.stored? store s e.1 with
      | none => simp only [Option.isSome_none, Bool.false_eq_true, if_false, if_true, length_cons]; omega
      | some outcome => simp only [Option.isSome_some, if_true]; omega

end Plan

namespace Pool

variable {p : Plan} {home : Place} {store : Option Store} {s : Session} {files : List (String × Nat)} {pool : Pool}

/-- **What a finished pool has read.** -/
theorem Reached.areServed (h : pool.Reached p home store s files)
    (hdone : ∀ entry ∈ pool.tasks, ∃ task, entry.2 = .done task) : p.AreServed store s files pool.results := by
  obtain ⟨read, htasks, hresults⟩ := exists_results hdone
  have hfiles : files = read.map (·.1) := by
    rw [← h.files, htasks, map_map]
    rfl
  have hmem : ∀ {e}, e ∈ read ↔ (e.1, Stage.done e.2) ∈ pool.tasks := by
    intro e
    rw [htasks, mem_map]
    refine ⟨fun he => ⟨e, he, rfl⟩, ?_⟩
    rintro ⟨e', he', heq⟩
    obtain ⟨hfile, htask⟩ := Prod.mk.inj heq
    rwa [← Prod.ext hfile (Stage.done.inj htask)]
  have hcorrect : ∀ e ∈ read, e.2.file = p.served store s e.1 ∧
      (e.2.hit = false → p.stored? store s e.1 = none) := fun e he => h.correct _ _ (hmem.1 he)
  -- a key that the store did not have was missed by some file
  have hmissed : p.lacked store s files ⊆ read.filterMap (p.missedKey? s) := by
    intro key hkey
    rw [Plan.lacked, hfiles, filterMap_map] at hkey
    obtain ⟨e, he, hkey⟩ := mem_filterMap.1 hkey
    rw [Function.comp_apply, Plan.lackedKey?] at hkey
    split at hkey
    · cases hkey
    · next hstored =>
      rw [Bool.not_eq_true, Option.isSome_eq_false_iff, Option.isNone_iff_eq_none] at hstored
      rw [mem_filterMap]
      cases hhit : e.2.hit with
      | false => exact ⟨e, he, by rw [Plan.missedKey?, hhit]; exact hkey⟩
      | true =>
        obtain ⟨key', hkey', hmiss⟩ := h.hit _ _ (hmem.1 he) hhit
        obtain rfl := Option.some.inj (hkey.symm.trans hkey')
        obtain ⟨file, task, htask, hhit', hkey''⟩ := hmiss hstored
        refine ⟨(file, task), hmem.2 htask, ?_⟩
        rw [Plan.missedKey?, hhit']
        exact hkey''
  -- so there are at least as many misses as such keys
  have hdedup : (p.lacked store s files).dedup.length ≤ (read.filterMap (p.missedKey? s)).length :=
    (subperm_of_subset (nodup_dedup _) (List.Subset.trans (dedup_subset _) hmissed)).length_le
  have hbalance := Plan.countP_hit_add_le (fun e he => (hcorrect e he).2) fun e he hhit =>
    (h.hit _ _ (hmem.1 he) hhit).imp fun _ hkey => hkey.1
  rw [hresults]
  rw [← hfiles] at hbalance
  refine ⟨?_, ?_, by omega⟩
  · rw [hfiles, map_map, map_map]
    exact map_congr_left fun e he => (hcorrect e he).1
  · -- what the store had is never read again
    rw [Plan.available, hfiles, countP_map, countP_map]
    refine countP_mono_left fun e he hstored => ?_
    by_contra hmiss
    rw [Function.comp_apply, (hcorrect e he).2 (Bool.eq_false_iff.2 hmiss)] at hstored
    cases hstored

end Pool

namespace Plan

variable {p : Plan} {home : Place} {store : Option Store} {s t : Session} {files : List (String × Nat)}
  {context : AnalysisContext} {tasks' : List Task}

/-- **Reading in the order of a schedule** serves the files and fills the store. -/
theorem IsSteady.run_parseIn (h : p.IsSteady home store s files) (schedule : List Nat) :
    p.AreServed store s files ((p.parseIn schedule store files).run s).1 ∧
      s.Continues AnyBytes home store ((p.parseIn schedule store files).run s).2 ∧
      ∀ own, store = some own → own.Filled (p.dueOf s files) s ((p.parseIn schedule store files).run s).2 := by
  have hreached := Pool.reached_follow h (schedule ++ Pool.inTurn (List.range files.length))
  refine ⟨?_, hreached.session, fun own hown => ?_⟩
  · exact hreached.areServed fun entry hentry => Pool.exists_done p store files s schedule hentry
  · refine (hreached.filled own hown).mono fun key value ⟨_, file, hfile, hdue⟩ => ?_
    exact ⟨file, hreached.files ▸ hfile, hdue⟩

/-! ### Analyzing -/

/-- **What an analyzer finds with a store**: what the store has, or what it finds afresh. -/
def servedFindings (p : Plan) (store : Option Store) (s : Session) (context : AnalysisContext)
    (analyzer : Analyzer) : List Diagnostic :=
  if p.runs analyzer then
    (store.bind fun own => own.findings? s (analysisKey p context analyzer)).getD
      (analyzer.analyze context).diagnostics
  else []

/-- No key of reading is one of analyzing, and each analyzer has a key of its own. -/
structure KeysDiffer (p : Plan) (fs : FileSystem) (files : List (String × Nat)) (context : AnalysisContext) :
    Prop where
  parse : ∀ file ∈ files, ∀ analyzer ∈ p.analyzers.filter p.runs,
    p.keyOf? fs file ≠ some (analysisKey p context analyzer)
  analysis : ∀ a ∈ p.analyzers.filter p.runs, ∀ b ∈ p.analyzers.filter p.runs,
    analysisKey p context a = analysisKey p context b → a = b

/-- What is due under a key, from reading or from analyzing. -/
def dueIn (p : Plan) (s : Session) (files : List (String × Nat)) (context : AnalysisContext) (key : String)
    (value : CachedValue) : Prop :=
  p.dueOf s files key value ∨
    ∃ analyzer ∈ p.analyzers.filter p.runs, key = analysisKey p context analyzer ∧
      value = .analysis (analyzer.analyze context).diagnostics

/-- What has become of a session while files are read and analyzers run. -/
def Progressed (p : Plan) (home : Place) (store : Option Store) (s : Session) (files : List (String × Nat))
    (context : AnalysisContext) (t : Session) : Prop :=
  s.Continues AnyBytes home store t ∧ ∀ own, store = some own → own.Filled (p.dueIn s files context) s t

/-- **What the store has for an analyzer** is what it had, or what is found afresh. -/
theorem Progressed.findings? {own : Store} {t : Session} (ht : p.Progressed home (some own) s files context t)
    (hkeys : p.KeysDiffer s.files files context) {analyzer : Analyzer}
    (hanalyzer : analyzer ∈ p.analyzers.filter p.runs) :
    own.findings? t (analysisKey p context analyzer) = own.findings? s (analysisKey p context analyzer) ∨
      own.findings? s (analysisKey p context analyzer) = none ∧
        own.findings? t (analysisKey p context analyzer) = some (analyzer.analyze context).diagnostics := by
  refine (ht.2 own rfl).findings? (Digest.isDigest_digest _) ?_
  rintro value (⟨file, hfile, hkey, -⟩ | ⟨other, hother, hkey, rfl⟩)
  · exact absurd hkey (hkeys.parse file hfile analyzer hanalyzer)
  · rw [hkeys.analysis analyzer hanalyzer other hother hkey]

/-- **Running an analyzer** finds what the store had, or what was due there. -/
theorem IsQuiet.run_analyze_of_progressed (hquiet : p.IsQuiet) (hkeys : p.KeysDiffer s.files files context)
    {analyzer : Analyzer} (hanalyzer : analyzer ∈ p.analyzers)
    (ht : p.Progressed home store s files context t) :
    ((p.analyze store context analyzer).run t).1.1 = p.servedFindings store s context analyzer ∧
      p.Progressed home store s files context ((p.analyze store context analyzer).run t).2 := by
  rw [run_analyze, servedFindings]
  split
  next hruns =>
    dsimp only
    rw [hquiet.analyze analyzer hanalyzer, cancelIf_false]
    have hanalyzer := mem_filter.2 ⟨hanalyzer, hruns⟩
    cases store with
    | none => exact ⟨rfl, ht⟩
    | some own =>
      have hdigest : Cache.isDigest (analysisKey p context analyzer).toList = true := Digest.isDigest_digest _
      have hsame := ht.findings? hkeys hanalyzer
      dsimp only [Option.bind_some]
      generalize hkey : analysisKey p context analyzer = key at hdigest hsame
      cases hfound : own.findings? t key with
      | some found =>
        refine ⟨?_, ht⟩
        rw [hfound] at hsame
        obtain hsame | ⟨hnone, hfresh⟩ := hsame
        · rw [← hsame, Option.getD_some]
        · rw [hnone, Option.getD_none, Option.some.inj hfresh]
      | none =>
        have hlacks : own.findings? s key = none := by
          rw [hfound] at hsame
          exact hsame.elim Eq.symm And.left
        refine ⟨by rw [hlacks, Option.getD_none], ht.1.put rfl hdigest trivial, fun own' hown' => ?_⟩
        obtain rfl := Option.some.inj hown'
        exact (ht.2 own rfl).put (ht.1.isOpen own rfl) hdigest trivial
          (.inr ⟨analyzer, hanalyzer, hkey.symm, rfl⟩) hlacks
  next => exact ⟨rfl, ht⟩

/-! ### Runs -/

variable {scan : Scan} {tasks : List Task}

/-- What the analyzers look at, with the files as the store serves them. -/
def servedContext (p : Plan) (store : Option Store) (s : Session) (scan : Scan) : AnalysisContext :=
  p.context scan (scan.files.map (p.served store s))

/-- **The phases after the store is open**, in the order of a schedule: they give what follows from the files and
the findings as the store serves them. -/
theorem IsSteady.exec_restIn (h : p.IsSteady home store s scan.files)
    (hkeys : p.KeysDiffer s.files scan.files (p.servedContext store s scan)) (schedule : List Nat) :
    (exec (p.restIn schedule scan store) s).1 = (do
      check s .parse
      p.concluded s scan ((p.parseIn schedule store scan.files).run s).1
        (p.servedFindings store s (p.servedContext store s scan))) := by
  obtain ⟨hserved, hcontinues, hfilled⟩ := h.run_parseIn schedule
  rw [restIn, exec_bind, exec_checkpoint]
  cases check s .parse with
  | error e => rfl
  | ok _ =>
    dsimp only
    rw [exec_bind, exec_lift]
    generalize (p.parseIn schedule store scan.files).run s = result at hserved hcontinues hfilled ⊢
    obtain ⟨tasks, t⟩ := result
    have hcontext : p.context scan (tasks.map (·.file)) = p.servedContext store s scan := by
      rw [servedContext, hserved.map_file]
    have hprogressed : p.Progressed home store s scan.files (p.servedContext store s scan) t :=
      ⟨hcontinues, fun own hown => (hfilled own hown).mono fun _ _ => .inl⟩
    have hstops : ∀ t, p.Progressed home store s scan.files (p.servedContext store s scan) t → t.stops = s.stops :=
      fun t ht => ht.1.stops
    refine (exec_afterParse hstops (fun _ _ analyzer hanalyzer t ht => ?_) hprogressed).1
    rw [hcontext]
    exact h.quiet.run_analyze_of_progressed hkeys hanalyzer ht

/-- Two ways of reading the files that serve them lead to one report, up to the numbers of hits and misses. -/
theorem AreServed.concluded_eq (h : p.AreServed store s scan.files tasks)
    (h' : p.AreServed store s scan.files tasks') (found : Analyzer → List Diagnostic) :
    (p.concluded s scan tasks found).map Report.withoutCache =
        (p.concluded s scan tasks' found).map Report.withoutCache ∧
      ((p.lacked store s scan.files).Nodup → p.concluded s scan tasks found = p.concluded s scan tasks' found) := by
  have hfiles : tasks.map (·.file) = tasks'.map (·.file) := h.map_file.trans h'.map_file.symm
  have hlength : tasks.length = tasks'.length := by simpa using congrArg List.length hfiles
  constructor
  · change Report.withoutCache <$> p.concluded s scan tasks found =
      Report.withoutCache <$> p.concluded s scan tasks' found
    simp only [concluded, conclusion, map_bind, map_pure, withoutCache_summary, hfiles]
  · intro hnodup
    -- without repeated keys the two bounds meet
    have hhits : tasks.countP (·.hit) = tasks'.countP (·.hit) := by
      have hle := h.le_available
      have hle' := h'.le_available
      rw [hnodup.dedup] at hle hle'
      have hge := h.available_le
      have hge' := h'.available_le
      omega
    simp only [concluded, conclusion, summary, hfiles, hlength, hhits]

/-- The numbers of hits and misses in the report are those of the tasks. -/
theorem of_concluded_eq_ok {found : Analyzer → List Diagnostic} {report : Report}
    (h : p.concluded s scan tasks found = .ok report) :
    report.summary.cacheHits = tasks.countP (·.hit) ∧
      report.summary.cacheMisses = tasks.length - tasks.countP (·.hit) := by
  obtain ⟨-, -, -, rfl⟩ := concluded_eq_ok_iff.1 h
  exact ⟨rfl, rfl⟩

end Plan

end Cartograph
