import Cartograph.Proofs.Cache.Keeping
import Cartograph.Proofs.Run.Schedule

/-!
# What a run leaves in its store

A run ends with a store that has a result under each key that the run used, and under no other
(`Plan.IsSteady.leaves`): that of each of its files and that of each analyzer that was run, whether the store had the
result or it was put, and whatever it is. Files and analyzers are followed one step after the other. A step loses no
result that the run is to leave (`Store.Grows`), and a file that is done and an analyzer that was run have theirs in the
store (`Pool.Stocked.step`, `Plan.IsQuiet.stocked_analyze`); pruning takes all else away.
-/

namespace Cartograph

open List
open FileSystem (Place IsStore)

/-! ### Stores that grow -/

/-- The results that a store is to have, at most one under each of some keys. -/
structure Expectation where
  keys : List String
  expects : String → CachedValue → Prop
  digest : ∀ key ∈ keys, Cache.isDigest key.toList = true
  mem : ∀ {key value}, expects key value → key ∈ keys
  unique : ∀ {key value other}, expects key value → expects key other → value = other

namespace Store

variable {own : Store} {home : Place} {x : Expectation} {bound : Nat} {s t u : Session} {key : String}
  {value : CachedValue}

/-- From one session to another a store loses none of the results that are expected of it, if nothing fails. -/
structure Grows (own : Store) (x : Expectation) (bound : Nat) (s t : Session) : Prop where
  tickets : s.tickets ≤ t.tickets
  keeps : t.tickets ≤ bound → ∀ key value, x.expects key value → own.Has s key value → own.Has t key value

theorem Grows.refl (own : Store) (x : Expectation) (bound : Nat) (s : Session) : own.Grows x bound s s :=
  ⟨Nat.le_refl _, fun _ _ _ _ => id⟩

theorem Grows.trans (h : own.Grows x bound s t) (h' : own.Grows x bound t u) : own.Grows x bound s u := by
  refine ⟨h.tickets.trans h'.tickets, fun hbound key value hexpected hhas => ?_⟩
  exact h'.keeps hbound key value hexpected (h.keeps (h'.tickets.trans hbound) key value hexpected hhas)

theorem tickets_le_put (own : Store) (s : Session) (key : String) (value : CachedValue) :
    s.tickets ≤ (own.put s key value).tickets := by
  cases own with
  | memory => exact Nat.le_refl _
  | disk d => exact Nat.le_succ _

/-- **Putting an expected result** loses none of the others, and the store then has it. -/
theorem grows_put (hready : own.IsReady home x.keys bound s) (hopen : own.IsUsable AnyBytes home s)
    (hexpected : x.expects key value) (hholds : own.Holds value) :
    own.IsReady home x.keys bound (own.put s key value) ∧ own.Grows x bound s (own.put s key value) ∧
      ((own.put s key value).tickets ≤ bound → own.Has (own.put s key value) key value) := by
  have hkey := x.mem hexpected
  obtain ⟨hready', hself⟩ := hready.put hopen (fun _ => trivial) x.digest hkey hholds
  refine ⟨hready', ⟨tickets_le_put own s key value, fun hbound other value' hother hhas => ?_⟩, hself⟩
  by_cases heq : other = key
  · subst heq
    rw [x.unique hother hexpected]
    exact hself hbound
  · exact hhas.put hopen (fun _ => trivial) (x.digest _ (x.mem hother)) (x.digest _ hkey) heq value

end Store

/-! ### What is expected -/

namespace Plan

variable {p : Plan} {home : Place} {own : Store} {s t : Session} {scan : Scan} {file other : String × Nat}
  {key : String} {store : Option Store}

/-- The keys under which a run looks results up: those of its files, and those of the analyzers that are run. -/
def usedKeys (p : Plan) (scan : Scan) (store : Option Store) (s : Session) : List String :=
  scan.files.filterMap (p.keyOf? s.files) ++
    (p.analyzers.filter p.runs).map (analysisKey p (p.servedContext store s scan))

/-- What a run serves under a key. -/
def Serves (p : Plan) (scan : Scan) (store : Option Store) (s : Session) (key : String) (value : CachedValue) : Prop :=
  (∃ file ∈ scan.files, p.keyOf? s.files file = some key ∧ value = .parse (p.served store s file).outcome) ∨
    ∃ analyzer ∈ p.analyzers.filter p.runs, key = analysisKey p (p.servedContext store s scan) analyzer ∧
      value = .analysis (p.servedFindings store s (p.servedContext store s scan) analyzer)

theorem mem_usedKeys_iff : key ∈ p.usedKeys scan store s ↔ ∃ value, p.Serves scan store s key value := by
  simp only [usedKeys, mem_append, mem_filterMap, mem_map]
  constructor
  · rintro (⟨file, hfile, hkey⟩ | ⟨analyzer, hanalyzer, rfl⟩)
    · exact ⟨_, .inl ⟨file, hfile, hkey, rfl⟩⟩
    · exact ⟨_, .inr ⟨analyzer, hanalyzer, rfl, rfl⟩⟩
  · rintro ⟨value, ⟨file, hfile, hkey, -⟩ | ⟨analyzer, hanalyzer, rfl, -⟩⟩
    · exact .inl ⟨file, hfile, hkey⟩
    · exact .inr ⟨analyzer, hanalyzer, rfl⟩

theorem isDigest_of_mem_usedKeys (h : key ∈ p.usedKeys scan store s) : Cache.isDigest key.toList = true := by
  obtain ⟨value, ⟨file, -, hkey, -⟩ | ⟨analyzer, -, rfl, -⟩⟩ := mem_usedKeys_iff.1 h
  · exact isDigest_keyOf? hkey
  · exact Digest.isDigest_digest _

/-- Files with one key are served alike. -/
theorem IsSteady.served_agree (h : p.IsSteady home (some own) s scan.files)
    (hfile : file ∈ scan.files) (hother : other ∈ scan.files) (hkey : p.keyOf? s.files file = some key)
    (hkey' : p.keyOf? s.files other = some key) :
    (p.served (some own) s file).outcome = (p.served (some own) s other).outcome := by
  change (p.stored? (some own) s file).getD _ = (p.stored? (some own) s other).getD _
  rw [stored?_eq hkey, stored?_eq hkey', h.agree file hfile other hother key hkey hkey']

/-- What a run serves, where keys differ. -/
def IsSteady.expectation (h : p.IsSteady home (some own) s scan.files)
    (hkeys : p.KeysDiffer s.files scan.files (p.servedContext (some own) s scan)) : Expectation where
  keys := p.usedKeys scan (some own) s
  expects := p.Serves scan (some own) s
  digest _ hkey := isDigest_of_mem_usedKeys hkey
  mem hvalue := mem_usedKeys_iff.2 ⟨_, hvalue⟩
  unique {key value other} hvalue hother := by
    obtain ⟨file, hfile, hkey, rfl⟩ | ⟨analyzer, hanalyzer, rfl, rfl⟩ := hvalue
    · obtain ⟨file', hfile', hkey', rfl⟩ | ⟨analyzer, hanalyzer, rfl, -⟩ := hother
      · rw [h.served_agree hfile hfile' hkey hkey']
      · exact absurd hkey (hkeys.parse file hfile analyzer hanalyzer)
    · obtain ⟨file, hfile, hkey, -⟩ | ⟨analyzer', hanalyzer', heq, rfl⟩ := hother
      · exact absurd hkey (hkeys.parse file hfile analyzer hanalyzer)
      · rw [hkeys.analysis analyzer hanalyzer analyzer' hanalyzer' heq]

/-- What the store lacks can be kept there. -/
def IsHeld (p : Plan) (scan : Scan) (own : Store) (s : Session) : Prop :=
  ∀ key value, p.dueIn s scan.files (p.servedContext (some own) s scan) key value → own.Lacks s key value →
    own.Holds value

/-! ### Reading -/

section Advance

variable {x : Expectation} {bound : Nat} {files : List (String × Nat)} {due : String → CachedValue → Prop}

/-- **One step of a file** loses nothing that is expected, and a file that is done then has its result in the
store. -/
theorem IsSteady.grows_advance (h : p.IsSteady home (some own) s files) (hfile : file ∈ files)
    (hexpects : ∀ key, p.keyOf? s.files file = some key → x.expects key (.parse (p.served (some own) s file).outcome))
    (hholds : ∀ key, p.keyOf? s.files file = some key → own.outcome? s key = none →
      own.Holds (.parse (p.freshFile s.files file).outcome))
    (ht : s.Continues AnyBytes home (some own) t) (hfilled : ∀ own', some own = some own' → own'.Filled due s t)
    (hdue : p.Expects s due file) (hready : own.IsReady home x.keys bound t) {stage next : Stage} {u : Session}
    (hstage : stage.IsCorrect p (some own) s file) (hnext : p.advance (some own) file (stage, t) = (next, u)) :
    own.IsReady home x.keys bound u ∧ own.Grows x bound t u ∧
      ∀ task, next = .done task → stage = .done task ∨
        task.key = p.keyOf? s.files file ∧ (u.tickets ≤ bound → ∀ key, p.keyOf? s.files file = some key →
          own.Has u key (.parse (p.served (some own) s file).outcome)) := by
  cases stage with
  | waiting =>
    obtain ⟨rfl, rfl⟩ := Prod.mk.inj hnext
    refine ⟨hready, .refl own x bound t, fun task htask => .inr ?_⟩
    have hcorrect := (h.look_spec hfile ht hfilled hdue).1
    obtain ⟨hkey, hlook⟩ | ⟨language, content, hreads, hlook⟩ := look_cases (some own) (h.read file hfile t ht)
    · obtain rfl := Stage.done.inj (hlook.symm.trans htask)
      exact ⟨hkey.symm, fun _ key hkey' => nomatch hkey.symm.trans hkey'⟩
    · rw [Option.bind_some] at hlook
      cases hfound : own.outcome? t (parseKey language file.1 content) with
      | none =>
        rw [hfound] at hlook
        exact nomatch hlook.symm.trans htask
      | some outcome =>
        -- it was found there, and what is found is what is served
        rw [hfound] at hlook
        rw [hlook] at hcorrect
        obtain rfl := Stage.done.inj (hlook.symm.trans htask)
        refine ⟨rfl, fun _ key hkey => ?_⟩
        obtain rfl := Option.some.inj (hreads.keyOf?_eq.symm.trans hkey)
        rw [← congrArg SourceFile.outcome hcorrect.1]
        exact Store.has_parse_iff.2 hfound
  | missed language content =>
    obtain ⟨_, _, hlanguage, _⟩ := hstage.1
    obtain ⟨rfl, rfl⟩ := Prod.mk.inj hnext
    rw [h.quiet.readBy hlanguage, cancelIf_false]
    exact ⟨hready, .refl own x bound t, nofun⟩
  | computed language content outcome =>
    obtain ⟨hreads, hstored, rfl⟩ := hstage
    obtain ⟨rfl, rfl⟩ := Prod.mk.inj hnext
    have hkey := hreads.keyOf?_eq
    have hexpected := hexpects _ hkey
    rw [served_of_none hstored] at hexpected ⊢
    obtain ⟨hready', hgrows, hhas⟩ := Store.grows_put hready (ht.isOpen own rfl) hexpected
      (hholds _ hkey ((stored?_eq hkey).symm.trans hstored))
    refine ⟨hready', hgrows, fun task htask => .inr ?_⟩
    obtain rfl := Stage.done.inj htask
    refine ⟨hkey.symm, fun hbound key hkey' => ?_⟩
    obtain rfl := Option.some.inj (hkey.symm.trans hkey')
    exact hhas hbound
  | done task =>
    obtain ⟨rfl, rfl⟩ := Prod.mk.inj hnext
    exact ⟨hready, .refl own x bound t, fun task' htask => .inl htask⟩

end Advance

end Plan

namespace Pool

variable {p : Plan} {home : Place} {own : Store} {s : Session} {files : List (String × Nat)} {x : Expectation}
  {bound : Nat} {pool : Pool}

/-- **The invariant of a pool that fills its store**: nothing fails, and a file that is done has its result there. -/
structure Stocked (p : Plan) (home : Place) (own : Store) (s : Session) (files : List (String × Nat))
    (x : Expectation) (bound : Nat) (pool : Pool) : Prop where
  reached : pool.Reached p home (some own) s files
  ready : own.IsReady home x.keys bound pool.session
  key : ∀ file task, (file, Stage.done task) ∈ pool.tasks → task.key = p.keyOf? s.files file
  has : pool.session.tickets ≤ bound → ∀ file task, (file, Stage.done task) ∈ pool.tasks → ∀ key,
    p.keyOf? s.files file = some key → own.Has pool.session key (.parse (p.served (some own) s file).outcome)

/-- **Every step keeps the invariant.** -/
theorem Stocked.step (hsteady : p.IsSteady home (some own) s files)
    (hexpects : ∀ file ∈ files, ∀ key, p.keyOf? s.files file = some key →
      x.expects key (.parse (p.served (some own) s file).outcome))
    (hholds : ∀ file ∈ files, ∀ key, p.keyOf? s.files file = some key → own.outcome? s key = none →
      own.Holds (.parse (p.freshFile s.files file).outcome))
    (h : pool.Stocked p home own s files x bound) (i : Nat) :
    (pool.step p (some own) i).Stocked p home own s files x bound := by
  have hreached := h.reached.step hsteady i
  obtain hsame | ⟨file, stage, next, u, hmem, hnext, rfl, -, hold⟩ := step_cases p (some own) pool i
  · rwa [hsame]
  have hfile : file ∈ files := h.reached.files ▸ mem_map_of_mem hmem
  obtain ⟨hready, hgrows, hdone⟩ := hsteady.grows_advance hfile (hexpects file hfile) (hholds file hfile)
    h.reached.session h.reached.filled (h.reached.expects hsteady hfile) h.ready (h.reached.correct file stage hmem)
    hnext
  generalize pool.step p (some own) i = after at hreached hready hgrows hdone hold ⊢
  -- a file that is done was so before, or it is the one whose step this was
  have hcases : ∀ other task, (other, Stage.done task) ∈ after.tasks →
      (other, Stage.done task) ∈ pool.tasks ∨ other = file ∧
        task.key = p.keyOf? s.files file ∧ (after.session.tickets ≤ bound → ∀ key, p.keyOf? s.files file = some key →
          own.Has after.session key (.parse (p.served (some own) s file).outcome)) := by
    intro other task hother
    obtain hother | heq := hold _ hother
    · exact .inl hother
    · obtain ⟨rfl, hsame⟩ := Prod.mk.inj heq
      obtain rfl | hnew := hdone task hsame.symm
      · exact .inl hmem
      · exact .inr ⟨rfl, hnew⟩
  refine ⟨hreached, hready, fun other task hother => ?_, fun hbound other task hother key hkey => ?_⟩
  · obtain hother | ⟨rfl, hkey, -⟩ := hcases other task hother
    · exact h.key other task hother
    · exact hkey
  · obtain hother | ⟨rfl, -, hhas⟩ := hcases other task hother
    · have hfile' : other ∈ files := h.reached.files ▸ mem_map_of_mem hother
      exact hgrows.keeps hbound key _ (hexpects other hfile' key hkey)
        (h.has (hgrows.tickets.trans hbound) other task hother key hkey)
    · exact hhas hbound key hkey

/-- A pool that has not begun. -/
theorem stocked_start (hsteady : p.IsSteady home (some own) s files) (hready : own.IsReady home x.keys bound s) :
    (start files s).Stocked p home own s files x bound := by
  have hwaiting : ∀ {file task}, (file, Stage.done task) ∉ (start files s).tasks := by
    intro file task hmem
    obtain ⟨_, -, heq⟩ := mem_map.1 hmem
    exact nomatch (Prod.mk.inj heq).2
  exact ⟨reached_follow hsteady [], hready, fun _ _ hmem => absurd hmem hwaiting,
    fun _ _ _ hmem => absurd hmem hwaiting⟩

end Pool

namespace Plan

variable {p : Plan} {home : Place} {own : Store} {s t : Session} {scan : Scan} {bound : Nat} {x : Expectation}
  {files : List (String × Nat)} {left : Session} {context : AnalysisContext} {schedule : List Nat} {report : Report}

/-- **Reading in the order of a schedule** leaves the result of each file in the store, and names their keys. -/
theorem IsSteady.stocked_parseIn (h : p.IsSteady home (some own) s files)
    (hexpects : ∀ file ∈ files, ∀ key, p.keyOf? s.files file = some key →
      x.expects key (.parse (p.served (some own) s file).outcome))
    (hholds : ∀ file ∈ files, ∀ key, p.keyOf? s.files file = some key → own.outcome? s key = none →
      own.Holds (.parse (p.freshFile s.files file).outcome))
    (hready : own.IsReady home x.keys bound s) (schedule : List Nat) :
    let parsed := (p.parseIn schedule (some own) files).run s
    own.IsReady home x.keys bound parsed.2 ∧ parsed.1.filterMap (·.key) = files.filterMap (p.keyOf? s.files) ∧
      (parsed.2.tickets ≤ bound → ∀ file ∈ files, ∀ key, p.keyOf? s.files file = some key →
        own.Has parsed.2 key (.parse (p.served (some own) s file).outcome)) := by
  have hstocked := Pool.follow_induction p (some own) (Pool.Stocked p home own s files x bound)
    (fun _ i hpool => hpool.step h hexpects hholds i) (Pool.stocked_start h hready)
    (schedule ++ Pool.inTurn (range files.length))
  obtain ⟨read, htasks, hresults⟩ := Pool.exists_results fun entry hentry =>
    Pool.exists_done p (some own) files s schedule hentry
  rw [Plan.run_parseIn]
  dsimp only
  rw [hresults]
  generalize (Pool.start files s).follow p (some own) (schedule ++ Pool.inTurn (range files.length)) = pool
    at hstocked htasks
  have hfiles : files = read.map (·.1) := by
    rw [← hstocked.reached.files, htasks, map_map]
    rfl
  have hmem : ∀ e ∈ read, (e.1, Stage.done e.2) ∈ pool.tasks := by
    intro e he
    rw [htasks]
    exact mem_map_of_mem he
  refine ⟨hstocked.ready, ?_, fun hbound file hfile key hkey => ?_⟩
  · rw [hfiles, filterMap_map, filterMap_map]
    exact filterMap_congr fun e he => hstocked.key _ _ (hmem e he)
  · rw [hfiles] at hfile
    obtain ⟨e, he, rfl⟩ := mem_map.1 hfile
    exact hstocked.has hbound _ _ (hmem e he) key hkey

/-! ### Analyzing -/

/-- **Running an analyzer** loses nothing that is expected, and what it finds is then in the store. -/
theorem IsQuiet.grows_analyze (hquiet : p.IsQuiet)
    (hkeys : p.KeysDiffer s.files files context) {analyzer : Analyzer} (hanalyzer : analyzer ∈ p.analyzers)
    (hexpects : p.runs analyzer = true →
      x.expects (analysisKey p context analyzer) (.analysis (p.servedFindings (some own) s context analyzer)))
    (hholds : p.runs analyzer = true → own.findings? s (analysisKey p context analyzer) = none →
      own.Holds (.analysis (analyzer.analyze context).diagnostics))
    (ht : p.Progressed home (some own) s files context t) (hready : own.IsReady home x.keys bound t) :
    let analyzed := (p.analyze (some own) context analyzer).run t
    own.IsReady home x.keys bound analyzed.2 ∧ own.Grows x bound t analyzed.2 ∧
      analyzed.1.2 = (if p.runs analyzer then some (analysisKey p context analyzer) else none) ∧
      (p.runs analyzer = true → analyzed.2.tickets ≤ bound → own.Has analyzed.2 (analysisKey p context analyzer)
        (.analysis (p.servedFindings (some own) s context analyzer))) := by
  have hserved := (hquiet.run_analyze_of_progressed hkeys hanalyzer ht).1
  rw [run_analyze] at hserved ⊢
  split at hserved
  next hruns =>
    have hfound := ht.findings? hkeys (mem_filter.2 ⟨hanalyzer, hruns⟩)
    have hexpects := hexpects hruns
    have hholds := hholds hruns
    rw [if_pos hruns, if_pos hruns]
    dsimp only at hserved ⊢
    generalize hkey : analysisKey p context analyzer = key at hserved hfound hexpects hholds
    rw [← hserved] at hexpects ⊢
    cases hget : own.findings? t key with
    | some found =>
      exact ⟨hready, .refl own x bound t, rfl, fun _ _ => Store.has_analysis_iff.2 hget⟩
    | none =>
      rw [hget] at hexpects hfound
      rw [hquiet.analyze analyzer hanalyzer, cancelIf_false]
      have hlacks : own.findings? s key = none := hfound.elim Eq.symm And.left
      obtain ⟨hready', hgrows, hhas⟩ := Store.grows_put hready (ht.1.isOpen own rfl) hexpects (hholds hlacks)
      exact ⟨hready', hgrows, rfl, fun _ => hhas⟩
  next hruns =>
    rw [if_neg hruns, if_neg hruns]
    exact ⟨hready, .refl own x bound t, rfl, fun h => absurd h hruns⟩

/-- **Running analyzers one after the other** leaves what each finds in the store, and names their keys. -/
theorem IsQuiet.stocked_analyze (hquiet : p.IsQuiet)
    (hkeys : p.KeysDiffer s.files files context)
    (hexpects : ∀ analyzer ∈ p.analyzers.filter p.runs,
      x.expects (analysisKey p context analyzer) (.analysis (p.servedFindings (some own) s context analyzer)))
    (hholds : ∀ analyzer ∈ p.analyzers.filter p.runs, own.findings? s (analysisKey p context analyzer) = none →
      own.Holds (.analysis (analyzer.analyze context).diagnostics))
    {analyzers : List Analyzer} (hanalyzers : analyzers ⊆ p.analyzers)
    (ht : p.Progressed home (some own) s files context t) (hready : own.IsReady home x.keys bound t) :
    let analyzed := (analyzers.mapM (p.analyze (some own) context)).run t
    p.Progressed home (some own) s files context analyzed.2 ∧ own.IsReady home x.keys bound analyzed.2 ∧
      own.Grows x bound t analyzed.2 ∧
      analyzed.1.filterMap (·.2) = (analyzers.filter p.runs).map (analysisKey p context) ∧
      (analyzed.2.tickets ≤ bound → ∀ analyzer ∈ analyzers.filter p.runs,
        own.Has analyzed.2 (analysisKey p context analyzer)
          (.analysis (p.servedFindings (some own) s context analyzer))) := by
  -- by induction over the analyzers: what the first has put is kept while the others run
  induction analyzers generalizing t with
  | nil => exact ⟨ht, hready, .refl own x bound t, rfl, nofun⟩
  | cons analyzer analyzers ih =>
    have hanalyzer : analyzer ∈ p.analyzers := hanalyzers mem_cons_self
    have hmem : p.runs analyzer = true → analyzer ∈ p.analyzers.filter p.runs :=
      fun hruns => mem_filter.2 ⟨hanalyzer, hruns⟩
    have hnext := (hquiet.run_analyze_of_progressed hkeys hanalyzer ht).2
    have hfirst := hquiet.grows_analyze hkeys hanalyzer (fun hruns => hexpects analyzer (hmem hruns))
      (fun hruns => hholds analyzer (hmem hruns)) ht hready
    rw [run_mapM_cons]
    generalize (p.analyze (some own) context analyzer).run t = first at hnext hfirst ⊢
    obtain ⟨result, u⟩ := first
    obtain ⟨hready, hgrows, hkey, hhas⟩ := hfirst
    obtain ⟨hend, hready', hgrows', hkeys', hhas'⟩ := ih (Subset.trans (subset_cons_self _ _) hanalyzers) hnext hready
    dsimp only at hkey hhas hend hready' hgrows' hkeys' hhas' ⊢
    generalize (analyzers.mapM (p.analyze (some own) context)).run u = rest at hend hready' hgrows' hkeys' hhas' ⊢
    obtain ⟨results, v⟩ := rest
    refine ⟨hend, hready', hgrows.trans hgrows', ?_, fun hbound other hother => ?_⟩
    · rw [filterMap_cons, hkey, hkeys', filter_cons]
      cases p.runs analyzer <;> rfl
    · obtain ⟨hother, hruns⟩ := mem_filter.1 hother
      obtain rfl | hother := mem_cons.1 hother
      · exact hgrows'.keeps hbound _ _ (hexpects _ (hmem hruns)) (hhas hruns (hgrows'.tickets.trans hbound))
      · exact hhas' hbound other (mem_filter.2 ⟨hother, hruns⟩)

/-! ### Runs -/

/-- A run that comes to its end removes from its store what it has not used. -/
theorem left_of_exec_restIn (h : exec (p.restIn schedule scan (some own)) t = (.ok report, left)) :
    let parsed := (p.parseIn schedule (some own) scan.files).run t
    let analyzed := (p.analyzeAll (some own) (p.context scan (parsed.1.map (·.file)))).run parsed.2
    left = own.prune analyzed.2 (parsed.1.filterMap (·.key) ++ analyzed.1.filterMap (·.2)) :=
  (Prod.mk.inj (of_exec_restIn h).2).2.symm

theorem tickets_prune (own : Store) (s : Session) (live : List String) : (own.prune s live).tickets = s.tickets := by
  cases own with
  | memory => rfl
  | disk d =>
    unfold Store.prune
    dsimp only
    split <;> rfl

/-- **What a run leaves**: directories and foreign files as they were, and a store that nothing fails for. Of what the
store had come to when the analyzers were through, it has what is under the keys that were used; and that is what was
served, if nothing failed. -/
structure Leaves (p : Plan) (home : Place) (scan : Scan) (own : Store) (bound : Nat) (t left : Session) : Prop where
  spared : FileSystem.Spared t.files left.files
  kept : FileSystem.Kept t.files left.files
  store : IsStore AnyBytes home t.files → IsStore AnyBytes home left.files
  usable : own.IsUsable AnyBytes home left
  ready : own.IsReady home (p.usedKeys scan (some own) t) bound left
  get?_eq : ∃ u, p.Progressed home (some own) t scan.files (p.servedContext (some own) t scan) u ∧
    ∀ key, Cache.isDigest key.toList = true →
      own.get? left key = if key ∈ p.usedKeys scan (some own) t then own.get? u key else none
  has : left.tickets ≤ bound → ∀ key value, p.Serves scan (some own) t key value → own.Has left key value

theorem IsSteady.leaves (h : p.IsSteady home (some own) t scan.files)
    (hkeys : p.KeysDiffer t.files scan.files (p.servedContext (some own) t scan))
    (hready : own.IsReady home (p.usedKeys scan (some own) t) bound t) (hheld : p.IsHeld scan own t)
    (hrun : exec (p.restIn schedule scan (some own)) t = (.ok report, left)) :
    p.Leaves home scan own bound t left := by
  have hleft := left_of_exec_restIn hrun
  have hfiles : ∀ file ∈ scan.files, ∀ key, p.keyOf? t.files file = some key →
      (h.expectation hkeys).expects key (.parse (p.served (some own) t file).outcome) :=
    fun file hfile key hkey => .inl ⟨file, hfile, hkey, rfl⟩
  have hanalyzers : ∀ analyzer ∈ p.analyzers.filter p.runs,
      (h.expectation hkeys).expects (analysisKey p (p.servedContext (some own) t scan) analyzer)
        (.analysis (p.servedFindings (some own) t (p.servedContext (some own) t scan) analyzer)) :=
    fun analyzer hanalyzer => .inr ⟨analyzer, hanalyzer, rfl, rfl⟩
  -- the files are read
  obtain ⟨hserved, hcontinues, hfilled⟩ := h.run_parseIn schedule
  obtain ⟨hready, hused, hhas⟩ := h.stocked_parseIn hfiles
    (fun file hfile key hkey => hheld key _ (.inl ⟨file, hfile, hkey, rfl⟩)) hready schedule
  dsimp only at hready hused hhas hleft
  generalize (p.parseIn schedule (some own) scan.files).run t = parsed
    at hserved hcontinues hfilled hready hused hhas hleft
  have hcontext : p.context scan (parsed.1.map (·.file)) = p.servedContext (some own) t scan := by
    rw [servedContext, hserved.map_file]
  have hprogressed : p.Progressed home (some own) t scan.files (p.servedContext (some own) t scan) parsed.2 :=
    ⟨hcontinues, fun own hown => (hfilled own hown).mono fun _ _ => .inl⟩
  -- the analyzers are run
  obtain ⟨hend, hready, hgrows, hused', hhas'⟩ := h.quiet.stocked_analyze hkeys hanalyzers
    (fun analyzer hanalyzer => hheld _ _ (.inr ⟨analyzer, hanalyzer, rfl, rfl⟩)) (Subset.refl _) hprogressed hready
  rw [hcontext, analyzeAll] at hleft
  generalize (p.analyzers.mapM (p.analyze (some own) (p.servedContext (some own) t scan))).run parsed.2 = analyzed
    at hend hready hgrows hused' hhas' hleft
  rw [hused, hused', ← usedKeys] at hleft
  -- what was not used is removed
  have hopen := hend.1.isOpen own rfl
  obtain ⟨hready', husable, hspared, hstore⟩ := hready.prune hopen (fun _ => trivial) (h.expectation hkeys).digest
    (p.usedKeys scan (some own) t)
  have hpruned : ∀ key, Cache.isDigest key.toList = true →
      own.get? left key = if key ∈ p.usedKeys scan (some own) t then own.get? analyzed.2 key else none := by
    intro key hkey
    rw [hleft]
    exact Store.get?_prune hready hopen _ hkey
  have hkept := hend.1.kept.trans (own.kept_prune analyzed.2 (p.usedKeys scan (some own) t))
  rw [← hleft] at hready' husable hspared hstore hkept
  refine ⟨hend.1.touched.spared.trans hspared, hkept, fun h => hstore (h.touched hend.1.touched), husable, hready',
    ⟨analyzed.2, hend, hpruned⟩, fun hbound key value hvalue => ?_⟩
  rw [hleft, tickets_prune] at hbound
  have hmem : key ∈ p.usedKeys scan (some own) t := mem_usedKeys_iff.2 ⟨value, hvalue⟩
  have hnow : own.Has analyzed.2 key value := by
    obtain ⟨file, hfile, hkey, rfl⟩ | ⟨analyzer, hanalyzer, rfl, rfl⟩ := hvalue
    · exact hgrows.keeps hbound key _ (hfiles file hfile key hkey)
        (hhas (hgrows.tickets.trans hbound) file hfile key hkey)
    · exact hhas' hbound analyzer hanalyzer
  unfold Store.Has
  rwa [hpruned key (isDigest_of_mem_usedKeys hmem), if_pos hmem]

/-- **The keys of what a run leaves** in its store are those that it used. -/
theorem Leaves.isSome_get?_iff (h : p.Leaves home scan own bound t left) (hbound : left.tickets ≤ bound)
    {key : String} (hkey : Cache.isDigest key.toList = true) :
    (own.get? left key).isSome = true ↔ key ∈ p.usedKeys scan (some own) t := by
  obtain ⟨_, -, hget⟩ := h.get?_eq
  constructor
  · intro hsome
    by_contra hunused
    rw [hget key hkey, if_neg hunused] at hsome
    cases hsome
  · intro hused
    obtain ⟨value, hvalue⟩ := mem_usedKeys_iff.1 hused
    obtain ⟨e, he, -⟩ := h.has hbound key value hvalue
    rw [he]
    rfl

end Plan

end Cartograph
