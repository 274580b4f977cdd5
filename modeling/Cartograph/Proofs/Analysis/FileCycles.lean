import Cartograph.Analysis.Cycles
import Cartograph.Proofs.Digraph.ShortestCycle
import Cartograph.Proofs.Graph.Edges

/-!
# Cycles between files

The circular imports of a graph at the granularity of files, stated without the searches that find them. A
module that imports itself is reported for each such import. Modules that import each other are reported once
for each strongly connected component (`Digraph.IsComponent`), by the first cycle through its smallest node
(`Digraph.IsFirstCycle`), with the first edge of every step as evidence (`IsFirstEdge`).

`fileCycles_reports` is the statement about a graph whose edges are between its nodes; that a graph that was
built is such a graph is `inRange_fileGraph`.
-/

namespace Cartograph

open Cartograph.Digraph Cartograph.Graph List

namespace Digraph

variable {g : Digraph}

/-- A strongly connected component: the nodes that reach each other, in ascending order. -/
structure IsComponent (g : Digraph) (members : List Nat) : Prop where
  sorted : members.Pairwise (· < ·)
  ne_nil : members ≠ []
  mem_iff : ∀ v ∈ members, ∀ w, w ∈ members ↔ w < g.size ∧ g.Connected v w

/-- The components are listed by `components`. -/
theorem isComponent_iff (hg : g.InRange) (members : List Nat) : g.IsComponent members ↔ members ∈ g.components := by
  rw [mem_components_iff hg]
  constructor
  · intro h
    obtain ⟨v, hv⟩ := exists_mem_of_ne_nil members h.ne_nil
    have hsame : ∀ w, w ∈ members ↔ w ∈ g.componentOf v := fun w => by
      rw [h.mem_iff v hv w, mem_componentOf hg]
    have hperm : members.Perm (g.componentOf v) :=
      (perm_ext_iff_of_nodup (h.sorted.imp Nat.ne_of_lt) ((pairwise_componentOf g v).imp Nat.ne_of_lt)).2 hsame
    exact ⟨v, ((h.mem_iff v hv v).1 hv).1,
      hperm.eq_of_pairwise (fun a b _ _ hab hba => absurd hab (Nat.lt_asymm hba)) h.sorted
        (pairwise_componentOf g v)⟩
  · rintro ⟨v, hv, rfl⟩
    refine ⟨pairwise_componentOf g v, ne_nil_of_mem (self_mem_componentOf hg hv), ?_⟩
    intro u hu w
    have hvu := ((mem_componentOf hg v u).1 hu).2
    rw [componentOf_eq hg hvu, mem_componentOf hg]

theorem mem_filter_components (hg : g.InRange) (members : List Nat) :
    members ∈ g.components.filter (2 ≤ ·.length) ↔ g.IsComponent members ∧ 2 ≤ members.length := by
  rw [isComponent_iff hg, mem_filter, decide_eq_true_eq]

/-- A cycle has two steps or more, so there is something for the first of them. -/
theorem IsCycle.exists_cons {R : Nat × Nat → α → Prop} {cycle : List Nat} {hops : List α} (h : g.IsCycle cycle)
    (hhops : Forall₂ R (around cycle) hops) : ∃ first rest, hops = first :: rest := by
  cases hops with
  | nil =>
    have hlength := hhops.length_eq
    rw [length_around, length_nil] at hlength
    have := h.two_le
    omega
  | cons first rest => exact ⟨first, rest, rfl⟩

end Digraph

namespace Cycles

open Cartograph.Digraph (IsComponent IsFirstCycle IsCycle around)

/-! ### What is to be reported -/

/-- The edge from one node to another with the lowest number. -/
def IsFirstEdge (g : Graph) (v w : Nat) (e : Edge) : Prop :=
  ∃ i : Nat, g.edges[i]? = some e ∧ e.source = v ∧ e.target = w ∧
    ∀ j < i, ∀ e' : Edge, g.edges[j]? = some e' → ¬ (e'.source = v ∧ e'.target = w)

/-- A finding reports an import of a module by itself. -/
def ReportsSelfImport (g : Graph) (e : Edge) (d : Diagnostic) : Prop :=
  d.code = "AG002" ∧ d.location = g.edgeLocation e ∧
    d.message = "`" ++ g.label e.source ++ "` imports itself via `" ++ e.specifier ++ "`"

/-- The evidence for a step of a cycle. -/
def hopLabel (g : Graph) (e : Edge) : Label :=
  { location := g.edgeLocation e
    message := "imports `" ++ g.label e.target ++ "` via `" ++ e.specifier ++ "`" }

/-- A finding reports a component: its text shows the first cycle through the smallest node, its evidence is
the first edge of each step of that cycle, and it is located at the first of them. -/
def ReportsComponent (g : Graph) (members : List Nat) (d : Diagnostic) : Prop :=
  ∃ start cycle first rest,
    start ∈ members ∧ (∀ v ∈ members, start ≤ v) ∧ (fileGraph g).IsFirstCycle start cycle ∧
    Forall₂ (fun hop e => IsFirstEdge g hop.1 hop.2 e) (around cycle) (first :: rest) ∧
    d.code = "AG001" ∧ d.location = g.edgeLocation first ∧
    d.message = "circular import: " ++ chain (cycle.map g.label) ∧
    d.evidence = (first :: rest).map (hopLabel g)

/-- The findings on the files of a graph: one for each import of a module by itself, in the order of edges,
and one for each component of two nodes or more, so none of these if and only if there is no cycle. -/
structure ReportsFiles (g : Graph) (found : List Diagnostic) : Prop where
  split : ∃ loops cycles, found = loops ++ cycles ∧
    Forall₂ (ReportsSelfImport g) (g.edges.toList.filter fun e => e.source == e.target) loops ∧
    ∃ components : List (List Nat), components.Nodup ∧
      (∀ members, members ∈ components ↔ (fileGraph g).IsComponent members ∧ 2 ≤ members.length) ∧
      Forall₂ (ReportsComponent g) components cycles
  acyclic_iff : (∀ d ∈ found, d.code ≠ "AG001") ↔ ∀ c, ¬ (fileGraph g).IsCycle c

/-! ### The edges of the steps -/

theorem arc_fileGraph (g : Graph) (v w : Nat) :
    (fileGraph g).Arc v w ↔ ∃ e ∈ g.edges.toList, e.source = v ∧ e.target = w := by
  simp [Arc, fileGraph]

theorem find?_outgoing (g : Graph) (v w : Nat) :
    (g.outgoing v).find? (·.target == w) = g.edges.toList.find? fun e => e.source == v && e.target == w := by
  rw [outgoing, find?_filter]
  congr 1
  funext e
  rw [Bool.eq_iff_iff]
  simp

variable {g : Graph}

/-- The edge that is looked up for a step is the first, and there is one. -/
theorem exists_find?_outgoing {v w : Nat} (h : (fileGraph g).Arc v w) :
    ∃ e, (g.outgoing v).find? (·.target == w) = some e ∧ IsFirstEdge g v w e := by
  obtain ⟨e, he, hsource, htarget⟩ := (arc_fileGraph g v w).1 h
  have hfound : (g.edges.toList.find? fun e => e.source == v && e.target == w).isSome :=
    find?_isSome.2 ⟨e, he, by simp [hsource, htarget]⟩
  obtain ⟨first, hfirst⟩ := Option.isSome_iff_exists.1 hfound
  refine ⟨first, by rw [find?_outgoing, hfirst], ?_⟩
  obtain ⟨hends, i, hi, rfl, hbefore⟩ := find?_eq_some_iff_getElem.1 hfirst
  simp only [Bool.and_eq_true, beq_iff_eq] at hends
  refine ⟨i, by simp at hi; simp [hi], hends.1, hends.2, ?_⟩
  rintro j hj e' he' ⟨hs, ht⟩
  obtain ⟨hlt, rfl⟩ := Array.getElem?_eq_some_iff.1 he'
  have := hbefore j hj
  simp [hs, ht] at this

/-- **No step of a cycle is dropped**, and each is shown by its first edge. -/
theorem forall₂_hops {cycle : List Nat} (h : (fileGraph g).IsCycle cycle) :
    Forall₂ (fun hop e => IsFirstEdge g hop.1 hop.2 e) (around cycle)
      ((around cycle).filterMap fun (v, w) => (g.outgoing v).find? (·.target == w)) :=
  forall₂_filterMap _ fun hop hhop => exists_find?_outgoing (h.arc hop hhop).1

/-! ### The findings -/

/-- The finding on a component of two nodes or more. -/
theorem reportsComponent_cycleIn (hg : (fileGraph g).InRange) (severity : Severity) {members : List Nat}
    (hmembers : members ∈ (fileGraph g).components) (htwo : 2 ≤ members.length) :
    ReportsComponent g members
      (circularImport severity g .module members.length (((fileGraph g).cycleIn members).map g.label)
        ((around ((fileGraph g).cycleIn members)).filterMap fun (v, w) => (g.outgoing v).find? (·.target == w))) := by
  obtain ⟨start, hhead, hleast, hfirst⟩ := isFirstCycle_cycleIn hg hmembers htwo
  have hhops := forall₂_hops hfirst.isCycle
  obtain ⟨first, rest, hedges⟩ := hfirst.isCycle.exists_cons hhops
  rw [hedges] at hhops ⊢
  exact ⟨start, _, first, rest, mem_of_head? hhead, hleast, hfirst, hhops, rfl, rfl, rfl, rfl⟩

/-- **Circular imports between files are reported exactly**, for a graph whose edges are between its nodes
and start at modules. -/
theorem fileCycles_reports (hg : (fileGraph g).InRange) (hmodules : ∀ e ∈ g.edges.toList, (g.module? e.source).isSome)
    (severity : Severity) : ReportsFiles g (fileCycles severity g) := by
  have hloops : (g.edges.toList.filter fun e => e.source == e.target && (g.module? e.source).isSome) =
      g.edges.toList.filter fun e => e.source == e.target :=
    filter_congr fun e he => by rw [hmodules e he, Bool.and_true]
  unfold fileCycles
  simp only [hloops, knots_eq hg, map_map]
  refine ⟨⟨_, _, rfl, forall₂_self_map fun e _ => ⟨rfl, rfl, rfl⟩,
    (fileGraph g).components.filter (2 ≤ ·.length), (components_nodup hg).filter _, mem_filter_components hg,
    forall₂_self_map fun members hmembers => ?_⟩, ?_⟩
  · obtain ⟨hmem, htwo⟩ := mem_filter.1 hmembers
    exact reportsComponent_cycleIn hg severity hmem (by simpa using htwo)
  · constructor
    · intro hnone c hc
      obtain ⟨members, hmem, htwo⟩ := exists_component_of_isCycle hg hc
      refine hnone _ (mem_append_right _ (mem_map_of_mem (mem_filter.2 ⟨hmem, by simpa using htwo⟩))) rfl
    · intro hacyclic d hd
      obtain hd | hd := mem_append.1 hd
      · obtain ⟨e, -, rfl⟩ := mem_map.1 hd
        exact show "AG002" ≠ "AG001" by decide
      · obtain ⟨members, hmembers, -⟩ := mem_map.1 hd
        obtain ⟨hmem, htwo⟩ := mem_filter.1 hmembers
        obtain ⟨start, -, -, hfirst⟩ := isFirstCycle_cycleIn hg hmem (by simpa using htwo)
        exact absurd hfirst.isCycle (hacyclic _)

theorem inRange_fileGraph (packages : List Package) (config : Config) (files : List SourceFile) :
    (fileGraph (build packages config files).1).InRange := by
  intro v w hvw
  obtain ⟨e, he, rfl, rfl⟩ := (arc_fileGraph _ v w).1 hvw
  obtain ⟨hsource, htarget⟩ := lt_size_of_mem_edges he
  refine ⟨Nat.lt_of_lt_of_le hsource ?_, htarget⟩
  change files.length ≤ (build packages config files).1.size
  rw [size_build]
  exact Nat.le_add_right _ _

end Cycles

/-- **Circular imports are exact at the granularity of files.** Whatever files a graph was built from, the
analyzer finds one import of a module by itself for each edge from a module to itself, and one circular import
for each strongly connected component of two modules or more. -/
theorem circularImports_reportsFiles (severity : Severity) (packages : List Package) (config : Config)
    (files : List SourceFile) (context : AnalysisContext)
    (hgraph : context.graph = (Graph.build packages config files).1)
    (hgranularity : context.config.granularity = .file) :
    Cycles.ReportsFiles context.graph ((circularImports severity).analyze context).diagnostics := by
  have hfind : ((circularImports severity).analyze context).diagnostics =
      Cycles.fileCycles severity context.graph := by
    change Cycles.find severity context = _
    rw [Cycles.find, hgranularity]
  rw [hfind, hgraph]
  exact Cycles.fileCycles_reports (Cycles.inRange_fileGraph packages config files)
    (fun e he => Graph.isSome_module? (Graph.lt_size_of_mem_edges he).1) severity

/-- Two modules that import each other, of which the first also imports itself. -/
def mutualImports : List SourceFile := [
  ⟨"a.ts", 0, "1", .parsed { imports := [⟨"./a", .static, 1, 8⟩, ⟨"./b", .static, 2, 8⟩] }⟩,
  ⟨"b.ts", 0, "2", .parsed { imports := [⟨"./a", .static, 1, 8⟩] }⟩]

/-- The index of two files has the later one under its path, and the earlier one under its own. -/
theorem pathIndex_two (f g : SourceFile) :
    (fun path => (pathIndex [f, g])[path]?) =
        (fun path => if g.path == path then some 1 else if f.path == path then some 0 else none) ∧
      (pathIndex [f, g]).contains = fun path => g.path == path || f.path == path := by
  constructor <;> funext path
  · simp only [pathIndex, zipIdx_cons, zipIdx_nil, foldl_cons, foldl_nil,
      Std.HashMap.getElem?_insert, Std.HashMap.getElem?_empty]
  · simp [pathIndex]

theorem arcs_mutualImports :
    (build [] {} mutualImports).1.edges.toList.map (fun e => (e.source, e.target)) =
      [(0, 0), (0, 1), (1, 0)] := by
  obtain ⟨hindex, hmodules⟩ := pathIndex_two _ _
  rw [build_edges, edgeIn, resolverOf, mutualImports, hindex, hmodules]
  decide

/-- Two modules that import each other are found. -/
theorem circularImports_reportsFiles_mutualImports :
    ∃ d ∈ ((circularImports .error).analyze
      { graph := (Graph.build [] {} mutualImports).1, config := {} }).diagnostics, d.code = "AG001" := by
  have hreports := circularImports_reportsFiles .error [] {} mutualImports
    { graph := (Graph.build [] {} mutualImports).1, config := {} } rfl rfl
  by_contra hnone
  refine hreports.acyclic_iff.1 (fun d hd hcode => hnone ⟨d, hd, hcode⟩) [0, 1] ⟨le_refl 2, ?_⟩
  intro hop hhop
  have hmem : hop ∈ [(0, 1), (1, 0)] := hhop
  have harc : ∀ hop ∈ [(0, 1), (1, 0)], (Cycles.fileGraph (Graph.build [] {} mutualImports).1).Arc hop.1 hop.2 := by
    intro hop hhop
    change hop ∈ (Graph.build [] {} mutualImports).1.edges.toList.map (fun e => (e.source, e.target))
    rw [arcs_mutualImports]
    exact mem_cons_of_mem _ hhop
  refine ⟨harc hop hmem, ?_⟩
  obtain rfl | rfl : hop = (0, 1) ∨ hop = (1, 0) := by simpa using hmem
  · decide
  · decide

end Cartograph
