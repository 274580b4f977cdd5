import Cartograph.Proofs.Analysis.FileCycles
import Cartograph.Proofs.Graph.PackageView

/-!
# Cycles between packages

The circular imports of a graph at the granularity of packages, stated without the searches that find them. The graph of
packages is what the imports make it (`Graph.IsPackageView`). Packages that import each other are reported once for each
strongly connected component (`Digraph.IsComponent`), by the first cycle through its smallest package
(`Digraph.IsFirstCycle`), with the first import behind every step as evidence (`IsFirstCrossing`).

Seeing a graph from its packages loses no cycle between them: a path between modules is a path between their packages
(`reaches_package`), and a package outside is never on the way, because no import starts there.
-/

namespace Cartograph

open Cartograph.Digraph Cartograph.Graph List

namespace Digraph

variable {v w : Nat} {c : List Nat} {g : Digraph}

theorem exists_mem_around (hv : v ∈ c) : ∃ w, (v, w) ∈ around c := by
  have hfst : (around c).map Prod.fst = c := by
    refine map_fst_zip ?_
    cases c <;> simp
  rw [← hfst] at hv
  obtain ⟨⟨_, w⟩, hmem, rfl⟩ := mem_map.1 hv
  exact ⟨w, hmem⟩

/-- **The nodes of a closed walk reach each other.** -/
theorem connected_of_around (h : ∀ hop ∈ around c, g.Arc hop.1 hop.2) (hv : v ∈ c) (hw : w ∈ c) : g.Connected v w := by
  cases c with
  | nil => cases hv
  | cons a l =>
    have hchain := (forall_mem_zip_iff_isChain g.Arc a l a).1 h
    have hstart : ∀ u ∈ a :: l, g.Connected a u := by
      intro u hu
      obtain rfl | hu := mem_cons.1 hu
      · exact Connected.refl g u
      · exact (connected_of_isChain (fun _ _ harc => harc) a l a hchain).2 u hu
    exact (hstart v hv).symm.trans (hstart w hw)

theorem two_le_length_componentOf (hg : g.InRange) (hv : v < g.size) (h : g.Connected v w)
    (hne : v ≠ w) : 2 ≤ (g.componentOf v).length := by
  have hmem : [v, w] ⊆ g.componentOf v := by
    intro u hu
    obtain rfl | hu := mem_cons.1 hu
    · exact self_mem_componentOf hg hv
    · rw [mem_singleton.1 hu]
      exact (mem_componentOf hg v w).2 ⟨h.1.lt_size hg hv, h⟩
  exact (subperm_of_subset (by simpa using hne) hmem).length_le

end Digraph

namespace Cycles

open Cartograph.Digraph (IsComponent IsFirstCycle around)
open Cartograph.Graph (Crosses IsPackageView isPackageView_packageEdges)

variable {g : Graph} {a b : ModuleNode} {v w p q : Nat}

/-! ### What is to be reported -/

/-- The graph of packages of an import graph, as a plain graph. -/
def packagesOf (g : Graph) : Digraph := packageGraph g g.packageEdges

/-- The import with the lowest number that crosses from one package to another. -/
def IsFirstCrossing (g : Graph) (p q : Nat) (e : Edge) : Prop :=
  ∃ id : Nat, g.edges[id]? = some e ∧ g.Crosses id p q ∧ ∀ j < id, ¬ g.Crosses j p q

/-- A finding reports a component of packages: its text shows the first cycle through the smallest package, its
evidence is the first import behind each step of that cycle, and it is located at the first of them. -/
def ReportsPackageKnot (g : Graph) (members : List Nat) (d : Diagnostic) : Prop :=
  ∃ start cycle names first rest,
    start ∈ members ∧ (∀ p ∈ members, start ≤ p) ∧ (packagesOf g).IsFirstCycle start cycle ∧
    Forall₂ (fun p name => (g.packages[p]?).map (·.name) = some name) cycle names ∧
    Forall₂ (fun hop e => IsFirstCrossing g hop.1 hop.2 e) (around cycle) (first :: rest) ∧
    d.code = "AG001" ∧ d.location = g.edgeLocation first ∧
    d.message = "circular import: " ++ chain names ∧
    d.evidence = (first :: rest).map (hopLabel g)

/-- The findings on the packages of a graph: one for each component of two packages or more of the graph of packages,
which is exact; and each closed walk through modules of different packages is in one of them. -/
structure ReportsPackages (g : Graph) (found : List Diagnostic) : Prop where
  view : g.IsPackageView g.packageEdges
  reported : ∃ components : List (List Nat), components.Nodup ∧
    (∀ members, members ∈ components ↔ (packagesOf g).IsComponent members ∧ 2 ≤ members.length) ∧
    Forall₂ (ReportsPackageKnot g) components found
  lossless : ∀ c : List Nat, (∀ hop ∈ around c, (fileGraph g).Arc hop.1 hop.2) →
    (∃ v ∈ c, ∃ w ∈ c, ∃ a b, g.module? v = some a ∧ g.module? w = some b ∧ a.package ≠ b.package) →
    ∃ members, (packagesOf g).IsComponent members ∧ (∀ v ∈ c, ∃ m, g.module? v = some m ∧ m.package ∈ members) ∧
      ∃ d ∈ found, ReportsPackageKnot g members d

/-! ### The steps between packages -/

theorem arc_packagesOf : (packagesOf g).Arc p q ↔ ∃ id, g.Crosses id p q := by
  rw [← (isPackageView_packageEdges g).arc_iff p q]
  exact mem_map

/-- A graph each of whose modules belongs to one of its packages. -/
def IsOwned (g : Graph) : Prop := ∀ i m, g.module? i = some m → m.package < g.packages.length

theorem inRange_packagesOf (hg : IsOwned g) : (packagesOf g).InRange := by
  intro p q harc
  obtain ⟨id, -, e, a, b, -, ha, hb, rfl, rfl⟩ := arc_packagesOf.1 harc
  exact ⟨hg _ a ha, hg _ b hb⟩

/-- The import that is looked up for a step is the first behind it, and there is one. -/
theorem exists_firstCrossing (h : (packagesOf g).Arc p q) :
    ∃ e, firstRealizing? g g.packageEdges p q = some e ∧ IsFirstCrossing g p q e := by
  have hview := isPackageView_packageEdges g
  obtain ⟨k, hk, hends⟩ := mem_map.1 h
  obtain ⟨k, hfind⟩ : ∃ k, (g.packageEdges.find? fun k => k.source == p && k.target == q) = some k :=
    Option.isSome_iff_exists.1 (find?_isSome.2 ⟨k, hk, by simpa using hends⟩)
  have hends : k.source = p ∧ k.target = q := by simpa using find?_some hfind
  have hmem := hview.mem_iff k (mem_of_find?_eq_some hfind)
  obtain ⟨rfl, rfl⟩ := hends
  -- the list behind the edge has all imports that cross, in ascending order, so its head is the first
  obtain ⟨id, hid⟩ := arc_packagesOf.1 h
  obtain ⟨first, rest, hlist⟩ := exists_cons_of_ne_nil (ne_nil_of_mem ((hmem id).2 hid))
  have hfirst := (hmem first).1 (hlist ▸ mem_cons_self)
  obtain ⟨e, he, -⟩ := crosses_iff.1 hfirst
  refine ⟨e, ?_, first, he, hfirst, fun j hj hcrosses => ?_⟩
  · rw [firstRealizing?, hfind, Option.bind_some, hlist, head?_cons, Option.bind_some, he]
  · have hascending := hview.ascending k (mem_of_find?_eq_some hfind)
    have hj' := (hmem j).2 hcrosses
    rw [hlist] at hascending hj'
    obtain rfl | hj' := mem_cons.1 hj'
    · exact Nat.lt_irrefl j hj
    · exact Nat.lt_asymm hj ((pairwise_cons.1 hascending).1 j hj')

/-! ### The findings -/

/-- The finding on a component of packages. -/
def packageKnot (severity : Severity) (g : Graph) (members : List Nat) : Diagnostic :=
  circularImport severity g .package members.length
    (((packagesOf g).cycleIn members).filterMap fun i => (g.packages[i]?).map (·.name))
    ((around ((packagesOf g).cycleIn members)).filterMap fun (p, q) => firstRealizing? g g.packageEdges p q)

theorem packageCycles_eq (hg : IsOwned g) (severity : Severity) :
    packageCycles severity g = ((packagesOf g).components.filter (2 ≤ ·.length)).map (packageKnot severity g) := by
  have hknots := knots_eq (inRange_packagesOf hg)
  unfold packageCycles
  dsimp only
  rw [show packageGraph g g.packageEdges = packagesOf g from rfl, hknots, map_map]
  rfl

/-- **A component of packages is reported** by its first cycle, no step and no name of which is dropped. -/
theorem reports_packageKnot (hg : IsOwned g) (severity : Severity) {members : List Nat}
    (hmembers : members ∈ (packagesOf g).components) (htwo : 2 ≤ members.length) :
    ReportsPackageKnot g members (packageKnot severity g members) := by
  have hrange := inRange_packagesOf hg
  obtain ⟨start, hhead, hleast, hfirst⟩ := isFirstCycle_cycleIn hrange hmembers htwo
  unfold packageKnot
  generalize (packagesOf g).cycleIn members = cycle at hfirst ⊢
  have hnames : Forall₂ (fun p name => (g.packages[p]?).map (·.name) = some name) cycle
      (cycle.filterMap fun i => (g.packages[i]?).map (·.name)) := by
    refine forall₂_filterMap cycle fun p hp => ?_
    obtain ⟨q, hhop⟩ := exists_mem_around hp
    have hlt : p < g.packages.length := (hrange p q (hfirst.isCycle.arc _ hhop).1).1
    rw [getElem?_eq_getElem hlt]
    exact ⟨_, rfl, rfl⟩
  have hhops : Forall₂ (fun hop e => IsFirstCrossing g hop.1 hop.2 e) (around cycle)
      ((around cycle).filterMap fun (p, q) => firstRealizing? g g.packageEdges p q) :=
    forall₂_filterMap _ fun hop hhop => exists_firstCrossing (hfirst.isCycle.arc hop hhop).1
  obtain ⟨first, rest, hedges⟩ := hfirst.isCycle.exists_cons hhops
  rw [hedges] at hhops ⊢
  exact ⟨start, cycle, _, first, rest, mem_of_head? hhead, hleast, hfirst, hnames, hhops, rfl, rfl, rfl, rfl⟩

/-! ### No cycle is lost -/

/-- One import leads to the same package or along an edge between packages. -/
theorem reaches_package_of_arc (h : (fileGraph g).Arc v w) (ha : g.module? v = some a)
    (hb : g.module? w = some b) : (packagesOf g).Reaches a.package b.package := by
  by_cases hsame : a.package = b.package
  · rw [hsame]
    exact Relation.ReflTransGen.refl
  · obtain ⟨e, he, rfl, rfl⟩ := (arc_fileGraph g v w).1 h
    obtain ⟨id, hid⟩ := mem_iff_getElem?.1 he
    rw [Array.getElem?_toList] at hid
    exact Relation.ReflTransGen.single (arc_packagesOf.2 ⟨id, hsame, e, a, b, hid, ha, hb, rfl, rfl⟩)

/-- **A path between modules is a path between their packages**, if imports start at modules. -/
theorem reaches_package (hmodules : ∀ e ∈ g.edges.toList, (g.module? e.source).isSome)
    (h : (fileGraph g).Reaches v w) (ha : g.module? v = some a) (hb : g.module? w = some b) :
    (packagesOf g).Reaches a.package b.package := by
  induction h using Relation.ReflTransGen.head_induction_on generalizing a with
  | refl =>
    obtain rfl := Option.some.inj (ha.symm.trans hb)
    exact Relation.ReflTransGen.refl
  | @head v u hvu huw ih =>
    -- the next node is the last one, which is a module, or it has an import of its own
    obtain ⟨c, hc⟩ : ∃ c, g.module? u = some c := by
      obtain rfl | ⟨x, hux, -⟩ := huw.cases_head
      · exact ⟨b, hb⟩
      · obtain ⟨e, he, rfl, -⟩ := (arc_fileGraph g u x).1 hux
        exact Option.isSome_iff_exists.1 (hmodules e he)
    exact (reaches_package_of_arc hvu ha hc).trans (ih hc)

/-- The packages of the modules on a closed walk reach each other. -/
theorem connected_package (hmodules : ∀ e ∈ g.edges.toList, (g.module? e.source).isSome) {c : List Nat}
    (hc : ∀ hop ∈ around c, (fileGraph g).Arc hop.1 hop.2) (hv : v ∈ c) (hw : w ∈ c)
    (ha : g.module? v = some a) (hb : g.module? w = some b) :
    (packagesOf g).Connected a.package b.package := by
  obtain ⟨hthere, hback⟩ := connected_of_around hc hv hw
  exact ⟨reaches_package hmodules hthere ha hb, reaches_package hmodules hback hb ha⟩

/-- **Circular imports between packages are reported exactly**, for a graph whose modules belong to its packages and
whose edges start at modules. -/
theorem packageCycles_reports (hg : IsOwned g) (hmodules : ∀ e ∈ g.edges.toList, (g.module? e.source).isSome)
    (severity : Severity) : ReportsPackages g (packageCycles severity g) := by
  have hrange := inRange_packagesOf hg
  have hlarge := mem_filter_components hrange
  have hreported : ∀ members ∈ (packagesOf g).components.filter (2 ≤ ·.length),
      ReportsPackageKnot g members (packageKnot severity g members) := by
    intro members hmembers
    obtain ⟨hmem, htwo⟩ := mem_filter.1 hmembers
    exact reports_packageKnot hg severity hmem (of_decide_eq_true htwo)
  rw [packageCycles_eq hg]
  refine ⟨isPackageView_packageEdges g, ⟨_, (components_nodup hrange).filter _, hlarge, forall₂_self_map hreported⟩, ?_⟩
  rintro c hc ⟨v, hv, w, hw, a, b, ha, hb, hne⟩
  -- the component of one of the packages has all the others
  have hsize : a.package < (packagesOf g).size := hg v a ha
  have hlength := two_le_length_componentOf hrange hsize (connected_package hmodules hc hv hw ha hb) hne
  have hcomponent : (packagesOf g).componentOf a.package ∈ (packagesOf g).components :=
    (mem_components_iff hrange _).2 ⟨a.package, hsize, rfl⟩
  have hmem : (packagesOf g).componentOf a.package ∈ (packagesOf g).components.filter (2 ≤ ·.length) :=
    mem_filter.2 ⟨hcomponent, decide_eq_true hlength⟩
  refine ⟨_, ((hlarge _).1 hmem).1, fun u hu => ?_, _, mem_map_of_mem hmem, hreported _ hmem⟩
  obtain ⟨x, hhop⟩ := exists_mem_around hu
  obtain ⟨e, he, hsource, -⟩ := (arc_fileGraph g u x).1 (hc _ hhop)
  obtain ⟨m, hm⟩ := Option.isSome_iff_exists.1 (hmodules e he)
  rw [hsource] at hm
  exact ⟨m, hm, (mem_componentOf hrange _ _).2 ⟨hg u m hm, connected_package hmodules hc hv hu ha hm⟩⟩

theorem isOwned_build {packages : List Package} (config : Config) {files : List SourceFile}
    (hfiles : ∀ f ∈ files, f.package < packages.length) : IsOwned (build packages config files).1 := by
  intro i m hm
  have hmem : m ∈ files.map (moduleOf config.layers) := by
    refine mem_of_getElem? (i := i) ?_
    rw [← getElem?_toArray]
    exact hm
  obtain ⟨f, hf, rfl⟩ := mem_map.1 hmem
  exact hfiles f hf

end Cycles

/-- **Circular imports are exact at the granularity of packages.** Whatever files a graph was built from, as long as
each belongs to one of the packages: the graph of packages has one edge for each pair that imports cross between, the
analyzer finds one circular import for each strongly connected component of two packages or more, and the packages
on a closed walk between modules are in one of these if there are several. -/
theorem circularImports_reportsPackages (severity : Severity) (packages : List Package) (config : Config)
    (files : List SourceFile) (hfiles : ∀ f ∈ files, f.package < packages.length) (context : AnalysisContext)
    (hgraph : context.graph = (Graph.build packages config files).1)
    (hgranularity : context.config.granularity = .package) :
    Cycles.ReportsPackages context.graph ((circularImports severity).analyze context).diagnostics := by
  have hfind : ((circularImports severity).analyze context).diagnostics =
      Cycles.packageCycles severity context.graph := by
    change Cycles.find severity context = _
    rw [Cycles.find, hgranularity]
  rw [hfind, hgraph]
  exact Cycles.packageCycles_reports (Cycles.isOwned_build config hfiles)
    (fun e he => Graph.isSome_module? (Graph.lt_size_of_mem_edges he).1) severity

/-- Two packages. -/
def twoPackages : List Package := [{ name := "a", root := "a" }, { name := "b", root := "b" }]

/-- A module in each of the two packages that imports that of the other; the first also imports a package outside. -/
def packageImports : List SourceFile := [
  ⟨"a/x.ts", 0, "1", .parsed { imports := [⟨"lodash", .static, 1, 8⟩, ⟨"../b/y", .static, 2, 8⟩] }⟩,
  ⟨"b/y.ts", 1, "2", .parsed { imports := [⟨"../a/x", .static, 1, 8⟩] }⟩]

theorem arcs_packageImports :
    (build twoPackages {} packageImports).1.edges.toList.map (fun e => (e.source, e.target)) =
      [(0, 2), (0, 1), (1, 0)] := by
  obtain ⟨hindex, hmodules⟩ := pathIndex_two _ _
  rw [build_edges, edgeIn, resolverOf, packageImports, hindex, hmodules]
  decide

/-- Two packages that import each other are reported together. -/
theorem circularImports_reportsPackages_mutual :
    (∀ f ∈ packageImports, f.package < twoPackages.length) ∧
    ∃ members, 0 ∈ members ∧ 1 ∈ members ∧
      ∃ d ∈ ((circularImports .error).analyze
        { graph := (Graph.build twoPackages {} packageImports).1, config := { granularity := .package } }).diagnostics,
        Cycles.ReportsPackageKnot (Graph.build twoPackages {} packageImports).1 members d := by
  have hfiles : ∀ f ∈ packageImports, f.package < twoPackages.length := by decide
  have hreports := circularImports_reportsPackages .error twoPackages {} packageImports hfiles
    { graph := (Graph.build twoPackages {} packageImports).1, config := { granularity := .package } } rfl rfl
  have hwalk : ∀ hop ∈ Digraph.around [0, 1],
      (Cycles.fileGraph (Graph.build twoPackages {} packageImports).1).Arc hop.1 hop.2 := by
    intro hop hhop
    change hop ∈ (Graph.build twoPackages {} packageImports).1.edges.toList.map (fun e => (e.source, e.target))
    rw [arcs_packageImports]
    exact mem_cons_of_mem _ hhop
  obtain ⟨members, -, hmembers, d, hd, hreported⟩ := hreports.lossless [0, 1] hwalk
    ⟨0, mem_cons_self, 1, mem_cons_of_mem _ mem_cons_self, _, _, rfl, rfl, Nat.zero_ne_one⟩
  obtain ⟨a, ha, hfirst⟩ := hmembers 0 mem_cons_self
  obtain ⟨b, hb, hsecond⟩ := hmembers 1 (mem_cons_of_mem _ mem_cons_self)
  cases ha
  cases hb
  exact ⟨hfiles, members, hfirst, hsecond, d, hd, hreported⟩

end Cartograph
