import Cartograph.Proofs.Analysis.Missing
import Cartograph.Proofs.Analysis.PackageCycles
import Cartograph.Proofs.Diagnostic.Order
import Cartograph.Proofs.Workspace.Regular

/-!
# Findings are told apart by their places

A report lists findings by place, code and message, and shows more than that. That two findings of one run never
agree in these three and differ in the rest has to be seen for each code. Most findings are made from the place
and the message alone (`Diagnostic.Distinguished.of_alike`). The others are made from an import: a place is that of
one import (`Graph.IsLocated.edge_eq`), and the import determines

* the two modules and their layers, of a layer that is violated;
* the package and the name that it lacks, of a missing dependency;
* the node that a cycle is searched from, and with it the component, of a circular import
  (`Digraph.knot_eq_of_head?`). Where the nodes are packages, it is the package of the importing module.

An unused dependency has no import. Its place is the manifest, which belongs to one package, and its message tells
the name.
-/

namespace Cartograph

open List
open Diagnostic (Tied Distinguished)

/-! ### Imports and their places -/

namespace Graph

variable {g : Graph} {i : Nat} {m : ModuleNode}

/-- A graph in which a place is that of one module and of one import, and a manifest that of one package. -/
structure IsLocated (g : Graph) : Prop where
  path : ∀ m ∈ g.modules.toList, Path.IsCanonical m.path
  nodup_paths : (g.modules.toList.map (·.path)).Nodup
  owned : ∀ m ∈ g.modules.toList, m.package < g.packages.length
  manifest : ∀ k ∈ g.packages, Path.IsCanonical k.manifest
  nodup_manifests : (g.packages.map Package.manifest).Nodup
  source : ∀ e ∈ g.edges.toList, e.source < g.modules.size
  place : ∀ e ∈ g.edges.toList, ∀ e' ∈ g.edges.toList, e.source = e'.source → e.line = e'.line →
    e.column = e'.column → e = e'

theorem label_of_module? (h : g.module? i = some m) : g.label i = m.path := by
  rw [module?] at h
  rw [label, node?, h]
  rfl

theorem mem_of_module? (h : g.module? i = some m) : m ∈ g.modules.toList := by
  obtain ⟨hi, rfl⟩ := Array.getElem?_eq_some_iff.1 h
  exact Array.getElem_mem_toList hi

namespace IsLocated

variable {g : Graph} {e e' : Edge}

theorem exists_module? (h : g.IsLocated) (he : e ∈ g.edges.toList) :
    ∃ m, g.module? e.source = some m ∧ g.label e.source = m.path ∧ Path.IsCanonical (g.label e.source) := by
  have hlt := h.source e he
  have hmodule : g.module? e.source = some g.modules[e.source] := Array.getElem?_eq_getElem hlt
  have hlabel := label_of_module? hmodule
  exact ⟨_, hmodule, hlabel, hlabel ▸ h.path _ (mem_of_module? hmodule)⟩

/-- Imports at one place of one file are the same. -/
theorem edge_eq (h : g.IsLocated) (he : e ∈ g.edges.toList) (he' : e' ∈ g.edges.toList)
    {d d' : Diagnostic} (hd : d.location = g.edgeLocation e) (hd' : d'.location = g.edgeLocation e')
    (htied : Tied d d') : e = e' := by
  obtain ⟨m, hm, hlabel, hcanonical⟩ := h.exists_module? he
  obtain ⟨m', hm', hlabel', hcanonical'⟩ := h.exists_module? he'
  have hfile := htied.file
  have hline := htied.line
  have hcolumn := htied.column
  rw [hd, hd'] at hfile hline hcolumn
  have hpath : m.path = m'.path := by
    rw [← hlabel, ← hlabel']
    exact Path.eq_of_compare_eq hcanonical hcanonical' hfile
  -- no two modules have one path
  have hsource : e.source = e'.source := by
    have hget : (g.modules.toList.map (·.path))[e.source]? = some m.path := by
      rw [getElem?_map, Array.getElem?_toList]
      exact congrArg (Option.map _) hm
    have hget' : (g.modules.toList.map (·.path))[e'.source]? = some m.path := by
      rw [hpath, getElem?_map, Array.getElem?_toList]
      exact congrArg (Option.map _) hm'
    refine (getElem?_inj ?_ h.nodup_paths).1 (hget.trans hget'.symm)
    simpa using h.source e he
  exact h.place e he e' he' hsource hline hcolumn

end IsLocated

variable {files : List SourceFile}

/-- **Places are told apart in a graph that was built** from the files of a scan, if no two imports of a file have
one place. -/
theorem isLocated_build {scan : Scan} (hscan : scan.IsRegular)
    (hfiles : files.map (fun f => (f.path, f.package)) = scan.files)
    (himports : ∀ f ∈ files, (f.imports.map fun item => (item.line, item.column)).Nodup) (config : Config) :
    (build scan.packages config files).1.IsLocated := by
  have hmem : ∀ m ∈ (build scan.packages config files).1.modules.toList, (m.path, m.package) ∈ scan.files := by
    intro m hm
    obtain ⟨f, hf, rfl⟩ := mem_map.1 hm
    rw [← hfiles]
    exact mem_map_of_mem hf
  have hpaths : (build scan.packages config files).1.modules.toList.map (·.path) = scan.files.map (·.1) := by
    rw [← hfiles]
    simp [build, moduleOf]
  refine ⟨fun m hm => hscan.file _ (hmem m hm), hpaths ▸ hscan.nodup_files, fun m hm => hscan.owned _ (hmem m hm),
    hscan.manifest, hscan.nodup_manifests, fun e he => ?_, ?_⟩
  · simpa [build] using (lt_size_of_mem_edges he).1
  · intro e he e' he' hsource hline hcolumn
    obtain ⟨link, hlink, he⟩ := mem_filterMap.1 he
    obtain ⟨link', hlink', he'⟩ := mem_filterMap.1 he'
    -- both links are imports of one file, at one place
    have hlinks : link = link' := by
      obtain ⟨target, -, rfl⟩ := Option.map_eq_some_iff.1 he
      obtain ⟨target', -, rfl⟩ := Option.map_eq_some_iff.1 he'
      obtain ⟨⟨f, hf, hpath, hitem⟩, -, hresolution⟩ := mem_links hlink
      obtain ⟨⟨f', hf', hpath', hitem'⟩, -, hresolution'⟩ := mem_links hlink'
      dsimp only at hsource hline hcolumn
      rw [← hsource, hf] at hf'
      obtain rfl : f = f' := Option.some.inj hf'
      have himport : link.item = link'.item :=
        inj_on_of_nodup_map (himports f (mem_of_getElem? hf)) hitem hitem' (Prod.ext hline hcolumn)
      rw [hpath, himport] at hresolution
      rw [hpath'] at hresolution'
      exact Link.mk.injEq .. ▸ ⟨hsource, hpath.trans hpath'.symm, himport, hresolution.trans hresolution'.symm⟩
    rw [hlinks, he'] at he
    exact (Option.some.inj he).symm

/-- **What building a graph finds is told apart.** -/
theorem distinguished_build {packages : List Package} (hfiles : ∀ f ∈ files, Path.IsCanonical f.path)
    (config : Config) : Distinguished ["AG301", "AG203"] (build packages config files).2 := by
  have hparse : Distinguished ["AG301"] (files.filterMap SourceFile.diagnostic?) := by
    have hunread : ∀ d ∈ files.filterMap SourceFile.diagnostic?, ∃ f ∈ files, ∃ failure,
        SourceFile.diagnostic? { f with outcome := .failed failure } = some d := by
      intro d hd
      obtain ⟨f, hf, hd⟩ := mem_filterMap.1 hd
      obtain ⟨path, package, hash, m | failure⟩ := f
      · cases hd
      · exact ⟨_, hf, failure, hd⟩
    refine .of_alike (fun d hd => ?_) (fun d hd e he => ?_)
    · obtain ⟨f, -, failure, ⟨⟩⟩ := hunread d hd
      rfl
    · obtain ⟨f, hf, failure, ⟨⟩⟩ := hunread d hd
      obtain ⟨f', hf', failure', ⟨⟩⟩ := hunread e he
      exact ⟨rfl, Path.eq_of_compare_eq (hfiles f hf) (hfiles f' hf')⟩
  have hresolve : Distinguished ["AG203"] ((links (resolverOf packages files) files).filterMap
      (unresolvedDiagnostic? config.dependencies.unresolvedSeverity)) := by
    have hunresolved : ∀ d ∈ (links (resolverOf packages files) files).filterMap
        (unresolvedDiagnostic? config.dependencies.unresolvedSeverity), ∃ link : Link, Path.IsCanonical link.path ∧
          unresolvedDiagnostic? config.dependencies.unresolvedSeverity { link with resolution := .unresolved } =
            some d := by
      intro d hd
      obtain ⟨link, hlink, hd⟩ := mem_filterMap.1 hd
      obtain ⟨⟨f, hf, hpath, -⟩, -, -⟩ := mem_links hlink
      refine ⟨link, hpath ▸ hfiles f (mem_of_getElem? hf), ?_⟩
      obtain ⟨source, path, item, resolution⟩ := link
      cases resolution with
      | unresolved => exact hd
      | module target => cases hd
      | external name origin => cases hd
    refine .of_alike (fun d hd => ?_) (fun d hd e he => ?_)
    · obtain ⟨link, -, ⟨⟩⟩ := hunresolved d hd
      rfl
    · obtain ⟨link, hpath, ⟨⟩⟩ := hunresolved d hd
      obtain ⟨link', hpath', ⟨⟩⟩ := hunresolved e he
      exact ⟨rfl, Path.eq_of_compare_eq hpath hpath'⟩
  exact hparse.append hresolve (by decide)

end Graph

/-! ### Circular imports -/

namespace Digraph

variable {g : Digraph} {knot other : Knot}

/-- **The node that a cycle starts from determines the knot.** -/
theorem knot_eq_of_head? (hg : g.InRange) (hknot : knot ∈ g.knots)
    (hother : other ∈ g.knots) (h : knot.cycle.head? = other.cycle.head?) : knot = other := by
  rw [knots_eq hg] at hknot hother
  obtain ⟨members, hmembers, rfl⟩ := mem_map.1 hknot
  obtain ⟨members', hmembers', rfl⟩ := mem_map.1 hother
  obtain ⟨hmem, htwo⟩ := mem_filter.1 hmembers
  obtain ⟨hmem', htwo'⟩ := mem_filter.1 hmembers'
  obtain ⟨start, hstart, -, hfirst⟩ := isFirstCycle_cycleIn hg hmem (of_decide_eq_true htwo)
  obtain ⟨start', hstart', -, hfirst'⟩ := isFirstCycle_cycleIn hg hmem' (of_decide_eq_true htwo')
  rw [hfirst.head, hfirst'.head, Option.some.injEq] at h
  -- a node lies in one component only
  have hcomponent : ∀ {members : List Nat}, members ∈ g.components → start ∈ members →
      members = g.componentOf start := by
    intro members hmem hstart
    obtain ⟨v, -, rfl⟩ := (mem_components_iff hg members).1 hmem
    exact componentOf_eq hg ((mem_componentOf hg v start).1 hstart).2
  rw [hcomponent hmem (mem_of_head? hstart), hcomponent hmem' (h ▸ mem_of_head? hstart')]

/-- A cycle that was found starts with an edge from its first node. -/
theorem exists_hops_eq (hg : g.InRange) (hknot : knot ∈ g.knots) :
    ∃ v w rest, knot.cycle.head? = some v ∧ knot.hops = (v, w) :: rest ∧ g.Arc v w := by
  rw [knots_eq hg] at hknot
  obtain ⟨members, hmembers, rfl⟩ := mem_map.1 hknot
  obtain ⟨hmem, htwo⟩ := mem_filter.1 hmembers
  obtain ⟨start, -, -, hfirst⟩ := isFirstCycle_cycleIn hg hmem (of_decide_eq_true htwo)
  have hcycle := hfirst.isCycle
  have hhead := hfirst.head
  generalize g.cycleIn members = cycle at hcycle hhead
  match cycle, hcycle.two_le with
  | v :: w :: rest, _ => exact ⟨v, w, _, rfl, rfl, (hcycle.arc (v, w) (by simp [around])).1⟩

end Digraph

namespace Cycles

variable {g : Graph}

/-- Cycles are told apart if the first import of each tells the node that it starts from. -/
theorem distinguished_knots (hg : g.IsLocated) {graph : Digraph} (hgraph : graph.InRange)
    {edgeOf? : Nat × Nat → Option Edge} (start? : Edge → Option Nat)
    (hedge : ∀ v w, graph.Arc v w → ∃ e ∈ g.edges.toList, edgeOf? (v, w) = some e ∧ start? e = some v)
    (severity : Severity) (unit : Unit) (names : Digraph.Knot → List String) :
    Distinguished ["AG001"] (graph.knots.map fun knot =>
      circularImport severity g unit knot.members.length (names knot) (knot.hops.filterMap edgeOf?)) where
  code d hd := by
    obtain ⟨knot, -, rfl⟩ := mem_map.1 hd
    exact mem_singleton_self _
  eq_of_tied d hd d' hd' htied := by
    obtain ⟨knot, hknot, rfl⟩ := mem_map.1 hd
    obtain ⟨other, hother, rfl⟩ := mem_map.1 hd'
    obtain ⟨v, w, rest, hhead, hhops, harc⟩ := Digraph.exists_hops_eq hgraph hknot
    obtain ⟨v', w', rest', hhead', hhops', harc'⟩ := Digraph.exists_hops_eq hgraph hother
    obtain ⟨e, he, hfound, hstart⟩ := hedge v w harc
    obtain ⟨e', he', hfound', hstart'⟩ := hedge v' w' harc'
    have hsame : e = e' := by
      refine hg.edge_eq he he' ?_ ?_ htied
      · rw [hhops, filterMap_cons, hfound]
        rfl
      · rw [hhops', filterMap_cons, hfound']
        rfl
    rw [← hsame, hstart, ← hhead, ← hhead'] at hstart'
    rw [Digraph.knot_eq_of_head? hgraph hknot hother hstart']

/-! #### Between modules -/

theorem distinguished_fileCycles (hg : g.IsLocated) (hrange : (fileGraph g).InRange) (severity : Severity) :
    Distinguished ["AG002", "AG001"] (fileCycles severity g) := by
  have hself : Distinguished ["AG002"] ((g.edges.toList.filter fun e =>
      e.source == e.target && (g.module? e.source).isSome).map (selfImport severity g)) := by
    refine .of_alike (fun d hd => ?_) (fun d hd d' hd' => ?_)
    · obtain ⟨e, -, rfl⟩ := mem_map.1 hd
      rfl
    · obtain ⟨e, he, rfl⟩ := mem_map.1 hd
      obtain ⟨e', he', rfl⟩ := mem_map.1 hd'
      obtain ⟨-, -, -, hpath⟩ := hg.exists_module? (mem_filter.1 he).1
      obtain ⟨-, -, -, hpath'⟩ := hg.exists_module? (mem_filter.1 he').1
      exact ⟨rfl, Path.eq_of_compare_eq hpath hpath'⟩
  refine hself.append (distinguished_knots hg hrange (fun e => some e.source) (fun v w harc => ?_) severity .module _)
    (by decide)
  obtain ⟨e, hfound, i, hi, hsource, -⟩ := exists_find?_outgoing harc
  refine ⟨e, ?_, hfound, congrArg some hsource⟩
  rw [← Array.getElem?_toList] at hi
  exact mem_of_getElem? hi

/-! #### Between packages -/

theorem isOwned_of_isLocated (hg : g.IsLocated) : IsOwned g := fun _ m hm => hg.owned m (Graph.mem_of_module? hm)

theorem distinguished_packageCycles (hg : g.IsLocated) (severity : Severity) :
    Distinguished ["AG001"] (packageCycles severity g) := by
  refine distinguished_knots hg (inRange_packagesOf (isOwned_of_isLocated hg))
    (fun e => (g.module? e.source).map (·.package)) (fun v w harc => ?_) severity .package _
  -- the first import behind a step starts in the package that the step starts from
  obtain ⟨e, hfound, id, he, hcrosses, -⟩ := exists_firstCrossing harc
  obtain ⟨e', he', hcrossing⟩ := Graph.crosses_iff.1 hcrosses
  obtain rfl := Option.some.inj (he.symm.trans he')
  obtain ⟨-, m, -, hm, -, rfl, -⟩ := Graph.crossing?_eq_some_iff.1 hcrossing
  refine ⟨e, ?_, hfound, by rw [hm, Option.map_some]⟩
  rw [← Array.getElem?_toList] at he
  exact mem_of_getElem? he

/-- **Circular imports are told apart**, between modules and between packages. -/
theorem distinguished_find {context : AnalysisContext} (hg : context.graph.IsLocated)
    (hrange : (fileGraph context.graph).InRange) (severity : Severity) :
    Distinguished ["AG002", "AG001"] (find severity context) := by
  unfold find
  split
  · exact distinguished_fileCycles hg hrange severity
  · have hpackages := distinguished_packageCycles hg severity
    exact ⟨fun d hd => mem_cons_of_mem _ (hpackages.code d hd), hpackages.eq_of_tied⟩

end Cycles

/-! ### Layers -/

namespace Layers

variable {severity : Severity} {context : AnalysisContext}

theorem location_of_violation? {e : Edge} {d : Diagnostic} (h : violation? severity context e = some d) :
    d.location = context.graph.edgeLocation e := by
  unfold violation? at h
  split at h
  · next source target hsource htarget =>
    split at h
    · split at h
      · cases h
      · split at h
        · cases h
        · cases h
          rw [Graph.edgeLocation, Graph.label_of_module? hsource]
          rfl
    · cases h
  · cases h

/-- **Violations of layers and circles of layers are told apart.** -/
theorem distinguished_find (hg : context.graph.IsLocated) (severity : Severity) :
    Distinguished ["AG102", "AG101"] (find severity context) := by
  have hcircles : Distinguished ["AG102"] (layerCycles context) := by
    refine .of_alike (fun d hd => ?_) (fun d hd e he => ?_)
    · obtain ⟨knot, -, rfl⟩ := mem_map.1 hd
      rfl
    · obtain ⟨knot, -, rfl⟩ := mem_map.1 hd
      obtain ⟨other, -, rfl⟩ := mem_map.1 he
      exact ⟨rfl, fun _ => rfl⟩
  have hviolations : Distinguished ["AG101"]
      (context.graph.edges.toList.filterMap (violation? severity context)) := by
    refine ⟨fun d hd => ?_, fun d hd d' hd' htied => ?_⟩
    · obtain ⟨e, -, hd⟩ := mem_filterMap.1 hd
      rw [(of_violation?_eq_some hd).1]
      exact mem_singleton_self _
    · obtain ⟨e, he, hd⟩ := mem_filterMap.1 hd
      obtain ⟨e', he', hd'⟩ := mem_filterMap.1 hd'
      have hsame := hg.edge_eq he he' (location_of_violation? hd) (location_of_violation? hd') htied
      rw [hsame, hd'] at hd
      exact (Option.some.inj hd).symm
  unfold find
  split
  · exact .nil
  · exact hcircles.append hviolations (by decide)

end Layers

/-! ### Dependencies -/

namespace Dependencies

variable {g : Graph} {policy : DependencyPolicy} {k k' : Package}

/-- What is found for a package: a declared name that is not used, or a name that is used first by an import of one
of its modules. -/
theorem of_mem_findIn {i : Nat} {d : Diagnostic} (hd : d ∈ findIn policy g i k) : (∃ name, d = unused policy k name) ∨
      ∃ name first rest, (name, first) ∈ uses g policy.countTypeOnly i k ∧
        ((uses g policy.countTypeOnly i k).filter (·.1 == name)).map (·.2) = first :: rest ∧
        d = missing policy g k name first rest := by
  unfold findIn at hd
  split at hd
  · cases hd
  · obtain hd | hd := mem_append.1 hd
    · obtain ⟨name, -, rfl⟩ := mem_map.1 hd
      exact .inl ⟨name, rfl⟩
    · obtain ⟨name, -, hd⟩ := mem_filterMap.1 hd
      split at hd
      · next first rest huses =>
        cases hd
        refine .inr ⟨name, first, rest, ?_, huses, rfl⟩
        have hfirst : first ∈ ((uses g policy.countTypeOnly i k).filter (·.1 == name)).map (·.2) :=
          huses ▸ mem_cons_self
        obtain ⟨use, huse, rfl⟩ := mem_map.1 hfirst
        obtain ⟨hmem, hname⟩ := mem_filter.1 huse
        rw [← eq_of_beq hname]
        exact hmem
      · cases hd

/-- A manifest belongs to one package, and the message tells the name. -/
theorem unused_eq_of_tied (hg : g.IsLocated) (hk : k ∈ g.packages) (hk' : k' ∈ g.packages)
    {name name' : String} (htied : Tied (unused policy k name) (unused policy k' name')) :
    unused policy k name = unused policy k' name' := by
  have hmanifest : k.manifest = k'.manifest := Path.eq_of_compare_eq (hg.manifest k hk) (hg.manifest k' hk') htied.file
  obtain rfl : k = k' := inj_on_of_nodup_map hg.nodup_manifests hk hk' hmanifest
  have hmessage : "`" ++ name ++ "` is declared by package `" ++ k.name ++ "` but never imported" =
    "`" ++ name' ++ "` is declared by package `" ++ k.name ++ "` but never imported" := htied.message
  have hname : name = name' := by
    apply String.toList_injective
    simpa using congrArg String.toList hmessage
  rw [hname]

/-- **Unused and missing dependencies are told apart.** -/
theorem distinguished_find {context : AnalysisContext} (hg : context.graph.IsLocated) :
    Distinguished ["AG201", "AG202"] (find context) := by
  refine ⟨fun d hd => (of_mem_find hd).1, fun d hd d' hd' htied => ?_⟩
  obtain ⟨⟨k, i⟩, hk, hd⟩ := mem_flatMap.1 hd
  obtain ⟨⟨k', i'⟩, hk', hd'⟩ := mem_flatMap.1 hd'
  have hget := mem_zipIdx_iff_getElem?.1 hk
  have hget' := mem_zipIdx_iff_getElem?.1 hk'
  have hcode : ∀ {k name first rest}, (missing context.config.dependencies context.graph k name first rest).code ≠
      "AG201" := by
    intro k name first rest
    rw [(missing_keeps ..).2.1]
    decide
  obtain ⟨name, rfl⟩ | ⟨name, first, rest, huse, hrest, rfl⟩ := of_mem_findIn hd
  · obtain ⟨name', rfl⟩ | ⟨name', first', rest', -, -, rfl⟩ := of_mem_findIn hd'
    · exact unused_eq_of_tied hg (mem_of_getElem? hget) (mem_of_getElem? hget') htied
    · exact absurd htied.code.symm hcode
  · obtain ⟨name', rfl⟩ | ⟨name', first', rest', huse', hrest', rfl⟩ := of_mem_findIn hd'
    · exact absurd htied.code hcode
    · obtain ⟨he, ⟨m, hm, hi⟩, hname⟩ := mem_uses_iff.1 huse
      obtain ⟨he', ⟨m', hm', hi'⟩, hname'⟩ := mem_uses_iff.1 huse'
      have hfirst : first = first' := hg.edge_eq he he' (missing_keeps ..).1 (missing_keeps ..).1 htied
      -- the first import tells the module, the package of the module, and the name
      rw [← hfirst, hm] at hm'
      obtain rfl : m = m' := Option.some.inj hm'
      obtain rfl : i = i' := hi.symm.trans hi'
      obtain rfl : k = k' := Option.some.inj (hget.symm.trans hget')
      rw [← hfirst, hname] at hname'
      obtain rfl : name = name' := Option.some.inj hname'
      rw [hrest] at hrest'
      rw [(List.cons.inj hrest').1, (List.cons.inj hrest').2]

end Dependencies

end Cartograph
