import Cartograph.Proofs.Analysis.Codes
import Cartograph.Proofs.Config.Layers

/-!
# Imports across layers

Which imports have to be reported is said on the files alone (`Trespasses`): the import refers to a scanned module of
another layer, which the layer of the importing module does not name, and the importing module is not exempt. Main
statement: `layerBoundaries_reportsTrespasses`. The findings of the analyzer on the graph of any files are, one to one
and in order, these imports.

A module gets the name of its layer when the graph is built, and the name is looked up when the import is checked. Both
look-ups are of one table, in which a name stands for one layer (`layer_moduleOf`, `LayerTable.allows_iff`).
-/

namespace Cartograph

open Cartograph.Graph LayerTable List

namespace Graph

variable {g : Graph} {i : Nat}

theorem of_mem_written {files : List SourceFile} {w : Written} (h : w ∈ written files) :
    files[w.source]? = some w.file := by
  obtain ⟨⟨f, i⟩, hf, h⟩ := mem_flatMap.1 h
  obtain ⟨item, -, rfl⟩ := mem_map.1 h
  exact mem_zipIdx_iff_getElem?.1 hf

theorem module?_eq_some_iff {m : ModuleNode} : g.module? i = some m ↔ g.node? i = some (.module m) := by
  unfold module? node?
  cases g.modules[i]? with
  | none => simp
  | some m' => simp

theorem module?_eq_none_of_external {x : External} (h : g.node? i = some (.external x)) : g.module? i = none := by
  refine Option.eq_none_iff_forall_ne_some.2 fun m hm => ?_
  cases h.symm.trans (module?_eq_some_iff.1 hm)

/-- The modules of a graph are those of its files. -/
theorem module?_build (packages : List Package) (config : Config) (files : List SourceFile) (i : Nat) :
    (build packages config files).1.module? i = (files[i]?).map (moduleOf config.layers) := by
  simp [module?, build]

end Graph

namespace Layers

open Cartograph.Graph (Written written resolverFor resolverOf resolverOf_eq edgeIn StandsFor moduleOf)

/-! ### What is to be reported -/

/-- A module whose imports are not checked: it only exports again, and that is free for all modules or for this one. -/
structure IsExempt (policy : ArchitecturePolicy) (f : SourceFile) : Prop where
  barrel : ∃ m, f.outcome = .parsed m ∧ m.reexportOnly = true
  free : policy.enforcePublicApi = false ∨ ∃ pattern ∈ policy.allowBarrelExports, pattern.matches f.path = true

/-- An import of a module in one layer by a module in another that may not import it. -/
structure Trespasses (packages : List Package) (config : Config) (files : List SourceFile) (w : Written)
    (target : String) (a b : Layer) : Prop where
  resolved : w.answer (resolverFor packages files) = .module target
  scanned : ∃ f ∈ files, f.path = target
  importing : config.layers.IsLayerOf w.file.path a
  imported : config.layers.IsLayerOf target b
  different : a ≠ b
  forbidden : b.name ∉ a.allow.toList
  checked : ¬IsExempt config.architecture w.file

/-- A finding names both layers, both modules and the specifier of an import, and is located at the import. -/
structure NamesImport (severity : Severity) (w : Written) (target : String) (a b : Layer) (d : Diagnostic) : Prop where
  code : d.code = "AG101"
  category : d.category = .architecture
  severity : d.severity = severity
  location : d.location = { file := w.file.path, line := w.item.line, column := w.item.column }
  message : d.message = "layer `" ++ a.name ++ "` must not import layer `" ++ b.name ++ "`: `" ++ w.file.path ++
    "` imports `" ++ target ++ "` via `" ++ w.item.specifier ++ "`"

open Classical in
/-- The findings on the imports of files: one for each import that has to be reported. -/
structure ReportsTrespasses (severity : Severity) (packages : List Package) (config : Config)
    (files : List SourceFile) (g : Graph) (found : List Diagnostic) : Prop where
  reported : Forall₂
    (fun w d => ∃ target a b, Trespasses packages config files w target a b ∧ NamesImport severity w target a b d)
    ((written files).filter fun w => ∃ target a b, Trespasses packages config files w target a b) found
  /-- The order of imports is the order of edges. -/
  order : Forall₂ (StandsFor g (resolverFor packages files))
    ((written files).filter fun w => w.answer (resolverFor packages files) ≠ .unresolved) g.edges.toList
  /-- Nothing is found where all imports between layers are allowed. -/
  obedient : (∀ w ∈ written files, ∀ target a b, w.answer (resolverFor packages files) = .module target →
    config.layers.IsLayerOf w.file.path a → config.layers.IsLayerOf target b → a = b ∨ b.name ∈ a.allow.toList) →
    found = []

/-! ### One import -/

theorem layer_moduleOf (layers : LayerTable) (f : SourceFile) : (moduleOf layers f).layer = layers.assign? f.path := rfl

theorem exempts_moduleOf_iff (policy : ArchitecturePolicy) (layers : LayerTable) (f : SourceFile) :
    policy.exempts (moduleOf layers f).path (moduleOf layers f).reexportOnly = true ↔ IsExempt policy f := by
  have hbarrel : (moduleOf layers f).reexportOnly = true ↔ ∃ m, f.outcome = .parsed m ∧ m.reexportOnly = true := by
    unfold moduleOf
    cases f.outcome with
    | parsed m => simp
    | failed failure => simp
  have hfree : (!policy.enforcePublicApi || Glob.anyMatches policy.allowBarrelExports f.path) = true ↔
      policy.enforcePublicApi = false ∨ ∃ pattern ∈ policy.allowBarrelExports, pattern.matches f.path = true := by
    simp [Glob.anyMatches]
  rw [ArchitecturePolicy.exempts, Bool.and_eq_true, hbarrel]
  exact ⟨fun h => ⟨h.1, hfree.1 h.2⟩, fun h => ⟨h.barrel, hfree.2 h.free⟩⟩

section Files

variable {severity : Severity} {packages : List Package} {config : Config} {files : List SourceFile}
  {label target : String} {w : Written}

/-- What is found on an import of the files. -/
def importFinding? (severity : Severity) (packages : List Package) (config : Config) (files : List SourceFile)
    (label : String) (w : Written) : Option Diagnostic :=
  (edgeIn packages files (w.link (resolverOf packages files))).bind
    (violation? severity { graph := (build packages config files).1, config, configLabel := label })

/-- An import that refers to a module leads to the module of a file with this path. -/
theorem exists_edge_of_module (config : Config) (hw : w ∈ written files)
    (h : w.answer (resolverFor packages files) = .module target) :
    ∃ e f, edgeIn packages files (w.link (resolverOf packages files)) = some e ∧
      StandsFor (build packages config files).1 (resolverFor packages files) w e ∧ f ∈ files ∧
      f.path = target ∧ (build packages config files).1.module? e.target = some (moduleOf config.layers f) := by
  have hresolved : w.answer (resolverOf packages files) ≠ .unresolved := by
    rw [resolverOf_eq, h]
    exact nofun
  obtain ⟨e, he, hstands⟩ := standsFor_edgeIn config hw hresolved
  rw [resolverOf_eq] at hstands
  obtain ⟨m, hm, hpath⟩ := hstands.module target h
  have hmodule := module?_eq_some_iff.2 hm
  rw [module?_build, Option.map_eq_some_iff] at hmodule
  obtain ⟨f, hf, rfl⟩ := hmodule
  refine ⟨e, f, he, hstands, mem_of_getElem? hf, hpath, ?_⟩
  rw [module?_build, hf, Option.map_some]

theorem module?_source (hw : w ∈ written files) {e : Edge} {r : Resolver}
    (h : StandsFor (build packages config files).1 r w e) :
    (build packages config files).1.module? e.source = some (moduleOf config.layers w.file) := by
  rw [h.source, module?_build, of_mem_written hw, Option.map_some]

/-- **An import that trespasses is found**, and named. -/
theorem Trespasses.exists_importFinding? {a b : Layer} (hw : w ∈ written files)
    (h : Trespasses packages config files w target a b) :
    ∃ d, importFinding? severity packages config files label w = some d ∧ NamesImport severity w target a b d := by
  obtain ⟨e, f, he, hstands, -, rfl, htarget⟩ := exists_edge_of_module config hw h.resolved
  -- what is asked about names of layers is true of the layers
  have hallows : config.layers.allows a.name b.name = false := by
    rw [← Bool.not_eq_true, allows_iff h.importing.mem h.imported.mem]
    exact not_or.2 ⟨h.different, h.forbidden⟩
  have hexempt := Bool.eq_false_iff.2 (mt (exempts_moduleOf_iff config.architecture config.layers w.file).1 h.checked)
  refine ⟨violation severity config.layers e (moduleOf config.layers w.file) (moduleOf config.layers f) a.name b.name,
    ?_, rfl, rfl, rfl, ?_, ?_⟩
  · rw [importFinding?, he, Option.bind_some]
    exact violation?_eq_some_iff.2 ⟨_, _, a.name, b.name, module?_source hw hstands, htarget,
      assign?_eq_some_iff.2 ⟨a, h.importing, rfl⟩, assign?_eq_some_iff.2 ⟨b, h.imported, rfl⟩,
      hallows, hexempt, rfl⟩
  · rw [← hstands.line, ← hstands.column]
    rfl
  · rw [← hstands.specifier]
    rfl

/-- **What is found is an import that trespasses.** -/
theorem trespasses_of_importFinding? {d : Diagnostic} (hw : w ∈ written files)
    (h : importFinding? severity packages config files label w = some d) :
    ∃ target a b, Trespasses packages config files w target a b := by
  obtain ⟨e, he, hviolation⟩ := Option.bind_eq_some_iff.1 h
  cases hanswer : w.answer (resolverFor packages files) with
  | unresolved =>
    rw [edgeIn_unresolved (by rw [resolverOf_eq, hanswer])] at he
    cases he
  | external name origin =>
    -- the edge ends at a package outside, which is in no layer
    have hresolved : w.answer (resolverOf packages files) ≠ .unresolved := by
      rw [resolverOf_eq, hanswer]
      exact nofun
    obtain ⟨e', he', hstands⟩ := standsFor_edgeIn config hw hresolved
    cases he.symm.trans he'
    rw [resolverOf_eq] at hstands
    obtain ⟨x, hx, -⟩ := hstands.external name origin hanswer
    obtain ⟨-, target, -, -, -, htarget, -⟩ := violation?_eq_some_iff.1 hviolation
    cases (module?_eq_none_of_external hx).symm.trans htarget
  | module target =>
    obtain ⟨e', f, he', hstands, hf, rfl, htarget⟩ := exists_edge_of_module config hw hanswer
    cases he.symm.trans he'
    -- the modules of the violation are those at both ends of the edge
    obtain ⟨source, target, nameA, nameB, hsource, htarget', hlayerA, hlayerB, hallows, hexempt, -⟩ :=
      violation?_eq_some_iff.1 hviolation
    cases (module?_source hw hstands).symm.trans hsource
    cases htarget.symm.trans htarget'
    obtain ⟨a, ha, rfl⟩ := assign?_eq_some_iff.1 (layer_moduleOf config.layers w.file ▸ hlayerA)
    obtain ⟨b, hb, rfl⟩ := assign?_eq_some_iff.1 (layer_moduleOf config.layers f ▸ hlayerB)
    have hforbidden := mt (allows_iff ha.mem hb.mem).2 (Bool.eq_false_iff.1 hallows)
    refine ⟨f.path, a, b, hanswer, ⟨f, hf, rfl⟩, ha, hb, fun hab => hforbidden (.inl hab),
      fun hmem => hforbidden (.inr hmem), fun hfree => ?_⟩
    rw [(exempts_moduleOf_iff config.architecture config.layers w.file).2 hfree] at hexempt
    cases hexempt

/-! ### All imports -/

theorem filter_find_build (severity : Severity) (packages : List Package) (config : Config)
    (files : List SourceFile) (label : String) :
    (find severity { graph := (build packages config files).1, config, configLabel := label }).filter
      (·.code = "AG101") = (written files).filterMap (importFinding? severity packages config files label) := by
  have hedges : (written files).filterMap (importFinding? severity packages config files label) =
      (build packages config files).1.edges.toList.filterMap
        (violation? severity { graph := (build packages config files).1, config, configLabel := label }) := by
    rw [build_edges, links_eq_map, filterMap_filterMap, filterMap_map]
    rfl
  unfold find
  split
  · next hempty =>
    -- without layers no path belongs to one
    symm
    rw [filter_nil, filterMap_eq_nil_iff]
    intro w hw
    refine Option.eq_none_iff_forall_ne_some.2 fun d hd => ?_
    obtain ⟨target, a, b, h⟩ := trespasses_of_importFinding? hw hd
    exact ne_nil_of_mem h.importing.mem (isEmpty_iff.1 hempty)
  · rw [hedges, filter_append, filter_eq_nil_iff.2, filter_eq_self.2, nil_append]
    · intro d hd
      obtain ⟨e, -, he⟩ := mem_filterMap.1 hd
      rw [(of_violation?_eq_some he).1]
      rfl
    · intro d hd
      obtain ⟨knot, -, rfl⟩ := mem_map.1 hd
      exact of_decide_eq_false rfl

end Files

end Layers

/-- **Layers are checked exactly.** For all packages, all configurations and all files, the analyzer finds on the graph
of the files one violation for each import from a module in one layer to a scanned module in another layer that the
first does not name, unless the importing module is exempt; in the order of the imports, and nothing else. -/
theorem layerBoundaries_reportsTrespasses (severity : Severity) (packages : List Package) (config : Config)
    (files : List SourceFile) (label : String) :
    Layers.ReportsTrespasses severity packages config files (Graph.build packages config files).1
      (((layerBoundaries severity).analyze
        { graph := (Graph.build packages config files).1, config, configLabel := label }).diagnostics.filter
          (·.code = "AG101")) := by
  classical
  have hfound : ((layerBoundaries severity).analyze
      { graph := (Graph.build packages config files).1, config, configLabel := label }).diagnostics.filter
        (·.code = "AG101") = (Graph.written files).filterMap
          (Layers.importFinding? severity packages config files label) :=
    Layers.filter_find_build severity packages config files label
  rw [hfound]
  refine ⟨forall₂_filter_filterMap ?_ ?_, Graph.resolverOf_eq packages files ▸ Graph.standsFor_edges, ?_⟩
  · intro w hw h
    obtain ⟨target, a, b, h⟩ := of_decide_eq_true h
    obtain ⟨d, hd, hnames⟩ := h.exists_importFinding? hw
    exact ⟨d, hd, target, a, b, h, hnames⟩
  · intro w hw h
    refine Option.eq_none_iff_forall_ne_some.2 fun d hd => of_decide_eq_false h ?_
    exact Layers.trespasses_of_importFinding? hw hd
  · intro hobedient
    rw [filterMap_eq_nil_iff]
    intro w hw
    refine Option.eq_none_iff_forall_ne_some.2 fun d hd => ?_
    obtain ⟨target, a, b, h⟩ := Layers.trespasses_of_importFinding? hw hd
    exact (hobedient w hw target a b h.resolved h.importing h.imported).elim h.different h.forbidden

end Cartograph
