import Mathlib.Data.List.Range
import Cartograph.Proofs.Graph.Externals
import Cartograph.Proofs.Resolution.Rules

/-!
# No import is lost

A graph is built from files in several passes: modules are numbered first, imports are resolved against their paths, the
packages outside get their numbers as they are met, and every import that was resolved is looked up a second time for
the number that its edge leads to. `IsFaithful` says what has to come out of this. Main statement: `build_isFaithful`.

The second look-up is the step at which an import could be dropped silently. It finds what it looks for: a path that a
specifier resolves to is the path of a module (`Resolver.modules_of_resolve`), and a name that leads out of the
workspace is that of a node (`edgeIn_external`). So an import has an edge exactly if it refers to something
(`standsFor_edgeIn`).
-/

namespace Cartograph

open List SourceFile

/-- A path that a specifier resolves to is that of a module. -/
theorem Resolver.modules_of_resolve {r : Resolver} {importer specifier path : String}
    (h : r.resolve importer specifier = .module path) : r.modules path = true := by
  have hrules := r.resolves_resolve importer specifier
  rw [h] at hrules
  cases hrules with
  | path points listed first =>
    obtain ⟨front, back, -, hpath, -⟩ := first
    exact hpath
  | package names owner targeted lists first =>
    obtain ⟨front, back, -, hpath, -⟩ := first
    exact hpath

/-- Whether a file could not be read. -/
def SourceFile.isFailed (f : SourceFile) : Bool :=
  match f.outcome with
  | .parsed _ => false
  | .failed _ => true

namespace Graph

/-! ### What a graph is to be -/

/-- An import as it is written: the number of the file, the file, and the import. -/
structure Written where
  source : Nat
  file : SourceFile
  item : Import

/-- All imports, in the order of files and then of the text. -/
def written (files : List SourceFile) : List Written :=
  files.zipIdx.flatMap fun (f, i) => f.imports.map fun item => ⟨i, f, item⟩

/-- The resolver over the paths of files. -/
def resolverFor (packages : List Package) (files : List SourceFile) : Resolver :=
  { modules := fun path => (files.map (·.path)).contains path, packages }

/-- What an import refers to. -/
def Written.answer (r : Resolver) (w : Written) : Resolution := r.resolve w.file.path w.item.specifier

/-- An edge that stands for an import. -/
structure StandsFor (g : Graph) (r : Resolver) (w : Written) (e : Edge) : Prop where
  source : e.source = w.source
  specifier : e.specifier = w.item.specifier
  kind : e.kind = w.item.kind
  line : e.line = w.item.line
  column : e.column = w.item.column
  module : ∀ path, w.answer r = .module path → ∃ m, g.node? e.target = some (.module m) ∧ m.path = path
  external : ∀ name origin, w.answer r = .external name origin →
    ∃ x, g.node? e.target = some (.external x) ∧ x.name = name

/-- A finding on an import that refers to nothing. -/
def ReportsImport (w : Written) (d : Diagnostic) : Prop :=
  d.location = { file := w.file.path, line := w.item.line, column := w.item.column } ∧
    d.message = "cannot resolve `" ++ w.item.specifier ++ "`"

/-- A finding on a file that could not be read. -/
def ReportsFile (f : SourceFile) (d : Diagnostic) : Prop :=
  ∃ failure, f.outcome = .failed failure ∧ d.location = { file := f.path, line := failure.line } ∧
    d.message = "cannot parse `" ++ f.path ++ "`: " ++ failure.message

/-- What the graph of files and the findings on them are to be. -/
structure IsFaithful (packages : List Package) (files : List SourceFile) (g : Graph) (found : List Diagnostic) :
    Prop where
  /-- The first nodes are the files, in their order. -/
  modules : ∀ i f, files[i]? = some f → ∃ m, g.node? i = some (.module m) ∧ m.path = f.path ∧
    m.package = f.package ∧ m.contentHash = f.contentHash
  /-- All nodes behind them are packages outside. -/
  externals : ∀ i, files.length ≤ i → i < g.size → ∃ x, g.node? i = some (.external x)
  size : files.length ≤ g.size ∧ ∀ i, g.size ≤ i → g.node? i = none
  names : ∀ i j x y, g.node? i = some (.external x) → g.node? j = some (.external y) → x.name = y.name → i = j
  /-- Edges start at files that could be read, not at others and not at packages outside. -/
  silent : ∀ i, (∀ f, files[i]? = some f → f.isFailed = true) → g.outgoing i = []
  /-- The edges are the imports that refer to something. -/
  edges : Forall₂ (StandsFor g (resolverFor packages files))
    ((written files).filter fun w => w.answer (resolverFor packages files) ≠ .unresolved) g.edges.toList
  /-- Each of the others is reported once. -/
  unresolved : Forall₂ ReportsImport
    ((written files).filter fun w => w.answer (resolverFor packages files) = .unresolved)
    (found.filter (·.code = "AG203"))
  failed : Forall₂ ReportsFile (files.filter isFailed) (found.filter (·.code = "AG301"))
  codes : ∀ d ∈ found, d.code = "AG203" ∨ d.code = "AG301"
  total : g.edges.size + found.countP (·.code = "AG203") = (written files).length
  /-- The number of a path is that of the module with this path. -/
  paths : ∀ path i, g.indexOf? path = some i ↔ ∃ m, g.module? i = some m ∧ m.path = path
  /-- Each package has its own modules, in their order. -/
  owned : g.packages = packages ∧ ∀ k i, i ∈ g.modulesOf k ↔ ∃ m, g.module? i = some m ∧ m.package = k
  ascending : ∀ k, (g.modulesOf k).Pairwise (· < ·)
  partition : (∀ f ∈ files, f.package < packages.length) →
    ((range packages.length).flatMap g.modulesOf).Perm (range files.length)

/-! ### Modules by path and by package -/

section Graphs

variable {g : Graph} {i k n : Nat} {path : String}

theorem mem_modulesOf : i ∈ g.modulesOf k ↔ ∃ m, g.module? i = some m ∧ m.package = k := by
  unfold modulesOf module?
  simp only [mem_map, mem_filter, Prod.exists, mem_zipIdx_iff_getElem?, Array.getElem?_toList, beq_iff_eq]
  constructor
  · rintro ⟨m, j, ⟨hm, hk⟩, rfl⟩
    exact ⟨m, hm, hk⟩
  · rintro ⟨m, hm, hk⟩
    exact ⟨m, i, ⟨hm, hk⟩, rfl⟩

theorem pairwise_modulesOf (g : Graph) (k : Nat) : (g.modulesOf k).Pairwise (· < ·) := by
  have hall : (g.modules.toList.zipIdx.map (·.2)).Pairwise (· < ·) := by
    rw [zipIdx_map_snd]
    exact pairwise_lt_range'
  exact hall.sublist (filter_sublist.map _)

/-- A module's number is found by its path, if no other module has it. -/
theorem indexOf?_eq_some_iff (h : (g.modules.toList.map (·.path)).Nodup) :
    g.indexOf? path = some i ↔ ∃ m, g.module? i = some m ∧ m.path = path := by
  have hmem (m : ModuleNode) (j : Nat) : (m, j) ∈ g.modules.toList.zipIdx.reverse ↔ g.module? j = some m := by
    rw [mem_reverse, mem_zipIdx_iff_getElem?, Array.getElem?_toList]
    rfl
  have hfound {j : Nat} (hj : g.indexOf? path = some j) : ∃ m, g.module? j = some m ∧ m.path = path := by
    obtain ⟨⟨m, j'⟩, hm, rfl⟩ := Option.map_eq_some_iff.1 hj
    have hpath := find?_some hm
    exact ⟨m, (hmem m j').1 (mem_of_find?_eq_some hm), eq_of_beq hpath⟩
  constructor
  · exact hfound
  · rintro ⟨m, hm, hpath⟩
    have hsome : (g.indexOf? path).isSome = true := by
      rw [indexOf?, Option.isSome_map, find?_isSome]
      exact ⟨(m, i), (hmem m i).2 hm, by simpa using hpath⟩
    obtain ⟨j, hj⟩ := Option.isSome_iff_exists.1 hsome
    obtain ⟨m', hm', hpath'⟩ := hfound hj
    -- the number that was found and the one at hand belong to modules of one path
    have hi : (g.modules.toList.map (·.path))[i]? = some path := by
      rw [getElem?_map, Array.getElem?_toList, show g.modules[i]? = some m from hm, Option.map_some, hpath]
    have hj' : (g.modules.toList.map (·.path))[j]? = some path := by
      rw [getElem?_map, Array.getElem?_toList, show g.modules[j]? = some m' from hm', Option.map_some, hpath']
    have hlt := (List.getElem?_eq_some_iff.1 hj').1
    rw [hj, (getElem?_inj hlt h).1 (hj'.trans hi.symm)]

/-- Every module is in the list of one package, and in no other. -/
theorem perm_modulesOf (h : ∀ m ∈ g.modules.toList, m.package < n) :
    ((range n).flatMap g.modulesOf).Perm (range g.modules.size) := by
  have hnodup : ((range n).flatMap g.modulesOf).Nodup := by
    rw [nodup_flatMap]
    refine ⟨fun k _ => (pairwise_modulesOf g k).imp Nat.ne_of_lt, nodup_range.imp ?_⟩
    -- a module of two packages would have two owners
    intro k l hkl i hk hl
    obtain ⟨m, hm, rfl⟩ := mem_modulesOf.1 hk
    obtain ⟨m', hm', rfl⟩ := mem_modulesOf.1 hl
    exact hkl (by rw [Option.some.inj (hm.symm.trans hm')])
  rw [perm_ext_iff_of_nodup hnodup nodup_range]
  intro i
  rw [mem_flatMap, mem_range]
  constructor
  · rintro ⟨k, -, hi⟩
    obtain ⟨m, hm, -⟩ := mem_modulesOf.1 hi
    exact (Array.getElem?_eq_some_iff.1 hm).1
  · intro hi
    have hm : g.module? i = some g.modules[i] := Array.getElem?_eq_getElem hi
    exact ⟨_, mem_range.2 (h _ (by simp)), mem_modulesOf.2 ⟨_, hm, rfl⟩⟩

end Graphs

/-! ### The nodes of files -/

section Files

variable {packages : List Package} {config : Config} {files : List SourceFile} {i j : Nat} {d : Diagnostic}
  {f : SourceFile} {x y : External} {w : Written}

theorem node?_module (h : files[i]? = some f) :
    (build packages config files).1.node? i = some (.module (moduleOf config.layers f)) := by
  have hget : (build packages config files).1.modules[i]? = some (moduleOf config.layers f) := by
    simp [build, h]
  rw [node?, hget]

/-- The index of paths knows the paths of files. -/
theorem contains_foldl_insert (path : String) (entries : List (SourceFile × Nat)) (index : Std.HashMap String Nat) :
    (entries.foldl (fun index (f, i) => index.insert f.path i) index).contains path =
      (index.contains path || entries.any (·.1.path == path)) := by
  induction entries generalizing index with
  | nil => simp
  | cons entry entries ih =>
    rw [foldl_cons, ih, Std.HashMap.contains_insert, any_cons]
    cases entry.1.path == path <;> simp

theorem resolverOf_eq (packages : List Package) (files : List SourceFile) :
    resolverOf packages files = resolverFor packages files := by
  unfold resolverOf resolverFor
  congr 1
  funext path
  rw [pathIndex, contains_foldl_insert]
  simp only [Std.HashMap.contains_empty, Bool.false_or]
  rw [Bool.eq_iff_iff, any_eq_true, contains_iff_mem, mem_map]
  constructor
  · rintro ⟨⟨f, i⟩, hf, hpath⟩
    exact ⟨f, mem_of_getElem? (mem_zipIdx_iff_getElem?.1 hf), eq_of_beq hpath⟩
  · rintro ⟨f, hf, hpath⟩
    obtain ⟨i, hi⟩ := mem_iff_getElem?.1 hf
    exact ⟨(f, i), mem_zipIdx_iff_getElem?.2 hi, by simpa using hpath⟩

/-! ### The nodes of packages outside -/

theorem nodup_addExternal {found : List External} (h : (found.map (·.name)).Nodup) (e : External) :
    ((addExternal found e).map (·.name)).Nodup := by
  unfold addExternal
  split
  · exact h
  · next hnew =>
    rw [map_append, nodup_append]
    refine ⟨h, nodup_singleton _, ?_⟩
    intro a ha b hb hab
    obtain ⟨x, hx, rfl⟩ := mem_map.1 ha
    obtain rfl := mem_singleton.1 hb
    exact hnew (any_eq_true.2 ⟨x, hx, by simpa using hab⟩)

theorem nodup_externalsOf (links : List Link) : ((externalsOf links).map (·.name)).Nodup := by
  rw [externalsOf_eq_foldl]
  have hnil : (([] : List External).map (·.name)).Nodup := nodup_nil
  exact foldlRecOn _ addExternal (motive := fun found => (found.map (·.name)).Nodup) hnil
    fun found h e _ => nodup_addExternal h e

/-- Behind the modules stand the packages outside. -/
theorem exists_of_node?_external (h : (build packages config files).1.node? i = some (.external x)) :
    ∃ k, i = files.length + k ∧ (externalsOf (links (resolverOf packages files) files))[k]? = some x := by
  cases hf : files[i]? with
  | some f =>
    rw [node?_module hf] at h
    cases h
  | none =>
    obtain ⟨k, rfl⟩ := Nat.exists_eq_add_of_le (getElem?_eq_none_iff.1 hf)
    rw [node?_external, Option.map_eq_some_iff] at h
    obtain ⟨y, hy, hyx⟩ := h
    cases hyx
    exact ⟨k, rfl, hy⟩

/-! ### The edges of imports -/

/-- The link of an import. -/
def Written.link (r : Resolver) (w : Written) : Link := linkOf r w.source w.file w.item

theorem links_eq_map (r : Resolver) (files : List SourceFile) : links r files = (written files).map (Written.link r) := by
  unfold links written
  rw [map_flatMap]
  congr 1
  funext entry
  rw [map_map]
  rfl

theorem edgeIn_unresolved (h : w.answer (resolverOf packages files) = .unresolved) :
    edgeIn packages files (w.link (resolverOf packages files)) = none := by
  have hlink : (w.link (resolverOf packages files)).resolution = .unresolved := h
  rw [edgeIn, edgeOf?, hlink]
  rfl

/-- An import that refers to something has an edge, which stands for it. -/
theorem standsFor_edgeIn (config : Config) (hw : w ∈ written files)
    (h : w.answer (resolverOf packages files) ≠ .unresolved) :
    ∃ e, edgeIn packages files (w.link (resolverOf packages files)) = some e ∧
      StandsFor (build packages config files).1 (resolverOf packages files) w e := by
  have hmem : w.link (resolverOf packages files) ∈ links (resolverOf packages files) files := by
    rw [links_eq_map]
    exact mem_map_of_mem hw
  cases hr : w.answer (resolverOf packages files) with
  | unresolved => exact absurd hr h
  | module path =>
    -- the path is that of a module, so looking it up again finds a number
    have hpath : (pathIndex files).contains path = true := Resolver.modules_of_resolve hr
    rw [Std.HashMap.contains_eq_isSome_getElem?] at hpath
    obtain ⟨i, hi⟩ := Option.isSome_iff_exists.1 hpath
    obtain ⟨f, hf, rfl⟩ := pathIndex_getElem? hi
    have hlink : (w.link (resolverOf packages files)).resolution = .module f.path := hr
    refine ⟨⟨w.source, i, w.item.specifier, w.item.kind, w.item.line, w.item.column⟩, ?_,
      rfl, rfl, rfl, rfl, rfl, ?_, ?_⟩
    · rw [edgeIn, edgeOf?, hlink, targetOf?, hi]
      rfl
    · intro p hp
      cases hr.symm.trans hp
      exact ⟨_, node?_module hf, rfl⟩
    · intro name origin hx
      cases hr.symm.trans hx
  | external name origin =>
    have hx : (w.link (resolverOf packages files)).external? = some ⟨name, origin⟩ := Link.external?_eq_some_iff.2 hr
    -- the node is that of the first import of the name, so it has the name but perhaps another origin
    obtain ⟨k, node, hedge, hget, hfirst⟩ := edgeIn_external packages files hmem hx
    refine ⟨_, hedge, rfl, rfl, rfl, rfl, rfl, ?_, ?_⟩
    · intro p hp
      cases hr.symm.trans hp
    · intro name' origin' hx'
      cases hr.symm.trans hx'
      have hname := find?_some hfirst
      exact ⟨node, by rw [node?_external, hget]; rfl, eq_of_beq hname⟩

/-- Where no file that was read stands, no edge starts. -/
theorem outgoing_eq_nil (h : ∀ f, files[i]? = some f → f.isFailed = true) :
    (build packages config files).1.outgoing i = [] := by
  rw [outgoing, filter_eq_nil_iff]
  intro e he hi
  obtain ⟨link, hlink, hedge⟩ := mem_filterMap.1 he
  obtain ⟨target, -, rfl⟩ := Option.map_eq_some_iff.1 hedge
  obtain ⟨⟨f, hf, -, hitem⟩, -, -⟩ := mem_links hlink
  obtain rfl : link.source = i := eq_of_beq hi
  have hfailed := h f hf
  unfold isFailed at hfailed
  unfold imports at hitem
  cases ho : f.outcome with
  | parsed m => simp [ho] at hfailed
  | failed failure => simp [ho] at hitem

/-! ### The findings -/

/-- The findings on imports. -/
def importFindings (packages : List Package) (config : Config) (files : List SourceFile) : List Diagnostic :=
  (links (resolverOf packages files) files).filterMap (unresolvedDiagnostic? config.dependencies.unresolvedSeverity)

theorem build_findings (packages : List Package) (config : Config) (files : List SourceFile) :
    (build packages config files).2 = files.filterMap diagnostic? ++ importFindings packages config files :=
  rfl

theorem code_of_diagnostic? (h : f.diagnostic? = some d) : d.code = "AG301" := by
  unfold diagnostic? at h
  split at h <;> cases h
  rfl

theorem code_of_unresolvedDiagnostic? {severity : Severity} {link : Link}
    (h : unresolvedDiagnostic? severity link = some d) : d.code = "AG203" := by
  unfold unresolvedDiagnostic? at h
  split at h <;> cases h
  rfl

theorem code_of_mem_files (h : d ∈ files.filterMap diagnostic?) : d.code = "AG301" := by
  obtain ⟨f, -, hd⟩ := mem_filterMap.1 h
  exact code_of_diagnostic? hd

theorem code_of_mem_importFindings (h : d ∈ importFindings packages config files) : d.code = "AG203" := by
  obtain ⟨link, -, hd⟩ := mem_filterMap.1 h
  exact code_of_unresolvedDiagnostic? hd

theorem code_of_mem_build (h : d ∈ (build packages config files).2) : d.code = "AG203" ∨ d.code = "AG301" := by
  rw [build_findings, mem_append] at h
  exact h.elim (fun hf => .inr (code_of_mem_files hf)) fun hi => .inl (code_of_mem_importFindings hi)

theorem filter_imports : (build packages config files).2.filter (·.code = "AG203") =
    importFindings packages config files := by
  rw [build_findings, filter_append, filter_eq_nil_iff.2, filter_eq_self.2, nil_append]
  · intro d hd
    simp [code_of_mem_importFindings hd]
  · intro d hd
    simp [code_of_mem_files hd]

theorem filter_failures : (build packages config files).2.filter (·.code = "AG301") =
    files.filterMap diagnostic? := by
  rw [build_findings, filter_append, filter_eq_self.2, filter_eq_nil_iff.2, append_nil]
  · intro d hd
    simp [code_of_mem_importFindings hd]
  · intro d hd
    simp [code_of_mem_files hd]

/-- Every import that refers to nothing has its finding. -/
theorem reportsImport_importFindings : Forall₂ ReportsImport
    ((written files).filter fun w => w.answer (resolverOf packages files) = .unresolved)
    (importFindings packages config files) := by
  rw [importFindings, links_eq_map, filterMap_map]
  refine forall₂_filter_filterMap ?_ ?_
  · intro w _ hw
    have hlink : (w.link (resolverOf packages files)).resolution = .unresolved := of_decide_eq_true hw
    rw [Function.comp_apply, unresolvedDiagnostic?, hlink]
    exact ⟨_, rfl, rfl, rfl⟩
  · intro w _ hw
    have hlink : (w.link (resolverOf packages files)).resolution ≠ .unresolved := of_decide_eq_false hw
    rw [Function.comp_apply, unresolvedDiagnostic?]
    split
    · next h => exact absurd h hlink
    · rfl

/-- Every file that could not be read has its finding. -/
theorem reportsFile_diagnostic? : Forall₂ ReportsFile (files.filter isFailed)
    (files.filterMap diagnostic?) := by
  refine forall₂_filter_filterMap ?_ ?_
  all_goals
    intro f _ hf
    unfold isFailed at hf
    unfold diagnostic?
    cases ho : f.outcome
  case parsed => simp [ho] at hf
  case failed failure => exact ⟨_, rfl, failure, ho, rfl, rfl⟩
  case parsed => rfl
  case failed => simp [ho] at hf

/-- The edges are, one to one and in order, the imports that refer to something. -/
theorem standsFor_edges : Forall₂ (StandsFor (build packages config files).1 (resolverOf packages files))
    ((written files).filter fun w => w.answer (resolverOf packages files) ≠ .unresolved)
    (build packages config files).1.edges.toList := by
  rw [build_edges, links_eq_map, filterMap_map]
  refine forall₂_filter_filterMap ?_ ?_
  · intro w hw h
    exact standsFor_edgeIn config hw (of_decide_eq_true h)
  · intro w _ h
    exact edgeIn_unresolved (by simpa using h)

/-! ### All together -/

/-- Beyond the modules there is a package outside at every number of the graph. -/
theorem exists_external (hi : files.length ≤ i) (hlt : i < (build packages config files).1.size) :
    ∃ x, (build packages config files).1.node? i = some (.external x) := by
  obtain ⟨k, rfl⟩ := Nat.exists_eq_add_of_le hi
  have hk : k < (externalsOf (links (resolverOf packages files) files)).length := by
    rw [size_build] at hlt
    omega
  rw [node?_external, getElem?_eq_getElem hk]
  exact ⟨_, rfl⟩

theorem node?_of_size_le (hi : (build packages config files).1.size ≤ i) :
    (build packages config files).1.node? i = none := by
  rw [size_build] at hi
  obtain ⟨k, rfl⟩ := Nat.exists_eq_add_of_le (Nat.le_of_add_right_le hi)
  rw [node?_external, getElem?_eq_none (by omega)]
  rfl

/-- No two nodes behind the modules have one name. -/
theorem external_name_inj (hx : (build packages config files).1.node? i = some (.external x))
    (hy : (build packages config files).1.node? j = some (.external y)) (hname : x.name = y.name) : i = j := by
  obtain ⟨k, rfl, hk⟩ := exists_of_node?_external hx
  obtain ⟨l, rfl, hl⟩ := exists_of_node?_external hy
  have hnames : ((externalsOf (links (resolverOf packages files) files)).map (·.name))[k]? =
      ((externalsOf (links (resolverOf packages files) files)).map (·.name))[l]? := by
    rw [getElem?_map, getElem?_map, hk, hl, Option.map_some, Option.map_some, hname]
  have hlt : k < ((externalsOf (links (resolverOf packages files) files)).map (·.name)).length := by
    rw [length_map]
    exact (List.getElem?_eq_some_iff.1 hk).1
  rw [(getElem?_inj hlt (nodup_externalsOf _)).1 hnames]

/-- Every import is an edge or a finding. -/
theorem edges_add_findings : (build packages config files).1.edges.size +
    (build packages config files).2.countP (·.code = "AG203") = (written files).length := by
  -- edges and findings are as many as the imports that they stand for, and an import is of one of the two kinds
  have hedges := (@standsFor_edges packages config files).length_eq
  have hfindings := (@reportsImport_importFindings packages config files).length_eq
  rw [countP_eq_length_filter, filter_imports, ← hfindings, ← Array.length_toList, ← hedges,
    ← countP_eq_length_filter, ← countP_eq_length_filter, Nat.add_comm,
    length_eq_countP_add_countP fun w => w.answer (resolverOf packages files) = .unresolved]
  simp

end Files

/-- **No import is lost and none is counted twice.** Of files with different paths, the graph has the files as its first
nodes and every name outside as one node behind them, its edges are in order the imports that refer to something, and
each other import and each file that could not be read is reported once. -/
theorem build_isFaithful (packages : List Package) (config : Config) (files : List SourceFile)
    (h : (files.map (·.path)).Nodup) :
    IsFaithful packages files (build packages config files).1 (build packages config files).2 := by
  have hmodules : (build packages config files).1.modules.toList = files.map (moduleOf config.layers) := rfl
  have hresolver := resolverOf_eq packages files
  exact
    { modules := fun i f hf => ⟨_, node?_module hf, rfl, rfl, rfl⟩
      externals := fun i => exists_external
      size := ⟨by rw [size_build]; exact Nat.le_add_right _ _, fun i => node?_of_size_le⟩
      names := fun i j x y => external_name_inj
      silent := fun i => outgoing_eq_nil
      edges := hresolver ▸ standsFor_edges
      unresolved := by
        rw [filter_imports, ← hresolver]
        exact reportsImport_importFindings
      failed := by
        rw [filter_failures]
        exact reportsFile_diagnostic?
      codes := fun d => code_of_mem_build
      total := edges_add_findings
      paths := by
        intro path i
        apply indexOf?_eq_some_iff
        rw [hmodules, map_map]
        exact h
      owned := ⟨rfl, fun k i => mem_modulesOf⟩
      ascending := fun k => pairwise_modulesOf _ k
      partition := by
        intro howned
        have hsize : (build packages config files).1.modules.size = files.length := by simp [build]
        rw [← hsize]
        apply perm_modulesOf
        intro m hm
        obtain ⟨f, hf, rfl⟩ := mem_map.1 hm
        exact howned f hf }

/-- Three modules: the first imports a later one, a package outside and a path where nothing is, the second
cannot be read, and the last imports the first and the package outside again. -/
def mixedImports : List SourceFile := [
  ⟨"a.ts", 0, "1", .parsed { imports := [⟨"./c", .static, 1, 8⟩, ⟨"zod", .static, 2, 8⟩, ⟨"./gone", .static, 3, 8⟩] }⟩,
  ⟨"b.ts", 0, "2", .failed .encoding⟩,
  ⟨"c.ts", 0, "3", .parsed { imports := [⟨"./a.js", .typeOnly, 1, 8⟩, ⟨"zod/v4", .dynamic, 4, 2⟩] }⟩]

/-- The package of these modules. -/
def mixedPackages : List Package := [{ name := "app", root := "" }]

theorem build_isFaithful_mixedImports :
    (mixedImports.map (·.path)).Nodup ∧ (∀ f ∈ mixedImports, f.package < mixedPackages.length) ∧
      IsFaithful mixedPackages mixedImports (build mixedPackages {} mixedImports).1
        (build mixedPackages {} mixedImports).2 ∧
      (build mixedPackages {} mixedImports).1.edges.size = 4 := by
  have hfaithful := build_isFaithful mixedPackages {} mixedImports (by decide)
  refine ⟨by decide, by decide, hfaithful, ?_⟩
  rw [← Array.length_toList, ← hfaithful.edges.length_eq]
  decide

end Graph

end Cartograph
