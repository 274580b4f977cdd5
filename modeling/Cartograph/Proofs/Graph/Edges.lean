import Cartograph.Graph.Build
import Cartograph.Proofs.Lists

/-!
# Links and edges

Every edge of a graph that was built is the edge of a link, and every link is an import of one of the files
(`mem_links`). So an edge starts at a module and ends at a node of the graph: the numbers that links are
resolved to come from the index of paths (`pathIndex_getElem?`) or from the list of packages outside.
-/

namespace Cartograph.Graph

open List

/-- The resolver that a graph is built with. -/
def resolverOf (packages : List Package) (files : List SourceFile) : Resolver :=
  { modules := (pathIndex files).contains, packages }

/-- The edge that a link gives in the graph of files. -/
def edgeIn (packages : List Package) (files : List SourceFile) : Link → Option Edge :=
  edgeOf? ((pathIndex files)[·]?) files.length (externalsOf (links (resolverOf packages files) files))

/-- The link of an import of the file with a number. -/
def linkOf (r : Resolver) (i : Nat) (f : SourceFile) (item : Import) : Link :=
  { source := i, path := f.path, item, resolution := r.resolve f.path item.specifier }

theorem build_edges (packages : List Package) (config : Config) (files : List SourceFile) :
    (build packages config files).1.edges.toList =
      (links (resolverOf packages files) files).filterMap (edgeIn packages files) := rfl

variable {files : List SourceFile} {packages : List Package} {i : Nat} {path : String} {config : Config}

/-- A link is an import of a file, with what the specifier stands for in that file. -/
theorem mem_links {r : Resolver} {link : Link} (h : link ∈ links r files) :
    (∃ f, files[link.source]? = some f ∧ link.path = f.path ∧ link.item ∈ f.imports) ∧
      link.source < files.length ∧ link.resolution = r.resolve link.path link.item.specifier := by
  unfold links at h
  simp only [mem_flatMap, mem_map] at h
  obtain ⟨⟨f, i⟩, hf, item, hitem, rfl⟩ := h
  have hget : files[i]? = some f := by simpa using List.mem_zipIdx_iff_getElem?.1 hf
  exact ⟨⟨f, hget, rfl, hitem⟩, (List.getElem?_eq_some_iff.1 hget).1, rfl⟩

/-! ### The index of paths -/

theorem getElem?_foldl_insert : ∀ (entries : List (SourceFile × Nat)) (index : Std.HashMap String Nat),
      (entries.foldl (fun index (f, i) => index.insert f.path i) index)[path]? = some i →
      index[path]? = some i ∨ ∃ f, (f, i) ∈ entries ∧ f.path = path := by
  intro entries
  induction entries with
  | nil => exact fun index h => .inl h
  | cons entry entries ih =>
    intro index h
    rw [foldl_cons] at h
    obtain h | ⟨f, hf, hpath⟩ := ih _ h
    · rw [Std.HashMap.getElem?_insert] at h
      split at h
      next hkey =>
        exact .inr ⟨entry.1, by rw [← Option.some.inj h]; exact mem_cons_self, eq_of_beq hkey⟩
      next => exact .inl h
    · exact .inr ⟨f, mem_cons_of_mem _ hf, hpath⟩

/-- The number of a path is that of a file with this path. -/
theorem pathIndex_getElem? (h : (pathIndex files)[path]? = some i) : ∃ f, files[i]? = some f ∧ f.path = path := by
  obtain h | ⟨f, hf, hpath⟩ := getElem?_foldl_insert files.zipIdx {} h
  · simp at h
  · exact ⟨f, by simpa using List.mem_zipIdx_iff_getElem?.1 hf, hpath⟩

/-! ### Where edges lead -/

theorem size_build (packages : List Package) (config : Config) (files : List SourceFile) :
    (build packages config files).1.size =
      files.length + (externalsOf (links (resolverOf packages files) files)).length := by
  simp [size, build, resolverOf]

/-- An edge starts at a module and ends at a node of the graph. -/
theorem lt_size_of_mem_edges {e : Edge} (he : e ∈ (build packages config files).1.edges.toList) :
    e.source < files.length ∧ e.target < (build packages config files).1.size := by
  rw [build_edges] at he
  obtain ⟨link, hlink, he⟩ := mem_filterMap.1 he
  obtain ⟨target, htarget, rfl⟩ := Option.map_eq_some_iff.1 he
  refine ⟨(mem_links hlink).2.1, ?_⟩
  rw [size_build]
  change target < _
  cases hr : link.resolution with
  | module path =>
    rw [hr] at htarget
    obtain ⟨f, hf, -⟩ := pathIndex_getElem? htarget
    have := (List.getElem?_eq_some_iff.1 hf).1
    omega
  | external name origin =>
    rw [hr] at htarget
    obtain ⟨k, hk, rfl⟩ := Option.map_eq_some_iff.1 htarget
    have := (findIdx?_eq_some_iff_getElem.1 hk).1
    omega
  | unresolved =>
    rw [hr] at htarget
    cases htarget

theorem isSome_module? (hi : i < files.length) : ((build packages config files).1.module? i).isSome = true := by
  simp [module?, build, hi]

end Cartograph.Graph
