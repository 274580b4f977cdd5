import Cartograph.Analysis.Dependencies
import Cartograph.Proofs.Graph.Edges

/-!
# Packages outside the workspace in a graph

An import that leads out of the workspace resolves to a name and an origin. The graph keeps one node for each name, with
the origin of the first import of that name (`externalsOf_find?`).

The origin of a name that is written by itself is settled by the packages of the workspace and the list of built-in
modules (`Resolver.plainOrigin`); written behind `node:` a name is always built in. Two imports of one name therefore
disagree exactly when one of them has the prefix, the other has not, and the name by itself is not built in. Main
statement: `external_node_iff`, the node that an import leads to, and when it is the one that the import resolves to.
The same condition decides whether an import counts as a use of a declared dependency.
-/

namespace Cartograph

open List

/-! ### What an external resolution says -/

namespace Resolver

variable {r : Resolver} {specifier name importer : String} {origin : Origin}

/-- The prefix of built-in modules. -/
def runtimePrefix : List Char := "node:".toList

/-- Whether a specifier is written with the prefix of built-in modules. -/
def isPrefixed (specifier : String) : Bool := Text.startsWith runtimePrefix specifier.toList

/-- The origin of a package outside that is named without a prefix. -/
def plainOrigin (r : Resolver) (name : String) : Origin :=
  if (r.package? name).isSome then .workspace
  else if Specifier.builtins.contains name then .builtin
  else .registry

/-- The origin that a name gets from the way it is written. -/
def writtenOrigin (r : Resolver) (specifier name : String) : Origin :=
  if isPrefixed specifier then .builtin else r.plainOrigin name

theorem resolvePath_ne_external (r : Resolver) (importer specifier name : String) (origin : Origin) :
    r.resolvePath importer specifier ≠ .external name origin := by
  intro h
  unfold resolvePath at h
  simp only at h
  split at h <;> cases h

theorem origin_of_resolveName (h : r.resolveName specifier = .external name origin) : origin = r.plainOrigin name := by
  unfold resolveName at h
  cases hp : r.package? (Specifier.split specifier).1 with
  | none =>
    simp only [hp] at h
    obtain ⟨rfl, rfl⟩ := h
    simp [plainOrigin, hp]
  | some p =>
    simp only [hp] at h
    split at h
    · cases h
    · obtain ⟨rfl, rfl⟩ := h
      simp [plainOrigin, hp]

/-- The origin of an external resolution depends on the name and on the prefix alone. -/
theorem origin_of_resolve (h : r.resolve importer specifier = .external name origin) :
    origin = r.writtenOrigin specifier name := by
  unfold resolve at h
  split at h
  · cases h
  · split at h
    · exact absurd h (resolvePath_ne_external r importer specifier name origin)
    · cases hd : Text.dropStart? runtimePrefix specifier.toList with
      | some rest =>
        rw [show "node:".toList = runtimePrefix from rfl, hd] at h
        simp only [Resolution.external.injEq] at h
        simp [writtenOrigin, isPrefixed, Text.startsWith, hd, h.2]
      | none =>
        rw [show "node:".toList = runtimePrefix from rfl, hd] at h
        simp only at h
        split at h
        · cases h
        · rw [origin_of_resolveName h]
          simp [writtenOrigin, isPrefixed, Text.startsWith, hd]

/-- Two ways of writing a name give it the same origin if both or neither has the prefix, and
otherwise only if the name by itself is built in. -/
theorem writtenOrigin_eq_iff (r : Resolver) (a b name : String) :
    r.writtenOrigin a name = r.writtenOrigin b name ↔
      (isPrefixed a = isPrefixed b ∨ r.plainOrigin name = .builtin) := by
  unfold writtenOrigin
  cases isPrefixed a <;> cases isPrefixed b <;> simp [eq_comm]

end Resolver

namespace Graph

variable {link : Link} {e : External}

/-! ### One node for each name -/

/-- The package outside that a link refers to. -/
def Link.external? (link : Link) : Option External :=
  match link.resolution with
  | .external name origin => some ⟨name, origin⟩
  | _ => none

theorem Link.external?_eq_some_iff : link.external? = some e ↔ link.resolution = .external e.name e.origin := by
  obtain ⟨name, origin⟩ := e
  unfold Link.external?
  split
  · next h => simp [h]
  · next h => simpa using fun hr => h _ _ hr

theorem find?_addExternal (found : List External) (e : External) (name : String) :
    (addExternal found e).find? (·.name == name) =
      (found.find? (·.name == name)).or (if e.name == name then some e else none) := by
  unfold addExternal
  split
  · next h =>
    -- the new package has the name of an old one, so a search that it could end has ended before
    cases hf : found.find? (·.name == name) with
    | some x => rfl
    | none =>
      obtain ⟨x, hx, hxe⟩ := any_eq_true.1 h
      have hne := find?_eq_none.1 hf x hx
      rw [eq_of_beq hxe] at hne
      simp [hne]
  · by_cases he : (e.name == name) = true <;> simp [he]

theorem find?_foldl_addExternal (es found : List External) (name : String) :
    (es.foldl addExternal found).find? (·.name == name) =
      (found.find? (·.name == name)).or (es.find? (·.name == name)) := by
  induction es generalizing found with
  | nil => simp
  | cons e es ih =>
    rw [foldl_cons, ih, find?_addExternal]
    by_cases he : (e.name == name) = true <;> simp [he]

theorem externalsOf_eq_foldl (links : List Link) :
    externalsOf links = (links.filterMap Link.external?).foldl addExternal [] := by
  unfold externalsOf
  generalize ([] : List External) = found
  induction links generalizing found with
  | nil => rfl
  | cons link links ih =>
    rw [foldl_cons, ih]
    cases hr : link.resolution <;> simp [Link.external?, hr]

/-- The node of a name is that of its first use. -/
theorem externalsOf_find? (links : List Link) (name : String) :
    (externalsOf links).find? (·.name == name) = (links.filterMap Link.external?).find? (·.name == name) := by
  rw [externalsOf_eq_foldl, find?_foldl_addExternal]
  rfl

/-! ### The order of links -/

/-- The links that are met before import `j` of file `i`. -/
def linksBefore (r : Resolver) (files : List SourceFile) (i j : Nat) : List Link :=
  links r (files.take i) ++ ((files[i]?.map fun f => f.imports.map (linkOf r i f)).getD []).take j

/-- Links come in the order of files and then of the text. -/
theorem links_eq_linksBefore (r : Resolver) {files : List SourceFile} {i j : Nat} {f : SourceFile}
    {item : Import} (hf : files[i]? = some f) (hj : f.imports[j]? = some item) :
    ∃ after, links r files = linksBefore r files i j ++ linkOf r i f item :: after := by
  obtain ⟨hi, rfl⟩ := List.getElem?_eq_some_iff.1 hf
  obtain ⟨hlt, rfl⟩ := List.getElem?_eq_some_iff.1 hj
  have hsplit : files = files.take i ++ files[i] :: files.drop (i + 1) := by simp
  have hitems : (files[i].imports.map (linkOf r i files[i])) =
      (files[i].imports.map (linkOf r i files[i])).take j ++
        linkOf r i files[i] files[i].imports[j] :: (files[i].imports.map (linkOf r i files[i])).drop (j + 1) := by
    rw [← getElem_map (linkOf r i files[i]) (h := by simpa using hlt), getElem_cons_drop,
      take_append_drop]
  refine ⟨(files[i].imports.map (linkOf r i files[i])).drop (j + 1) ++
    ((files.drop (i + 1)).zipIdx (i + 1)).flatMap (fun e => e.1.imports.map (linkOf r e.2 e.1)), ?_⟩
  calc links r files
      = (files.take i ++ files[i] :: files.drop (i + 1)).zipIdx.flatMap
          (fun e => e.1.imports.map (linkOf r e.2 e.1)) := by rw [← hsplit]; rfl
    _ = links r (files.take i) ++ (files[i].imports.map (linkOf r i files[i]) ++
          ((files.drop (i + 1)).zipIdx (i + 1)).flatMap (fun e => e.1.imports.map (linkOf r e.2 e.1))) := by
        rw [zipIdx_append, flatMap_append, zipIdx_cons, flatMap_cons, length_take_of_le (Nat.le_of_lt hi)]
        simp only [Nat.zero_add]
        rfl
    _ = _ := by
        unfold linksBefore
        rw [hf, Option.map_some, Option.getD_some, append_assoc, ← cons_append, ← append_assoc (take j _), ← hitems]

/-! ### The node that an import leads to -/

theorem node?_external (packages : List Package) (config : Config) (files : List SourceFile) (i : Nat) :
    (build packages config files).1.node? (files.length + i) =
      ((externalsOf (links (resolverOf packages files) files))[i]?).map .external := by
  unfold node?
  have hnone : (build packages config files).1.modules[files.length + i]? = none := by
    simp [build]
  simp [build, resolverOf]

/-- The first of several links that refers to a package outside by a name. -/
def firstUse? (links : List Link) (name : String) : Option Link :=
  links.find? fun link => link.external?.any (·.name == name)

theorem firstUse?_bind_external? (links : List Link) (name : String) :
    (firstUse? links name).bind Link.external? = (links.filterMap Link.external?).find? (·.name == name) := by
  induction links with
  | nil => rfl
  | cons link links ih =>
    unfold firstUse? at ih ⊢
    rw [find?_cons, filterMap_cons]
    cases he : link.external? with
    | none => exact ih
    | some e =>
      simp only [Option.any_some, find?_cons]
      cases hn : e.name == name with
      | true => exact he
      | false => exact ih

/-- The edge of a link out of the workspace leads to the node of the first use of its name. -/
theorem edgeIn_external (packages : List Package) (files : List SourceFile)
    (hmem : link ∈ links (resolverOf packages files) files) (he : link.external? = some e) :
    ∃ k node, edgeIn packages files link = some
        { source := link.source, target := files.length + k, specifier := link.item.specifier,
          kind := link.item.kind, line := link.item.line, column := link.item.column } ∧
      (externalsOf (links (resolverOf packages files) files))[k]? = some node ∧
      ((links (resolverOf packages files) files).filterMap Link.external?).find? (·.name == e.name) = some node := by
  have hfound : ((externalsOf (links (resolverOf packages files) files)).find?
      (·.name == e.name)).isSome := by
    rw [externalsOf_find?, find?_isSome]
    exact ⟨e, mem_filterMap.2 ⟨link, hmem, he⟩, beq_self_eq_true _⟩
  obtain ⟨node, hnode⟩ := Option.isSome_iff_exists.1 hfound
  have hindex := hnode
  rw [find?_eq_bind_findIdx?_getElem?] at hindex
  obtain ⟨k, hk, hget⟩ := Option.bind_eq_some_iff.1 hindex
  refine ⟨k, node, ?_, hget, by rw [← externalsOf_find?]; exact hnode⟩
  unfold edgeIn edgeOf?
  rw [Link.external?_eq_some_iff.1 he]
  simp [targetOf?, hk]

end Graph

namespace Dependencies

/-- The name that an import of a package outside counts as a use of. -/
def countedName (countTypeOnly : Bool) (own : String) (kind : ImportKind) (e : External) :
    Option String :=
  if kind = .typeOnly && !countTypeOnly then none
  else if e.origin = .builtin then none
  else (some e.name).filter (· != own)

theorem usedName?_of_external {g : Graph} {edge : Edge} {e : External}
    (h : g.node? edge.target = some (.external e)) (countTypeOnly : Bool) (own : String) :
    usedName? g countTypeOnly own edge = countedName countTypeOnly own edge.kind e := by
  unfold usedName? countedName
  rw [h]
  by_cases hb : e.origin = .builtin <;> simp [hb]

end Dependencies

namespace Graph

open Resolver (isPrefixed)

/-- **The node of an import that leads out of the workspace.** Import `j` of file `i` has an edge, in its
place among all edges and with what the import says; the edge leads to a node of the name that the import
resolves to, and what counts as a use is read off that node. The node has the origin that the import
resolves to exactly when the first earlier import of the name, if there is one, is written like this one
as to the prefix `node:`, or the name is built in also without it. -/
theorem external_node_iff (packages : List Package) (config : Config) (files : List SourceFile)
    {i j : Nat} {f : SourceFile} {item : Import} {name : String} {origin : Origin}
    (hf : files[i]? = some f) (hj : f.imports[j]? = some item)
    (hr : (resolverOf packages files).resolve f.path item.specifier = .external name origin) :
    ∃ edge node after,
      (build packages config files).1.edges.toList =
        (linksBefore (resolverOf packages files) files i j).filterMap (edgeIn packages files) ++ edge :: after ∧
      edge = { source := i, target := edge.target, specifier := item.specifier, kind := item.kind,
               line := item.line, column := item.column } ∧
      (build packages config files).1.node? edge.target = some (.external node) ∧
      node.name = name ∧
      (∀ countTypeOnly own, Dependencies.usedName? (build packages config files).1 countTypeOnly own edge =
        Dependencies.countedName countTypeOnly own item.kind node) ∧
      (node.origin = origin ↔
        ∀ first, firstUse? (linksBefore (resolverOf packages files) files i j) name = some first →
          isPrefixed first.item.specifier = isPrefixed item.specifier ∨
            (resolverOf packages files).plainOrigin name = .builtin) := by
  obtain ⟨after, hsplit⟩ := links_eq_linksBefore (resolverOf packages files) hf hj
  have hlink : (linkOf (resolverOf packages files) i f item).external? = some ⟨name, origin⟩ :=
    Link.external?_eq_some_iff.2 hr
  have hmem : linkOf (resolverOf packages files) i f item ∈
      links (resolverOf packages files) files := by
    rw [hsplit]
    simp
  obtain ⟨k, node, hedge, hget, hfirst⟩ := edgeIn_external packages files hmem hlink
  have hnode : (build packages config files).1.node? (files.length + k) = some (.external node) := by
    rw [node?_external, hget]
    rfl
  refine ⟨⟨i, files.length + k, item.specifier, item.kind, item.line, item.column⟩, node,
    after.filterMap (edgeIn packages files), ?_, rfl, hnode, ?_, ?_, ?_⟩
  · rw [build_edges, hsplit, filterMap_append, filterMap_cons, hedge]
    rfl
  · have hname := find?_some hfirst
    exact eq_of_beq hname
  · intro countTypeOnly own
    exact Dependencies.usedName?_of_external hnode countTypeOnly own
  · -- the first use is an earlier one, or this import itself
    rw [hsplit, filterMap_append, find?_append, ← firstUse?_bind_external?] at hfirst
    cases hu : firstUse? (linksBefore (resolverOf packages files) files i j) name with
    | none =>
      rw [hu, filterMap_cons, hlink] at hfirst
      simp only [Option.bind_none, Option.none_or, find?_cons, beq_self_eq_true, Option.some.injEq] at hfirst
      simp [← hfirst]
    | some first =>
      have hany := find?_some hu
      have hprior : first ∈ links (resolverOf packages files) files := by
        rw [hsplit]
        exact mem_append_left _ (mem_of_find?_eq_some hu)
      cases hx : first.external? with
      | none => simp [hx] at hany
      | some e =>
        rw [hu, Option.bind_some, hx] at hfirst
        obtain rfl : e = node := Option.some.inj hfirst
        obtain rfl : e.name = name := by simpa [hx] using hany
        have hresolve : (resolverOf packages files).resolve first.path first.item.specifier =
            .external e.name e.origin := by
          rw [← (mem_links hprior).2.2]
          exact Link.external?_eq_some_iff.1 hx
        rw [Resolver.origin_of_resolve hresolve, Resolver.origin_of_resolve hr, Resolver.writtenOrigin_eq_iff]
        simp

/-- Two modules, the first of which imports a built-in module and the second a package of the same name. -/
def sharedName : List SourceFile := [
  ⟨"a.ts", 0, "1", .parsed { imports := [⟨"node:sqlite", .static, 1, 8⟩] }⟩,
  ⟨"b.ts", 0, "2", .parsed { imports := [⟨"sqlite", .static, 1, 8⟩] }⟩]

/-- Where a built-in module and a package share a name, the import of the package leads to a node of
another origin. -/
theorem external_node_sharedName :
    ∃ edge node, edge ∈ (build [] {} sharedName).1.edges.toList ∧ edge.specifier = "sqlite" ∧
      (build [] {} sharedName).1.node? edge.target = some (.external node) ∧
      node.name = "sqlite" ∧ node.origin ≠ .registry := by
  have hr : (resolverOf [] sharedName).resolve "b.ts" "sqlite" = .external "sqlite" .registry := rfl
  obtain ⟨edge, node, after, hedges, hedge, hnode, hname, -, horigin⟩ :=
    external_node_iff [] {} sharedName (i := 1) (j := 0) rfl rfl hr
  refine ⟨edge, node, by rw [hedges]; simp, by rw [hedge], hnode, hname, fun h => ?_⟩
  have hlike := horigin.1 h _ rfl
  revert hlike
  decide

/-- An import need not lead to a node with the origin that it resolves to. -/
theorem external_node_unfaithful :
    ¬ ∀ (packages : List Package) (config : Config) (files : List SourceFile) (i j : Nat)
        (f : SourceFile) (item : Import) (name : String) (origin : Origin),
      files[i]? = some f → f.imports[j]? = some item →
      (resolverOf packages files).resolve f.path item.specifier = .external name origin →
      ∃ edge, (build packages config files).1.edges.toList[((linksBefore (resolverOf packages files)
          files i j).filterMap (edgeIn packages files)).length]? = some edge ∧
        (build packages config files).1.node? edge.target = some (.external ⟨name, origin⟩) := by
  intro h
  obtain ⟨edge, hedge, hnode⟩ := h [] {} sharedName 1 0 _ _ "sqlite" .registry rfl rfl rfl
  have htarget : edge = ⟨1, 2, "sqlite", .static, 1, 8⟩ := by
    exact (Option.some.inj hedge).symm
  subst htarget
  revert hnode
  decide

end Graph

end Cartograph
