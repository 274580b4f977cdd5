import Mathlib.Data.List.Lex
import Cartograph.Workspace.Scan
import Cartograph.Proofs.FileSystem.Spelled

/-!
# What a scan picks

Every path that a walk gives is that of a file below the root (`Workspace.holds_of_walk`), no path is given twice
(`Workspace.nodup_walkFrom`), and they are sorted (`Workspace.pairwise_walk`). A source file is one of them, has a known
extension and belongs to one of the packages (`Scan.mem_files`), which has the longest root of those that hold the file
(`Scan.of_owner?`); a package was read from one of them too, and its directory has no character that a name cannot have
(`Scan.mem_packages`).
-/

namespace Cartograph

open Cartograph.Path List
open FileSystem (Place IsName spell)

/-! ### Walks -/

namespace Workspace

variable {fs : FileSystem} {root : Place} {respect : Bool} {own : Option String} {path : String} {paths : List String}

theorem mem_placesBelow {e : Place × FileSystem.Node} :
    e ∈ fs.placesBelow root ↔ e.1 ≠ [] ∧ (root ++ e.1, e.2) ∈ fs.nodes := by
  rw [FileSystem.placesBelow, mem_filterMap]
  constructor
  · rintro ⟨⟨place, node⟩, hmem, hentry⟩
    split at hentry
    · next hbelow =>
      cases hentry
      obtain ⟨rest, rfl⟩ := isPrefixOf_iff_prefix.1 hbelow.1
      rw [drop_left]
      refine ⟨?_, hmem⟩
      rintro rfl
      exact hbelow.2 (append_nil root)
    · cases hentry
  · rintro ⟨hne, hmem⟩
    refine ⟨_, hmem, ?_⟩
    rw [if_pos ⟨List.isPrefixOf_iff_prefix.2 (prefix_append root e.1), by simpa using hne⟩, drop_left]

theorem pairwise_placesBelow (honce : (fs.nodes.map (·.1)).Nodup) :
    (fs.placesBelow root).Pairwise fun a b => a.1 ≠ b.1 := by
  refine List.Pairwise.filterMap _ ?_ (pairwise_map.1 honce)
  intro a b hne c hc d hd
  split at hc
  · next ha =>
    cases hc
    split at hd
    · next hb =>
      cases hd
      obtain ⟨⟨rest, hrest⟩, -⟩ := And.imp_left isPrefixOf_iff_prefix.1 ha
      obtain ⟨⟨rest', hrest'⟩, -⟩ := And.imp_left isPrefixOf_iff_prefix.1 hb
      rw [← hrest, ← hrest'] at hne ⊢
      simpa using hne
    · cases hd
  · cases hc

/-- A path is that of a file below a directory. -/
def Holds (fs : FileSystem) (root : Place) (path : String) : Prop :=
  ∃ names content, names ≠ [] ∧ (∀ name ∈ names, IsName name) ∧ path = ofSegments names ∧
    fs.node? (root ++ names) = some (.file content)

/-- **What a walk gives**: the files below the root that it comes to. -/
theorem mem_walkFrom (hfs : fs.IsProper) :
    path ∈ walkFrom fs root respect own ↔ ∃ names content, names ≠ [] ∧
      fs.node? (root ++ names) = some (.file content) ∧
      isReached (if respect then rulings fs root own else []) names = true ∧ path = ofSegments names := by
  unfold walkFrom
  generalize (if respect then rulings fs root own else []) = rules
  rw [mem_mergeSort, mem_filterMap]
  constructor
  · rintro ⟨⟨names, node⟩, hbelow, hpath⟩
    obtain ⟨hne, hmem⟩ := mem_placesBelow.1 hbelow
    dsimp only at hpath
    split at hpath
    · next content =>
      split at hpath
      · next hreached =>
        cases hpath
        exact ⟨names, content, hne, hfs.once _ hmem, hreached, rfl⟩
      · cases hpath
    · cases hpath
  · rintro ⟨names, content, hne, hnode, hreached, rfl⟩
    have hmem := FileSystem.mem_nodes_of_node? hnode (by simp [hne])
    exact ⟨(names, .file content), mem_placesBelow.2 ⟨hne, hmem⟩, if_pos hreached⟩

theorem holds_of_walkFrom (hfs : fs.IsProper) (h : path ∈ walkFrom fs root respect own) : Holds fs root path := by
  obtain ⟨names, content, hne, hnode, -, rfl⟩ := (mem_walkFrom hfs).1 h
  exact ⟨names, content, hne, fun name hname => hfs.isName_of_node? hnode name (mem_append_right root hname), rfl,
    hnode⟩

/-- **A walk gives files below the root.** -/
theorem holds_of_walk (hfs : fs.IsProper) (hroot : fs.node? root = some .dir)
    (h : walk fs (spell root) respect own = .ok paths) (hpath : path ∈ paths) : Holds fs root path := by
  unfold walk at h
  obtain hresolve | ⟨cause, hresolve⟩ := hfs.resolve_spell_cases hroot
  · rw [hresolve] at h
    cases h
    exact holds_of_walkFrom hfs hpath
  · rw [hresolve] at h
    cases h

/-- **A walk gives each file once**, if each place stands once in the file system. -/
theorem nodup_walkFrom (hfs : fs.IsProper) (honce : (fs.nodes.map (·.1)).Nodup) (respect : Bool) (own : Option String) :
    (walkFrom fs root respect own).Nodup := by
  have hpaths : (fs.placesBelow root).Pairwise fun a b => ofSegments a.1 ≠ ofSegments b.1 := by
    refine (pairwise_placesBelow honce).imp_of_mem fun {a b} ha hb hne heq => hne ?_
    have hsegments : ∀ e ∈ fs.placesBelow root, segments (ofSegments e.1) = e.1 := by
      intro e he
      obtain ⟨hempty, hmem⟩ := mem_placesBelow.1 he
      refine segments_ofSegments hempty fun name hname => ?_
      exact (hfs.named _ hmem name (mem_append_right root hname)).2.1
    rw [← hsegments a ha, heq, hsegments b hb]
  unfold walkFrom
  rw [nodup_mergeSort]
  refine List.Pairwise.filterMap _ ?_ hpaths
  intro a b hne path hpath other hother
  have hpath' : path = ofSegments a.1 := by grind
  have hother' : other = ofSegments b.1 := by grind
  rw [hpath', hother']
  exact hne

theorem pairwise_walkFrom (fs : FileSystem) (root : Place) (respect : Bool) (own : Option String) :
    (walkFrom fs root respect own).Pairwise (· ≤ ·) :=
  pairwise_mergeSort_le id _

section

variable (h : walk fs path respect own = .ok paths)
include h

/-- **What a walk gives**, by what its root is: a directory, a file, or a link. -/
theorem walk_cases : (∃ place, paths = walkFrom fs place respect own) ∨ paths = [""] ∨ paths = [] := by
  unfold walk at h
  cases hresolve : fs.resolve path with
  | error cause => rw [hresolve] at h; cases h
  | ok found =>
    obtain ⟨place, node⟩ := found
    rw [hresolve] at h
    cases node with
    | dir => exact .inl ⟨place, (Except.ok.inj h).symm⟩
    | file content => exact .inr (.inl (Except.ok.inj h).symm)
    | link target => exact .inr (.inr (Except.ok.inj h).symm)

/-- **A walk gives files in order.** -/
theorem pairwise_walk : paths.Pairwise (· ≤ ·) := by
  obtain ⟨place, rfl⟩ | rfl | rfl := walk_cases h
  · exact pairwise_walkFrom fs place respect own
  · exact pairwise_singleton _ _
  · exact List.Pairwise.nil

/-- A path that a walk gives is that of a file below a directory, unless the root of the walk is itself no
directory. -/
theorem exists_walkFrom {file : String} (hfile : file ∈ paths) (hne : file ≠ "") :
    ∃ place, paths = walkFrom fs place respect own := by
  obtain hplace | rfl | rfl := walk_cases h
  · exact hplace
  · exact absurd (mem_singleton.1 hfile) hne
  · cases hfile

end

theorem Holds.isOrdinary (h : Holds fs root path) : ∀ s ∈ segments path, isOrdinary s = true := by
  obtain ⟨names, _, hne, hnames, rfl, -⟩ := h
  rw [segments_ofSegments hne fun name hname => (hnames name hname).2.1]
  exact fun name hname => (hnames name hname).1

/-- The directory of a file has no character that a name cannot have. -/
theorem Holds.nul_not_mem_parent (h : Holds fs root path) : '\x00' ∉ (parent path).toList := by
  obtain ⟨names, _, hne, hnames, rfl, -⟩ := h
  rw [parent, segments_ofSegments hne fun name hname => (hnames name hname).2.1]
  split
  · exact not_mem_nil
  · next front hfront =>
    refine not_mem_ofSegments (by decide) fun name hname => (hnames name ?_).2.2
    exact dropLast_subset names hname

end Workspace

/-! ### Owners -/

namespace Scan

/-- **One step** of the search for an owner: a longest root of the two. -/
theorem exists_longer (best : Option (Nat × Package)) (candidate : Nat × Package) :
    ∃ e, longer best candidate = some e ∧ e ∈ best.toList ++ [candidate] ∧
      ∀ c ∈ best.toList ++ [candidate], c.2.root.utf8ByteSize ≤ e.2.root.utf8ByteSize := by
  cases best with
  | none => exact ⟨candidate, rfl, by simp, by simp⟩
  | some current =>
    rw [longer]
    split
    · next hle => exact ⟨candidate, rfl, by simp, by simpa using hle⟩
    · next hlt => exact ⟨current, rfl, by simp, by simpa using Nat.le_of_not_le hlt⟩

variable {l : List (Nat × Package)} {best : Option (Nat × Package)} {e : Nat × Package}

/-- **The whole search**: a longest root of all. -/
theorem longest_foldl (h : l.foldl longer best = some e) :
    e ∈ best.toList ++ l ∧ ∀ c ∈ best.toList ++ l, c.2.root.utf8ByteSize ≤ e.2.root.utf8ByteSize := by
  induction l generalizing best with
  | nil =>
    obtain rfl : best = some e := h
    simp
  | cons candidate l ih =>
    obtain ⟨next, hnext, hmem, hlongest⟩ := exists_longer best candidate
    rw [foldl_cons, hnext] at h
    obtain ⟨he, hl⟩ := ih h
    rw [append_cons]
    constructor
    · obtain rfl | he := mem_cons.1 he
      · exact mem_append_left l hmem
      · exact mem_append_right _ he
    · intro c hc
      obtain hc | hc := mem_append.1 hc
      · exact Nat.le_trans (hlongest c hc) (hl next mem_cons_self)
      · exact hl c (mem_cons_of_mem next hc)

theorem foldl_longer_isSome : (l.foldl longer best).isSome = true ↔ best.toList ++ l ≠ [] := by
  induction l generalizing best with
  | nil => cases best <;> simp
  | cons candidate l ih =>
    obtain ⟨next, hnext, -⟩ := exists_longer best candidate
    rw [foldl_cons, hnext, ih]
    simp

variable {packages : List Package} {path : String}

theorem mem_holders : (e ∈ (packages.zipIdx.map fun entry => (entry.2, entry.1)).filter fun entry =>
      isWithin path entry.2.root) ↔ packages[e.1]? = some e.2 ∧ isWithin path e.2.root = true := by
  rw [mem_filter, mem_map]
  refine and_congr_left fun _ => ?_
  constructor
  · rintro ⟨⟨package, i⟩, hmem, rfl⟩
    exact mem_zipIdx_iff_getElem?.1 hmem
  · exact fun h => ⟨(e.2, e.1), mem_zipIdx_iff_getElem?.2 h, rfl⟩

/-- **The owner** of a path holds it, and no other package that holds it has a longer root. -/
theorem of_owner? {n : Nat} (h : owner? packages path = some n) :
    ∃ owner, packages[n]? = some owner ∧ isWithin path owner.root = true ∧
      ∀ other ∈ packages, isWithin path other.root = true → other.root.utf8ByteSize ≤ owner.root.utf8ByteSize := by
  obtain ⟨⟨_, owner⟩, hfold, rfl⟩ := Option.map_eq_some_iff.1 h
  obtain ⟨hmem, hlongest⟩ := longest_foldl hfold
  obtain ⟨hstands, hwithin⟩ := mem_holders.1 hmem
  refine ⟨owner, hstands, hwithin, fun other hother hholds => ?_⟩
  obtain ⟨i, hi⟩ := mem_iff_getElem?.1 hother
  exact hlongest (i, other) (mem_holders.2 ⟨hi, hholds⟩)

theorem isSome_owner? :
    (owner? packages path).isSome = true ↔ ∃ package ∈ packages, isWithin path package.root = true := by
  rw [owner?, Option.isSome_map, foldl_longer_isSome, Option.toList_none]
  constructor
  · intro hne
    obtain ⟨e, he⟩ := exists_mem_of_ne_nil _ hne
    obtain ⟨hstands, hwithin⟩ := mem_holders.1 he
    exact ⟨e.2, mem_of_getElem? hstands, hwithin⟩
  · rintro ⟨package, hmem, hwithin⟩
    obtain ⟨i, hi⟩ := mem_iff_getElem?.1 hmem
    exact ne_nil_of_mem (mem_holders.2 ⟨hi, hwithin⟩ : (i, package) ∈ _)

/-! ### Scans -/

variable {fs : FileSystem} {root : String} {policy : AnalyzerPolicy} {extensions : List String} {label : String}
  {own : Option String} {found : Scan}

theorem of_scan_eq_ok (h : scan fs root policy extensions label own = .ok found) :
    ∃ paths, Workspace.walk fs root policy.respectIgnoreFiles own = .ok paths ∧
      ofPaths? (fun path => fs.read (Spelling.under root path)) root policy extensions label paths =
        some found := by
  unfold scan at h
  split at h
  · cases h
  · next paths hwalk =>
    dsimp only at h
    split at h
    · next hfound =>
      cases h
      exact ⟨paths, hwalk, hfound⟩
    · cases h

section OfPaths

variable {read : String → Except OsError ByteArray} {paths : List String}

theorem of_ofPaths? (h : ofPaths? read root policy extensions label paths = some found) :
    found.packages = (((packageManifests policy paths).map (readPackage read root)).map (·.1)).mergeSort
        (fun a b => decide (a.root ≤ b.root)) ∧
      found.files = sources policy extensions found.packages paths ∧
      found.diagnostics = ((packageManifests policy paths).map (readPackage read root)).filterMap (·.2) ++
        (unmatched policy paths).map (unmatchedDiagnostic label) := by
  unfold ofPaths? at h
  dsimp only at h
  split at h
  · cases h
  · cases h
    exact ⟨rfl, rfl, rfl⟩

/-- **A source file** is one of the files, has a known extension, and belongs to one of the packages. -/
theorem mem_files (h : ofPaths? read root policy extensions label paths = some found) {file : String × Nat}
    (hfile : file ∈ found.files) :
    file.1 ∈ paths ∧ (∃ e ∈ extensions, extension? file.1 = some e) ∧ file.2 < found.packages.length := by
  rw [(of_ofPaths? h).2.1, sources, mem_filterMap] at hfile
  obtain ⟨path, hpath, howner⟩ := hfile
  obtain ⟨hmem, hsource⟩ := mem_filter.1 hpath
  obtain ⟨n, hn, rfl⟩ := Option.map_eq_some_iff.1 howner
  rw [isSource, Bool.and_eq_true, Option.any_eq_true] at hsource
  obtain ⟨-, e, he, hextension⟩ := hsource
  obtain ⟨owner, hstands, -⟩ := of_owner? hn
  exact ⟨hmem, ⟨e, List.contains_iff_mem.1 hextension, he⟩, (List.getElem?_eq_some_iff.1 hstands).1⟩

/-- The paths of source files are the paths of sources that have an owner, in their order. -/
theorem map_fst_sources (policy : AnalyzerPolicy) (extensions : List String) (packages : List Package)
    (paths : List String) : (sources policy extensions packages paths).map (·.1) =
      (paths.filter (isSource policy extensions)).filter fun path => (owner? packages path).isSome := by
  rw [sources, map_filterMap]
  generalize paths.filter (isSource policy extensions) = sources
  rw [← filterMap_eq_filter]
  refine filterMap_congr fun path _ => ?_
  rw [Option.guard]
  cases owner? packages path <;> rfl

/-- **A package** was read from one of the files. -/
theorem mem_packages (h : ofPaths? read root policy extensions label paths = some found) {k : Package}
    (hk : k ∈ found.packages) :
    ∃ manifest ∈ packageManifests policy paths, k = (readPackage read root manifest).1 := by
  rw [(of_ofPaths? h).1, mem_mergeSort, map_map] at hk
  obtain ⟨manifest, hmanifest, rfl⟩ := mem_map.1 hk
  exact ⟨manifest, hmanifest, rfl⟩

/-- **What is found in manifests** is that they have defects. -/
theorem of_mem_defects {d : Diagnostic}
    (h : d ∈ ((packageManifests policy paths).map (readPackage read root)).filterMap (·.2)) :
    ∃ manifest ∈ packageManifests policy paths, ∃ defect : Manifest.Defect, d = defect.diagnostic manifest := by
  obtain ⟨entry, hentry, hd⟩ := mem_filterMap.1 h
  obtain ⟨manifest, hmanifest, rfl⟩ := mem_map.1 hentry
  obtain ⟨defect, -, rfl⟩ := Option.map_eq_some_iff.1 hd
  exact ⟨manifest, hmanifest, defect, rfl⟩

end OfPaths

end Scan

end Cartograph
