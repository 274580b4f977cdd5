import Cartograph.Proofs.Path.Containment
import Cartograph.Proofs.Text.ByteOrder
import Cartograph.Proofs.Workspace.Regular

/-!
# What a scan selects

A scan is told here by what it has to pick from the files of a workspace (`Selects`), without the order in which it goes
about it: the directories of packages (`IsPackageDir`), the source files below them (`IsSourceFile`), for each file the
package with the most names that the file lies in (`Owns`), and the patterns that have no directory. Main statement:
`scan_selects`. If each file comes once and by a canonical path, this is what a scan gives, and it fails exactly if there
is no package.

A scan compares texts where the description speaks of names. It sorts by characters, which is the order of bytes; it asks
whether a path starts with the text of a directory and a slash, which is containment; and it takes the directory with the
longest text, which among those that hold one path is the one with the most names.
-/

namespace Cartograph.Scan

open List
open Cartograph.Path (LiesIn dirNames)
open Cartograph.Path (join display IsCanonical parent join_eq_iff isWithin_iff)

/-! ### What is to be selected -/

/-- A directory with a manifest that is not excluded. -/
structure HoldsManifest (policy : AnalyzerPolicy) (paths : List String) (dir : String) : Prop where
  file : join dir manifestName ∈ paths
  kept : ∀ pattern ∈ policy.excluded, pattern.matches (join dir manifestName) = false

/-- The directory of a package: a package pattern matches it as it is shown. -/
structure IsPackageDir (policy : AnalyzerPolicy) (paths : List String) (dir : String) : Prop
    extends HoldsManifest policy paths dir where
  matched : ∃ pattern ∈ policy.packages, pattern.matches (display dir) = true

/-- A source file of a package. -/
structure IsSourceFile (policy : AnalyzerPolicy) (extensions paths : List String) (path : String) : Prop where
  file : path ∈ paths
  included : ∃ pattern ∈ policy.included, pattern.matches path = true
  kept : ∀ pattern ∈ policy.excluded, pattern.matches path = false
  known : ∃ extension ∈ extensions, Path.extension? path = some extension
  below : ∃ dir, IsPackageDir policy paths dir ∧ LiesIn path dir

/-- A package, by its number, that a path lies in, with at least as many names as any other that the path lies in. -/
def Owns (packages : List Package) (path : String) (i : Nat) : Prop :=
  ∃ owner, packages[i]? = some owner ∧ LiesIn path owner.root ∧
    ∀ other ∈ packages, LiesIn path other.root → (dirNames other.root).length ≤ (dirNames owner.root).length

/-- The finding on a pattern that has no directory. -/
structure TellsUnmatched (label : String) (pattern : Glob.Pattern) (d : Diagnostic) : Prop where
  code : d.code = "AG302"
  category : d.category = .configuration
  severity : d.severity = .warning
  location : d.location = { file := label }
  message : d.message = "package pattern `" ++ pattern.source ++ "` matched no package root"

open Classical in
/-- What a scan gives, if it gives something. -/
structure IsSelection (policy : AnalyzerPolicy) (extensions : List String) (label : String) (paths : List String)
    (found : Scan) : Prop where
  packages : ∀ dir, (∃ package ∈ found.packages, package.root = dir) ↔ IsPackageDir policy paths dir
  packages_ascending : found.packages.Pairwise fun a b => Digest.utf8 a.root < Digest.utf8 b.root
  files : ∀ path, (∃ i, (path, i) ∈ found.files) ↔ IsSourceFile policy extensions paths path
  files_ascending : found.files.Pairwise fun a b => Digest.utf8 a.1 < Digest.utf8 b.1
  owner : ∀ path i, (path, i) ∈ found.files → ∀ j, Owns found.packages path j ↔ j = i
  /-- No package lies between a file and its own. -/
  between : ∀ path i, (path, i) ∈ found.files → ∀ owner other, found.packages[i]? = some owner →
    other ∈ found.packages → LiesIn path other.root → LiesIn other.root owner.root → other = owner
  unmatched : List.Forall₂ (TellsUnmatched label)
    (policy.packages.filter fun pattern =>
      ∀ dir, HoldsManifest policy paths dir → pattern.matches (display dir) = false)
    (found.diagnostics.filter (·.code == "AG302"))

/-- What a scan does: it gives a selection, unless there is no package. -/
structure Selects (root : String) (policy : AnalyzerPolicy) (extensions : List String) (label : String)
    (paths : List String) (result : Except ScanError Scan) : Prop where
  selected : (∃ dir, IsPackageDir policy paths dir) →
    ∃ found, result = .ok found ∧ IsSelection policy extensions label paths found
  failed : result = .error (.noPackages root) ↔ ¬∃ dir, IsPackageDir policy paths dir

/-! ### Directories of packages -/

variable {policy : AnalyzerPolicy} {extensions : List String} {label root : String} {paths : List String}

theorem anyMatches_eq_true {patterns : List Glob.Pattern} {path : String} :
    Glob.anyMatches patterns path = true ↔ ∃ pattern ∈ patterns, pattern.matches path = true := by
  rw [Glob.anyMatches, any_eq_true]

theorem anyMatches_eq_false {patterns : List Glob.Pattern} {path : String} :
    (!Glob.anyMatches patterns path) = true ↔ ∀ pattern ∈ patterns, pattern.matches path = false := by
  rw [Bool.not_eq_true', Glob.anyMatches, any_eq_false]
  simp only [Bool.not_eq_true]

theorem holdsManifest_iff (hcanonical : ∀ path ∈ paths, IsCanonical path) {dir : String} :
    HoldsManifest policy paths dir ↔ ∃ path ∈ paths, isManifest policy path = true ∧ parent path = dir := by
  have hslash : '/' ∉ manifestName.toList := by decide
  constructor
  · rintro ⟨hfile, hkept⟩
    obtain ⟨hname, hparent⟩ := (join_eq_iff (hcanonical _ hfile) hslash (by decide)).1 rfl
    refine ⟨_, hfile, ?_, hparent⟩
    rw [isManifest, Bool.and_eq_true, beq_iff_eq]
    exact ⟨hname, anyMatches_eq_false.2 hkept⟩
  · rintro ⟨path, hpath, hmanifest, hparent⟩
    rw [isManifest, Bool.and_eq_true, beq_iff_eq] at hmanifest
    obtain rfl := (join_eq_iff (hcanonical path hpath) hslash (by decide)).2 ⟨hmanifest.1, hparent⟩
    exact ⟨hpath, anyMatches_eq_false.1 hmanifest.2⟩

theorem isPackageDir_iff (hcanonical : ∀ path ∈ paths, IsCanonical path) {dir : String} :
    IsPackageDir policy paths dir ↔ ∃ manifest ∈ packageManifests policy paths, parent manifest = dir := by
  constructor
  · rintro ⟨hholds, hmatched⟩
    obtain ⟨path, hpath, hmanifest, rfl⟩ := (holdsManifest_iff hcanonical).1 hholds
    refine ⟨path, mem_filter.2 ⟨hpath, ?_⟩, rfl⟩
    rw [Bool.and_eq_true, any_eq_true]
    exact ⟨hmanifest, hmatched⟩
  · rintro ⟨path, hpath, rfl⟩
    obtain ⟨hmem, hhit⟩ := mem_filter.1 hpath
    rw [Bool.and_eq_true, any_eq_true] at hhit
    exact ⟨(holdsManifest_iff hcanonical).2 ⟨path, hmem, hhit.1, rfl⟩, hhit.2⟩

/-- **The directories of manifests** are different ones, as a manifest is known by its directory. -/
theorem nodup_parents (hnodup : paths.Nodup) (hcanonical : ∀ path ∈ paths, IsCanonical path) :
    ((packageManifests policy paths).map parent).Nodup := by
  have hself : ∀ manifest ∈ packageManifests policy paths,
      join (parent manifest) manifestName = manifest := fun manifest hmem =>
    (join_eq_iff (hcanonical manifest (mem_filter.1 hmem).1) (by decide) (by decide)).2 ⟨fileName_of_mem hmem, rfl⟩
  refine List.Nodup.map_on (fun a ha b hb hparent => ?_) (hnodup.filter _)
  rw [← hself a ha, hparent, hself b hb]

/-! ### Owners -/

section Owners

variable {packages : List Package} {path : String}

/-- **The package that is found for a path** owns it. -/
theorem owns_of_owner? (hpath : IsCanonical path) (hroots : ∀ k ∈ packages, IsCanonical k.root) {i : Nat}
    (h : owner? packages path = some i) : Owns packages path i := by
  obtain ⟨owner, hstands, hwithin, hlongest⟩ := of_owner? h
  have howner := hroots owner (mem_of_getElem? hstands)
  have hlies := (isWithin_iff hpath howner).1 hwithin
  refine ⟨owner, hstands, hlies, fun other hother hin => ?_⟩
  -- the longest text among directories of the path has the most names
  have hlonger := hlongest other hother ((isWithin_iff hpath (hroots other hother)).2 hin)
  exact (hin.utf8ByteSize_le_iff (hroots other hother) howner hlies).1 hlonger

/-- **No package comes between** a path and its owner. -/
theorem root_eq_of_between (hroots : ∀ k ∈ packages, IsCanonical k.root) {i : Nat} (h : Owns packages path i)
    {owner other : Package} (howner : packages[i]? = some owner) (hother : other ∈ packages)
    (hpath : LiesIn path other.root) (hin : LiesIn other.root owner.root) : other.root = owner.root := by
  obtain ⟨_, hstands, hlies, hmost⟩ := h
  obtain rfl := Option.some.inj (hstands.symm.trans howner)
  -- the other one has no more names than the owner, and starts with those of the owner
  have hlength := Nat.le_antisymm (hmost other hother hpath) hin.length_le
  have hnames := (hin.eq_of_length hlength.symm).symm
  exact Path.dirNames_injective (hroots other hother) (hroots _ (mem_of_getElem? hstands)) hnames

/-- **A path has one owner**, if no two packages have the same root. -/
theorem Owns.unique (hroots : ∀ k ∈ packages, IsCanonical k.root) (hnodup : (packages.map (·.root)).Nodup) {i j : Nat}
    (hi : Owns packages path i) (hj : Owns packages path j) : j = i := by
  obtain ⟨owner, hstands, hlies, hmost⟩ := id hi
  obtain ⟨other, hstands', hlies', hmost'⟩ := hj
  -- both have the most names, so one lies in the other
  have hin : LiesIn other.root owner.root := hlies.of_length_le hlies' (hmost' owner (mem_of_getElem? hstands) hlies)
  have hroot := root_eq_of_between hroots hi hstands (mem_of_getElem? hstands') hlies' hin
  exact getElem?_inj_of_nodup_map hnodup hstands' hstands hroot

end Owners

/-! ### The selection -/

section OfPaths

variable {read : String → Except OsError ByteArray} {found : Scan}

theorem perm_roots (h : ofPaths? read root policy extensions label paths = some found) :
    (found.packages.map (·.root)).Perm ((packageManifests policy paths).map parent) := by
  rw [(of_ofPaths? h).1]
  refine ((mergeSort_perm _ _).map Package.root).trans (.of_eq ?_)
  rw [map_map, map_map]
  exact map_congr_left fun manifest _ => root_readPackage read root manifest

section

variable (hcanonical : ∀ path ∈ paths, IsCanonical path)
  (h : ofPaths? read root policy extensions label paths = some found)
include hcanonical h

theorem mem_roots_iff {dir : String} :
    (∃ package ∈ found.packages, package.root = dir) ↔ IsPackageDir policy paths dir := by
  rw [isPackageDir_iff hcanonical, ← mem_map, ← mem_map]
  exact (perm_roots h).mem_iff

theorem isCanonical_root {k : Package} (hk : k ∈ found.packages) : IsCanonical k.root := by
  obtain ⟨manifest, hmanifest, rfl⟩ := mem_packages h hk
  rw [root_readPackage]
  exact Path.isCanonical_parent (hcanonical manifest (mem_filter.1 hmanifest).1)

end

theorem of_mem_sources (h : ofPaths? read root policy extensions label paths = some found) {path : String} {i : Nat}
    (hfile : (path, i) ∈ found.files) : path ∈ paths ∧ owner? found.packages path = some i := by
  rw [(of_ofPaths? h).2.1, sources, mem_filterMap] at hfile
  obtain ⟨_, hpath, howner⟩ := hfile
  obtain ⟨_, hi, heq⟩ := Option.map_eq_some_iff.1 howner
  cases heq
  exact ⟨(mem_filter.1 hpath).1, hi⟩

theorem mem_files_iff (hcanonical : ∀ path ∈ paths, IsCanonical path)
    (h : ofPaths? read root policy extensions label paths = some found) {path : String} :
    (∃ i, (path, i) ∈ found.files) ↔ IsSourceFile policy extensions paths path := by
  have hmem : (∃ i, (path, i) ∈ found.files) ↔ path ∈ found.files.map (·.1) := by
    simp
  -- the conditions agree one by one, apart from containment, which is decided on texts
  rw [hmem, (of_ofPaths? h).2.1, map_fst_sources, mem_filter, mem_filter, isSource, Bool.and_eq_true,
    Bool.and_eq_true, anyMatches_eq_false, anyMatches_eq_true, Option.any_eq_true, isSome_owner?]
  constructor
  · rintro ⟨⟨hpath, ⟨hkept, hincluded⟩, extension, hextension, hknown⟩, package, hpackage, hwithin⟩
    refine ⟨hpath, hincluded, hkept, ⟨extension, contains_iff_mem.1 hknown, hextension⟩, package.root,
      (mem_roots_iff hcanonical h).1 ⟨package, hpackage, rfl⟩, ?_⟩
    exact (isWithin_iff (hcanonical path hpath) (isCanonical_root hcanonical h hpackage)).1 hwithin
  · rintro ⟨hpath, hincluded, hkept, ⟨extension, hknown, hextension⟩, dir, hdir, hlies⟩
    obtain ⟨package, hpackage, rfl⟩ := (mem_roots_iff hcanonical h).2 hdir
    refine ⟨⟨hpath, ⟨hkept, hincluded⟩, extension, hextension, contains_iff_mem.2 hknown⟩, package, hpackage, ?_⟩
    exact (isWithin_iff (hcanonical path hpath) (isCanonical_root hcanonical h hpackage)).2 hlies

open Classical in
theorem unmatched_eq_filter (hcanonical : ∀ path ∈ paths, IsCanonical path) : unmatched policy paths =
    policy.packages.filter fun pattern =>
      ∀ dir, HoldsManifest policy paths dir → pattern.matches (display dir) = false := by
  refine filter_congr fun pattern _ => ?_
  rw [Bool.eq_iff_iff, Bool.not_eq_true', any_eq_false, decide_eq_true_eq]
  constructor
  · intro hnone dir hholds
    obtain ⟨path, hpath, hmanifest, rfl⟩ := (holdsManifest_iff hcanonical).1 hholds
    have hhit := hnone path hpath
    rw [hmanifest, Bool.true_and, Bool.not_eq_true] at hhit
    exact hhit
  · intro hnone path hpath hhit
    rw [Bool.and_eq_true] at hhit
    have hholds := (holdsManifest_iff hcanonical).2 ⟨path, hpath, hhit.1, rfl⟩
    exact Bool.false_ne_true ((hnone _ hholds).symm.trans hhit.2)

/-- Of what is found, the patterns without packages: the rest is about manifests. -/
theorem filter_diagnostics (h : ofPaths? read root policy extensions label paths = some found) :
    found.diagnostics.filter (·.code == "AG302") = (unmatched policy paths).map (unmatchedDiagnostic label) := by
  rw [(of_ofPaths? h).2.2, filter_append, filter_eq_nil_iff.2, nil_append, filter_eq_self.2]
  · intro d hd
    obtain ⟨pattern, -, rfl⟩ := mem_map.1 hd
    rfl
  · intro d hd
    obtain ⟨manifest, -, defect, rfl⟩ := of_mem_defects hd
    exact Bool.false_ne_true

/-- **What a scan gives** is a selection. -/
theorem isSelection_of_ofPaths? (hsorted : paths.Pairwise (· ≤ ·)) (hnodup : paths.Nodup)
    (hcanonical : ∀ path ∈ paths, IsCanonical path)
    (h : ofPaths? read root policy extensions label paths = some found) :
    IsSelection policy extensions label paths found := by
  have hroots : (found.packages.map (·.root)).Nodup := (perm_roots h).nodup_iff.2 (nodup_parents hnodup hcanonical)
  have hcanonicalRoots : ∀ k ∈ found.packages, IsCanonical k.root := fun k => isCanonical_root hcanonical h
  have howns : ∀ path i, (path, i) ∈ found.files → Owns found.packages path i := by
    intro path i hfile
    obtain ⟨hpath, howner⟩ := of_mem_sources h hfile
    exact owns_of_owner? (hcanonical path hpath) hcanonicalRoots howner
  refine ⟨fun dir => mem_roots_iff hcanonical h, ?_, fun path => mem_files_iff hcanonical h, ?_, ?_, ?_, ?_⟩
  · refine Text.pairwise_utf8_lt Package.root ?_ hroots
    rw [(of_ofPaths? h).1]
    exact pairwise_mergeSort_le Package.root _
  · -- files stay in the order of the walk
    have hfiles : (found.files.map (·.1)).Sublist paths := by
      rw [(of_ofPaths? h).2.1, map_fst_sources]
      exact filter_sublist.trans filter_sublist
    exact Text.pairwise_utf8_lt Prod.fst (pairwise_map.1 (hsorted.sublist hfiles)) (hnodup.sublist hfiles)
  · intro path i hfile j
    refine ⟨(howns path i hfile).unique hcanonicalRoots hroots, ?_⟩
    rintro rfl
    exact howns path j hfile
  · -- a root is the root of one package only
    intro path i hfile owner other howner hother hpath hin
    have hroot := root_eq_of_between hcanonicalRoots (howns path i hfile) howner hother hpath hin
    exact inj_on_of_nodup_map hroots hother (mem_of_getElem? howner) hroot
  · rw [filter_diagnostics h, ← unmatched_eq_filter hcanonical]
    exact forall₂_self_map fun pattern _ => ⟨rfl, rfl, rfl, rfl, rfl⟩

theorem ofPaths?_eq_none_iff (hcanonical : ∀ path ∈ paths, IsCanonical path) :
    ofPaths? read root policy extensions label paths = none ↔ ¬∃ dir, IsPackageDir policy paths dir := by
  have hempty : ofPaths? read root policy extensions label paths = none ↔ packageManifests policy paths = [] := by
    unfold ofPaths?
    simp [← length_eq_zero_iff]
  rw [hempty, eq_nil_iff_forall_not_mem, ← not_exists, not_iff_not]
  constructor
  · rintro ⟨manifest, hmanifest⟩
    exact ⟨parent manifest, (isPackageDir_iff hcanonical).2 ⟨manifest, hmanifest, rfl⟩⟩
  · rintro ⟨dir, hdir⟩
    obtain ⟨manifest, hmanifest, -⟩ := (isPackageDir_iff hcanonical).1 hdir
    exact ⟨manifest, hmanifest⟩

end OfPaths

/-- **A scan selects and assigns exactly.** If a walk gives each file once and by a canonical path, then a scan gives the
packages, the source files with their owners and the patterns without packages, as they are to be selected from these
files, and it fails for want of packages exactly if there are none. -/
theorem scan_selects {fs : FileSystem} {own : Option String}
    (hwalk : Workspace.walk fs root policy.respectIgnoreFiles own = .ok paths) (hnodup : paths.Nodup)
    (hcanonical : ∀ path ∈ paths, Path.IsCanonical path) :
    Selects root policy extensions label paths (scan fs root policy extensions label own) := by
  have hnone : ofPaths? (fun path => fs.read (Path.Spelling.under root path)) root policy extensions label paths =
      none ↔ ¬∃ dir, IsPackageDir policy paths dir := ofPaths?_eq_none_iff hcanonical
  rw [scan, hwalk]
  dsimp only
  cases hfound : ofPaths? (fun path => fs.read (Path.Spelling.under root path)) root policy extensions label paths with
  | none =>
    -- nothing was found, so there was nothing to find
    have habsent := hnone.1 hfound
    exact ⟨fun hsome => absurd hsome habsent, fun _ => habsent, fun _ => rfl⟩
  | some found =>
    have hselection := isSelection_of_ofPaths? (Workspace.pairwise_walk hwalk) hnodup hcanonical hfound
    refine ⟨fun _ => ⟨found, rfl, hselection⟩, nofun, fun habsent => ?_⟩
    cases (hnone.2 habsent).symm.trans hfound

/-- A workspace with a package at its root and two packages below it, one of which has a name that starts with the name
of the other. -/
def nestedFiles : FileSystem :=
  { nodes := [(["w"], .dir), (["w", "main.ts"], .file ⟨#[]⟩), (["w", "package.json"], .file ⟨#[]⟩),
      (["w", "packages"], .dir), (["w", "packages", "core-utils"], .dir),
      (["w", "packages", "core-utils", "index.ts"], .file ⟨#[]⟩),
      (["w", "packages", "core-utils", "package.json"], .file ⟨#[]⟩), (["w", "packages", "core"], .dir),
      (["w", "packages", "core", "index.ts"], .file ⟨#[]⟩),
      (["w", "packages", "core", "package.json"], .file ⟨#[]⟩)] }

/-- The files of that workspace, as a walk gives them. -/
def nestedPaths : List String :=
  ["main.ts", "package.json", "packages/core-utils/index.ts", "packages/core-utils/package.json",
    "packages/core/index.ts", "packages/core/package.json"]

/-- Its packages: the root and what is directly below the directory `packages`. -/
def nestedPolicy : AnalyzerPolicy :=
  { packages := patterns [".", "packages/*"], respectIgnoreFiles := false }

theorem scan_selects_nestedFiles :
    ∃ found, scan nestedFiles "/w" nestedPolicy ["ts"] "archgraph.toml" none = .ok found ∧
      IsSelection nestedPolicy ["ts"] "archgraph.toml" nestedPaths found := by
  -- sorting does not compute in the kernel: the paths are left under it, and are sorted already
  have hsorted : Workspace.walk nestedFiles "/w" nestedPolicy.respectIgnoreFiles none =
      .ok (nestedPaths.mergeSort (· ≤ ·)) := rfl
  rw [List.mergeSort_of_pairwise (by decide)] at hsorted
  have hroot : IsPackageDir nestedPolicy nestedPaths "" := ⟨⟨by decide, by decide⟩, by decide⟩
  exact (scan_selects hsorted (by decide) (by decide)).selected ⟨"", hroot⟩

end Cartograph.Scan
