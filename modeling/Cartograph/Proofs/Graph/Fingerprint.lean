import Mathlib.Data.List.Forall2
import Cartograph.Proofs.Run.Contents

/-!
# What the fingerprint of a graph determines

The fingerprint of an import graph covers the name, the directory and the digest of the manifest of each package, and
the path, the package and the digest of the content of each file. Nothing in it says where the packages end and the
files begin. That can be told nevertheless: the second of three fields is the directory of a package, which has no byte
that is zero, or the number of a package in eight bytes, one of which is zero (`fields_injective`).

Where the digests of contents do not collide, packages and files are determined up to the reason why a file could not be
read, and so is the graph: `build_eq_of_fingerprint`. The bytes behind a fingerprint determine the graph as long as a
digest stands for one content: `build_eq_of_stream`. The path of a manifest is not among them, and nothing else in the
graph depends on it (`build_eq_of_unplaced`): packages that differ in it alone make different graphs with one
fingerprint (`build_ne_movedManifest`), unless the path is given by the rest, as it is after a scan.
-/

namespace Cartograph

open List Manifest SourceFile
open Digest (Fingerprint Collisionless utf8 eightBytes)
open Digest (utf8_injective schema)

/-! ### Three fields each -/

/-- What stands for a package. -/
def Package.fields (k : Package) : List (List UInt8) := [utf8 k.name, utf8 k.root, utf8 k.manifestHash]

/-- A package but for the path of its manifest. -/
def Package.unplaced (k : Package) : Package := { k with manifest := "" }

/-- What stands for a file. -/
def SourceFile.fields (f : SourceFile) : List (List UInt8) := [utf8 f.path, eightBytes f.package, utf8 f.contentHash]

namespace Graph

variable {files others : List SourceFile}

theorem frame_eq (packages : List Package) (files : List SourceFile) :
    frame packages files =
      { domain := "graph", fields := packages.flatMap Package.fields ++ files.flatMap fields } := by
  have hpackages : ∀ (l : List Package) (f : Fingerprint),
      l.foldl (fun f p => ((f.text p.name).text p.root).text p.manifestHash) f =
        { f with fields := f.fields ++ l.flatMap Package.fields } := by
    intro l
    induction l with
    | nil => simp
    | cons k l ih =>
      intro f
      rw [foldl_cons, ih]
      simp [Fingerprint.text, Package.fields]
  have hfiles : ∀ (l : List SourceFile) (f : Fingerprint),
      l.foldl (fun f file => ((f.text file.path).bytes (eightBytes file.package)).text file.contentHash) f =
        { f with fields := f.fields ++ l.flatMap fields } := by
    intro l
    induction l with
    | nil => simp
    | cons file l ih =>
      intro f
      rw [foldl_cons, ih]
      simp [Fingerprint.text, fields]
  rw [frame]
  simp only [hpackages, hfiles, nil_append]

/-- A directory whose name has no zero is not the number of a package. -/
theorem utf8_ne_eightBytes {root : String} (hroot : '\x00' ∉ root.toList) {n : Nat} (hn : n < 0x0101010101010101) :
    utf8 root ≠ eightBytes n := by
  intro h
  exact Text.zero_not_mem_utf8 hroot (h ▸ Digest.zero_mem_eightBytes hn)

theorem map_fields_injective (h : files.flatMap fields = others.flatMap fields) :
    files.map fields = others.map fields := by
  induction files generalizing others with
  | nil =>
    cases others with
    | nil => rfl
    | cons g others => cases h
  | cons f files ih =>
    cases others with
    | nil => cases h
    | cons g others =>
      obtain ⟨hfields, hrest⟩ := append_inj h rfl
      rw [map_cons, map_cons, hfields, ih hrest]

/-- A package does not start where a file does. -/
theorem package_append_ne_files {k : Package} (hk : '\x00' ∉ k.root.toList)
    (hfiles : ∀ f ∈ files, f.package < 0x0101010101010101) (rest : List (List UInt8)) :
    k.fields ++ rest ≠ files.flatMap fields := by
  intro h
  cases files with
  | nil => cases h
  | cons f files =>
    have hfields : k.fields = f.fields := (append_inj h rfl).1
    simp only [Package.fields, fields, cons.injEq] at hfields
    -- where a file has the number of its package, a package has its directory
    exact utf8_ne_eightBytes hk (hfiles f mem_cons_self) hfields.2.1

/-- **The fields of a graph tell its packages from its files.** -/
theorem fields_injective : ∀ {packages packages' : List Package} {files files' : List SourceFile},
    (∀ k ∈ packages, '\x00' ∉ k.root.toList) → (∀ k ∈ packages', '\x00' ∉ k.root.toList) →
    (∀ f ∈ files, f.package < 0x0101010101010101) → (∀ f ∈ files', f.package < 0x0101010101010101) →
    packages.flatMap Package.fields ++ files.flatMap fields =
      packages'.flatMap Package.fields ++ files'.flatMap fields →
    packages.map Package.fields = packages'.map Package.fields ∧ files.map fields = files'.map fields := by
  intro packages
  -- packages are split off one by one; both lists must run out of them at the same place
  induction packages with
  | nil =>
    intro packages' files files' _ hpackages' hfiles _ h
    cases packages' with
    | nil => exact ⟨rfl, map_fields_injective h⟩
    | cons k packages' =>
      exact absurd h.symm (package_append_ne_files (hpackages' k mem_cons_self) hfiles _)
  | cons k packages ih =>
    intro packages' files files' hpackages hpackages' hfiles hfiles' h
    rw [flatMap_cons, append_assoc] at h
    cases packages' with
    | nil => exact absurd h (package_append_ne_files (hpackages k mem_cons_self) hfiles' _)
    | cons l packages' =>
      rw [flatMap_cons, append_assoc] at h
      obtain ⟨hfields, hrest⟩ := append_inj h rfl
      obtain ⟨hmap, hfiles⟩ := ih (forall_mem_cons.1 hpackages).2
        (fun x hx => hpackages' x (mem_cons_of_mem l hx)) hfiles hfiles' hrest
      exact ⟨by rw [map_cons, map_cons, hfields, hmap], hfiles⟩

end Graph

/-! ### Packages from manifests -/

namespace Manifest

/-- What the digest of a manifest is made of. -/
def frame (bytes : ByteArray) : Fingerprint := ({ domain := "manifest" } : Fingerprint).bytes bytes.data.toList

/-- A package is at the directory, and has the manifest, that it was asked for. -/
theorem place_package (root manifest fallback : String) (content : Except OsError ByteArray) :
    (package root manifest fallback content).1.root = root ∧
      (package root manifest fallback content).1.manifest = manifest := by
  unfold package
  split
  · exact ⟨rfl, rfl⟩
  · simp only
    split <;> exact ⟨rfl, rfl⟩

theorem manifestHash_package (root manifest fallback : String) (bytes : ByteArray) :
    (package root manifest fallback (.ok bytes)).1.manifestHash = (frame bytes).digest := by
  unfold package
  simp only
  split <;> rfl

/-- Of the name that a package has without its manifest, only the name depends. -/
theorem package_eq_of_name {root manifest fallback other : String} {bytes : ByteArray}
    (h : (package root manifest fallback (.ok bytes)).1.name = (package root manifest other (.ok bytes)).1.name) :
    (package root manifest fallback (.ok bytes)).1 = (package root manifest other (.ok bytes)).1 := by
  unfold package at h ⊢
  simp only at h ⊢
  split
  next hentries =>
    rw [hentries] at h
    simp only at h
    rw [h]
  next hentries =>
    rw [hentries] at h
    simp only [describe] at h ⊢
    rw [h]

end Manifest

theorem Digest.Fingerprint.digest_ne_empty (f : Fingerprint) : f.digest ≠ "" := by
  intro h
  have hdigest := isDigest_digest f
  rw [h] at hdigest
  exact absurd hdigest (by decide)

/-- A package was read from the manifest in its directory, whose digest is that of a given stream. -/
structure Package.IsRead (streams : Set (List UInt8)) (k : Package) : Prop where
  root : '\x00' ∉ k.root.toList
  manifest : k.manifest = Path.join k.root "package.json"
  content : ∃ fallback content, k = (package k.root k.manifest fallback content).1 ∧
    ∀ bytes, content = .ok bytes → (frame bytes).stream ∈ streams

variable {streams : Set (List UInt8)}

/-- **What stands for a package determines it**, where digests do not collide. -/
theorem Package.IsRead.eq_of_fields (hstreams : Collisionless streams) {k l : Package} (hk : k.IsRead streams)
    (hl : l.IsRead streams) (h : k.fields = l.fields) : k = l := by
  simp only [fields, cons.injEq, and_true] at h
  obtain ⟨hname, hroot, hhash⟩ := h
  have hname := utf8_injective hname
  have hroot := utf8_injective hroot
  have hhash := utf8_injective hhash
  obtain ⟨-, hmanifest, fallback, content, hk, hbytes⟩ := hk
  obtain ⟨-, hmanifest', other, content', hl, hbytes'⟩ := hl
  rw [hmanifest, hroot] at hk
  rw [hmanifest'] at hl
  generalize Path.join l.root "package.json" = manifest at hk hl
  generalize l.root = root at hk hl
  subst hk hl
  -- a manifest that could not be read has no digest, so both could be read or neither
  cases content with
  | error cause =>
    cases content' with
    | error cause' =>
      have hfallback : fallback = other := hname
      rw [Manifest.package, Manifest.package, hfallback]
    | ok bytes' =>
      rw [manifestHash_package] at hhash
      exact absurd hhash.symm (Digest.Fingerprint.digest_ne_empty _)
  | ok bytes =>
    rw [manifestHash_package] at hhash
    cases content' with
    | error cause' => exact absurd hhash (Digest.Fingerprint.digest_ne_empty _)
    | ok bytes' =>
      rw [manifestHash_package] at hhash
      have hframe := hstreams.eq_of_digest_eq (hbytes bytes rfl) (hbytes' bytes' rfl) hhash
      have hlist : bytes.data.toList = bytes'.data.toList := by
        simpa [frame] using congrArg Fingerprint.fields hframe
      obtain rfl : bytes = bytes' := ByteArray.ext (Array.toList_inj.1 hlist)
      exact package_eq_of_name hname

/-! ### Files from contents -/

/-- A file was read from a content whose digest is that of a given stream, or could not be read at all. -/
inductive SourceFile.IsRead (streams : Set (List UInt8)) (f : SourceFile) : Prop where
  | unread (failure : ReadFailure) (hash : f.contentHash = "") (outcome : f.outcome = .failed failure)
  | read (raw : ByteArray) (path : TypeScript.IsSource f.path)
      (hash : f.contentHash = (Content.ofBytes raw).hash) (outcome : f.outcome = Content.outcome raw f.path)
      (stream : (Content.frame raw).stream ∈ streams)

/-- Two files that differ at most in the reason why they could not be read. -/
structure SourceFile.Alike (f g : SourceFile) : Prop where
  path : f.path = g.path
  package : f.package = g.package
  contentHash : f.contentHash = g.contentHash
  outcome : f.outcome = g.outcome ∨ ∃ a b, f.outcome = .failed a ∧ g.outcome = .failed b

/-- **What stands for a file determines it** up to the reason why it could not be read. -/
theorem SourceFile.IsRead.alike_of_fields (hstreams : Collisionless streams) {f g : SourceFile}
    (hf : f.IsRead streams) (hg : g.IsRead streams) (hfp : f.package < 2 ^ 64) (hgp : g.package < 2 ^ 64)
    (h : f.fields = g.fields) : f.Alike g := by
  simp only [fields, cons.injEq, and_true] at h
  obtain ⟨hpath, hpackage, hhash⟩ := h
  have hpath := utf8_injective hpath
  have hhash := utf8_injective hhash
  refine ⟨hpath, Digest.eightBytes_injective hfp hgp hpackage, hhash, ?_⟩
  cases hf with
  | unread a hash outcome =>
    cases hg with
    | unread b _ outcome' => exact .inr ⟨a, b, outcome, outcome'⟩
    | read raw' _ hash' =>
      rw [hash, hash'] at hhash
      exact absurd hhash.symm (Digest.Fingerprint.digest_ne_empty _)
  | read raw source hash outcome stream =>
    cases hg with
    | unread b hash' =>
      rw [hash, hash'] at hhash
      exact absurd hhash (Digest.Fingerprint.digest_ne_empty _)
    | read raw' _ hash' outcome' stream' =>
      rw [hash, hash'] at hhash
      have hbytes := Content.bytes_eq_of_hash hstreams stream stream' hhash
      left
      rw [outcome, outcome', ← hpath]
      exact Content.outcome_eq_of_bytes source rfl hbytes

namespace Graph

open SourceFile (Alike)

variable {f g : SourceFile} {files others files' : List SourceFile} {packages packages' : List Package} {α β : Type}
  {c d : Config}

theorem moduleOf_eq_of_alike (layers : LayerTable) (h : f.Alike g) : moduleOf layers f = moduleOf layers g := by
  obtain ⟨hpath, hpackage, hhash, hsame | ⟨a, b, hf, hg⟩⟩ := h
  · rw [moduleOf, moduleOf, hpath, hpackage, hhash, hsame]
  · rw [moduleOf, moduleOf, hpath, hpackage, hhash, hf, hg]

theorem imports_eq_of_alike (h : f.Alike g) : f.imports = g.imports := by
  obtain ⟨-, -, -, hsame | ⟨a, b, hf, hg⟩⟩ := h
  · rw [imports, imports, hsame]
  · rw [imports, imports, hf, hg]

theorem map_eq_of_alike {F : SourceFile → α} (hF : ∀ {f g}, f.Alike g → F f = F g)
    (h : Forall₂ Alike files others) :
    files.map F = others.map F := by
  induction h with
  | nil => rfl
  | cons h _ ih => rw [map_cons, map_cons, hF h, ih]

theorem pathIndex_eq_of_alike (h : Forall₂ Alike files others) : pathIndex files = pathIndex others := by
  have hindex : ∀ l : List SourceFile, pathIndex l =
      ((l.map (·.path)).zipIdx).foldl (fun index (path, i) => index.insert path i) {} := by
    intro l
    rw [zipIdx_map, foldl_map]
    rfl
  rw [hindex, hindex, map_eq_of_alike Alike.path h]

theorem links_eq_of_alike (resolver : Resolver) (h : Forall₂ Alike files others) :
    links resolver files = links resolver others := by
  have hlinks : ∀ l : List SourceFile, links resolver l =
      ((l.map fun f => (f.path, f.imports)).zipIdx).flatMap fun (f, i) =>
        f.2.map fun item =>
          { source := i, path := f.1, item, resolution := resolver.resolve f.1 item.specifier } := by
    intro l
    rw [zipIdx_map, flatMap_map]
    rfl
  have hmap := map_eq_of_alike (fun h => congrArg₂ Prod.mk h.path (imports_eq_of_alike h)) h
  rw [hlinks, hlinks, hmap]

theorem frame_eq_of_alike (packages : List Package) (h : Forall₂ Alike files others) :
    frame packages files = frame packages others := by
  have hfields : files.map fields = others.map fields :=
    map_eq_of_alike (fun h => by
      rw [fields, fields, h.path, h.package, h.contentHash]) h
  rw [frame_eq, frame_eq, flatMap_def, flatMap_def, hfields]
  rfl

/-- Files that are alike make one graph, whatever the rest of the configuration is. -/
theorem build_eq_of_alike (packages : List Package) (hlayers : c.layers = d.layers)
    (h : Forall₂ Alike files others) :
    (build packages c files).1 = (build packages d others).1 := by
  have hmodules := map_eq_of_alike (moduleOf_eq_of_alike d.layers) h
  simp only [build, hlayers, pathIndex_eq_of_alike h, links_eq_of_alike _ h, frame_eq_of_alike packages h,
    hmodules, h.length_eq]

/-! ### The fingerprint -/

/-- Packages and files as a run reads them: from contents whose digests are those of given streams, each file
in one of the packages. -/
structure AreRead (streams : Set (List UInt8)) (packages : List Package) (files : List SourceFile) :
    Prop where
  manifests : ∀ k ∈ packages, k.IsRead streams
  contents : ∀ f ∈ files, f.IsRead streams
  owned : ∀ f ∈ files, f.package < packages.length
  stream : (frame packages files).stream ∈ streams

/-- There are too few packages for a number that fills eight bytes. -/
theorem AreRead.package_lt (hstreams : Collisionless streams) (h : AreRead streams packages files) (hf : f ∈ files) :
    f.package < 0x0101010101010101 := by
  -- each field takes at least the eight bytes of its length, and the stream is short
  have hshort := hstreams.short _ h.stream
  have hfields := Digest.eight_mul_length_le (utf8 schema :: utf8 "graph" :: (frame packages files).fields)
  have hstream : (frame packages files).stream =
      (utf8 schema :: utf8 "graph" :: (frame packages files).fields).flatMap Digest.frame := by
    rw [Fingerprint.stream, frame_eq]
  have hlength : 3 * packages.length ≤ (frame packages files).fields.length := by
    rw [frame_eq, length_append]
    simp [Package.fields, Nat.mul_comm]
  have howned := h.owned f hf
  rw [hstream] at hshort
  rw [length_cons, length_cons] at hfields
  omega

theorem forall₂_of_map_eq {F : α → β} {R : α → α → Prop} :
    ∀ {l m : List α}, (∀ a ∈ l, ∀ b ∈ m, F a = F b → R a b) → l.map F = m.map F → Forall₂ R l m := by
  intro l
  induction l with
  | nil =>
    intro m _ h
    rw [map_nil, eq_comm, map_eq_nil_iff] at h
    rw [h]
    exact .nil
  | cons a l ih =>
    intro m hR h
    cases m with
    | nil => cases h
    | cons b m =>
      rw [map_cons, map_cons, cons.injEq] at h
      refine .cons (hR a mem_cons_self b mem_cons_self h.1) (ih ?_ h.2)
      exact fun x hx y hy => hR x (mem_cons_of_mem a hx) y (mem_cons_of_mem b hy)

/-- **The fingerprint of a graph determines it**, where digests do not collide. -/
theorem build_eq_of_fingerprint (hstreams : Collisionless streams) (h : AreRead streams packages files)
    (h' : AreRead streams packages' files') (hlayers : c.layers = d.layers)
    (hdigest : (frame packages files).digest = (frame packages' files').digest) :
    (build packages c files).1 = (build packages' d files').1 := by
  have hframe := hstreams.eq_of_digest_eq h.stream h'.stream hdigest
  rw [frame_eq, frame_eq, Fingerprint.mk.injEq] at hframe
  have hlimit : (0x0101010101010101 : Nat) < 2 ^ 64 := by decide
  obtain ⟨hpackages, hfiles⟩ := fields_injective (fun k hk => (h.manifests k hk).root)
    (fun k hk => (h'.manifests k hk).root) (fun f hf => h.package_lt hstreams hf)
    (fun f hf => h'.package_lt hstreams hf) hframe.2
  have hsame : Forall₂ Eq packages packages' := forall₂_of_map_eq (fun k hk l hl hfields =>
    (h.manifests k hk).eq_of_fields hstreams (h'.manifests l hl) hfields) hpackages
  rw [forall₂_eq_eq_eq] at hsame
  have halike : Forall₂ Alike files files' := forall₂_of_map_eq (fun f hf g hg hfields =>
    (h.contents f hf).alike_of_fields hstreams (h'.contents g hg)
      (Nat.lt_trans (h.package_lt hstreams hf) hlimit)
      (Nat.lt_trans (h'.package_lt hstreams hg) hlimit) hfields) hfiles
  rw [hsame]
  exact build_eq_of_alike packages' hlayers halike

/-! ### The paths of manifests -/

theorem find?_unplaced (packages : List Package) (name : String) :
    ((packages.map Package.unplaced).find? (·.name == name)) =
      (packages.find? (·.name == name)).map Package.unplaced :=
  find?_map ..

/-- Specifiers refer to the same things, wherever the manifests of the packages are. -/
theorem resolve_unplaced (modules : String → Bool) (packages : List Package) (importer specifier : String) :
    Resolver.resolve ⟨modules, packages.map Package.unplaced⟩ importer specifier =
      Resolver.resolve ⟨modules, packages⟩ importer specifier := by
  have hname : Resolver.resolveName ⟨modules, packages.map Package.unplaced⟩ specifier =
      Resolver.resolveName ⟨modules, packages⟩ specifier := by
    unfold Resolver.resolveName Resolver.package?
    simp only [find?_unplaced]
    cases packages.find? (·.name == (Specifier.split specifier).1) <;> rfl
  unfold Resolver.resolve
  rw [hname]
  rfl

/-- **The paths of the manifests are handed on**, and nothing else in a graph depends on them. -/
theorem build_eq_of_unplaced (h : packages.map Package.unplaced = packages'.map Package.unplaced) (config : Config)
    (files : List SourceFile) :
    build packages' config files =
      ({ (build packages config files).1 with packages := packages' }, (build packages config files).2) := by
  have hlinks (modules : String → Bool) : links ⟨modules, packages'⟩ files = links ⟨modules, packages⟩ files := by
    unfold links
    simp only [← resolve_unplaced modules packages, ← resolve_unplaced modules packages', h]
  have hframe : frame packages' files = frame packages files := by
    have hfields (l : List Package) : l.flatMap Package.fields = (l.map Package.unplaced).flatMap Package.fields :=
      (flatMap_map Package.unplaced Package.fields l).symm
    rw [frame_eq, frame_eq, hfields packages, hfields packages', h]
  simp only [build, hlinks, hframe]

/-! ### The bytes behind a fingerprint -/

/-- Packages and files in which a digest stands for one content: the digest of a manifest for what it declares, the
digest of a text, with the extension of its file, for what was read from it. Directories and numbers of packages
are as a scan gives them. The last two bounds hold of whatever fits in a memory of `2 ^ 63` bytes, where a package
takes more than `2 ^ 7` of them. -/
structure IsDigested (outcomeOf : Option String → String → Outcome)
    (declaredBy : String → Option Names × List (String × Nat) × List String) (packages : List Package)
    (files : List SourceFile) : Prop where
  roots : ∀ k ∈ packages, '\x00' ∉ k.root.toList
  owned : ∀ f ∈ files, f.package < packages.length
  declared : ∀ k ∈ packages, (k.declared, k.dependencyLines, k.entryPoints) = declaredBy k.manifestHash
  outcome : ∀ f ∈ files, f.outcome = outcomeOf (Path.extension? f.path) f.contentHash
  few : packages.length < 2 ^ 56
  short : ∀ field ∈ (frame packages files).fields, field.length < 2 ^ 64

namespace IsDigested

variable {outcomeOf : Option String → String → Outcome}
  {declaredBy : String → Option Names × List (String × Nat) × List String}
  {packages packages' : List Package} {files files' : List SourceFile}

section

variable (h : IsDigested outcomeOf declaredBy packages files)
include h

theorem package_lt (hf : f ∈ files) : f.package < 0x0101010101010101 := by
  have howned := h.owned f hf
  have hfew := h.few
  omega

section

variable (h' : IsDigested outcomeOf declaredBy packages' files')
include h'

theorem unplaced_eq {k l : Package} (hk : k ∈ packages) (hl : l ∈ packages') (hfields : k.fields = l.fields) :
    k.unplaced = l.unplaced := by
  simp only [Package.fields, cons.injEq, and_true] at hfields
  obtain ⟨hname, hroot, hhash⟩ := hfields
  have hhash := utf8_injective hhash
  have hdeclared := (h.declared k hk).trans (hhash ▸ (h'.declared l hl).symm)
  rw [Prod.mk.injEq, Prod.mk.injEq] at hdeclared
  obtain ⟨hnames, hlines, hentries⟩ := hdeclared
  exact Package.mk.injEq .. ▸ ⟨utf8_injective hname, utf8_injective hroot, rfl, hnames, hlines, hentries, hhash⟩

theorem file_eq (hf : f ∈ files) (hg : g ∈ files') (hfields : f.fields = g.fields) : f = g := by
  simp only [fields, cons.injEq, and_true] at hfields
  obtain ⟨hpath, hpackage, hhash⟩ := hfields
  have hpath := utf8_injective hpath
  have hhash := utf8_injective hhash
  have hlimit : (0x0101010101010101 : Nat) < 2 ^ 64 := by decide
  have hpackage := Digest.eightBytes_injective (Nat.lt_trans (h.package_lt hf) hlimit)
    (Nat.lt_trans (h'.package_lt hg) hlimit) hpackage
  have houtcome : f.outcome = g.outcome := by
    rw [h.outcome f hf, h'.outcome g hg, hpath, hhash]
  exact SourceFile.mk.injEq .. ▸ ⟨hpath, hpackage, hhash, houtcome⟩

/-- The bytes hold the fields one by one. -/
theorem fields_eq_of_stream (hstream : (frame packages files).stream = (frame packages' files').stream) :
    (frame packages files).fields = (frame packages' files').fields := by
  have hschema : (utf8 schema).length < 2 ^ 64 := by decide +kernel
  have hdomain : (utf8 "graph").length < 2 ^ 64 := by decide +kernel
  unfold Fingerprint.stream at hstream
  -- every field is written behind its length, if the length fits in eight bytes
  have hfields := Digest.flatMap_frame_injective ?_ ?_ hstream
  · simp only [cons.injEq, true_and] at hfields
    exact hfields.2
  · rw [frame_eq]
    exact forall_mem_cons.2 ⟨hschema, forall_mem_cons.2 ⟨hdomain, frame_eq packages files ▸ h.short⟩⟩
  · rw [frame_eq]
    exact forall_mem_cons.2 ⟨hschema, forall_mem_cons.2 ⟨hdomain, frame_eq packages' files' ▸ h'.short⟩⟩

/-- The bytes determine the files, and the packages up to the paths of their manifests. -/
theorem eq_of_stream (hstream : (frame packages files).stream = (frame packages' files').stream) :
    packages.map Package.unplaced = packages'.map Package.unplaced ∧ files = files' := by
  have hfields := h.fields_eq_of_stream h' hstream
  rw [frame_eq, frame_eq] at hfields
  obtain ⟨hpackages, hfiles⟩ := fields_injective h.roots h'.roots (fun _ => h.package_lt)
    (fun _ => h'.package_lt) hfields
  have hpackages := forall₂_of_map_eq (fun k hk l hl => h.unplaced_eq h' hk hl) hpackages
  have hfiles := forall₂_of_map_eq (fun f hf g hg => h.file_eq h' hf hg) hfiles
  rw [forall₂_eq_eq_eq] at hfiles
  rw [← forall₂_eq_eq_eq, forall₂_map_left_iff, forall₂_map_right_iff]
  exact ⟨hpackages, hfiles⟩

end

end

end IsDigested

/-- **The bytes behind a fingerprint determine the graph** up to the paths of the manifests, and what building it finds
as well. They determine it altogether where the path of a manifest is given by what else is known of its package. -/
theorem build_eq_of_stream {outcomeOf : Option String → String → Outcome}
    {declaredBy : String → Option Names × List (String × Nat) × List String} {packages packages' : List Package}
    {files files' : List SourceFile} (h : IsDigested outcomeOf declaredBy packages files)
    (h' : IsDigested outcomeOf declaredBy packages' files')
    (hstream : (frame packages files).stream = (frame packages' files').stream) (config : Config) :
    build packages' config files' =
        ({ (build packages config files).1 with packages := packages' }, (build packages config files).2) ∧
      packages.map Package.unplaced = packages'.map Package.unplaced ∧
      ∀ manifestOf : String → String → String → String,
        (∀ k ∈ packages ++ packages', k.manifest = manifestOf k.name k.root k.manifestHash) →
          build packages config files = build packages' config files' := by
  obtain ⟨hpackages, rfl⟩ := h.eq_of_stream h' hstream
  refine ⟨build_eq_of_unplaced hpackages config files, hpackages, fun manifestOf hmanifest => ?_⟩
  -- a package is what is left without the path, and the path that this gives
  have hplaced : ∀ l : List Package, (∀ k ∈ l, k.manifest = manifestOf k.name k.root k.manifestHash) →
      (l.map Package.unplaced).map (fun k => { k with manifest := manifestOf k.name k.root k.manifestHash }) = l := by
    intro l hl
    rw [map_map]
    refine (map_congr_left (g := id) fun k hk => ?_).trans (map_id l)
    rw [Function.comp_apply, Package.unplaced, ← hl k hk, id]
  have hsame : packages = packages' := by
    rw [← hplaced packages fun k hk => hmanifest k (mem_append_left _ hk), hpackages,
      hplaced packages' fun k hk => hmanifest k (mem_append_right _ hk)]
  rw [hsame]

/-- Two packages, the directory of one as long as the number of a package in bytes. -/
def eightByteRoot : List Package := [
  { name := "w", root := "", manifestHash := "1" },
  { name := "web", root := "apps/web", declared := some (.ofList ["left-pad"]), manifestHash := "2" }]

/-- A module of the first package that imports the module of the second. -/
def crossingFiles : List SourceFile := [
  ⟨"a.ts", 0, "3", .parsed { imports := [⟨"./apps/web/b", .static, 1, 8⟩] }⟩,
  ⟨"apps/web/b.ts", 1, "4", .failed .encoding⟩]

/-- What was read from the contents of the files. -/
def crossingOutcome (_ : Option String) (hash : String) : Outcome :=
  if hash = "3" then .parsed { imports := [⟨"./apps/web/b", .static, 1, 8⟩] } else .failed .encoding

/-- What the manifests of the packages declare. -/
def eightByteDeclared (hash : String) : Option Names × List (String × Nat) × List String :=
  (if hash = "2" then some (.ofList ["left-pad"]) else some .empty, [], [])

/-- The same packages, the manifest of the first under a path that starts at the root. -/
def movedManifest : List Package :=
  eightByteRoot.map fun k => if k.root = "" then { k with manifest := "/package.json" } else k

theorem isDigested_eightByteRoot : IsDigested crossingOutcome eightByteDeclared eightByteRoot crossingFiles := by
  constructor <;> decide +kernel

theorem isDigested_movedManifest : IsDigested crossingOutcome eightByteDeclared movedManifest crossingFiles := by
  constructor <;> decide +kernel

/-- A manifest under another path leaves the bytes, and so all of the graph but this path, as they are. -/
theorem build_eq_of_stream_movedManifest :
    IsDigested crossingOutcome eightByteDeclared eightByteRoot crossingFiles ∧
      IsDigested crossingOutcome eightByteDeclared movedManifest crossingFiles ∧
      (frame eightByteRoot crossingFiles).stream = (frame movedManifest crossingFiles).stream ∧
      build movedManifest {} crossingFiles =
        ({ (build eightByteRoot {} crossingFiles).1 with packages := movedManifest },
          (build eightByteRoot {} crossingFiles).2) ∧
      ∀ k ∈ eightByteRoot, k.manifest = Path.join k.root "package.json" :=
  ⟨isDigested_eightByteRoot, isDigested_movedManifest, rfl,
    (build_eq_of_stream isDigested_eightByteRoot isDigested_movedManifest rfl {}).1, by decide +kernel⟩

/-- The path of a manifest is in the graph but not in its fingerprint. -/
theorem build_ne_movedManifest :
    IsDigested crossingOutcome eightByteDeclared eightByteRoot crossingFiles ∧
      IsDigested crossingOutcome eightByteDeclared movedManifest crossingFiles ∧
      (frame eightByteRoot crossingFiles).stream = (frame movedManifest crossingFiles).stream ∧
      (build eightByteRoot {} crossingFiles).1.packages ≠ (build movedManifest {} crossingFiles).1.packages := by
  refine ⟨isDigested_eightByteRoot, isDigested_movedManifest, rfl, ?_⟩
  change eightByteRoot ≠ movedManifest
  decide +kernel

end Graph

end Cartograph
