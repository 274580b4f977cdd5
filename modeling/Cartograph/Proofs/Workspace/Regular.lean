import Cartograph.Proofs.Graph.Fingerprint
import Cartograph.Proofs.Workspace.Scan

/-!
# Regular scans

A scan of a proper file system is regular: all paths in it are canonical, and no file and no manifest is in it
twice (`Scan.isRegular_of_scan`). A package is known by its directory, and the manifest that it was read from is
the one in that directory (`Scan.manifest_eq_join`); so two packages of a scan have different directories as well.
-/

namespace Cartograph.Scan

open Cartograph.Path List

/-- What holds of every scan: its paths are canonical, no two files and no two manifests share one, and each file
belongs to one of the packages. -/
structure IsRegular (found : Scan) : Prop where
  file : ∀ f ∈ found.files, IsCanonical f.1
  nodup_files : (found.files.map (·.1)).Nodup
  owned : ∀ f ∈ found.files, f.2 < found.packages.length
  manifest : ∀ k ∈ found.packages, IsCanonical k.manifest
  nodup_manifests : (found.packages.map Package.manifest).Nodup

variable {fs : FileSystem} {root manifest : String} {policy : AnalyzerPolicy} {extensions paths : List String}
  {label : String} {own : Option String} {found : Scan}

theorem fileName_of_mem (h : manifest ∈ packageManifests policy paths) : fileName manifest = "package.json" := by
  have hmanifest := (mem_filter.1 h).2
  rw [Bool.and_eq_true, isManifest, Bool.and_eq_true, beq_iff_eq] at hmanifest
  exact hmanifest.1.1

theorem root_readPackage (read : String → Except OsError ByteArray) (root manifest : String) :
    (readPackage read root manifest).1.root = parent manifest :=
  (Manifest.place_package ..).1

/-- The manifest of a package that was read is the one that it was read from. -/
theorem manifest_readPackage (read : String → Except OsError ByteArray) (root manifest : String) :
    (readPackage read root manifest).1.manifest = manifest :=
  (Manifest.place_package ..).2

/-- It lies in the directory of the package. -/
theorem manifest_eq_join (read : String → Except OsError ByteArray) (h : manifest ∈ packageManifests policy paths)
    (hordinary : ∀ s ∈ segments manifest, isOrdinary s = true) :
    (readPackage read root manifest).1.manifest = join (readPackage read root manifest).1.root "package.json" := by
  rw [root_readPackage, manifest_readPackage, ← fileName_of_mem h]
  exact (join_parent hordinary).symm

section

variable (hfs : fs.IsProper) (honce : (fs.nodes.map (·.1)).Nodup)
  (h : scan fs root policy extensions label own = .ok found)
include hfs honce h

/-- Paths of a walk: they are canonical, and no two are the same. -/
theorem of_scan :
    ∃ paths, paths.Nodup ∧ (∀ path ∈ paths, ∀ s ∈ segments path, isOrdinary s = true) ∧
      ofPaths? (fun path => fs.read (Spelling.under root path)) root policy extensions label paths =
        some found := by
  obtain ⟨paths, hwalk, hfound⟩ := of_scan_eq_ok h
  -- a scan has packages, so the walk has found something
  have hsome : packageManifests policy paths ≠ [] := by
    intro hnone
    unfold ofPaths? at hfound
    rw [hnone] at hfound
    simp at hfound
  obtain ⟨manifest, hmanifest⟩ := exists_mem_of_ne_nil _ hsome
  have hne : manifest ≠ "" := by
    rintro rfl
    exact absurd (fileName_of_mem hmanifest) (by decide)
  obtain ⟨place, rfl⟩ := Workspace.exists_walkFrom hwalk (mem_filter.1 hmanifest).1 hne
  exact ⟨_, Workspace.nodup_walkFrom hfs honce _ _,
    fun path hpath => (Workspace.holds_of_walkFrom hfs hpath).isOrdinary, hfound⟩

/-- **Every scan is regular.** -/
theorem isRegular_of_scan
    : found.IsRegular := by
  obtain ⟨paths, hnodup, hordinary, hfound⟩ := of_scan hfs honce h
  refine ⟨fun f hf => .inr (hordinary f.1 (mem_files hfound hf).1), ?_, fun f hf => (mem_files hfound hf).2.2,
    fun k hk => ?_, ?_⟩
  · rw [(of_ofPaths? hfound).2.1, map_fst_sources]
    exact (hnodup.filter _).filter _
  · obtain ⟨manifest, hmem, rfl⟩ := mem_packages hfound hk
    rw [manifest_readPackage]
    exact .inr (hordinary manifest (mem_filter.1 hmem).1)
  · have hself : (((packageManifests policy paths).map
        (readPackage (fun path => fs.read (Spelling.under root path)) root)).map (·.1)).map Package.manifest =
          packageManifests policy paths := by
      rw [map_map, map_map]
      refine (map_congr_left (g := id) fun manifest _ => ?_).trans (map_id _)
      exact manifest_readPackage ..
    rw [(of_ofPaths? hfound).1, ((mergeSort_perm _ _).map Package.manifest).nodup_iff, hself]
    exact hnodup.filter _

end

end Cartograph.Scan
