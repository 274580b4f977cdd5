import Cartograph.Proofs.Run.Pool
import Cartograph.Proofs.Run.Soundness
import Cartograph.Proofs.Workspace.Regular
import Cartograph.Proofs.Workspace.Unseen

/-!
# Runs with a sound store

A run that starts with a sound store finds nothing in it but what it would compute itself, puts nothing into it
but genuine entries, and never changes a source file. So it leaves a sound store, and its report is the fresh one
(`Plan.IsFor.exec_runIn`). The only thing that is asked of the hash is that it tells apart the streams of the keys
that are looked up (`Plan.hashed`).
-/

namespace Cartograph

open List TypeScript
open Digest (Collisionless)
open Path.Spelling (under)
open FileSystem (Place IsStore Kept Spared spell)

variable {streams : Set (List UInt8)} {home : Place}

namespace Plan

variable {p : Plan}

/-! ### What a run hashes -/

/-- The files of a run that can be read, with what is made of their paths and contents. -/
def streamsOf (p : Plan) (fs : FileSystem) (paths : List String)
    (frame : String → ByteArray → Digest.Fingerprint) : List (List UInt8) :=
  paths.filterMap fun path => (fs.read (under p.root path)).toOption.map fun raw => (frame path raw).stream

/-- What the keys of analyzing, and the digests that stand in them, are made of. -/
def analysisStreams (p : Plan) (settings : Settings) (fs : FileSystem) (scan : Scan) : List (List UInt8) :=
  let files := scan.files.map (p.freshFile fs)
  settings.frame.stream :: (Graph.frame scan.packages files).stream ::
    (p.streamsOf fs (scan.packages.map (·.manifest)) (fun _ => Manifest.frame) ++
      p.streamsOf fs (scan.files.map (·.1)) (fun _ => Content.frame) ++
      (p.analyzers.filter p.runs).map fun analyzer => (analysisFrame (p.context scan files) analyzer).stream)

/-- **What a run hashes** for the keys that it looks up. -/
def hashed (p : Plan) (settings : Settings) (s : Session) : List (List UInt8) :=
  match p.scanned s.files with
  | .error _ => []
  | .ok scan =>
    if s.stops .scan || s.stops .parse then []
    else
      p.streamsOf s.files (scan.files.map (·.1)) parseFrame ++
        if s.stops .build || s.stops .analyze || !p.analyzers.any p.runs then []
        else p.analysisStreams settings s.files scan

theorem streamsOf_congr {fs fs' : FileSystem} {paths : List String}
    (hread : ∀ path ∈ paths, fs'.read (under p.root path) = fs.read (under p.root path))
    (frame : String → ByteArray → Digest.Fingerprint) : p.streamsOf fs' paths frame = p.streamsOf fs paths frame :=
  filterMap_congr fun path hpath => by rw [hread path hpath]

theorem mem_streamsOf {fs : FileSystem} {paths : List String}
    (frame : String → ByteArray → Digest.Fingerprint) {path : String} (hpath : path ∈ paths) {raw : ByteArray}
    (hread : fs.read (under p.root path) = .ok raw) :
    (frame path raw).stream ∈ p.streamsOf fs paths frame := by
  refine mem_filterMap.2 ⟨path, hpath, ?_⟩
  rw [hread]
  rfl

/-! ### Steps of a run -/

/-- What is run: the languages and analyzers of a check, with a configuration that was loaded from settings, over
a directory, with a store in memory or in a given directory. -/
structure IsFor (p : Plan) (settings : Settings) (home : Place) (s : Session) : Prop where
  languages : p.languages = Check.languages
  analyzers : p.analyzers = Check.analyzers
  config : ∃ origin, Config.ofSettings settings origin = .ok p.config
  root : ∃ place, s.files.node? place = some .dir ∧ p.root = spell place
  proper : s.files.IsProper
  home : p.config.cache.enabled = true → p.inMemory = false → ∀ place,
    (s.files.makeDirs p.cacheDir).2.locate p.cacheDir true = .ok place → place = home

/-- The languages and analyzers of a check never ask for a run to be given up. -/
theorem isQuiet_of_check (hlanguages : p.languages = Check.languages)
    (hanalyzers : p.analyzers = Check.analyzers) : p.IsQuiet where
  read language hlanguage path text := by
    rw [hlanguages, Check.languages, mem_singleton] at hlanguage
    rw [hlanguage]
    rfl
  analyze analyzer hanalyzer context := by
    rw [hanalyzers] at hanalyzer
    simp only [Check.analyzers, mem_cons, not_mem_nil, or_false] at hanalyzer
    obtain rfl | rfl | rfl := hanalyzer <;> rfl

/-- Plans that are made for a directory are of this kind. -/
theorem isFor_of_make {s : Session} {root : Option String} {config : Config} {inMemory : Bool}
    (hmake : Plan.make s.files root config Check.languages Check.analyzers inMemory = .ok p)
    {settings : Settings} {origin : Option String} (hconfig : Config.ofSettings settings origin = .ok config)
    (hproper : s.files.IsProper)
    (hhome : p.config.cache.enabled = true → p.inMemory = false → ∀ place,
      (s.files.makeDirs p.cacheDir).2.locate p.cacheDir true = .ok place → place = home) :
    p.IsFor settings home s := by
  unfold Plan.make at hmake
  dsimp only at hmake
  split at hmake
  · next place hresolve =>
    cases hmake
    exact ⟨rfl, rfl, ⟨origin, hconfig⟩, ⟨place, FileSystem.node?_of_resolve hresolve, rfl⟩, hproper, hhome⟩
  · cases hmake

/-- What is read as rules from outside of the workspace is read as before, if ignore files are respected. -/
def KeepsRules (p : Plan) (fs fs' : FileSystem) : Prop :=
  p.config.analyzer.respectIgnoreFiles = true → ∀ root, fs.node? root = some .dir → p.root = spell root → ∀ path,
    Workspace.IsOutside fs root p.ownIgnoreFile path → (fs'.read path).toOption = (fs.read path).toOption

namespace IsFor

variable {p : Plan} {settings : Settings} {s : Session} {scan : Scan} {t : Session} {file : String × Nat}
  {fs : FileSystem} {good : ByteArray → Prop} {store : Option Store}

section

variable (h : p.IsFor settings home s)
include h

/-- Whether a plan is of this kind depends on the files alone. -/
theorem of_files (hfiles : t.files = s.files) :
    p.IsFor settings home t :=
  ⟨h.languages, h.analyzers, h.config, hfiles ▸ h.root, hfiles ▸ h.proper, hfiles ▸ h.home⟩

/-- A plan stays of this kind while directories are spared, if its store stays where it is. -/
theorem of_spared (hspared : Spared s.files t.files) (hproper : t.files.IsProper)
    (hhome : p.inMemory = false → ∀ place,
      (t.files.makeDirs p.cacheDir).2.locate p.cacheDir true = .ok place → place = home) :
    p.IsFor settings home t := by
  obtain ⟨root, hdir, hroot⟩ := h.root
  exact ⟨h.languages, h.analyzers, h.config, ⟨root, hspared.dir hdir, hroot⟩, hproper, fun _ => hhome⟩

theorem isQuiet : p.IsQuiet := isQuiet_of_check h.languages h.analyzers

theorem extensions_eq : p.extensions = TypeScript.extensions := by
  rw [extensions, h.languages]
  rfl

theorem language?_eq {path : String} (hpath : IsSource path) : p.language? path = some language := by
  obtain ⟨e, he, hextension⟩ := hpath
  rw [language?, hextension, Option.bind_some, h.languages]
  refine find?_cons_of_pos ?_
  exact contains_iff_mem.2 he

end

theorem of_scanned (hscan : p.scanned s.files = .ok scan) :
    ∃ paths, Workspace.walk s.files p.root p.config.analyzer.respectIgnoreFiles p.ownIgnoreFile = .ok paths ∧
      Scan.ofPaths? (fun path => s.files.read (under p.root path)) p.root p.config.analyzer
        p.extensions p.configLabel paths = some scan :=
  Scan.of_scan_eq_ok (scan_eq_ok hscan)

section

variable (h : p.IsFor settings home s) (hscan : p.scanned s.files = .ok scan)
include h hscan

/-- **Source files** lie in the workspace, are read in the language, and belong to one of the packages. -/
theorem of_mem_files (hfile : file ∈ scan.files) :
    (∀ place, s.files.node? place = some .dir → p.root = spell place → Workspace.Holds s.files place file.1) ∧
      IsSource file.1 ∧ file.2 < scan.packages.length := by
  obtain ⟨paths, hwalk, hfound⟩ := of_scanned hscan
  obtain ⟨hpath, hsource, hpackage⟩ := Scan.mem_files hfound hfile
  rw [h.extensions_eq] at hsource
  refine ⟨fun place hdir hroot => ?_, hsource, hpackage⟩
  rw [hroot] at hwalk
  exact Workspace.holds_of_walk h.proper hdir hwalk hpath

/-- Source files stay as they are while foreign files are spared. -/
theorem read_eq_of_spared (hfile : file ∈ scan.files) (hspared : Spared s.files fs) :
    fs.read (under p.root file.1) = s.files.read (under p.root file.1) := by
  obtain ⟨place, hdir, hroot⟩ := h.root
  obtain ⟨hholds, hsource, -⟩ := h.of_mem_files hscan hfile
  obtain ⟨extension, hextension, hpath⟩ := hsource
  rw [hroot]
  exact Workspace.read_eq_of_spared h.proper hdir hspared (hholds place hdir hroot)
    (Cache.isForeign_fileName hpath hextension)

/-- Source files stay as they are while a store is used. -/
theorem read_eq_of_continues (hfile : file ∈ scan.files) (ht : s.Continues good home store t) :
    t.files.read (under p.root file.1) = s.files.read (under p.root file.1) :=
  h.read_eq_of_spared hscan hfile ht.touched.spared

/-- So do the manifests of packages. -/
theorem read_manifest_of_spared {k : Package} (hk : k ∈ scan.packages) (hspared : Spared s.files fs) :
    fs.read (under p.root k.manifest) = s.files.read (under p.root k.manifest) := by
  obtain ⟨place, hdir, hroot⟩ := h.root
  obtain ⟨paths, hwalk, hfound⟩ := of_scanned hscan
  obtain ⟨manifest, hmanifest, rfl⟩ := Scan.mem_packages hfound hk
  obtain ⟨hmem, hpath⟩ := mem_filter.1 hmanifest
  rw [Bool.and_eq_true] at hpath
  rw [hroot] at hwalk
  rw [Scan.manifest_readPackage, hroot]
  exact Workspace.read_eq_of_spared h.proper hdir hspared (Workspace.holds_of_walk h.proper hdir hwalk hmem)
    (Scan.isForeign_of_isManifest hpath.1)

/-- **Packages**: each was read from the manifest in its directory, which has no zero in its name. -/
theorem of_mem_packages {k : Package} (hk : k ∈ scan.packages) :
    '\x00' ∉ k.root.toList ∧ k.manifest = Path.join k.root "package.json" ∧
      ∃ fallback, k = (Manifest.package k.root k.manifest fallback (s.files.read (under p.root k.manifest))).1 := by
  obtain ⟨place, hdir, hroot⟩ := h.root
  obtain ⟨paths, hwalk, hfound⟩ := of_scanned hscan
  obtain ⟨manifest, hmanifest, rfl⟩ := Scan.mem_packages hfound hk
  have hmem : manifest ∈ paths := (mem_filter.1 hmanifest).1
  have hholds := Workspace.holds_of_walk h.proper hdir (hroot ▸ hwalk) hmem
  refine ⟨?_, Scan.manifest_eq_join _ hmanifest hholds.isOrdinary, ?_⟩
  · rw [Scan.root_readPackage]
    exact hholds.nul_not_mem_parent
  · rw [Scan.root_readPackage, Scan.manifest_readPackage]
    exact ⟨_, rfl⟩

end

theorem freshFile_congr {fs' : FileSystem}
    (hread : fs'.read (under p.root file.1) = fs.read (under p.root file.1)) :
    p.freshFile fs' file = p.freshFile fs file := by
  unfold freshFile
  rw [hread]

theorem freshFile_unread {cause : OsError} (hread : fs.read (under p.root file.1) = .error cause) :
    p.freshFile fs file = ⟨file.1, file.2, "", .failed (.unreadable cause.message)⟩ := by
  unfold freshFile
  rw [hread]

theorem freshFile_eq (h : p.IsFor settings home s) (hsource : IsSource file.1) {raw : ByteArray}
    (hread : fs.read (under p.root file.1) = .ok raw) :
    p.freshFile fs file = ⟨file.1, file.2, (Content.ofBytes raw).hash, Content.outcome raw file.1⟩ := by
  unfold freshFile
  rw [hread]
  rw [h.language?_eq hsource]
  rfl

/-- **What analyzers look at was read** from the workspace and the settings. -/
theorem context_isRead (h : p.IsFor settings home s) (hscan : p.scanned s.files = .ok scan)
    (hstreams : ∀ stream ∈ p.analysisStreams settings s.files scan, stream ∈ streams) :
    (p.context scan (scan.files.map (p.freshFile s.files))).IsRead streams := by
  obtain ⟨origin, hconfig⟩ := h.config
  refine ⟨⟨settings, origin, Config.loads_of_ofSettings hconfig, hstreams _ mem_cons_self⟩,
    scan.packages, _, ⟨fun k hk => ?_, fun f hf => ?_, fun f hf => ?_, ?_⟩, rfl⟩
  · obtain ⟨hnul, hplace, fallback, hpackage⟩ := h.of_mem_packages hscan hk
    refine ⟨hnul, hplace, fallback, _, hpackage, fun bytes hbytes => hstreams _ ?_⟩
    have hmem := mem_streamsOf (fun _ => Manifest.frame) (mem_map_of_mem hk) hbytes
    simp [analysisStreams, hmem]
  · obtain ⟨file, hfile, rfl⟩ := mem_map.1 hf
    obtain ⟨-, hsource, -⟩ := h.of_mem_files hscan hfile
    cases hread : s.files.read (under p.root file.1) with
    | error cause =>
      rw [freshFile_unread hread]
      exact .unread _ rfl rfl
    | ok raw =>
      rw [h.freshFile_eq hsource hread]
      have hmem := mem_streamsOf (fun _ => Content.frame) (mem_map_of_mem hfile) hread
      exact .read raw hsource rfl rfl (hstreams _ (by simp [analysisStreams, hmem]))
  · obtain ⟨file, hfile, rfl⟩ := mem_map.1 hf
    obtain ⟨-, hsource, hpackage⟩ := h.of_mem_files hscan hfile
    cases hread : s.files.read (under p.root file.1) with
    | error cause => rwa [freshFile_unread hread]
    | ok raw => rwa [h.freshFile_eq hsource hread]
  · exact hstreams _ (mem_cons_of_mem _ mem_cons_self)

section

variable (h : p.IsFor settings home s) (hs : s.files.IsWellFormed) (hspared : Spared s.files t.files)
  (hkept : Kept s.files t.files) (hrules : p.KeepsRules s.files t.files)
include h hs hspared hkept hrules

/-- **A scan finds the same** when directories, links and foreign files are spared. -/
theorem scanned_eq : p.scanned t.files = p.scanned s.files := by
  obtain ⟨root, hdir, hroot⟩ := h.root
  have hextensions : ∀ e ∈ p.extensions, e ∈ TypeScript.extensions := by
    rw [h.extensions_eq]
    exact fun e he => he
  rw [scanned, scanned, hroot]
  rw [Scan.scan_eq_of_spared hs (hkept.wellFormed hs) hdir hspared hkept.current
    (fun hrespect => hrules hrespect root hdir hroot) hextensions]

/-- **A run hashes the same** then. -/
theorem hashed_eq (hstops : ∀ phase, phase ≠ .aggregate → t.stops phase = s.stops phase) :
    p.hashed settings t = p.hashed settings s := by
  rw [hashed, hashed, h.scanned_eq hs hspared hkept hrules]
  cases hscan : p.scanned s.files with
  | error e => rfl
  | ok scan =>
    have hread : ∀ path ∈ scan.files.map (·.1), t.files.read (under p.root path) =
        s.files.read (under p.root path) := by
      intro path hpath
      obtain ⟨file, hfile, rfl⟩ := mem_map.1 hpath
      exact h.read_eq_of_spared hscan hfile hspared
    have hmanifests : ∀ path ∈ scan.packages.map (·.manifest), t.files.read (under p.root path) =
        s.files.read (under p.root path) := by
      intro path hpath
      obtain ⟨k, hk, rfl⟩ := mem_map.1 hpath
      exact h.read_manifest_of_spared hscan hk hspared
    have hfresh : scan.files.map (p.freshFile t.files) = scan.files.map (p.freshFile s.files) :=
      map_congr_left fun file hfile => freshFile_congr (h.read_eq_of_spared hscan hfile hspared)
    simp only [analysisStreams, streamsOf_congr hread, streamsOf_congr hmanifests, hfresh, hstops .scan (by decide),
      hstops .parse (by decide), hstops .build (by decide), hstops .analyze (by decide)]

end

section

variable (hscan : p.scanned s.files = .ok scan) (hstart : s.stops .scan = false) (hparse : s.stops .parse = false)
include hscan hstart hparse

/-- The streams of the keys of a run are among those that it hashes. -/
theorem mem_hashed_parse (hfile : file ∈ scan.files) {raw : ByteArray}
    (hread : s.files.read (under p.root file.1) = .ok raw) : (parseFrame file.1 raw).stream ∈ p.hashed settings s := by
  have hmem := mem_streamsOf parseFrame (mem_map_of_mem hfile) hread
  rw [hashed, hscan]
  rw [hstart, hparse]
  exact mem_append_left _ hmem

theorem mem_hashed_analysis (hbuild : s.stops .build = false) (hanalyze : s.stops .analyze = false)
    {analyzer : Analyzer} (hanalyzer : analyzer ∈ p.analyzers) (hruns : p.runs analyzer = true) {stream : List UInt8}
    (hstream : stream ∈ p.analysisStreams settings s.files scan) : stream ∈ p.hashed settings s := by
  have hany : p.analyzers.any p.runs = true := any_eq_true.2 ⟨analyzer, hanalyzer, hruns⟩
  rw [hashed, hscan]
  rw [hstart, hparse, hbuild, hanalyze, hany]
  exact mem_append_right _ hstream

end

section

variable (hstreams : Collisionless streams) (h : p.IsFor settings home s)
include hstreams h

/-- **What a sound store has for a file** is what it gives afresh, and putting that keeps the store sound. -/
theorem outcome_of_follows {own : Store} {language : Language} {content : Content}
    (hreads : p.Reads s.files file language content) (hsource : IsSource file.1)
    (hhashed : ∀ raw, s.files.read (under p.root file.1) = .ok raw → (parseFrame file.1 raw).stream ∈ streams)
    (ht : s.Follows streams home (some own) t) :
    (∀ outcome, own.outcome? t (parseKey language file.1 content) = some outcome →
      outcome = (p.freshFile s.files file).outcome) ∧
      s.Follows streams home (some own)
        (own.put t (parseKey language file.1 content) (.parse (p.freshFile s.files file).outcome)) := by
  obtain ⟨raw, hraw, hlanguage, rfl⟩ := hreads
  obtain rfl := Option.some.inj ((h.language?_eq hsource).symm.trans hlanguage)
  have hstream := hhashed raw hraw
  have hdigest := Digest.isDigest_digest (parseFrame file.1 raw)
  rw [h.freshFile_eq hsource hraw]
  refine ⟨fun outcome hfound => ?_,
    ht.put rfl hdigest (CacheEntry.isGenuine_parse hstreams hsource hstream t.stamp)⟩
  obtain ⟨e, hget, hvalue⟩ := Store.outcome?_eq_some hfound
  obtain ⟨hgenuine, hkey⟩ := Store.isGenuine_of_get? ht.sound (ht.isOpen own rfl) hdigest hget
  rw [hgenuine.parse hsource hstream hkey] at hvalue
  exact (CachedValue.parse.inj hvalue).symm

/-- **Running an analyzer** gives what it gives afresh, whether or not a sound store has it. -/
theorem run_analyze_of_follows {context : AnalysisContext} (hconfig : context.config = p.config) {analyzer : Analyzer}
    (hanalyzer : analyzer ∈ p.analyzers) (hcontext : p.runs analyzer = true → context.IsRead streams)
    (hstream : p.runs analyzer = true → (analysisFrame context analyzer).stream ∈ streams)
    (ht : s.Follows streams home store t) :
    ((p.analyze store context analyzer).run t).1.1 = p.freshFindings context analyzer ∧
      s.Follows streams home store ((p.analyze store context analyzer).run t).2 := by
  rw [run_analyze, freshFindings]
  split
  next hruns =>
    have hdigest := Digest.isDigest_digest (analysisFrame context analyzer)
    dsimp only
    rw [h.isQuiet.analyze analyzer hanalyzer, cancelIf_false, analysisKey_eq h.languages hconfig]
    rw [h.analyzers] at hanalyzer
    cases store with
    | none => exact ⟨rfl, ht⟩
    | some own =>
      dsimp only
      cases hfound : own.findings? t (analysisFrame context analyzer).digest with
      | none =>
        exact ⟨rfl, ht.put rfl hdigest (CacheEntry.isGenuine_analysis hstreams (hcontext hruns) hanalyzer
          (hstream hruns) t.stamp)⟩
      | some found =>
        obtain ⟨e, hget, hvalue⟩ := Store.findings?_eq_some hfound
        obtain ⟨hgenuine, hkey⟩ := Store.isGenuine_of_get? ht.sound (ht.isOpen own rfl) hdigest hget
        rw [hgenuine.analysis (hcontext hruns) hanalyzer (hstream hruns) hkey] at hvalue
        obtain rfl := CachedValue.analysis.inj hvalue
        exact ⟨rfl, ht⟩
  next => exact ⟨rfl, ht⟩

theorem keeps (hhashed : ∀ stream ∈ p.hashed settings s, stream ∈ streams) (hscan : p.scanned s.files = .ok scan)
    (hstart : s.stops .scan = false) (store : Option Store) :
    p.Keeps s scan store (s.Follows streams home store) where
  quiet := h.isQuiet
  stops t ht := ht.toContinues.stops
  read file hfile t ht := h.read_eq_of_continues hscan hfile ht.toContinues
  parse hparse own hown file hfile language content hreads t ht := by
    subst hown
    obtain ⟨-, hsource, -⟩ := h.of_mem_files hscan hfile
    exact h.outcome_of_follows hstreams hreads hsource
      (fun raw hraw => hhashed _ (mem_hashed_parse hscan hstart hparse hfile hraw)) ht
  analyze hparse hbuild hanalyze context hcontext analyzer hanalyzer t ht := by
    subst hcontext
    have hmem : p.runs analyzer = true → ∀ stream ∈ p.analysisStreams settings s.files scan, stream ∈ streams :=
      fun hruns stream hstream => hhashed _
        (mem_hashed_analysis hscan hstart hparse hbuild hanalyze hanalyzer hruns hstream)
    refine h.run_analyze_of_follows hstreams rfl hanalyzer (fun hruns => ?_) (fun hruns => hmem hruns _ ?_) ht
    · exact h.context_isRead hscan (hmem hruns)
    · refine mem_cons_of_mem _ (mem_cons_of_mem _ (mem_append_right _ ?_))
      exact mem_map_of_mem (mem_filter.2 ⟨hanalyzer, hruns⟩)

end

/-! ### Opening the store -/

theorem cacheDir_ne_empty (h : p.IsFor settings home s) : p.cacheDir ≠ "" := by
  obtain ⟨place, -, hroot⟩ := h.root
  intro hempty
  have habsolute := FileSystem.isAbsolute_under_spell place p.config.cache.dir
  rw [← hroot, ← cacheDir, hempty] at habsolute
  exact absurd habsolute (by decide)

/-- **Opening a directory** gives a store there, or the reason why it cannot be used. -/
theorem openDisk_continues (h : p.IsFor settings home s) (hs : IsStore good home s.files)
    (henabled : p.config.cache.enabled = true) (hmemory : p.inMemory = false) (packages : List Package) :
    (p.openDisk packages s).2.memory = s.memory ∧
      ((∃ d, (p.openDisk packages s).1 = .ok d ∧
          s.Continues good home (some (.disk d)) (p.openDisk packages s).2) ∨
        ∃ error, (p.openDisk packages s).1 = .error error ∧
          s.Continues good home none (p.openDisk packages s).2) := by
  unfold openDisk
  dsimp only
  split
  · exact ⟨rfl, .inr ⟨_, rfl, nofun, .refl _ _ _, .refl _, rfl, rfl⟩⟩
  · obtain ⟨htouched, hopen⟩ := Disk.prepare_spec { dir := p.cacheDir, process := s.process }
      h.cacheDir_ne_empty hs (h.home henabled hmemory) s.tickets
    have hkept := Disk.kept_prepare { dir := p.cacheDir, process := s.process } s.tickets s.files
    generalize Disk.prepare _ s.tickets s.files = prepared at htouched hopen hkept ⊢
    obtain ⟨result, files⟩ := prepared
    refine ⟨rfl, ?_⟩
    cases result with
    | error error => exact .inr ⟨error, rfl, nofun, htouched, hkept, rfl, rfl⟩
    | ok _ =>
      refine .inl ⟨_, rfl, fun own hown => ?_, htouched, hkept, rfl, rfl⟩
      cases hown
      exact hopen rfl

theorem exec_openStore (p : Plan) (packages : List Package) (s : Session) :
    exec (p.openStore packages) s =
      if p.config.cache.enabled then
        if p.inMemory then (.ok (some .memory), s)
        else
          match p.openDisk packages s with
          | (.ok d, t) => (.ok (some (.disk d)), t)
          | (.error error, t) => (if p.config.cache.strict then .error (.cache error) else .ok none, t)
      else (.ok none, s) := by
  unfold openStore
  cases p.config.cache.enabled with
  | false => rfl
  | true =>
    cases p.inMemory with
    | true => rfl
    | false =>
      have hget : exec (get : Action Session) s = (.ok s, s) := rfl
      rw [Bool.not_true, if_neg Bool.false_ne_true, if_neg Bool.false_ne_true, if_pos rfl,
        if_neg Bool.false_ne_true, exec_bind, hget]
      dsimp only
      generalize p.openDisk packages s = opened
      obtain ⟨result, t⟩ := opened
      cases result with
      | ok d => rfl
      | error error => cases p.config.cache.strict <;> rfl

/-- **Opening the store** gives one that can be used, or none, or the reason why a run that insists on one cannot
have it. -/
theorem exec_openStore_continues (h : p.IsFor settings home s) (hs : IsStore good home s.files) (scan : Scan) :
    ∃ result t, exec (p.openStore scan.packages) s = (result, t) ∧ t.memory = s.memory ∧
      ((∃ store, result = .ok store ∧ p.refusal? s scan = none ∧ s.Continues good home store t) ∨
        ∃ error, result = .error (.cache error) ∧ p.refusal? s scan = some error ∧ s.Continues good home none t) := by
  rw [exec_openStore, refusal?]
  have hsame : ∀ store, (∀ own, store = some own → own.IsUsable good home s) → s.Continues good home store s :=
    fun store hopen => ⟨hopen, .refl _ _ _, .refl _, rfl, rfl⟩
  cases henabled : p.config.cache.enabled with
  | false => exact ⟨_, _, rfl, rfl, .inl ⟨_, rfl, rfl, hsame none fun own hown => by cases hown⟩⟩
  | true =>
    cases hmemory : p.inMemory with
    | true => exact ⟨_, _, rfl, rfl, .inl ⟨_, rfl, rfl, hsame _ fun own hown => by cases hown; trivial⟩⟩
    | false =>
      obtain ⟨hkept, hopen⟩ := h.openDisk_continues hs henabled hmemory scan.packages
      generalize p.openDisk scan.packages s = opened at hkept hopen ⊢
      obtain ⟨result, t⟩ := opened
      obtain ⟨d, rfl, hcontinues⟩ | ⟨error, rfl, hcontinues⟩ := hopen
      · cases p.config.cache.strict <;> exact ⟨_, _, rfl, hkept, .inl ⟨_, rfl, rfl, hcontinues⟩⟩
      · cases p.config.cache.strict with
        | false => exact ⟨_, _, rfl, hkept, .inl ⟨_, rfl, rfl, hcontinues⟩⟩
        | true => exact ⟨_, _, rfl, hkept, .inr ⟨_, rfl, rfl, hcontinues⟩⟩

section

variable (hstreams : Collisionless streams) (h : p.IsFor settings home s)
  (hhashed : ∀ stream ∈ p.hashed settings s, stream ∈ streams)
include hstreams h hhashed

/-- **A run with a sound store** gives the fresh report, in whatever order its workers read the files. It leaves a
sound store, from which nothing was removed if the run was stopped before its end. -/
theorem exec_runIn (hs : s.IsSound streams home) (schedule : List Nat) :
    (exec (p.runIn schedule) s).1.map Report.withoutCache = p.fresh s ∧
      (exec (p.runIn schedule) s).2.IsSound streams home ∧
      ∃ store, Left s store (s.Follows streams home store) (exec (p.runIn schedule) s).2 := by
  have hsame : s.Follows streams home none s := .of_continues hs ⟨nofun, .refl _ _ _, .refl _, rfl, rfl⟩ rfl
  -- the store is sound after every run, whether or not it was pruned
  suffices hleft : (exec (p.runIn schedule) s).1.map Report.withoutCache = p.fresh s ∧
      ∃ store, Left s store (s.Follows streams home store) (exec (p.runIn schedule) s).2 by
    obtain ⟨hreport, store, t, ht, hleft⟩ := hleft
    refine ⟨hreport, ?_, store, t, ht, hleft⟩
    obtain hleft | ⟨-, own, live, -, hleft⟩ := hleft
    · rw [hleft]
      exact ht.sound
    · rw [hleft]
      exact ht.sound.prune own live
  rw [runIn, exec_bind, exec_checkpoint, fresh]
  cases hstart : check s .scan with
  | error e => exact ⟨rfl, none, s, hsame, .inl rfl⟩
  | ok _ =>
    dsimp only
    rw [exec_bind, exec_scan]
    cases hscan : p.scanned s.files with
    | error e => exact ⟨rfl, none, s, hsame, .inl rfl⟩
    | ok scan =>
      dsimp only
      rw [exec_bind]
      change _ = p.freshScanned s scan ∧ _
      rw [freshScanned]
      obtain ⟨result, t, hopen, hmemory, ⟨store, rfl, hrefusal, ht⟩ | ⟨error, rfl, hrefusal, ht⟩⟩ :=
        h.exec_openStore_continues hs.disk scan
      · rw [hopen, hrefusal]
        obtain ⟨hreport, hleft⟩ := (h.keeps hstreams hhashed hscan (stops_of_check hstart) store).exec_restIn
          (.of_continues hs ht hmemory) schedule
        exact ⟨hreport, store, hleft⟩
      · rw [hopen, hrefusal]
        exact ⟨rfl, none, t, .of_continues hs ht hmemory, .inl rfl⟩

end

end IsFor

end Plan

end Cartograph
