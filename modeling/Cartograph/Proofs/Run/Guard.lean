import Cartograph.Proofs.Path.Lexical
import Cartograph.Proofs.Run.Transparency

/-!
# Which directories the guard of the store keeps out

A store must not be opened in the workspace itself or at the root of a package. Settings that name the workspace are
refused when they are loaded (`Config.Check.isRootDir`), and a run does not open a store at the root of a package
(`Plan.packageAt?`). Both resolve the directory by its spelling, and both give up where the spelling climbs above the
workspace. So together they keep out what they should unless the directory is spelled in one of three ways that they do
not see through, `Plan.Evades`, and but for an absolute path of a workspace that is not itself a package
(`Plan.openDisk_apart`). These exceptions are real.
-/

namespace Cartograph

open Cartograph.Path List
open FileSystem (Place IsName spell)
open Path.Spelling (below? isAbsolute)

/-! ### Roots of packages -/

/-- The root of a package is written with the names of directories. -/
theorem Scan.names_of_mem_packages {p : Plan} {fs : FileSystem} {place : Place} {scan : Scan} (hproper : fs.IsProper)
    (hdir : fs.node? place = some .dir) (hroot : p.root = spell place) (hscan : p.scanned fs = .ok scan) {k : Package}
    (hk : k ∈ scan.packages) : (∀ name ∈ moves k.root, IsName name) ∧ k.root = ofSegments (moves k.root) := by
  obtain ⟨paths, hwalk, hfound⟩ := of_scan_eq_ok (Plan.scan_eq_ok hscan)
  obtain ⟨manifest, hmanifest, rfl⟩ := mem_packages hfound hk
  rw [hroot] at hwalk
  obtain ⟨names, -, hne, hnames, hpath, -⟩ := Workspace.holds_of_walk hproper hdir hwalk (mem_filter.1 hmanifest).1
  have hfront : ∀ name ∈ names.dropLast, IsName name := fun name hname => hnames name (dropLast_subset _ hname)
  have hroot : parent manifest = ofSegments names.dropLast := by
    rw [hpath, parent, segments_ofSegments hne fun name hname => (hnames name hname).2.1]
    split
    · next hempty => rw [hempty]; rfl
    · rfl
  rw [root_readPackage, hroot, moves_names hfront]
  exact ⟨hfront, rfl⟩

namespace Plan

variable {p : Plan} {fs : FileSystem} {place : Place} {packages : List Package} {dir inside path below : String}

/-! ### What the guard does not see -/

/-- How a directory can be spelled so that its place is hidden from the guard. -/
inductive Evades (p : Plan) (fs : FileSystem) : Prop
  /-- It is spelled below the workspace, but climbs above it on the way. -/
  | climbs {inside : String} (hinside : below? p.root p.cacheDir = some inside)
      (hout : resolve? "" (withSlashes inside) = none)
  /-- A backslash in it, which belongs to a name, is taken for a slash. -/
  | backslash {inside : String} (hinside : p.insideRoot? fs p.cacheDir = some inside)
      (hslash : '\\' ∈ inside.toList)
  /-- It is not spelled below the workspace, and the file system does not lead to where the spelling does. -/
  | elsewhere (houtside : below? p.root p.cacheDir = none)
      (hplace : fs.canonical p.cacheDir ≠ .ok (spell (lexical p.cacheDir)))

theorem withSlashes_eq_self (h : '\\' ∉ path.toList) : withSlashes path = path := by
  have hmap : path.toList.map (fun c => if c = '\\' then '/' else c) = path.toList := by
    refine (map_congr_left fun c hc => ?_).trans (map_id _)
    have hne : c ≠ '\\' := fun hback => h (hback ▸ hc)
    rw [if_neg hne, id]
  rw [withSlashes, hmap, String.ofList_toList]

theorem cacheDir_isAbsolute (hroot : p.root = spell place) : isAbsolute p.cacheDir = true := by
  rw [cacheDir, hroot]
  exact FileSystem.isAbsolute_under_spell place _

/-- No package stands at the resolved directory when the guard finds none. -/
theorem ne_of_packageAt?_eq_none (hnone : p.packageAt? fs dir packages = none)
    (hinside : p.insideRoot? fs dir = some inside) (hbelow : resolve? "" (withSlashes inside) = some below) :
    ∀ k ∈ packages, k.root ≠ below := by
  intro k hk heq
  have hfound : (packages.find? (·.root == below)).isSome = true := find?_isSome.2 ⟨k, hk, beq_iff_eq.2 heq⟩
  obtain ⟨found, hfound⟩ := Option.isSome_iff_exists.1 hfound
  simp [packageAt?, hinside, hbelow, hfound] at hnone

/-- The guard finds no package where none stands at the resolved directory. -/
theorem packageAt?_eq_none (hinside : p.insideRoot? fs dir = some inside)
    (hnone : ∀ k ∈ packages, resolve? "" (withSlashes inside) ≠ some k.root) :
    p.packageAt? fs dir packages = none := by
  cases hpackage : p.packageAt? fs dir packages with
  | none => rfl
  | some name =>
    simp only [packageAt?, hinside, Option.bind_eq_bind, Option.bind_some, Option.bind_eq_some_iff] at hpackage
    obtain ⟨below, hbelow, k, hk, -⟩ := hpackage
    have hfound := find?_some hk
    rw [beq_iff_eq] at hfound
    exact absurd (hfound ▸ hbelow) (hnone k (mem_of_find?_eq_some hk))

section

variable (hplace : ∀ name ∈ place, IsName name) (hroot : p.root = spell place) (hsees : ¬ p.Evades fs)
include hplace hroot hsees

/-- A directory that is spelled below the workspace is resolved to the names behind the workspace in its place. -/
theorem exists_resolve?_inside (hbelow : below? p.root p.cacheDir = some inside) :
    ∃ names, withSlashes inside = inside ∧ resolve? "" inside = some (ofSegments names) ∧
      lexical p.cacheDir = place ++ names := by
  have hinside : p.insideRoot? fs p.cacheDir = some inside := by rw [insideRoot?, hbelow]
  have hslashes := withSlashes_eq_self fun hslash => hsees (.backslash hinside hslash)
  cases hresolve : resolve? "" inside with
  | none => exact absurd (.climbs hbelow (hslashes.symm ▸ hresolve)) hsees
  | some below =>
    obtain ⟨names, rfl, hfold⟩ := of_resolve? hresolve
    rw [hroot] at hbelow
    obtain ⟨tail, hmoves, rfl⟩ := (below?_spell hplace (cacheDir_isAbsolute hroot)).1 hbelow
    have htail : moves (ofSegments tail) = tail := moves_ofSegments fun s hs =>
      of_mem_moves (hmoves ▸ mem_append_right place hs)
    refine ⟨names, hslashes, rfl, ?_⟩
    rw [lexical_eq, hmoves, foldl_append, foldl_enter_names fun name hname => (hplace name hname).1, ← htail,
      nil_append, hfold place]

/-- **A directory that the guard sees is not the root of a package** if it lets it pass. -/
theorem lexical_ne_of_packageAt?_eq_none (hnone : p.packageAt? fs p.cacheDir packages = none) {k : Package}
    (hk : k ∈ packages) (hnames : ∀ name ∈ moves k.root, IsName name) (hwritten : k.root = ofSegments (moves k.root)) :
    lexical p.cacheDir ≠ place ++ moves k.root := by
  intro heq
  cases hbelow : below? p.root p.cacheDir with
  | some inside =>
    obtain ⟨names, hslashes, hresolve, hlexical⟩ := exists_resolve?_inside hplace hroot hsees hbelow
    rw [heq, append_cancel_left_eq] at hlexical
    refine ne_of_packageAt?_eq_none hnone (by rw [insideRoot?, hbelow]) (hslashes.symm ▸ hresolve) k hk ?_
    rw [hwritten, hlexical]
  | none =>
    have hcanonical : fs.canonical p.cacheDir = .ok (spell (lexical p.cacheDir)) := by
      by_contra hother
      exact hsees (.elsewhere hbelow hother)
    have hall : ∀ name ∈ place ++ moves k.root, IsName name := fun name hname =>
      (mem_append.1 hname).elim (hplace name) (hnames name)
    have hunder : below? p.root (spell (place ++ moves k.root)) = some k.root := by
      rw [hroot, below?_spell hplace (FileSystem.isAbsolute_spell _)]
      exact ⟨moves k.root, moves_spell hall, hwritten⟩
    have hinside : p.insideRoot? fs p.cacheDir = some k.root := by
      rw [insideRoot?, hbelow, hcanonical, heq]
      exact hunder
    have hplain : '\\' ∉ k.root.toList := fun hslash => hsees (.backslash hinside hslash)
    have hresolve : resolve? "" (withSlashes k.root) = some k.root := by
      rw [withSlashes_eq_self hplain, hwritten]
      exact resolve?_names hnames
    exact ne_of_packageAt?_eq_none hnone hinside hresolve k hk rfl

/-- Settings whose directory is the workspace itself are refused, if it is written from there. -/
theorem lexical_ne_of_isRootDir (hchecked : Config.Check.isRootDir p.config.cache.dir = false)
    (hrelative : isAbsolute p.config.cache.dir = false) : lexical p.cacheDir ≠ place := by
  intro heq
  have hmoves : moves p.cacheDir = place ++ moves p.config.cache.dir := by
    rw [cacheDir, hroot]
    exact moves_under_spell hplace hrelative
  have hbelow : below? p.root p.cacheDir = some (ofSegments (moves p.config.cache.dir)) := by
    rw [hroot, below?_spell hplace (cacheDir_isAbsolute hroot)]
    exact ⟨_, hmoves, rfl⟩
  have hplain : '\\' ∉ p.config.cache.dir.toList := by
    intro hslash
    refine hsees (.backslash (by rw [insideRoot?, hbelow]) ?_)
    -- a backslash stands in a segment that is neither empty nor a dot
    rw [← ofSegments_segments p.config.cache.dir] at hslash
    by_contra hnot
    refine not_mem_ofSegments (by decide) (fun segment hsegment hc => ?_) hslash
    by_cases hidle : Spelling.isIdle segment = true
    · obtain rfl | rfl := isIdle_iff.1 hidle <;> exact absurd hc (by decide)
    · exact hnot (mem_ofSegments (mem_filter.2 ⟨hsegment, by simpa using hidle⟩) hc)
  have hresolve : resolve? "" p.config.cache.dir = some "" := by
    obtain ⟨names, -, hresolve, hlexical⟩ := exists_resolve?_inside hplace hroot hsees hbelow
    obtain rfl : names = [] := append_right_eq_self.1 (hlexical.symm.trans heq)
    rwa [resolve?_eq, moves_ofSegments fun s hs => of_mem_moves hs, ← resolve?_eq] at hresolve
  have hslashes : resolve? "" (withSlashes p.config.cache.dir) = some "" := by
    rw [withSlashes_eq_self hplain, hresolve]
  have hhead : (p.config.cache.dir.toList.head? != some '/') = true := by
    rw [bne, ← isAbsolute, hrelative]
    rfl
  change (_ && resolve? "" (withSlashes p.config.cache.dir) == some "") = false at hchecked
  rw [hhead, hslashes] at hchecked
  cases hchecked

end

theorem isRootDir_of_loads {settings : Settings} {origin : Option String} {c : Config}
    (h : Config.Loads settings origin c) : Config.Check.isRootDir c.cache.dir = false := by
  have hcache := h.cache
  unfold Config.Check.cache at hcache
  dsimp only at hcache
  split at hcache
  · cases hcache
  · next hroot =>
    rw [← Except.ok.inj hcache]
    simpa using hroot

/-- What opening a store in a directory comes to once the guard has found no package. -/
theorem openDisk_of_packageAt?_eq_none {s : Session} (h : p.packageAt? s.files p.cacheDir packages = none) :
    (p.openDisk packages s).1 =
      (({ dir := p.cacheDir, process := s.process } : Disk).prepare s.tickets s.files).1.map fun _ =>
        { dir := p.cacheDir, process := s.process } := by
  rw [openDisk, h]

/-- **A store is opened apart from packages.** If it is opened, then in the directory of the settings, and that is neither
the root of a package nor, unless it is an absolute path, the workspace, or else its spelling evades the guard. And if
no package stands where the spelling is resolved to, as when it climbs above the workspace, then whether the store is
opened depends on the file system alone. -/
theorem openDisk_apart {s : Session} {settings : Settings} {origin : Option String} {scan : Scan}
    (hconfig : Config.ofSettings settings origin = .ok p.config) (hproper : s.files.IsProper)
    (hdir : s.files.node? place = some .dir) (hroot : p.root = spell place) (hscan : p.scanned s.files = .ok scan) :
    (∀ d, (p.openDisk scan.packages s).1 = .ok d → d.dir = p.cacheDir ∧ (p.Evades s.files ∨
      (∀ k ∈ scan.packages, lexical d.dir ≠ place ++ moves k.root) ∧
        (lexical d.dir = place → isAbsolute p.config.cache.dir = true))) ∧
    ∀ inside, below? p.root p.cacheDir = some inside →
      (∀ k ∈ scan.packages, Path.resolve? "" (withSlashes inside) ≠ some k.root) →
      (p.openDisk scan.packages s).1 =
        (({ dir := p.cacheDir, process := s.process } : Disk).prepare s.tickets s.files).1.map fun _ =>
          { dir := p.cacheDir, process := s.process } := by
  have hplace := hproper.isName_of_node? hdir
  constructor
  · intro d hopen
    cases hpackage : p.packageAt? s.files p.cacheDir scan.packages with
    | some package =>
      rw [openDisk, hpackage] at hopen
      cases hopen
    | none =>
      have hd : d.dir = p.cacheDir := by
        rw [openDisk_of_packageAt?_eq_none hpackage] at hopen
        cases hresult : (({ dir := p.cacheDir, process := s.process } : Disk).prepare s.tickets s.files).1 with
        | error e => rw [hresult] at hopen; cases hopen
        | ok _ =>
          rw [hresult] at hopen
          cases hopen
          rfl
      refine ⟨hd, ?_⟩
      rw [hd]
      by_cases hevades : p.Evades s.files
      · exact .inl hevades
      · refine .inr ⟨fun k hk => ?_, fun heq => ?_⟩
        · obtain ⟨hnames, hwritten⟩ := Scan.names_of_mem_packages hproper hdir hroot hscan hk
          exact lexical_ne_of_packageAt?_eq_none hplace hroot hevades hpackage hk hnames hwritten
        · by_contra hrelative
          exact lexical_ne_of_isRootDir hplace hroot hevades (isRootDir_of_loads (Config.loads_of_ofSettings hconfig))
            (by simpa using hrelative) heq
  · intro inside hinside hnone
    apply openDisk_of_packageAt?_eq_none
    exact packageAt?_eq_none (by rw [insideRoot?, hinside]) hnone

end Plan

/-- A workspace that is itself a package. -/
def guardedFiles : FileSystem :=
  { nodes := [(["w"], .dir), (["w", "package.json"], .file "{}".toByteArray)] }

/-- Settings that put the store into a directory. -/
def guardedSettings (dir : String) : Settings := { cache := { dir := some dir } }

/-- A run over that workspace with the store in a directory. -/
def guardedPlan (dir : String) : Plan where
  root := spell ["w"]
  config := { cache := { dir }, categories := Config.Check.policyOf [], fingerprint := (guardedSettings dir).fingerprint }
  languages := []
  analyzers := []

theorem guardedFiles_isProper : guardedFiles.IsProper := by decide +kernel

theorem exists_guardedScan (dir : String) :
    ∃ scan, (guardedPlan dir).scanned guardedFiles = .ok scan ∧ scan.packages.map (·.root) = [""] := by
  have hroots : ((guardedPlan "").scanned guardedFiles).toOption.map (·.packages.map (·.root)) = some [""] := by
    decide +kernel
  change ((guardedPlan dir).scanned guardedFiles).toOption.map _ = _ at hroots
  cases hscan : (guardedPlan dir).scanned guardedFiles with
  | error e => rw [hscan] at hroots; cases hroots
  | ok scan =>
    rw [hscan] at hroots
    exact ⟨scan, rfl, Option.some.inj hroots⟩

/-- The store is opened wherever the guard does not see the package. -/
theorem openDisk_guardedPlan {dir inside : String} {packages : List Package}
    (hroots : packages.map (·.root) = [""])
    (hinside : below? (guardedPlan dir).root (guardedPlan dir).cacheDir = some inside)
    (hsees : resolve? "" (Plan.withSlashes inside) ≠ some "")
    (hprepare : (({ dir := (guardedPlan dir).cacheDir, process := 0 } : Disk).prepare 0 guardedFiles).1.toOption =
      some ()) :
    ((guardedPlan dir).openDisk packages { files := guardedFiles, process := 0 }).1 =
      .ok { dir := (guardedPlan dir).cacheDir, process := 0 } := by
  have hnone : (guardedPlan dir).packageAt? guardedFiles (guardedPlan dir).cacheDir packages = none := by
    refine Plan.packageAt?_eq_none (by rw [Plan.insideRoot?, hinside]) fun k hk => ?_
    have hroot : k.root ∈ packages.map (·.root) := mem_map_of_mem hk
    rw [hroots, mem_singleton] at hroot
    rwa [hroot]
  have hopened : ((guardedPlan dir).openDisk packages { files := guardedFiles, process := 0 }).1 =
      (({ dir := (guardedPlan dir).cacheDir, process := 0 } : Disk).prepare 0 guardedFiles).1.map fun _ =>
        { dir := (guardedPlan dir).cacheDir, process := 0 } := Plan.openDisk_of_packageAt?_eq_none hnone
  rw [hopened]
  generalize (({ dir := (guardedPlan dir).cacheDir, process := 0 } : Disk).prepare 0 guardedFiles).1 = result
    at hprepare ⊢
  cases result with
  | error e => cases hprepare
  | ok _ => rfl

/-- A store is opened in a directory that is written with a detour, apart from the package. -/
theorem Plan.openDisk_apart_detour :
    let p := guardedPlan "x/../store"
    let s : Session := { files := guardedFiles, process := 0 }
    Config.ofSettings (guardedSettings "x/../store") none = .ok p.config ∧ guardedFiles.IsProper ∧
      guardedFiles.node? ["w"] = some .dir ∧
      ∃ scan d, p.scanned guardedFiles = .ok scan ∧ (p.openDisk scan.packages s).1 = .ok d ∧
        (∀ k ∈ scan.packages, lexical d.dir ≠ ["w"] ++ moves k.root) ∧ lexical d.dir ≠ ["w"] := by
  intro p s
  obtain ⟨scan, hscan, hroots⟩ := exists_guardedScan "x/../store"
  have hconfig : Config.ofSettings (guardedSettings "x/../store") none = .ok p.config := rfl
  have hbelow : below? p.root p.cacheDir = some "x/../store" := by decide +kernel
  have hopen := openDisk_guardedPlan hroots hbelow (by decide +kernel) (by decide +kernel)
  have hsees : ¬ p.Evades guardedFiles := by
    rintro (⟨hinside, hout⟩ | ⟨hinside, hslash⟩ | ⟨houtside, -⟩)
    · cases hbelow.symm.trans hinside
      exact absurd hout (by decide +kernel)
    · rw [insideRoot?, hbelow] at hinside
      cases hinside
      exact absurd hslash (by decide)
    · exact absurd (hbelow.symm.trans houtside) (by simp)
  have hdir : s.files.node? ["w"] = some .dir := rfl
  obtain ⟨happart, -⟩ := openDisk_apart hconfig guardedFiles_isProper hdir rfl hscan
  obtain ⟨hpackages, hworkspace⟩ := (happart _ hopen).2.resolve_left hsees
  refine ⟨hconfig, guardedFiles_isProper, rfl, scan, _, hscan, hopen, hpackages, fun heq => ?_⟩
  exact absurd (hworkspace heq) (by decide)

/-- **The guard can be evaded**: a path that leaves the workspace and comes back is accepted with the settings, and the
store is opened in the workspace, which is also the root of a package. -/
theorem Plan.openDisk_inside_package :
    let p := guardedPlan "../w"
    Config.ofSettings (guardedSettings "../w") none = .ok p.config ∧ p.root = spell ["w"] ∧
      ∃ scan d, p.scanned guardedFiles = .ok scan ∧
        (p.openDisk scan.packages { files := guardedFiles, process := 0 }).1 = .ok d ∧
        lexical d.dir = ["w"] ∧ ∃ k ∈ scan.packages, lexical d.dir = ["w"] ++ moves k.root := by
  intro p
  obtain ⟨scan, hscan, hroots⟩ := exists_guardedScan "../w"
  have hbelow : below? p.root p.cacheDir = some "../w" := by decide +kernel
  have hopen := openDisk_guardedPlan hroots hbelow (by decide +kernel) (by decide +kernel)
  have hplace : lexical p.cacheDir = ["w"] := by decide +kernel
  refine ⟨rfl, rfl, scan, _, hscan, hopen, hplace, ?_⟩
  obtain ⟨k, hk, hroot⟩ := mem_map.1 (hroots ▸ mem_singleton.2 rfl : "" ∈ scan.packages.map (·.root))
  refine ⟨k, hk, ?_⟩
  rw [hroot]
  exact hplace

end Cartograph
