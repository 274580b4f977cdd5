import Cartograph.Proofs.FileSystem.Spellings
import Cartograph.Proofs.Path.Lexical
import Cartograph.Proofs.Run.Relocation

/-!
# Spellings of the workspace

A check is given a path, and the workspace is the directory that it leads to. A directory has many spellings, and
checks of all of them end alike: they read the same configuration, come to the same end and report the same findings,
but for one thing. The workspace is known by its place, and the file of the configuration by the path that was given.
A finding on the configuration is located at that file relative to the workspace only if the given path starts with
the names of the place (`Plan.configLabel_eq_iff`); otherwise at a path that depends on the spelling. `check_alike`
says so of any two spellings.
-/

namespace Cartograph

open Check FileSystem List Plan
open Cartograph.Path (moves)
open Path.Spelling (isAbsolute isIdle below? under)

variable {place : Place} {name given : String}

/-! ### Names below a directory -/

namespace Path

variable {path base name next : String}

/-- A path starts at the root if an empty segment stands in front of others. -/
theorem isAbsolute_of_segments {rest : List String} (h : segments path = "" :: next :: rest) :
    isAbsolute path = true := by
  have hslash : "/".toList = ['/'] := rfl
  rw [← ofSegments_segments path, h, isAbsolute, ofSegments, String.toList_intercalate, hslash]
  simp

theorem below?_of_isAbsolute_eq_false (h : isAbsolute path = false) (place : Place) :
    below? (spell place) path = none := by
  have hroot : ∀ rest, components path ≠ .root :: rest := by
    intro rest hcomponents
    have hinner : ∀ rest, (segments path).filterMap component? ≠ .root :: rest := by
      intro rest hinner
      have hmem : Component.root ∈ (segments path).filterMap component? := hinner ▸ mem_cons_self
      obtain ⟨segment, -, hsegment⟩ := mem_filterMap.1 hmem
      unfold component? at hsegment
      split at hsegment
      · cases hsegment
      · split at hsegment <;> cases hsegment
    unfold components at hcomponents
    dsimp only at hcomponents
    split at hcomponents
    · next hsegments => rw [isAbsolute_of_segments hsegments] at h; cases h
    · cases hcomponents
    · exact hinner rest hcomponents
  rw [below?, components_of_isAbsolute (isAbsolute_spell place), Option.map_eq_none_iff]
  cases hdrop : Spelling.dropComponents? _ (components path) with
  | none => rfl
  | some rest => exact absurd (dropComponents?_eq_some.1 hdrop) (hroot _)

theorem isAbsolute_under (hbase : base ≠ "") (hpath : isAbsolute path = false) :
    isAbsolute (under base path) = isAbsolute base := by
  obtain ⟨slash, -, hunder⟩ := exists_under_eq hbase hpath
  obtain ⟨c, cs, hcs⟩ := exists_cons_of_ne_nil (show base.toList ≠ [] by simpa using hbase)
  rw [isAbsolute, isAbsolute, hunder, String.toList_append, hcs]
  rfl

theorem moves_under (hbase : base ≠ "") (hname : IsName name) : moves (under base name) = moves base ++ [name] := by
  obtain ⟨idle, hidle, hfront⟩ := segments_eq_frontSegments hbase
  have hempty : (idle.filter fun segment => !isIdle segment) = [] := by
    refine filter_eq_nil_iff.2 fun segment hsegment => ?_
    rw [hidle segment hsegment]
    decide
  have hkeep : ([name].filter fun segment => !isIdle segment) = [name] := by
    refine filter_isIdle_eq_self fun segment hsegment => ?_
    rw [mem_singleton.1 hsegment, not_isIdle_of_isOrdinary hname.1]
  rw [moves, moves, segments_under base hname.isAbsolute, segments_eq_singleton hname.2.1, hfront,
    filter_append, filter_append, hempty, hkeep, append_nil]

theorem under_ne (hbase : base ≠ "") (hname : IsName name) : under base name ≠ name := by
  obtain ⟨slash, -, hunder⟩ := exists_under_eq hbase hname.isAbsolute
  intro heq
  have hlength := congrArg String.length (hunder.symm.trans heq)
  have hpos : base.length ≠ 0 := by simpa using hbase
  rw [String.length_append, String.length_append] at hlength
  omega

/-- What is left of a path that ends in a name is the name, exactly if nothing in front of it is ordinary. -/
theorem ordinary_concat_eq_iff {front : List String} (hfront : ∀ s ∈ front, '/' ∉ s.toList) (hname : IsName name) :
    ordinary (ofSegments (front ++ [name])) = name ↔ front.filter isOrdinary = [] := by
  have hsegments : ∀ l : List String, (∀ s ∈ l, '/' ∉ s.toList) → segments (ofSegments (l ++ [name])) = l ++ [name] := by
    intro l hl
    refine segments_ofSegments (by simp) fun s hs => ?_
    obtain hs | hs := mem_append.1 hs
    · exact hl s hs
    · rw [mem_singleton.1 hs]
      exact hname.2.1
  have hkeep : [name].filter isOrdinary = [name] := filter_cons_of_pos hname.1
  rw [ordinary, hsegments front hfront, filter_append, hkeep]
  constructor
  · intro h
    have hsame := congrArg segments h
    rw [hsegments _ fun s hs => hfront s (mem_of_mem_filter hs), segments_eq_singleton hname.2.1] at hsame
    exact append_cancel_right (hsame.trans (nil_append [name]).symm)
  · intro h
    rw [h, nil_append, ← segments_eq_singleton hname.2.1, ofSegments_segments]

/-- Whether a path spells a place from the root on, without a detour: behind the names of the place there is nothing
but `..`, which stays at the place only if that is the root. -/
def IsDirect (place : Place) (path : String) : Prop :=
  isAbsolute path = true ∧ ∃ ups, moves path = place ++ ups ∧ ∀ up ∈ ups, up = ".."

end Path

open Cartograph.Path (IsDirect)

/-- **The label of a configuration** is its name exactly if the workspace was spelled directly. -/
theorem Plan.configLabel_eq_iff {p : Plan} (hplace : ∀ name ∈ place, IsName name)
    (hroot : p.root = spell place) (hgiven : given ≠ "") (hname : IsName name)
    (horigin : p.config.origin = some (under given name)) : p.configLabel = name ↔ IsDirect place given := by
  have habsolute := Path.isAbsolute_under hgiven hname.isAbsolute
  have hmoves := Path.moves_under hgiven hname
  rw [configLabel, horigin, hroot]
  dsimp only
  constructor
  · intro hlabel
    cases hbelow : below? (spell place) (under given name) with
    | none =>
      rw [hbelow] at hlabel
      exact absurd hlabel (Path.under_ne hgiven hname)
    | some below =>
      rw [hbelow] at hlabel
      dsimp only at hlabel
      -- nothing relative is spelled below an absolute path
      have hgivenAbsolute : isAbsolute given = true := by
        by_contra hrelative
        rw [Path.below?_of_isAbsolute_eq_false (habsolute.trans (Bool.not_eq_true _ ▸ hrelative))] at hbelow
        cases hbelow
      obtain ⟨tail, htail, rfl⟩ := (Path.below?_spell hplace (habsolute.trans hgivenAbsolute)).1 hbelow
      rw [hmoves] at htail
      obtain rfl | ⟨ups, last, rfl⟩ := eq_nil_or_concat tail
      · -- nothing is left of the path, as if the configuration were the workspace itself
        exact absurd hname.1 (by rw [← hlabel]; decide)
      · rw [concat_eq_append, ← append_assoc] at htail
        obtain ⟨hups, hlast⟩ := append_inj' htail rfl
        obtain rfl := (cons.inj hlast).1
        have hmove : ∀ up ∈ ups, isIdle up = false ∧ '/' ∉ up.toList := by
          intro up hup
          exact Path.of_mem_moves (hups ▸ mem_append_right place hup)
        rw [concat_eq_append, Path.ordinary_concat_eq_iff (fun up hup => (hmove up hup).2) hname] at hlabel
        refine ⟨hgivenAbsolute, ups, hups, fun up hup => ?_⟩
        -- what is neither ordinary nor idle leads up
        have hordinary := filter_eq_nil_iff.1 hlabel up hup
        have hidle := (hmove up hup).1
        simp only [Path.isOrdinary, isIdle, Bool.and_eq_true, bne_iff_ne, Bool.or_eq_false_iff,
          beq_eq_false_iff_ne] at hordinary hidle
        by_contra hne
        exact hordinary ⟨⟨hidle.1, hidle.2⟩, hne⟩
  · rintro ⟨hgivenAbsolute, ups, hups, hup⟩
    have hbelow : below? (spell place) (under given name) = some (Path.ofSegments (ups ++ [name])) :=
      (Path.below?_spell hplace (habsolute.trans hgivenAbsolute)).2
        ⟨ups ++ [name], by rw [hmoves, hups, append_assoc], rfl⟩
    rw [hbelow]
    dsimp only
    rw [Path.ordinary_concat_eq_iff (fun up hmem => by rw [hup up hmem]; decide) hname]
    refine filter_eq_nil_iff.2 fun up hmem => ?_
    rw [hup up hmem]
    decide

/-! ### The configuration -/

/-- An error without the path of the file that it is about. -/
def ConfigError.withoutPath : ConfigError → ConfigError
  | .unreadable _ message => .unreadable "" message
  | e => e

namespace Config

theorem ofSettings_relocate (settings : Settings) (origin origin' : Option String) :
    ofSettings settings origin' = (ofSettings settings origin).map fun c => { c with origin := origin' } := by
  change _ = (fun c : Config => { c with origin := origin' }) <$> ofSettings settings origin
  simp only [ofSettings, map_bind, map_pure]

/-- Where a file is read from makes no difference to the configuration in it, but for what it says of its origin. -/
theorem fromFile_relocate {fs : FileSystem} {a b : String} (h : fs.resolve b = fs.resolve a) :
    (∃ c : Config, fromFile fs a = .ok { c with origin := some a } ∧
        fromFile fs b = .ok { c with origin := some b }) ∨
      ∃ e e', fromFile fs a = .error e ∧ fromFile fs b = .error e' ∧ e'.withoutPath = e.withoutPath := by
  have hread : fs.read b = fs.read a := by rw [FileSystem.read, FileSystem.read, h]
  rw [fromFile, fromFile, hread]
  cases fs.read a with
  | error cause => exact .inr ⟨_, _, rfl, rfl, rfl⟩
  | ok bytes =>
    dsimp only
    cases String.fromUTF8? bytes with
    | none => exact .inr ⟨_, _, rfl, rfl, rfl⟩
    | some text =>
      dsimp only
      unfold read
      cases Settings.read text with
      | error f => exact .inr ⟨_, _, rfl, rfl, rfl⟩
      | ok settings =>
        dsimp only
        rw [ofSettings_relocate settings none (some a), ofSettings_relocate settings none (some b)]
        cases ofSettings settings none with
        | ok c => exact .inl ⟨c, rfl, rfl⟩
        | error e => exact .inr ⟨e, e, rfl, rfl, rfl⟩

end Config

namespace Check

variable {place : Place} {config : Config}

/-- The name of the configuration in a directory. -/
def configName? (fs : FileSystem) (root : String) : Option String :=
  configNames.find? fun name => fs.isFile (under root name)

/-- The path under which the configuration in a directory is read. -/
def origin? (fs : FileSystem) (root : String) : Option String := (configName? fs root).map (under root)

/-- The run of a check over a place. -/
def plan (place : Place) (config : Config) : Plan := { root := spell place, config, languages, analyzers }

/-- The file at which a check locates findings on the configuration. -/
def label (fs : FileSystem) (place : Place) (root : String) : String :=
  (plan place { origin := origin? fs root }).configLabel

/-- Of the configuration, only its origin matters for the label. -/
theorem configLabel_plan {fs : FileSystem} {root : String}
    (h : config.origin = origin? fs root) : (plan place config).configLabel = label fs place root := by
  rw [label, configLabel, configLabel, plan, plan]
  dsimp only
  rw [h]

theorem loadConfig_eq (fs : FileSystem) (root : String) :
    loadConfig fs root =
      match configName? fs root with
      | some name => Config.fromFile fs (under root name)
      | none => .ok {} := by
  unfold loadConfig
  rw [find?_map]
  change (match (configName? fs root).map (under root) with
    | some path => Config.fromFile fs path
    | none => .ok {}) = _
  cases configName? fs root <;> rfl

theorem isName_of_mem_configNames (h : name ∈ configNames) : IsName name := by
  simp only [configNames, mem_cons, not_mem_nil, or_false] at h
  obtain rfl | rfl := h <;> decide

variable {fs : FileSystem} {a b : String}

section

variable (h : ∀ name ∈ configNames, fs.resolve (under b name) = fs.resolve (under a name))
include h

/-- Where the names of configurations lead alike, the same configuration is found. -/
theorem configName?_eq : configName? fs b = configName? fs a := by
  have hfile : ∀ name ∈ configNames, fs.isFile (under b name) = fs.isFile (under a name) := by
    intro name hname
    rw [isFile, isFile, h name hname]
  simp only [configNames, forall_mem_cons] at hfile
  simp only [configName?, configNames, find?_cons, find?_nil, hfile]

/-- **Spellings of a directory have one configuration**, but for where it says that it was read from. -/
theorem loadConfig_relocate :
    (∃ c : Config, loadConfig fs a = .ok { c with origin := origin? fs a } ∧
        loadConfig fs b = .ok { c with origin := origin? fs b }) ∨
      ∃ e e', loadConfig fs a = .error e ∧ loadConfig fs b = .error e' ∧ e'.withoutPath = e.withoutPath := by
  rw [loadConfig_eq, loadConfig_eq, origin?, origin?, configName?_eq h]
  cases hname : configName? fs a with
  | none => exact .inl ⟨{}, rfl, rfl⟩
  | some name => exact Config.fromFile_relocate (h name (mem_of_find?_eq_some hname))

end

/-! ### Checks -/

/-- How checks of two spellings of a workspace end: with reports that differ in where the configuration lies, or
with one error, which names the file of the configuration if that cannot be read. -/
inductive Alike (label label' : String) : Except CheckError Report → Except CheckError Report → Prop
  | reported {report report' : Report} (h : Relocated label label' report.diagnostics report'.diagnostics) :
      Alike label label' (.ok report) (.ok report')
  | failed (e : RunError) : Alike label label' (.error (.run e)) (.error (.run e))
  | refused {e e' : ConfigError} (h : e'.withoutPath = e.withoutPath) :
      Alike label label' (.error (.config e)) (.error (.config e'))

/-- A check of a place that has no store, or one that only such runs have written to. -/
def IsReliable (place : Place) (root : String) (s : Session) : Prop :=
  ∀ config, loadConfig s.files root = .ok config → (plan place config).IsReliable s

/-- With a configuration, a check of a directory is a run over its place. -/
theorem check_of_loadConfig {s : Session} {root : String}
    (hroot : s.files.resolve root = .ok (place, .dir)) (hload : loadConfig s.files root = .ok config) :
    (check root s).1 = (exec (plan place config).run s).1.mapError .run := by
  have hmake : make s.files (some root) config languages analyzers false = .ok (plan place config) := by
    rw [make, Option.getD_some, hroot]
    rfl
  unfold check
  rw [hload]
  dsimp only
  rw [hmake]
  rfl

end Check

section

variable {p : Plan} {s : Session}

theorem Plan.IsReliable.exec_of_error (h : p.IsReliable s) {e : RunError} (hfresh : p.fresh s = .error e) :
    (exec p.run s).1 = .error e := by
  have hrun := h.exec_run id
  rw [hfresh] at hrun
  cases hexec : (exec p.run s).1 with
  | error e' =>
    rw [hexec] at hrun
    cases hrun
    rfl
  | ok report => rw [hexec] at hrun; cases hrun

theorem Plan.IsReliable.exec_of_ok (h : p.IsReliable s) {found : Report} (hfresh : p.fresh s = .ok found) :
    ∃ report, (exec p.run s).1 = .ok report ∧ report.diagnostics = found.diagnostics := by
  have hrun := h.exec_run id
  rw [hfresh] at hrun
  cases hexec : (exec p.run s).1 with
  | error e => rw [hexec] at hrun; cases hrun
  | ok report =>
    rw [hexec] at hrun
    exact ⟨report, rfl, Except.ok.inj hrun⟩

/-- Reliable runs whose configuration was read under two paths end alike. -/
theorem Check.alike_exec (origin : Option String) (hp : p.IsReliable s) (hq : (p.relocate origin).IsReliable s) :
    Alike p.configLabel (p.relocate origin).configLabel ((exec p.run s).1.mapError .run)
      ((exec (p.relocate origin).run s).1.mapError .run) := by
  obtain ⟨e, hfresh, hfresh'⟩ | ⟨found, found', hfresh, hfresh', hrelocated⟩ := fresh_relocate hp.analyzers origin s
  · rw [hp.exec_of_error hfresh, hq.exec_of_error hfresh']
    exact .failed e
  · obtain ⟨report, hreport, hfound⟩ := hp.exec_of_ok hfresh
    obtain ⟨report', hreport', hfound'⟩ := hq.exec_of_ok hfresh'
    rw [← hfound, ← hfound'] at hrelocated
    rw [hreport, hreport']
    exact .reported hrelocated

end

variable {root : String}

/-- The label of the configuration in a directory is its name exactly if the directory was spelled directly. -/
theorem Check.label_eq_iff {fs : FileSystem} (hfs : fs.IsProper)
    (hroot : fs.resolve root = .ok (place, .dir)) (hname : configName? fs root = some name) :
    label fs place root = name ↔ IsDirect place root := by
  refine configLabel_eq_iff (hfs.isName_of_node? (node?_of_resolve hroot)) rfl
    (ne_empty_of_resolve hroot) (isName_of_mem_configNames (mem_of_find?_eq_some hname)) ?_
  change origin? fs root = _
  rw [origin?, hname, Option.map_some]

/-- **Checks of two spellings of a workspace end alike.** They come to the same end, and report the same, but for
where the findings on the configuration are located, which is at the path of the configuration relative to the
workspace exactly where the workspace is spelled directly. So two direct spellings have one report. -/
theorem check_alike {s : Session} (hfs : s.files.IsProper) {a b : String} {place : Place}
    (ha : s.files.resolve a = .ok (place, .dir)) (hb : s.files.resolve b = .ok (place, .dir))
    (hlimits : ∀ name ∈ Check.configNames, s.files.InLimits (under a name) ∧ s.files.InLimits (under b name))
    (hreliable : Check.IsReliable place a s) (hreliable' : Check.IsReliable place b s) :
    Check.Alike (Check.label s.files place a) (Check.label s.files place b) (check a s).1 (check b s).1 ∧
      (∀ root ∈ [a, b], ∀ name, Check.configName? s.files root = some name →
        (Check.label s.files place root = name ↔ IsDirect place root)) ∧
      (IsDirect place a → IsDirect place b → Check.label s.files place b = Check.label s.files place a) := by
  -- the only thing that a check does with the given path but to resolve it is to look for configurations below it
  have hresolve : ∀ name ∈ Check.configNames, s.files.resolve (under b name) = s.files.resolve (under a name) :=
    fun name hname => FileSystem.resolve_under_eq ha hb (Check.isName_of_mem_configNames hname) (hlimits name hname).1
      (hlimits name hname).2
  refine ⟨?_, fun root hroot name hname => ?_, fun hdirect hdirect' => ?_⟩
  · obtain ⟨config, hload, hload'⟩ | ⟨e, e', hload, hload', he⟩ := Check.loadConfig_relocate hresolve
    · rw [Check.check_of_loadConfig ha hload, Check.check_of_loadConfig hb hload']
      have hlabel : (Check.plan place { config with origin := Check.origin? s.files a }).configLabel =
          Check.label s.files place a := Check.configLabel_plan rfl
      have hlabel' : (Check.plan place { config with origin := Check.origin? s.files b }).configLabel =
          Check.label s.files place b := Check.configLabel_plan rfl
      rw [← hlabel, ← hlabel']
      exact Check.alike_exec (Check.origin? s.files b) (hreliable _ hload) (hreliable' _ hload')
    · -- neither check comes to a run
      unfold check
      rw [hload, hload']
      exact .refused he
  · obtain rfl | hroot := mem_cons.1 hroot
    · exact Check.label_eq_iff hfs ha hname
    · obtain rfl := mem_singleton.1 hroot
      exact Check.label_eq_iff hfs hb hname
  · cases hname : Check.configName? s.files a with
    | none =>
      have hname' := (Check.configName?_eq hresolve).trans hname
      rw [Check.label, Check.label, Check.origin?, Check.origin?, hname, hname', Option.map_none, Option.map_none]
    | some name =>
      have hname' := (Check.configName?_eq hresolve).trans hname
      rw [(Check.label_eq_iff hfs ha hname).2 hdirect, (Check.label_eq_iff hfs hb hname').2 hdirect']

/-- A workspace without a store in which a pattern matches no package. -/
def patternSession : Session :=
  { files :=
      { nodes := [(["w"], .dir),
          (["w", "archgraph.toml"], .file "cache.enabled = false\nanalyzer.packages = [\".\", \"x\"]\n".toByteArray),
          (["w", "package.json"], .file "\x7b\x7d".toByteArray), (["w", "sub"], .dir)] } }

theorem resolve_patternSession :
    patternSession.files.resolve "/w" = .ok (["w"], .dir) ∧
      patternSession.files.resolve "/w/sub/.." = .ok (["w"], .dir) := ⟨rfl, rfl⟩

theorem patternSession_isProper : patternSession.files.IsProper := by decide +kernel

theorem patternSession_inLimits : ∀ name ∈ configNames,
    patternSession.files.InLimits (under "/w" name) ∧ patternSession.files.InLimits (under "/w/sub/.." name) := by
  have hlocate : ∀ root ∈ ["/w", "/w/sub/.."], ∀ name ∈ configNames,
    patternSession.files.locate (under root name) true = .ok ["w", name] := by decide +kernel
  intro name hname
  exact ⟨.of_locate (hlocate "/w" (by simp) name hname), .of_locate (hlocate "/w/sub/.." (by simp) name hname)⟩

theorem enabled_patternSession (h : root = "/w" ∨ root = "/w/sub/..") {config : Config}
    (hload : loadConfig patternSession.files root = .ok config) : config.cache.enabled = false := by
  have hstore : ((loadConfig patternSession.files root).toOption.map (·.cache.enabled)) = some false := by
    obtain rfl | rfl := h <;> decide +kernel
  rw [hload] at hstore
  exact Option.some.inj hstore

theorem patternSession_isReliable (h : root = "/w" ∨ root = "/w/sub/..") :
    IsReliable ["w"] root patternSession :=
  fun _ hload => ⟨rfl, rfl, .inl (enabled_patternSession h hload)⟩

theorem label_patternSession :
    label patternSession.files ["w"] "/w" = "archgraph.toml" ∧
      label patternSession.files ["w"] "/w/sub/.." = "sub/archgraph.toml" := by
  decide +kernel

/-- With a detour through a directory of the workspace, the findings on the configuration are located in that
directory. -/
theorem check_alike_detour :
    Check.Alike "archgraph.toml" "sub/archgraph.toml" (check "/w" patternSession).1
        (check "/w/sub/.." patternSession).1 ∧
      IsDirect ["w"] "/w" ∧ ¬IsDirect ["w"] "/w/sub/.." := by
  have hname : Check.configName? patternSession.files "/w" = some "archgraph.toml" ∧
      Check.configName? patternSession.files "/w/sub/.." = some "archgraph.toml" := by decide +kernel
  obtain ⟨halike, hlabel, -⟩ := check_alike patternSession_isProper resolve_patternSession.1
    resolve_patternSession.2 patternSession_inLimits (patternSession_isReliable (.inl rfl))
    (patternSession_isReliable (.inr rfl))
  rw [label_patternSession.1, label_patternSession.2] at halike
  refine ⟨halike, ?_, ?_⟩
  · exact (hlabel "/w" mem_cons_self _ hname.1).1 label_patternSession.1
  · rw [← hlabel "/w/sub/.." (mem_cons_of_mem _ mem_cons_self) _ hname.2, label_patternSession.2]
    decide

theorem walk_patternSession :
    Workspace.walk patternSession.files (spell ["w"]) true none = .ok ["archgraph.toml", "package.json"] := by
  -- sorting does not compute in the kernel: the paths are left under it, and are sorted already
  have hwalk : Workspace.walk patternSession.files (spell ["w"]) true none =
      .ok (["archgraph.toml", "package.json"].mergeSort (· ≤ ·)) := rfl
  rw [hwalk, mergeSort_of_pairwise (by decide)]

/-- The files at which the findings of a run over the workspace are located, if it reads no source files. -/
def patternPlaces (config : Config) : Option (List String) :=
  let p := plan ["w"] config
  (Scan.ofPaths? (fun path => patternSession.files.read (under p.root path)) p.root p.config.analyzer p.extensions
    p.configLabel ["archgraph.toml", "package.json"]).bind fun scan =>
      if p.config.analyzer.respectIgnoreFiles && scan.files.isEmpty then
        some ((p.freshDiagnostics scan []).map (·.location.file))
      else none

theorem check_patternSession (hroot : root = "/w" ∨ root = "/w/sub/..") {places : List String}
    (h : (loadConfig patternSession.files root).toOption.bind patternPlaces = some places) :
    (check root patternSession).1.map (·.diagnostics.map (·.location.file)) = .ok places := by
  have hresolve : patternSession.files.resolve root = .ok (["w"], .dir) := by
    obtain rfl | rfl := hroot
    · exact resolve_patternSession.1
    · exact resolve_patternSession.2
  cases hload : loadConfig patternSession.files root with
  | error e => rw [hload] at h; cases h
  | ok config =>
    rw [hload] at h
    change patternPlaces config = some places at h
    obtain ⟨scan, hscan, hplaces⟩ := Option.bind_eq_some_iff.1 h
    rw [Option.ite_none_right_eq_some, Bool.and_eq_true, List.isEmpty_iff] at hplaces
    obtain ⟨⟨hrespect, hfiles⟩, hplaces⟩ := hplaces
    have hscanned : (plan ["w"] config).scanned patternSession.files = .ok scan := by
      have hwalk : Workspace.walk patternSession.files (plan ["w"] config).root
          (plan ["w"] config).config.analyzer.respectIgnoreFiles (plan ["w"] config).ownIgnoreFile =
            .ok ["archgraph.toml", "package.json"] := by
        rw [← walk_patternSession, ← hrespect]
        rfl
      rw [scanned, Scan.scan, hwalk]
      dsimp only
      rw [hscan]
      rfl
    have hfresh : (plan ["w"] config).fresh patternSession =
        .ok ((plan ["w"] config).freshReport scan []) := by
      have hrefusal : (plan ["w"] config).refusal? patternSession scan = none := by
        have hcache : (plan ["w"] config).config.cache.enabled = false := enabled_patternSession hroot hload
        rw [refusal?, hcache]
        rfl
      have hrest : (plan ["w"] config).freshScanned patternSession scan =
          .ok ((plan ["w"] config).freshReport scan []) := by
        rw [freshScanned, hrefusal, freshRest, hfiles]
        rfl
      rw [fresh, hscanned]
      exact hrest
    obtain ⟨report, hexec, hreport⟩ := (patternSession_isReliable hroot config hload).exec_of_ok hfresh
    rw [check_of_loadConfig hresolve hload, hexec]
    change Except.ok (report.diagnostics.map (·.location.file)) = _
    rw [hreport]
    exact congrArg Except.ok (Option.some.inj hplaces)

/-- **The findings of a check depend on the spelling of the workspace**: with a detour, one of them is located at a
file that is not there. -/
theorem check_ne_of_detour :
    patternSession.files.resolve "/w" = .ok (["w"], .dir) ∧
      patternSession.files.resolve "/w/sub/.." = .ok (["w"], .dir) ∧
      (check "/w" patternSession).1.map (·.diagnostics.map (·.location.file)) = .ok ["archgraph.toml"] ∧
      (check "/w/sub/.." patternSession).1.map (·.diagnostics.map (·.location.file)) = .ok ["sub/archgraph.toml"] := by
  refine ⟨resolve_patternSession.1, resolve_patternSession.2, check_patternSession (.inl rfl) ?_,
    check_patternSession (.inr rfl) ?_⟩ <;> decide +kernel

end Cartograph
