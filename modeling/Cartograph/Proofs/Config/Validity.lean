import Mathlib.Data.Finset.Sort
import Mathlib.Data.List.TakeWhile
import Mathlib.Data.String.Basic
import Cartograph.Proofs.Config.Fingerprint
import Cartograph.Proofs.Config.Layers
import Cartograph.Run

/-!
# Valid settings

Checking settings accepts exactly the valid ones, and tells of the others which condition they violate first
(`Config.ofSettings_exact`). All conditions that settings violate are their `Settings.faults`, in the order in which they
are checked; only the faults of the table of layers are told together.

A check `Decides` between faults when it ends with the first of them, and succeeds if there is none. Checks one after
the other decide between the faults of both (`Decides.bind`), so each part of the settings is looked at on its own.
-/

namespace Cartograph

open List Text
open Glob.Pattern (ofString)

/-! ### Faults -/

def severityNames : List String := ["error", "warning", "info"]

def categoryNames : List String := ["dependency", "configuration", "architecture", "circular-import"]

def granularityNames : List String := ["file", "package"]

/-- The fault of a setting that is none of the known names. -/
def unknown (known : List String) (error : String → ConfigError) (value : Option String) : List ConfigError :=
  (value.filter (· ∉ known)).toList.map error

def severityFaults (context : String) : Option String → List ConfigError :=
  unknown severityNames (.unknownValue context · "error, warning, info")

def granularityFaults : Option String → List ConfigError :=
  unknown granularityNames (.unknownValue "cycles.granularity" · "file, package")

/-- The fault of a glob that does not compile. -/
def globFault (context : String) (e : String × Nat) : List ConfigError :=
  match ofString e.1 with
  | .ok _ => []
  | .error error => [.invalid (context ++ "[" ++ toString e.2 ++ "]") (.pattern error)]

def globFaults (context : String) (sources : List String) : List ConfigError :=
  sources.zipIdx.flatMap (globFault context)

def analyzerFaults (s : AnalyzerSettings) : List ConfigError := [
  globFaults "analyzer.include" (s.included.getD []),
  globFaults "analyzer.exclude" (s.excluded.getD []),
  globFaults "analyzer.packages" ((s.packages.getD []).map Config.Check.packagePattern),
  if s.concurrency = some 0 then [.zeroConcurrency] else [],
  severityFaults "analyzer.min_severity" s.minSeverity].flatten

/-- The fault of a directory for the store that is the workspace itself. -/
def storeFaults (dir : Option String) : List ConfigError :=
  (dir.filter fun dir => !Path.Spelling.isAbsolute dir && Path.resolve? "" (Plan.withSlashes dir) == some "").toList.map
    .cacheDirIsRoot

def categoryFaults (e : String × CategorySettings) : List ConfigError :=
  unknown categoryNames .unknownCategory (some e.1) ++
    severityFaults ("categories." ++ e.1 ++ ".severity") e.2.severity

def dependencyFaults (s : DependencySettings) : List ConfigError := [
  severityFaults "dependencies.unused_severity" s.unusedSeverity,
  severityFaults "dependencies.missing_severity" s.missingSeverity,
  severityFaults "dependencies.unresolved_severity" s.unresolvedSeverity,
  globFaults "dependencies.ignore" (s.ignored.getD [])].flatten

/-- The faults of a layer, whatever the others are. -/
def layerFaults (e : LayerSettings × Nat) : List ConfigError :=
  let context := "layers[" ++ toString e.2 ++ "]"
  globFaults (context ++ ".paths") e.1.paths ++
    (if e.1.name.toList.all isBlank then [.invalid context .emptyLayerName] else []) ++
    if e.1.paths = [] then [.invalid context (.emptyLayerPaths e.1.name)] else []

/-- What is wrong with layers as a table: each repetition of a name, and then each name that a layer allows and that is
not declared. -/
def tableErrors (layers : List LayerSettings) : List ModelError :=
  let names := layers.map (·.name)
  (names.zipIdx.filter fun e => e.1 ∈ names.take e.2).map (.duplicateLayer ·.1) ++
    layers.flatMap fun l => ((l.allow.toFinset.filter (· ∉ names)).sort).map (.unknownLayer l.name)

/-- The faults of the layers one by one, and then those of their table in one. -/
def layersFaults (layers : List LayerSettings) : List ConfigError :=
  layers.zipIdx.flatMap layerFaults ++ if tableErrors layers = [] then [] else [.layers (tableErrors layers)]

/-- All that is wrong with settings, in the order in which it is checked. -/
def Settings.faults (s : Settings) : List ConfigError := [
  analyzerFaults s.analyzer,
  storeFaults s.cache.dir,
  s.categories.flatMap categoryFaults,
  granularityFaults s.cycles.granularity,
  dependencyFaults s.dependencies,
  globFaults "architecture.allow_barrel_exports" (s.architecture.allowBarrelExports.getD []),
  layersFaults s.layers].flatten

namespace Config.Check

/-! ### Checks -/

/-- The error that a check ends with. -/
def error? : Checked α → Option ConfigError
  | .ok _ => none
  | .error e => some e

/-- A check ends with the first of some faults. -/
def Decides (faults : List ConfigError) (r : Checked α) : Prop := error? r = faults.head?

theorem Decides.bind {first second : List ConfigError} {x : Checked α} {f : α → Checked β} (hx : Decides first x)
    (hf : ∀ a, x = .ok a → Decides second (f a)) : Decides (first ++ second) (x >>= f) := by
  rw [Decides, head?_append, ← hx]
  cases x with
  | error e => rfl
  | ok a => exact hf a rfl

theorem Decides.map {faults : List ConfigError} {x : Checked α} (hx : Decides faults x) (f : α → β) :
    Decides faults (x.map f) := by
  rw [Decides, ← hx]
  cases x <;> rfl

/-- Looking up a name. -/
theorem decides_unknown {known : List String} (error : String → ConfigError) (find : String → Option α)
    (hfind : ∀ value, (find value).isSome = true ↔ value ∈ known) (default : α) (check : String → Checked α)
    (hcheck : ∀ value, check value = ((find value).map .ok).getD (.error (error value))) (value : Option String) :
    Decides (unknown known error value) (orDefault default check value) := by
  cases value with
  | none => rfl
  | some value =>
    rw [orDefault, hcheck, unknown]
    cases h : find value with
    | none =>
      have hnot : value ∉ known := by simp [← hfind, h]
      simp [hnot, Decides, error?]
    | some a =>
      have hmem : value ∈ known := by simp [← hfind, h]
      simp [hmem, Decides, error?]

theorem decides_severity (context : String) (default : Severity) (value : Option String) :
    Decides (severityFaults context value) (orDefault default (severity context) value) := by
  refine decides_unknown _ Severity.ofName? (fun value => ?_) default _ (fun value => ?_) value
  · unfold Severity.ofName?
    split <;> simp_all [severityNames]
  · rw [severity]
    cases Severity.ofName? value <;> rfl

theorem decides_granularity (value : Option String) :
    Decides (granularityFaults value) (orDefault .file granularity value) := by
  refine decides_unknown _ Granularity.ofName? (fun value => ?_) .file _ (fun value => ?_) value
  · unfold Granularity.ofName?
    split <;> simp_all [granularityNames]
  · rw [granularity]
    cases Granularity.ofName? value <;> rfl

theorem decides_compileFrom (context : String) (i : Nat) (sources : List String) :
    Decides ((sources.zipIdx i).flatMap (globFault context)) (compileFrom context i sources) := by
  induction sources generalizing i with
  | nil => rfl
  | cons source rest ih =>
    rw [zipIdx_cons, flatMap_cons, globFault, compileFrom]
    cases ofString source with
    | error e => rfl
    | ok p =>
      have hrest := ih (i + 1)
      cases hps : compileFrom context (i + 1) rest <;> rw [hps] at hrest <;> exact hrest

theorem decides_compile (context : String) (default : List Glob.Pattern) (sources : Option (List String)) :
    Decides (globFaults context (sources.getD [])) (orDefault default (compile context) sources) := by
  cases sources with
  | none => rfl
  | some sources => exact decides_compileFrom context 0 sources

theorem decides_analyzer (s : AnalyzerSettings) : Decides (analyzerFaults s) (analyzer s) := by
  have hpackages : Decides (globFaults "analyzer.packages" ((s.packages.getD []).map packagePattern))
      (orDefault ({} : AnalyzerPolicy).packages (fun l => compile "analyzer.packages" (l.map packagePattern))
        s.packages) := by
    cases s.packages with
    | none => rfl
    | some l => exact decides_compileFrom _ 0 (l.map packagePattern)
  refine (decides_compile _ _ _).bind fun included _ => (decides_compile _ _ _).bind fun excluded _ => ?_
  refine hpackages.bind fun packages _ => ?_
  split
  next => rfl
  next => exact (decides_severity _ _ _).bind fun _ _ => rfl

theorem decides_cache (s : CacheSettings) : Decides (storeFaults s.dir) (cache s) := by
  rw [cache]
  cases s.dir with
  | none => rfl
  | some dir =>
    have hroot : isRootDir dir = (!Path.Spelling.isAbsolute dir && Path.resolve? "" (Plan.withSlashes dir) == some "") :=
      rfl
    rw [Option.getD_some, storeFaults, Option.filter_some, hroot]
    split <;> rfl

theorem decides_categories (l : List (String × CategorySettings)) : Decides (l.flatMap categoryFaults) (categories l) := by
  have hcategory (e : String × CategorySettings) : Decides (categoryFaults e) (category e.1 e.2) := by
    have hknown (name : String) : (Category.ofName? name).isSome = true ↔ name ∈ categoryNames := by
      simp [Category.ofName?, Category.all, Category.name, categoryNames, eq_comm (a := name)]
    have hname := decides_unknown .unknownCategory _ hknown .dependency _ (fun _ => rfl) (some e.1)
    have hseverity : Decides (severityFaults ("categories." ++ e.1 ++ ".severity") e.2.severity)
        (orDefault none (fun v => (severity ("categories." ++ e.1 ++ ".severity") v).map some) e.2.severity) := by
      cases e.2.severity with
      | none => rfl
      | some v => exact (decides_severity _ .info (some v)).map some
    rw [category, categoryFaults, Decides, head?_append, ← hname]
    dsimp only [orDefault]
    cases Category.ofName? e.1 with
    | none => rfl
    | some c => exact hseverity.map _
  refine Decides.map ?_ policyOf
  induction l with
  | nil => rfl
  | cons e rest ih =>
    rw [mapM_cons, flatMap_cons]
    refine (hcategory e).bind fun c _ => ?_
    rw [← append_nil (rest.flatMap categoryFaults)]
    exact ih.bind fun _ _ => rfl

theorem decides_dependencies (s : DependencySettings) : Decides (dependencyFaults s) (dependencies s) := by
  refine (decides_severity _ _ _).bind fun unused _ => (decides_severity _ _ _).bind fun missing _ => ?_
  refine (decides_severity _ _ _).bind fun unresolved _ => ?_
  exact (decides_compile _ _ _).bind fun ignored _ => rfl

/-! ### Layers -/

theorem isEmpty_trim (text : List Char) : (trim text).isEmpty = text.all isBlank := by
  rw [Bool.eq_iff_iff, List.all_eq_true, List.isEmpty_iff, trim, trimBoth, dropEndWhile, List.reverse_eq_nil_iff]
  constructor
  · intro h
    have hrest : ∀ c ∈ text.dropWhile isBlank, isBlank c = true := fun c hc =>
      dropWhile_eq_nil_iff.1 h c (mem_reverse.2 hc)
    -- what is left at the start is not blank, so nothing is left there
    refine dropWhile_eq_nil_iff.1 (by_contra fun hne => ?_)
    have hfirst := head_dropWhile_not isBlank hne
    rw [hrest _ (head_mem hne)] at hfirst
    cases hfirst
  · intro h
    rw [dropWhile_eq_nil_iff.2 h]
    rfl

theorem length_of_compileFrom {context : String} {i : Nat} {sources : List String} {patterns : List Glob.Pattern}
    (h : compileFrom context i sources = .ok patterns) : patterns.length = sources.length := by
  induction sources generalizing i patterns with
  | nil => cases h; rfl
  | cons source rest ih =>
    rw [compileFrom] at h
    split at h
    next => cases h
    next =>
      split at h
      next hrest => cases h; rw [length_cons, length_cons, ih hrest]
      next => cases h

theorem decides_layer (s : LayerSettings) (i : Nat) : Decides (layerFaults (s, i)) (layer i s) := by
  have hlayer : layer i s = compile ("layers[" ++ toString i ++ "]" ++ ".paths") s.paths >>= fun patterns =>
      (Layer.make s.name patterns s.allow).mapError (.invalid ("layers[" ++ toString i ++ "]")) := by
    rw [layer]
    cases compile ("layers[" ++ toString i ++ "]" ++ ".paths") s.paths <;> rfl
  rw [hlayer, layerFaults, append_assoc]
  refine (decides_compileFrom _ 0 s.paths).bind fun patterns hpatterns => ?_
  have hpaths : patterns.isEmpty = true ↔ s.paths = [] := by
    rw [List.isEmpty_iff, ← List.length_eq_zero_iff, length_of_compileFrom hpatterns, List.length_eq_zero_iff]
  simp only [Layer.make, isEmpty_trim, hpaths]
  split
  next => rfl
  next => split <;> rfl

theorem of_layer_eq_ok {s : LayerSettings} {i : Nat} {k : Layer} (h : layer i s = .ok k) :
    k.name = s.name ∧ k.allow = .ofList s.allow := by
  rw [layer] at h
  split at h
  next => cases h
  next =>
    rw [Layer.make] at h
    split at h
    next => cases h
    next =>
      split at h
      next => cases h
      next => cases h; exact ⟨rfl, rfl⟩

/-- A layer without its patterns, which is all that its table is about. -/
def bare (s : LayerSettings) : Layer := { name := s.name, patterns := [], allow := .ofList s.allow }

theorem decides_layersFrom (i : Nat) (l : List LayerSettings) :
    Decides ((l.zipIdx i).flatMap layerFaults) (layersFrom i l) ∧
      ∀ ls, layersFrom i l = .ok ls → (ls.map fun k => { k with patterns := [] }) = l.map bare := by
  induction l generalizing i with
  | nil => exact ⟨rfl, fun ls h => by cases h; rfl⟩
  | cons s rest ih =>
    obtain ⟨hrest, hbare⟩ := ih (i + 1)
    have hlayers : layersFrom i (s :: rest) = layer i s >>= fun k => layersFrom (i + 1) rest >>= fun ks =>
        .ok (k :: ks) := by
      rw [layersFrom]
      cases layer i s with
      | error e => rfl
      | ok k => cases layersFrom (i + 1) rest <;> rfl
    rw [hlayers, zipIdx_cons, flatMap_cons]
    refine ⟨(decides_layer s i).bind fun k _ => ?_, fun ls h => ?_⟩
    · rw [← append_nil ((rest.zipIdx (i + 1)).flatMap layerFaults)]
      exact hrest.bind fun _ _ => rfl
    · obtain ⟨k, hk, h⟩ := of_bind_eq_ok h
      obtain ⟨ks, hks, h⟩ := of_bind_eq_ok h
      cases h
      obtain ⟨hname, hallow⟩ := of_layer_eq_ok hk
      rw [map_cons, map_cons, hbare ks hks, hname, hallow, bare]

theorem layerErrors_bare (layers : List Layer) :
    layerErrors (layers.map fun k => { k with patterns := [] }) = layerErrors layers := by
  have hrepeated (seen : List String) (layers : List Layer) :
      repeatedLayers seen (layers.map fun k => { k with patterns := [] }) = repeatedLayers seen layers := by
    induction layers generalizing seen with
    | nil => rfl
    | cons k rest ih => simp only [map_cons, repeatedLayers, ih]
  simp [layerErrors, hrepeated, danglingLayers, flatMap_map, Function.comp_def]

/-- The names that are repeated, when others stand in front of them. -/
theorem repeatedLayers_eq (front : List String) {seen : List String} (hseen : ∀ name, name ∈ seen ↔ name ∈ front)
    (layers : List Layer) :
    repeatedLayers seen layers =
      (((layers.map (·.name)).zipIdx front.length).filter
        fun e => e.1 ∈ (front ++ layers.map (·.name)).take e.2).map (.duplicateLayer ·.1) := by
  induction layers generalizing front seen with
  | nil => rfl
  | cons k rest ih =>
    have hlast : front ++ k.name :: rest.map (·.name) = front ++ [k.name] ++ rest.map (·.name) := by simp
    have hlength : (front ++ [k.name]).length = front.length + 1 := length_append
    rw [map_cons, zipIdx_cons, filter_cons, take_left, hlast, ← hlength, repeatedLayers]
    by_cases hmem : k.name ∈ front
    · have hknown : ∀ name, name ∈ seen ↔ name ∈ front ++ [k.name] := by
        intro name
        rw [mem_append, mem_singleton, hseen, or_iff_left_of_imp (by rintro rfl; exact hmem)]
      rw [if_pos (contains_iff_mem.2 ((hseen _).2 hmem)), if_pos (decide_eq_true hmem), map_cons, ih _ hknown]
    · have hnew : ∀ name, name ∈ k.name :: seen ↔ name ∈ front ++ [k.name] := by
        intro name
        rw [mem_append, mem_singleton, mem_cons, hseen, or_comm]
      rw [if_neg (mt contains_iff_mem.1 (mt (hseen _).1 hmem)), if_neg (by simpa using hmem), ih _ hnew]

theorem layerErrors_eq (l : List LayerSettings) : layerErrors (l.map bare) = tableErrors l := by
  have hnames : (l.map bare).map (·.name) = l.map (·.name) := by rw [map_map]; rfl
  have hunknown (s : LayerSettings) :
      ((Names.ofList s.allow).toList.filter fun name => !(l.map bare).any (·.name == name)) =
        (s.allow.toFinset.filter (· ∉ l.map (·.name))).sort := by
    have hmembers : s.allow.toFinset.filter (· ∉ l.map (·.name)) =
        ((Names.ofList s.allow).toList.filter fun name => !(l.map bare).any (·.name == name)).toFinset := by
      ext name
      simp [Names.mem_ofList, bare]
    have hascending := (Names.ofList s.allow).ascending.filter fun name => !(l.map bare).any (·.name == name)
    rw [hmembers, (toFinset_sort (· ≤ ·) ((Names.nodup _).filter _)).2 (hascending.imp le_of_lt)]
  rw [layerErrors, repeatedLayers_eq [] (fun _ => Iff.rfl), hnames, danglingLayers, flatMap_map]
  simp only [bare] at hunknown ⊢
  simp only [hunknown]
  rfl

theorem decides_layerTable (l : List LayerSettings) : Decides (layersFaults l) (layerTable l) := by
  have htable : layerTable l = layersFrom 0 l >>= fun ks => (LayerTable.ofLayers ks).mapError .layers := by
    rw [layerTable]
    cases layersFrom 0 l <;> rfl
  obtain ⟨hlayers, hbare⟩ := decides_layersFrom 0 l
  rw [htable]
  refine hlayers.bind fun ks hks => ?_
  rw [← layerErrors_eq, ← hbare ks hks, layerErrors_bare, LayerTable.ofLayers]
  split
  next => rfl
  next => rfl

theorem decides_ofSettings (s : Settings) (origin : Option String) : Decides s.faults (ofSettings s origin) := by
  refine (decides_analyzer s.analyzer).bind fun analyzer _ => (decides_cache s.cache).bind fun cache _ => ?_
  refine (decides_categories s.categories).bind fun categories _ => ?_
  refine (decides_granularity s.cycles.granularity).bind fun granularity _ => ?_
  refine (decides_dependencies s.dependencies).bind fun dependencies _ => ?_
  refine ((decides_compile _ _ _).map _).bind fun architecture _ => ?_
  exact (decides_layerTable s.layers).bind fun layers _ => rfl

end Config.Check

/-! ### Validity -/

namespace Settings

/-- All globs that are listed, those for packages in their usual form. -/
def sources (s : Settings) : List String :=
  s.analyzer.included.getD [] ++ s.analyzer.excluded.getD [] ++
    (s.analyzer.packages.getD []).map Config.Check.packagePattern ++ s.dependencies.ignored.getD [] ++
    s.architecture.allowBarrelExports.getD [] ++ s.layers.flatMap (·.paths)

/-- All severities that are named. -/
def severities (s : Settings) : List String :=
  s.analyzer.minSeverity.toList ++ s.categories.flatMap (·.2.severity.toList) ++
    s.dependencies.unusedSeverity.toList ++ s.dependencies.missingSeverity.toList ++
    s.dependencies.unresolvedSeverity.toList

/-- What settings have to be like. -/
@[mk_iff]
structure IsValid (s : Settings) : Prop where
  sources : ∀ source ∈ s.sources, ∃ pattern, ofString source = .ok pattern
  workers : ∀ count ∈ s.analyzer.concurrency, 1 ≤ count
  store : ∀ dir ∈ s.cache.dir, Path.Spelling.isAbsolute dir = false →
    Path.resolve? "" (Plan.withSlashes dir) ≠ some ""
  categories : ∀ e ∈ s.categories, e.1 ∈ categoryNames
  severities : ∀ value ∈ s.severities, value ∈ severityNames
  granularity : ∀ value ∈ s.cycles.granularity, value ∈ granularityNames
  named : ∀ l ∈ s.layers, ∃ c ∈ l.name.toList, isBlank c = false
  placed : ∀ l ∈ s.layers, l.paths ≠ []
  distinct : (s.layers.map (·.name)).Nodup
  declared : ∀ l ∈ s.layers, ∀ name ∈ l.allow, ∃ m ∈ s.layers, m.name = name

theorem globFaults_eq_nil_iff {context : String} {l : List String} :
    globFaults context l = [] ↔ ∀ source ∈ l, ∃ pattern, ofString source = .ok pattern := by
  have hfault (e : String × Nat) : globFault context e = [] ↔ ∃ pattern, ofString e.1 = .ok pattern := by
    rw [globFault]
    cases ofString e.1 <;> simp
  conv => rhs; rw [← zipIdx_map_fst 0 l]
  simp only [globFaults, flatMap_eq_nil_iff, hfault, forall_mem_map]

theorem unknown_eq_nil_iff {known : List String} {error : String → ConfigError} {o : Option String} :
    unknown known error o = [] ↔ ∀ value ∈ o, value ∈ known := by
  cases o <;> simp [unknown]

theorem tableErrors_eq_nil_iff {l : List LayerSettings} :
    tableErrors l = [] ↔ (l.map (·.name)).Nodup ∧ ∀ s ∈ l, ∀ name ∈ s.allow, ∃ m ∈ l, m.name = name := by
  rw [← Config.Check.layerErrors_eq, layerErrors, append_eq_nil_iff, repeatedLayers_eq_nil_iff,
    danglingLayers_eq_nil_iff]
  simp [Config.Check.bare, Names.mem_ofList, Function.comp_def]

theorem layerFaults_eq_nil_iff {e : LayerSettings × Nat} :
    layerFaults e = [] ↔ (∀ source ∈ e.1.paths, ∃ pattern, ofString source = .ok pattern) ∧
      (∃ c ∈ e.1.name.toList, isBlank c = false) ∧ e.1.paths ≠ [] := by
  simp [layerFaults, globFaults_eq_nil_iff]

theorem faults_eq_nil_iff {s : Settings} : s.faults = [] ↔ s.IsValid := by
  have hworkers : (if s.analyzer.concurrency = some 0 then [ConfigError.zeroConcurrency] else []) = [] ↔
      ∀ count ∈ s.analyzer.concurrency, 1 ≤ count := by
    cases s.analyzer.concurrency <;> simp [Nat.one_le_iff_ne_zero]
  have hstore : storeFaults s.cache.dir = [] ↔ ∀ dir ∈ s.cache.dir, Path.Spelling.isAbsolute dir = false →
      Path.resolve? "" (Plan.withSlashes dir) ≠ some "" := by
    cases s.cache.dir <;> simp [storeFaults]
  have hlayers : (∀ e ∈ s.layers.zipIdx, layerFaults e = []) ↔
      ∀ l ∈ s.layers, (∀ source ∈ l.paths, ∃ pattern, ofString source = .ok pattern) ∧
        (∃ c ∈ l.name.toList, isBlank c = false) ∧ l.paths ≠ [] := by
    conv => rhs; rw [← zipIdx_map_fst 0 s.layers]
    simp only [layerFaults_eq_nil_iff, forall_mem_map]
  have htable : (if tableErrors s.layers = [] then [] else [ConfigError.layers (tableErrors s.layers)]) = [] ↔
      (s.layers.map (·.name)).Nodup ∧ ∀ l ∈ s.layers, ∀ name ∈ l.allow, ∃ m ∈ s.layers, m.name = name := by
    rw [← tableErrors_eq_nil_iff]
    simp
  rw [isValid_iff]
  simp only [faults, analyzerFaults, dependencyFaults, layersFaults, flatten_cons, flatten_nil, append_nil,
    append_eq_nil_iff, sources, severities, forall_mem_append, globFaults_eq_nil_iff, severityFaults, granularityFaults,
    categoryFaults, unknown_eq_nil_iff, hworkers, hstore, flatMap_eq_nil_iff, hlayers, htable, Option.mem_toList,
    Option.mem_def, Option.some.injEq, forall_eq', forall_mem_flatMap, forall_and]
  tauto

end Settings

/-- **Checking accepts exactly the valid settings**, and of the others it tells the first fault. -/
theorem Config.ofSettings_exact (s : Settings) (origin : Option String) :
    ((∃ c, ofSettings s origin = .ok c) ↔ s.IsValid) ∧
      ∀ e, ofSettings s origin = .error e ↔ s.faults.head? = some e := by
  have hdecides : Check.error? (ofSettings s origin) = s.faults.head? := Check.decides_ofSettings s origin
  rw [← Settings.faults_eq_nil_iff, ← List.head?_eq_none_iff, ← hdecides]
  cases ofSettings s origin with
  | error e => simp [Check.error?]
  | ok c => simp [Check.error?]

end Cartograph
