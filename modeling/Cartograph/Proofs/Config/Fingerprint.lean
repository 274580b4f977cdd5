import Cartograph.Config.Load
import Cartograph.Proofs.Digest.Framing
import Cartograph.Proofs.Json.RoundTrip

/-!
# What the fingerprint of a configuration determines

The fingerprint of settings covers all of them except the number of workers and the store: their JSON form
determines them (`toJson_injective`), and its compact text determines the JSON form. So two configurations that
were loaded from settings with one fingerprint agree in everything that an analyzer looks at
(`Config.sameChecks_of_fingerprint`).

`Settings.SameFindings` says which settings are not told apart, `Config.Agrees` in what their configurations
are then equal, and `Config.fingerprint_eq_iff` that this is all that the fingerprint forgets.
-/

namespace Cartograph

open Json List Settings

/-! ### The JSON form of settings -/

namespace Settings

theorem textToJson_injective {a b : Option String} (h : textToJson a = textToJson b) : a = b := by
  cases a <;> cases b <;> simp_all [textToJson, ofOption]

theorem flagToJson_injective {a b : Option Bool} (h : flagToJson a = flagToJson b) : a = b := by
  cases a <;> cases b <;> simp_all [flagToJson, ofOption]

theorem map_text_injective {a b : List String} (h : a.map Json.text = b.map Json.text) : a = b :=
  map_injective_iff.2 (fun _ _ => text.inj) h

theorem textsToJson_injective {a b : Option (List String)} (h : textsToJson a = textsToJson b) : a = b := by
  cases a <;> cases b
  · rfl
  · simp [textsToJson, ofOption, ofList] at h
  · simp [textsToJson, ofOption, ofList] at h
  · rw [map_text_injective (array.inj h)]

theorem category_injective {a b : String × CategorySettings}
    (h : (a.1, object [("enabled", flagToJson a.2.enabled), ("severity", textToJson a.2.severity)]) =
      (b.1, object [("enabled", flagToJson b.2.enabled), ("severity", textToJson b.2.severity)])) :
    a = b := by
  obtain ⟨name, enabled, severity⟩ := a
  simp only [Prod.mk.injEq, object.injEq, cons.injEq, and_true, true_and] at h
  obtain ⟨rfl, henabled, hseverity⟩ := h
  rw [flagToJson_injective henabled, textToJson_injective hseverity]

theorem layer_injective {a b : LayerSettings}
    (h : object [("name", .text a.name), ("paths", .ofList .text a.paths), ("allow", .ofList .text a.allow)] =
      .object [("name", .text b.name), ("paths", .ofList .text b.paths), ("allow", .ofList .text b.allow)]) :
    a = b := by
  obtain ⟨name, paths, allow⟩ := a
  simp only [object.injEq, cons.injEq, Prod.mk.injEq, and_true, true_and, text.injEq, ofList, array.injEq] at h
  obtain ⟨rfl, hpaths, hallow⟩ := h
  rw [map_text_injective hpaths, map_text_injective hallow]

variable {s t : Settings}

/-- **Settings without a number of workers are determined by their JSON form.** -/
theorem toJson_injective (hs : s.analyzer.concurrency = none) (ht : t.analyzer.concurrency = none)
    (h : s.toJson = t.toJson) : s = t := by
  obtain ⟨⟨root, included, excluded, packages, respect, workers, severity⟩, ⟨enabled, dir, strict⟩, categories,
    ⟨granularity⟩, ⟨count, unused, missing, unresolved, ignored⟩, ⟨enforce, barrels⟩, layers⟩ := s
  obtain ⟨⟨root', included', excluded', packages', respect', workers', severity'⟩, ⟨enabled', dir', strict'⟩,
    categories', ⟨granularity'⟩, ⟨count', unused', missing', unresolved', ignored'⟩, ⟨enforce', barrels'⟩,
    layers'⟩ := t
  cases hs
  cases ht
  simp only [toJson, object.injEq, cons.injEq, Prod.mk.injEq, and_true, true_and] at h
  obtain ⟨⟨hroot, hincluded, hexcluded, hpackages, hrespect, hseverity⟩, ⟨henabled, hdir, hstrict⟩,
    hcategories, hgranularity, ⟨hcount, hunused, hmissing, hunresolved, hignored⟩, ⟨henforce, hbarrels⟩,
    hlayers⟩ := h
  rw [textToJson_injective hroot, textsToJson_injective hincluded, textsToJson_injective hexcluded,
    textsToJson_injective hpackages, flagToJson_injective hrespect, textToJson_injective hseverity,
    flagToJson_injective henabled, textToJson_injective hdir, flagToJson_injective hstrict,
    textToJson_injective hgranularity, flagToJson_injective hcount, textToJson_injective hunused,
    textToJson_injective hmissing, textToJson_injective hunresolved, textsToJson_injective hignored,
    flagToJson_injective henforce, textsToJson_injective hbarrels,
    map_injective_iff.2 (fun _ _ => category_injective) hcategories,
    map_injective_iff.2 (fun _ _ => layer_injective) (array.inj hlayers)]

theorem isPlain_textToJson (depth : Nat) (a : Option String) : isPlain false depth (textToJson a) = true := by
  cases a <;> simp [textToJson, ofOption, isPlain]

theorem isPlain_flagToJson (depth : Nat) (a : Option Bool) : isPlain false depth (flagToJson a) = true := by
  cases a <;> simp [flagToJson, ofOption, isPlain]

theorem isPlain_textsToJson (depth : Nat) (a : Option (List String)) :
    isPlain false (depth + 1) (textsToJson a) = true := by
  cases a with
  | none => simp [textsToJson, ofOption, isPlain]
  | some l => exact isPlain_ofList depth l fun _ _ => by simp [isPlain]

theorem isPlain_toJson (hs : s.analyzer.concurrency = none) : isPlain false depthLimit s.toJson = true := by
  refine isPlain_mono (show 4 ≤ depthLimit by decide) ?_
  have htexts : ∀ l, isPlain false 1 (.ofList .text l) = true := fun l =>
    isPlain_ofList 0 l fun _ _ => by simp [isPlain]
  have hlayer : ∀ l : LayerSettings, isPlain false 2 (.object [("name", .text l.name),
      ("paths", .ofList .text l.paths), ("allow", .ofList .text l.allow)]) = true := fun l => by
    simp [isPlain, entriesArePlain, htexts]
  have hlayers := isPlain_ofList 2 s.layers fun l _ => hlayer l
  simp [toJson, isPlain, entriesArePlain, entriesArePlain_iff, ofOption,
    isPlain_textToJson, isPlain_flagToJson, isPlain_textsToJson, hlayers, hs]
  rintro _ _ _ c - - rfl
  simp [isPlain, entriesArePlain, isPlain_textToJson, isPlain_flagToJson]

theorem frame_injective (h : s.frame = t.frame) : s.canonical = t.canonical := by
  have hfields := congrArg Digest.Fingerprint.fields h
  simp only [frame, Digest.Fingerprint.text, Digest.Fingerprint.fields_bytes, nil_append,
    cons.injEq, and_true] at hfields
  exact toJson_injective rfl rfl
    (compact_injOn (isPlain_toJson rfl) (isPlain_toJson rfl) (Digest.utf8_injective hfields))

end Settings

/-! ### Configurations -/

namespace Config

/-- Whether two configurations agree in what analyzers look at. -/
structure SameChecks (c d : Config) : Prop where
  granularity : c.granularity = d.granularity
  dependencies : c.dependencies = d.dependencies
  architecture : c.architecture = d.architecture
  layers : c.layers = d.layers

/-- What loading a configuration says about it. -/
structure Loads (s : Settings) (origin : Option String) (c : Config) : Prop where
  analyzer : Check.analyzer s.analyzer = .ok c.analyzer
  cache : Check.cache s.cache = .ok c.cache
  categories : Check.categories s.categories = .ok c.categories
  granularity : Check.orDefault .file Check.granularity s.cycles.granularity = .ok c.granularity
  dependencies : Check.dependencies s.dependencies = .ok c.dependencies
  architecture : Check.architecture s.architecture = .ok c.architecture
  layers : Check.layerTable s.layers = .ok c.layers
  fingerprint : c.fingerprint = s.fingerprint
  origin : c.origin = origin

variable {s t : Settings} {origin : Option String} {c d : Config} {origin' : Option String}

theorem loads_of_ofSettings (h : ofSettings s origin = .ok c) : Loads s origin c := by
  obtain ⟨analyzer, hanalyzer, h⟩ := of_bind_eq_ok h
  obtain ⟨cache, hcache, h⟩ := of_bind_eq_ok h
  obtain ⟨categories, hcategories, h⟩ := of_bind_eq_ok h
  obtain ⟨granularity, hgranularity, h⟩ := of_bind_eq_ok h
  obtain ⟨dependencies, hdependencies, h⟩ := of_bind_eq_ok h
  obtain ⟨architecture, harchitecture, h⟩ := of_bind_eq_ok h
  obtain ⟨layers, hlayers, h⟩ := of_bind_eq_ok h
  cases h
  exact ⟨hanalyzer, hcache, hcategories, hgranularity, hdependencies, harchitecture, hlayers, rfl, rfl⟩

/-- Settings without the number of workers and the store determine what is checked. -/
theorem sameChecks_of_canonical (hc : Loads s origin c) (hd : Loads t origin' d)
    (h : s.canonical = t.canonical) : SameChecks c d := by
  have hcycles : s.cycles = t.cycles := by simpa [canonical] using congrArg cycles h
  have hdependencies : s.dependencies = t.dependencies := by
    simpa [Settings.canonical] using congrArg Settings.dependencies h
  have harchitecture : s.architecture = t.architecture := by
    simpa [Settings.canonical] using congrArg Settings.architecture h
  have hlayers : s.layers = t.layers := by simpa [Settings.canonical] using congrArg Settings.layers h
  refine ⟨?_, ?_, ?_, ?_⟩
  · exact Except.ok.inj (hc.granularity.symm.trans (hcycles ▸ hd.granularity))
  · exact Except.ok.inj (hc.dependencies.symm.trans (hdependencies ▸ hd.dependencies))
  · exact Except.ok.inj (hc.architecture.symm.trans (harchitecture ▸ hd.architecture))
  · exact Except.ok.inj (hc.layers.symm.trans (hlayers ▸ hd.layers))

/-- **Configurations with one fingerprint check the same**, where digests do not collide. -/
theorem sameChecks_of_fingerprint {streams : Set (List UInt8)} (hstreams : Digest.Collisionless streams)
    (hc : Loads s origin c) (hd : Loads t origin' d) (hs : s.frame.stream ∈ streams)
    (ht : t.frame.stream ∈ streams) (h : c.fingerprint = d.fingerprint) : SameChecks c d := by
  rw [hc.fingerprint, hd.fingerprint] at h
  exact sameChecks_of_canonical hc hd (frame_injective (hstreams.eq_of_digest_eq hs ht h))

end Config

/-! ### What the fingerprint forgets -/

namespace Settings

variable {s t : Settings}

/-- Whether two settings differ at most in the number of workers and in the store. -/
def SameFindings (s t : Settings) : Prop :=
  ∃ workers store, t = { s with analyzer := { s.analyzer with concurrency := workers }, cache := store }

theorem sameFindings_iff : s.SameFindings t ↔ s.canonical = t.canonical := by
  constructor
  · rintro ⟨workers, store, rfl⟩
    rfl
  · intro h
    obtain ⟨⟨root, included, excluded, packages, respect, workers, severity⟩, store, categories, cycles,
      dependencies, architecture, layers⟩ := t
    refine ⟨workers, store, ?_⟩
    simp only [canonical] at h ⊢
    grind

/-- The settings are the only field of their fingerprint, so its length need not be bounded: what stands in
front of the field is the same for all settings. -/
theorem canonical_eq_of_stream (h : s.frame.stream = t.frame.stream) : s.canonical = t.canonical :=
  frame_injective <| by
    unfold frame Digest.Fingerprint.text at h ⊢
    rw [Digest.Fingerprint.bytes_injective h]

end Settings

namespace Config

/-- Whether two configurations are equal but for the number of workers, the store and their origin. -/
structure Agrees (c d : Config) : Prop extends SameChecks c d where
  root : c.analyzer.root = d.analyzer.root
  included : c.analyzer.included = d.analyzer.included
  excluded : c.analyzer.excluded = d.analyzer.excluded
  packages : c.analyzer.packages = d.analyzer.packages
  respectIgnoreFiles : c.analyzer.respectIgnoreFiles = d.analyzer.respectIgnoreFiles
  minSeverity : c.analyzer.minSeverity = d.analyzer.minSeverity
  categories : c.categories = d.categories

/-- The number of workers is taken over as it is, and no other part of the policy depends on it. -/
theorem analyzer_without_concurrency {s : AnalyzerSettings} {p : AnalyzerPolicy} (h : Check.analyzer s = .ok p) :
    Check.analyzer { s with concurrency := none } = .ok { p with concurrency := none } := by
  obtain ⟨included, hincluded, h⟩ := of_bind_eq_ok h
  obtain ⟨excluded, hexcluded, h⟩ := of_bind_eq_ok h
  obtain ⟨packages, hpackages, h⟩ := of_bind_eq_ok h
  by_cases hzero : s.concurrency = some 0
  · rw [if_pos hzero] at h
    cases h
  · rw [if_neg hzero] at h
    obtain ⟨severity, hseverity, h⟩ := of_bind_eq_ok h
    cases h
    simp only [Check.analyzer, hincluded, hexcluded, hpackages, hseverity]
    rfl

theorem agrees_of_canonical {s t : Settings} {origin origin' : Option String} {c d : Config} (hc : Loads s origin c)
    (hd : Loads t origin' d) (h : s.canonical = t.canonical) : Agrees c d := by
  have hanalyzer : { s.analyzer with concurrency := none } = { t.analyzer with concurrency := none } :=
    congrArg Settings.analyzer h
  have hcategories : s.categories = t.categories := by
    simpa [Settings.canonical] using congrArg Settings.categories h
  have hpolicy : { c.analyzer with concurrency := none } = { d.analyzer with concurrency := none } := by
    have hleft := analyzer_without_concurrency hc.analyzer
    rw [hanalyzer, analyzer_without_concurrency hd.analyzer] at hleft
    exact (Except.ok.inj hleft).symm
  simp only [AnalyzerPolicy.mk.injEq, true_and] at hpolicy
  obtain ⟨hroot, hincluded, hexcluded, hpackages, hrespect, hseverity⟩ := hpolicy
  exact ⟨sameChecks_of_canonical hc hd h, hroot, hincluded, hexcluded, hpackages, hrespect, hseverity,
    Except.ok.inj (hc.categories.symm.trans (hcategories ▸ hd.categories))⟩

/-- **The fingerprint forgets the number of workers and the store, and nothing else**, where hashes do not collide;
so loaded configurations with one fingerprint agree in all the rest. -/
theorem fingerprint_eq_iff {streams : Set (List UInt8)} (hstreams : Set.InjOn Digest.Sha256.hash streams)
    {s t : Settings} (hs : s.frame.stream ∈ streams) (ht : t.frame.stream ∈ streams) :
    (s.fingerprint = t.fingerprint ↔ s.SameFindings t) ∧
      ∀ origin origin' c d, ofSettings s origin = .ok c → ofSettings t origin' = .ok d →
        c.fingerprint = d.fingerprint → c.Agrees d := by
  have hcanonical : s.fingerprint = t.fingerprint → s.canonical = t.canonical := fun h =>
    Settings.canonical_eq_of_stream (hstreams hs ht (Digest.hex_injective h))
  refine ⟨⟨fun h => Settings.sameFindings_iff.2 (hcanonical h), fun h => ?_⟩, ?_⟩
  · unfold Settings.fingerprint Settings.frame
    rw [Settings.sameFindings_iff.1 h]
  · intro origin origin' c d hc hd h
    have hc := loads_of_ofSettings hc
    have hd := loads_of_ofSettings hd
    rw [hc.fingerprint, hd.fingerprint] at h
    exact agrees_of_canonical hc hd (hcanonical h)

/-- Four workers and a store elsewhere leave the fingerprint and all that is checked as they are. -/
theorem fingerprint_eq_iff_busy :
    let plain : Settings := { layers := [{ name := "a\"", paths := ["a/**"] }] }
    let busy : Settings :=
      { plain with analyzer := { concurrency := some 4 }, cache := { dir := some "../store", strict := some true } }
    Set.InjOn Digest.Sha256.hash {plain.frame.stream} ∧ busy.fingerprint = plain.fingerprint ∧
      ∃ c d, ofSettings busy none = .ok c ∧ ofSettings plain none = .ok d ∧ c.Agrees d := by
  intro plain busy
  have hstreams : Set.InjOn Digest.Sha256.hash {plain.frame.stream} := Set.injOn_singleton _ _
  obtain ⟨hiff, hagrees⟩ := fingerprint_eq_iff hstreams (s := busy) (t := plain) rfl rfl
  have hfingerprint : busy.fingerprint = plain.fingerprint := hiff.2 ⟨none, {}, rfl⟩
  have hloads : ∀ s : Settings, (ofSettings s none).toOption.isSome = true → ∃ c, ofSettings s none = .ok c := by
    intro s hs
    cases h : ofSettings s none with
    | error e => rw [h] at hs; cases hs
    | ok c => exact ⟨c, rfl⟩
  obtain ⟨c, hc⟩ := hloads busy (by decide +kernel)
  obtain ⟨d, hd⟩ := hloads plain (by decide +kernel)
  have hsame : c.fingerprint = d.fingerprint := by
    rw [(loads_of_ofSettings hc).fingerprint, (loads_of_ofSettings hd).fingerprint, hfingerprint]
  exact ⟨hstreams, hfingerprint, c, d, hc, hd, hagrees none none c d hc hd hsame⟩

end Config

end Cartograph
