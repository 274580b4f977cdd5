import Cartograph.Check
import Cartograph.Proofs.Config.Fingerprint
import Cartograph.Proofs.Graph.Fingerprint

/-!
# What the key of an analysis determines

An analyzer looks at the graph, at four parts of the configuration and at the label of the configuration
(`analyze_eq_of_sameChecks`). The key of an analysis covers the name of the analyzer, the label, and the
fingerprints of the configuration and of the graph, and each of these determines what it stands for. So
analyses with one key find the same (`analyze_eq_of_analysisFrame`), where digests do not collide.
-/

namespace Cartograph

open List

open Digest (Fingerprint Collisionless)

variable {c d context : AnalysisContext} {a b analyzer : Analyzer}

/-! ### What analyzers look at -/

/-- **Analyzers look at no more** than the graph, the parts of the configuration that `SameChecks` compares, and
the label. -/
theorem analyze_eq_of_sameChecks (hanalyzer : analyzer ∈ Check.analyzers) (hgraph : c.graph = d.graph)
    (hconfig : c.config.SameChecks d.config)
    (hlabel : c.configLabel = d.configLabel) : analyzer.analyze c = analyzer.analyze d := by
  simp only [Check.analyzers, mem_cons, not_mem_nil, or_false] at hanalyzer
  obtain rfl | rfl | rfl := hanalyzer
  · simp only [circularImports, Cycles.find, hgraph, hconfig.granularity]
  · have hviolation : Layers.violation? .error c = Layers.violation? .error d := by
      funext e
      simp only [Layers.violation?, hgraph, hconfig.layers, hconfig.architecture]
    simp only [layerBoundaries, Layers.find, Layers.layerCycles, hgraph, hconfig.layers, hlabel, hviolation]
  · simp only [dependencyUsage, Dependencies.find, hgraph, hconfig.dependencies]

theorem eq_of_name_eq (ha : a ∈ Check.analyzers) (hb : b ∈ Check.analyzers) (h : a.name = b.name) : a = b := by
  simp only [Check.analyzers, mem_cons, not_mem_nil, or_false] at ha hb
  obtain rfl | rfl | rfl := ha <;> obtain rfl | rfl | rfl := hb
  all_goals first
    | rfl
    | exact absurd h (by decide)

/-! ### The key -/

/-- What the key of an analysis is made of. -/
def analysisFrame (context : AnalysisContext) (analyzer : Analyzer) : Fingerprint :=
  (({ domain := "analysis" } : Fingerprint).texts [analyzer.name, analyzer.version, analyzer.fingerprint,
    context.configLabel, context.config.fingerprint, context.graph.fingerprint]).texts ["typescript@1"]

theorem analysisKey_eq {p : Plan} (hlanguages : p.languages = Check.languages)
    (hconfig : context.config = p.config) (analyzer : Analyzer) :
    analysisKey p context analyzer = (analysisFrame context analyzer).digest := by
  have hids : (p.languages.map fun l => l.id ++ "@" ++ l.version).mergeSort (· ≤ ·) = ["typescript@1"] := by
    rw [hlanguages]
    exact mergeSort_singleton _
  simp only [analysisKey, hids, ← hconfig]
  rfl

/-- What an analysis looks at was read from settings and contents whose digests are those of given streams. -/
structure AnalysisContext.IsRead (streams : Set (List UInt8)) (context : AnalysisContext) : Prop where
  settings : ∃ settings origin, Config.Loads settings origin context.config ∧ settings.frame.stream ∈ streams
  graph : ∃ packages files, Graph.AreRead streams packages files ∧
    context.graph = (Graph.build packages context.config files).1

/-- **Analyses with one key find the same**, where digests do not collide. -/
theorem analyze_eq_of_analysisFrame {streams : Set (List UInt8)} (hstreams : Collisionless streams)
    (hc : c.IsRead streams) (hd : d.IsRead streams)
    (ha : a ∈ Check.analyzers) (hb : b ∈ Check.analyzers) (hca : (analysisFrame c a).stream ∈ streams)
    (hdb : (analysisFrame d b).stream ∈ streams)
    (h : (analysisFrame c a).digest = (analysisFrame d b).digest) : a.analyze c = b.analyze d := by
  have hfields := congrArg Fingerprint.fields (hstreams.eq_of_digest_eq hca hdb h)
  simp only [analysisFrame, Fingerprint.texts, nil_append, map_cons, map_nil,
    cons_append, cons.injEq, and_true] at hfields
  obtain ⟨hname, -, -, hlabel, hconfig, hgraph⟩ := hfields
  obtain rfl := eq_of_name_eq ha hb (Digest.utf8_injective hname)
  obtain ⟨⟨settings, origin, hloads, hsettings⟩, packages, files, hread, hbuilt⟩ := hc
  obtain ⟨⟨settings', origin', hloads', hsettings'⟩, packages', files', hread', hbuilt'⟩ := hd
  have hchecks := Config.sameChecks_of_fingerprint hstreams hloads hloads' hsettings hsettings'
    (Digest.utf8_injective hconfig)
  have hgraph := Digest.utf8_injective hgraph
  rw [hbuilt, hbuilt'] at hgraph
  refine analyze_eq_of_sameChecks ha ?_ hchecks (Digest.utf8_injective hlabel)
  rw [hbuilt, hbuilt']
  exact Graph.build_eq_of_fingerprint hstreams hread hread' hchecks.layers hgraph

end Cartograph
