import Cartograph.Proofs.Analysis.Codes
import Cartograph.Proofs.Analysis.PackageCycles
import Cartograph.Proofs.Config.Layers

/-!
# Circles of layers

The allowed imports between layers are a relation on the numbers of layers (`MayImport`), in which a layer that names
itself does not count. Layers that reach each other by it are a tangle (`IsTangle`). Main statement:
`layerBoundaries_reportsTangles`. Each tangle is found once, by the first circle through its first declared layer
(`IsFirstCircle`), and nothing is found exactly if the relation has no cycle.

The search runs on a graph whose edges come from names, each looked up for its number. That graph is the relation
(`arc_allowGraph`), since a table has each name once and declares all that it mentions.
-/

namespace Cartograph

open Cartograph.Digraph List

namespace Layers

open Relation (ReflTransGen TransGen)

/-! ### What is to be reported -/

/-- A layer may import another one. Layers are known by their numbers in the order in which they are declared. -/
def MayImport (t : LayerTable) (i j : Nat) : Prop :=
  i ≠ j ∧ ∃ a b, t.layers[i]? = some a ∧ t.layers[j]? = some b ∧ b.name ∈ a.allow.toList

/-- A strongly connected component of two layers or more, in the order in which they are declared. -/
structure IsTangle (t : LayerTable) (members : List Nat) : Prop where
  ascending : members.Pairwise (· < ·)
  two_le : 2 ≤ members.length
  mem_iff : ∀ i ∈ members, ∀ j, j ∈ members ↔ ReflTransGen (MayImport t) i j ∧ ReflTransGen (MayImport t) j i

/-- A circle of layers: each may import the next, and the last may import the first. -/
def IsCircle (t : LayerTable) (circle : List Nat) : Prop :=
  circle ≠ [] ∧ (circle ++ circle.take 1).IsChain (MayImport t)

/-- The first circle through a layer: it passes no layer twice, no circle through the layer is shorter, and of those as
short none is less when layers are compared one after the other. -/
structure IsFirstCircle (t : LayerTable) (start : Nat) (circle : List Nat) : Prop where
  isCircle : IsCircle t circle
  nodup : circle.Nodup
  head : circle.head? = some start
  shortest : ∀ other, IsCircle t other → other.head? = some start → circle.length ≤ other.length
  least : ∀ other, IsCircle t other → other.head? = some start → other.length = circle.length → circle ≤ other

/-- A finding names the layers of a circle, from the first back to the first. -/
structure NamesCircle (t : LayerTable) (label : String) (circle : List Nat) (d : Diagnostic) : Prop where
  code : d.code = "AG102"
  category : d.category = .configuration
  severity : d.severity = .warning
  location : d.location = { file := label }
  message : ∃ names, Forall₂ (fun i name => (t.layers[i]?).map (·.name) = some name) circle names ∧
    d.message = "allowed imports between layers form a cycle: " ++ " -> ".intercalate (names ++ names.take 1)

/-- A finding on a tangle names the first circle through the layer of the tangle that is declared first. -/
def ReportsTangle (t : LayerTable) (label : String) (members : List Nat) (d : Diagnostic) : Prop :=
  ∃ start circle, start ∈ members ∧ (∀ i ∈ members, start ≤ i) ∧ IsFirstCircle t start circle ∧
    NamesCircle t label circle d

/-- Findings of which there is one for each tangle, so none exactly if no layer leads back to itself. -/
structure ReportsTangles (t : LayerTable) (label : String) (found : List Diagnostic) : Prop where
  reported : ∃ tangles : List (List Nat), tangles.Nodup ∧ (∀ members, members ∈ tangles ↔ IsTangle t members) ∧
    Forall₂ (ReportsTangle t label) tangles found
  acyclic_iff : found = [] ↔ ∀ i, ¬TransGen (MayImport t) i i

/-! ### The graph of names is the relation -/

variable {t : LayerTable} {i j start : Nat} {members circle : List Nat}

theorem MayImport.lt_length (h : MayImport t i j) : i < t.layers.length ∧ j < t.layers.length := by
  obtain ⟨-, a, b, ha, hb, -⟩ := h
  exact ⟨(List.getElem?_eq_some_iff.1 ha).1, (List.getElem?_eq_some_iff.1 hb).1⟩

/-- **The edges of the graph are the allowed imports.** -/
theorem arc_allowGraph : (allowGraph t.layers).Arc i j ↔ MayImport t i j := by
  constructor
  · intro harc
    obtain ⟨⟨a, i'⟩, ha, harc⟩ := mem_flatMap.1 harc
    obtain ⟨j', hj, hedge⟩ := mem_filterMap.1 harc
    obtain ⟨name, hname, hindex⟩ := mem_filterMap.1 hj
    obtain ⟨b, hb, rfl⟩ := indexOf?_eq_some_iff.1 hindex
    split at hedge
    · cases hedge
    · next hne =>
      cases hedge
      exact ⟨hne, a, b, mem_zipIdx_iff_getElem?.1 ha, hb, hname⟩
  · rintro ⟨hne, a, b, ha, hb, hname⟩
    refine mem_flatMap.2 ⟨(a, i), mem_zipIdx_iff_getElem?.2 ha, ?_⟩
    refine mem_filterMap.2 ⟨j, mem_filterMap.2 ⟨b.name, hname, ?_⟩, if_neg hne⟩
    exact indexOf?_eq_some_iff.2 ⟨b, hb, rfl⟩

theorem arc_allowGraph_eq (t : LayerTable) : (allowGraph t.layers).Arc = MayImport t := by
  funext i j
  exact propext arc_allowGraph

theorem reaches_allowGraph : (allowGraph t.layers).Reaches i j ↔ ReflTransGen (MayImport t) i j := by
  rw [Reaches, arc_allowGraph_eq]

/-- A layer that reaches another one is declared. -/
theorem lt_length_of_reaches (h : ReflTransGen (MayImport t) i j) (hne : i ≠ j) : i < t.layers.length := by
  obtain rfl | ⟨k, hk, -⟩ := h.cases_head
  · exact absurd rfl hne
  · exact hk.lt_length.1

/-! ### Tangles and circles -/

/-- A tangle has another layer than any given one. -/
theorem IsTangle.exists_ne (h : IsTangle t members) (i : Nat) : ∃ j ∈ members, j ≠ i := by
  match members, h.two_le, h.ascending with
  | a :: b :: rest, _, hascending =>
    have hab : a < b := (pairwise_cons.1 hascending).1 b mem_cons_self
    by_cases ha : a = i
    · exact ⟨b, mem_cons_of_mem a mem_cons_self, Nat.ne_of_gt (ha ▸ hab)⟩
    · exact ⟨a, mem_cons_self, ha⟩

theorem isTangle_iff : IsTangle t members ↔ (allowGraph t.layers).IsComponent members ∧ 2 ≤ members.length := by
  constructor
  · intro h
    refine ⟨⟨h.ascending, ne_nil_of_length_pos (Nat.lt_of_lt_of_le Nat.zero_lt_two h.two_le), ?_⟩, h.two_le⟩
    intro v hv w
    rw [Connected, reaches_allowGraph, reaches_allowGraph, h.mem_iff v hv w]
    refine ⟨fun hw => ⟨?_, hw⟩, And.right⟩
    -- a tangle has another layer, which this one reaches
    have hw := (h.mem_iff v hv w).2 hw
    obtain ⟨u, hu, hne⟩ := h.exists_ne w
    exact lt_length_of_reaches ((h.mem_iff w hw u).1 hu).1 hne.symm
  · rintro ⟨h, htwo⟩
    refine ⟨h.sorted, htwo, fun v hv w => ?_⟩
    rw [h.mem_iff v hv w, Connected, reaches_allowGraph, reaches_allowGraph]
    refine ⟨And.right, fun hw => ⟨?_, hw⟩⟩
    by_cases hvw : v = w
    · rw [← hvw]
      exact ((h.mem_iff v hv v).1 hv).1
    · exact lt_length_of_reaches hw.2 (Ne.symm hvw)

theorem isCircle_iff : IsCircle t circle ↔ (allowGraph t.layers).IsCycle circle := by
  have hstep : MayImport t = fun v w => (allowGraph t.layers).Arc v w ∧ v ≠ w := by
    funext v w
    rw [arc_allowGraph_eq]
    exact propext ⟨fun h => ⟨h, h.1⟩, And.left⟩
  cases circle with
  | nil => exact ⟨fun h => absurd rfl h.1, fun h => absurd h.two_le (by decide)⟩
  | cons a l =>
    have hchain : (a :: l ++ (a :: l).take 1).IsChain (MayImport t) ↔
        ∀ hop ∈ around (a :: l), (allowGraph t.layers).Arc hop.1 hop.2 ∧ hop.1 ≠ hop.2 := by
      rw [hstep]
      exact (forall_mem_zip_iff_isChain _ a l a).symm
    rw [IsCircle, hchain]
    constructor
    · rintro ⟨-, harc⟩
      refine ⟨?_, harc⟩
      cases l with
      | nil => exact absurd rfl (harc (a, a) mem_cons_self).2
      | cons b l => exact Nat.le_add_left 2 l.length
    · exact fun h => ⟨cons_ne_nil a l, h.arc⟩

theorem isFirstCircle_of_isFirstCycle
    (h : (allowGraph t.layers).IsFirstCycle start circle) : IsFirstCircle t start circle where
  isCircle := isCircle_iff.2 h.isCycle
  nodup := h.nodup
  head := h.head
  shortest other hother hhead := by
    obtain hlt | ⟨heq, -⟩ := h.first other (isCircle_iff.1 hother) hhead
    · exact Nat.le_of_lt hlt
    · exact Nat.le_of_eq heq
  least other hother hhead hlength := by
    obtain hlt | ⟨-, hle⟩ := h.first other (isCircle_iff.1 hother) hhead
    · exact absurd hlength.symm (Nat.ne_of_lt hlt)
    · exact hle

/-! ### The findings -/

/-- The finding on a component of the graph. -/
def tangleFinding (t : LayerTable) (label : String) (members : List Nat) : Diagnostic :=
  layerCycle label (((allowGraph t.layers).cycleIn members).filterMap fun i => (t.layers[i]?).map (·.name))

theorem filter_find (severity : Severity) (context : AnalysisContext) :
    (find severity context).filter (·.code = "AG102") =
      ((allowGraph context.config.layers.layers).components.filter (2 ≤ ·.length)).map
        (tangleFinding context.config.layers context.configLabel) := by
  have hcycles : layerCycles context = ((allowGraph context.config.layers.layers).components.filter
      (2 ≤ ·.length)).map (tangleFinding context.config.layers context.configLabel) := by
    unfold layerCycles
    dsimp only
    rw [knots_eq (inRange_allowGraph context.config.layers.layers), map_map]
    rfl
  unfold find
  split
  · next hempty =>
    rw [isEmpty_iff.1 hempty]
    rfl
  · rw [filter_append, filter_eq_self.2, filter_eq_nil_iff.2, append_nil, hcycles]
    · intro d hd
      obtain ⟨e, -, he⟩ := mem_filterMap.1 hd
      rw [(of_violation?_eq_some he).1]
      decide
    · intro d hd
      obtain ⟨knot, -, rfl⟩ := mem_map.1 hd
      rfl

/-- **A tangle is reported** by its first circle, no layer of which is left out. -/
theorem reportsTangle_tangleFinding (label : String) (hmembers : members ∈ (allowGraph t.layers).components)
    (htwo : 2 ≤ members.length) : ReportsTangle t label members (tangleFinding t label members) := by
  have hrange := inRange_allowGraph t.layers
  obtain ⟨start, hhead, hleast, hfirst⟩ := isFirstCycle_cycleIn hrange hmembers htwo
  have hnames : Forall₂ (fun i name => (t.layers[i]?).map (·.name) = some name)
      ((allowGraph t.layers).cycleIn members)
      (((allowGraph t.layers).cycleIn members).filterMap fun i => (t.layers[i]?).map (·.name)) := by
    refine forall₂_filterMap _ fun i hi => ?_
    obtain ⟨j, hhop⟩ := exists_mem_around hi
    have hlt : i < t.layers.length := (hrange i j (hfirst.isCycle.arc _ hhop).1).1
    rw [getElem?_eq_getElem hlt]
    exact ⟨_, rfl, rfl⟩
  exact ⟨start, _, mem_of_head? hhead, hleast, isFirstCircle_of_isFirstCycle hfirst,
    rfl, rfl, rfl, rfl, _, hnames, rfl⟩

/-- A layer that leads back to itself is in a tangle. -/
theorem exists_isTangle_of_transGen (h : TransGen (MayImport t) i i) : ∃ members, IsTangle t members := by
  have hrange := inRange_allowGraph t.layers
  obtain ⟨j, hij, hji⟩ := TransGen.head'_iff.1 h
  have hconnected : (allowGraph t.layers).Connected i j :=
    ⟨reaches_allowGraph.2 (ReflTransGen.single hij), reaches_allowGraph.2 hji⟩
  have hcomponent : (allowGraph t.layers).componentOf i ∈ (allowGraph t.layers).components :=
    (mem_components_iff hrange _).2 ⟨i, hij.lt_length.1, rfl⟩
  exact ⟨_, isTangle_iff.2 ⟨(isComponent_iff hrange _).2 hcomponent,
    two_le_length_componentOf hrange hij.lt_length.1 hconnected hij.1⟩⟩

/-- Every layer of a tangle leads back to itself. -/
theorem IsTangle.exists_transGen (h : IsTangle t members) : ∃ i, TransGen (MayImport t) i i := by
  obtain ⟨i, hi⟩ := exists_mem_of_length_pos (Nat.lt_of_lt_of_le Nat.zero_lt_two h.two_le)
  obtain ⟨j, hj, hne⟩ := h.exists_ne i
  obtain ⟨hthere, hback⟩ := (h.mem_iff i hi j).1 hj
  obtain hij | hij := Relation.reflTransGen_iff_eq_or_transGen.1 hthere
  · exact absurd hij hne
  · exact ⟨i, hij.trans_left hback⟩

end Layers

/-- **Circles of layers are found exactly.** For every table of layers, the analyzer finds one circle for each strongly
connected component of two layers or more: the first one through the layer of the component that is declared first. It
finds none exactly if no layer can be reached from itself. -/
theorem layerBoundaries_reportsTangles (severity : Severity) (context : AnalysisContext) :
    Layers.ReportsTangles context.config.layers context.configLabel
      (((layerBoundaries severity).analyze context).diagnostics.filter (·.code = "AG102")) := by
  have hrange := Layers.inRange_allowGraph context.config.layers.layers
  have hlarge : ∀ members,
      members ∈ (Layers.allowGraph context.config.layers.layers).components.filter (2 ≤ ·.length) ↔
        Layers.IsTangle context.config.layers members := by
    intro members
    rw [Layers.isTangle_iff, Digraph.mem_filter_components hrange]
  change Layers.ReportsTangles _ _ ((Layers.find severity context).filter (·.code = "AG102"))
  rw [Layers.filter_find]
  refine ⟨⟨_, (Digraph.components_nodup hrange).filter _, hlarge, forall₂_self_map fun members hmembers => ?_⟩, ?_⟩
  · obtain ⟨hmem, htwo⟩ := mem_filter.1 hmembers
    exact Layers.reportsTangle_tangleFinding _ hmem (of_decide_eq_true htwo)
  · rw [map_eq_nil_iff, eq_nil_iff_forall_not_mem]
    constructor
    · intro hnone i hi
      obtain ⟨members, hmembers⟩ := Layers.exists_isTangle_of_transGen hi
      exact hnone members ((hlarge members).2 hmembers)
    · intro hacyclic members hmembers
      obtain ⟨i, hi⟩ := ((hlarge members).1 hmembers).exists_transGen
      exact hacyclic i hi

end Cartograph
