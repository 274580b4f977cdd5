import Cartograph.Analysis.Layers
import Cartograph.Proofs.Lists

/-!
# Tables of layers

A table is consistent, so no two of its layers have one name (`LayerTable.nodup_names`). A name stands for one layer,
whether it is looked up among the layers (`LayerTable.get?_eq_some_iff`) or for its number
(`Layers.indexOf?_eq_some_iff`), and what is known about the name of a layer is known about the layer
(`LayerTable.allows_iff`).

A path belongs to the first layer that contains it (`LayerTable.IsLayerOf`).
-/

namespace Cartograph

open List

variable {layers : List Layer}

/-! ### Consistency -/

theorem repeatedLayers_eq_nil_iff {seen : List String} :
    repeatedLayers seen layers = [] ↔ (∀ l ∈ layers, l.name ∉ seen) ∧ (layers.map (·.name)).Nodup := by
  induction layers generalizing seen with
  | nil => simp [repeatedLayers]
  | cons l layers ih =>
    rw [map_cons, nodup_cons, forall_mem_cons, repeatedLayers]
    split
    · next hseen =>
      exact ⟨nofun, fun h => absurd (contains_iff_mem.1 hseen) h.1.1⟩
    · next hseen =>
      -- the name of the first layer is new, and the others must not repeat it
      have hnew : (∀ m ∈ layers, m.name ∉ l.name :: seen) ↔
          (∀ m ∈ layers, m.name ∉ seen) ∧ l.name ∉ layers.map (·.name) := by
        simp only [mem_cons, not_or, mem_map, not_exists, not_and]
        constructor
        · exact fun h => ⟨fun m hm => (h m hm).2, fun m hm => (h m hm).1⟩
        · exact fun h m hm => ⟨h.2 m hm, h.1 m hm⟩
      rw [ih, hnew]
      have hfirst : l.name ∉ seen := fun hmem => hseen (contains_iff_mem.2 hmem)
      constructor
      · rintro ⟨⟨hothers, hl⟩, hnodup⟩
        exact ⟨⟨hfirst, hothers⟩, hl, hnodup⟩
      · rintro ⟨⟨-, hothers⟩, hl, hnodup⟩
        exact ⟨⟨hothers, hl⟩, hnodup⟩

theorem danglingLayers_eq_nil_iff :
    danglingLayers layers = [] ↔ ∀ l ∈ layers, ∀ name ∈ l.allow.toList, ∃ m ∈ layers, m.name = name := by
  simp [danglingLayers]

namespace LayerTable

variable {t : LayerTable} {a b : Layer} {i j : Nat} {name path : String}

theorem nodup_names (t : LayerTable) : (t.layers.map (·.name)).Nodup :=
  (repeatedLayers_eq_nil_iff.1 (append_eq_nil_iff.1 t.consistent).1).2

/-- A name stands for one layer. -/
theorem eq_of_name_eq (ha : a ∈ t.layers) (hb : b ∈ t.layers) (hname : a.name = b.name) : a = b := by
  obtain ⟨i, hi⟩ := mem_iff_getElem?.1 ha
  obtain ⟨j, hj⟩ := mem_iff_getElem?.1 hb
  obtain rfl := getElem?_inj_of_nodup_map t.nodup_names hi hj hname
  exact Option.some.inj (hi.symm.trans hj)

theorem get?_eq_some_iff : t.get? name = some a ↔ a ∈ t.layers ∧ a.name = name := by
  constructor
  · intro h
    have hname := find?_some h
    exact ⟨mem_of_find?_eq_some h, eq_of_beq hname⟩
  · rintro ⟨ha, rfl⟩
    have hsome : (t.get? a.name).isSome = true := find?_isSome.2 ⟨a, ha, beq_self_eq_true a.name⟩
    obtain ⟨b, hb⟩ := Option.isSome_iff_exists.1 hsome
    have hname := find?_some hb
    rw [hb, eq_of_name_eq (mem_of_find?_eq_some hb) ha (eq_of_beq hname)]

/-- **What a layer may import**: itself and the layers that it names. -/
theorem allows_iff (ha : a ∈ t.layers) (hb : b ∈ t.layers) :
    t.allows a.name b.name = true ↔ a = b ∨ b.name ∈ a.allow.toList := by
  have hsame : a.name = b.name ↔ a = b := ⟨eq_of_name_eq ha hb, congrArg Layer.name⟩
  rw [allows, get?_eq_some_iff.2 ⟨ha, rfl⟩, Bool.or_eq_true, beq_iff_eq, hsame]
  exact or_congr_right contains_iff_mem

/-! ### The layer of a path -/

/-- The layer that a path belongs to: the first that contains it. -/
def IsLayerOf (t : LayerTable) (path : String) (l : Layer) : Prop :=
  ∃ front back, t.layers = front ++ l :: back ∧ (∃ pattern ∈ l.patterns, pattern.matches path = true) ∧
    ∀ m ∈ front, ∀ pattern ∈ m.patterns, pattern.matches path = false

theorem IsLayerOf.mem (h : t.IsLayerOf path a) : a ∈ t.layers := by
  obtain ⟨front, back, hlayers, -⟩ := h
  exact hlayers ▸ mem_append_right front mem_cons_self

theorem find?_eq_some_iff : t.layers.find? (·.contains path) = some a ↔ t.IsLayerOf path a := by
  rw [find?_eq_some_iff_append]
  simp only [Layer.contains, Glob.anyMatches, any_eq_true, Bool.not_eq_eq_eq_not, Bool.not_true, any_eq_false,
    Bool.not_eq_true]
  constructor
  · rintro ⟨hmatch, front, back, hlayers, hfront⟩
    exact ⟨front, back, hlayers, hmatch, hfront⟩
  · rintro ⟨front, back, hlayers, hmatch, hfront⟩
    exact ⟨hmatch, front, back, hlayers, hfront⟩

/-- **The layer that is assigned to a path** is the name of the one that it belongs to. -/
theorem assign?_eq_some_iff : t.assign? path = some name ↔ ∃ l, t.IsLayerOf path l ∧ l.name = name := by
  rw [assign?, Option.map_eq_some_iff]
  exact exists_congr fun l => and_congr_left fun _ => find?_eq_some_iff

end LayerTable

/-- The number of a name is that of the layer with this name. -/
theorem Layers.indexOf?_eq_some_iff {t : LayerTable} {name : String} {j : Nat} :
    indexOf? t.layers name = some j ↔ ∃ b, t.layers[j]? = some b ∧ b.name = name := by
  constructor
  · intro h
    obtain ⟨hlt, hname, -⟩ := findIdx?_eq_some_iff_getElem.1 h
    exact ⟨t.layers[j], getElem?_eq_getElem hlt, eq_of_beq hname⟩
  · rintro ⟨b, hb, rfl⟩
    have hsome : (indexOf? t.layers b.name).isSome = true := by
      rw [indexOf?, findIdx?_isSome]
      exact any_eq_true.2 ⟨b, mem_of_getElem? hb, beq_self_eq_true b.name⟩
    obtain ⟨k, hk⟩ := Option.isSome_iff_exists.1 hsome
    obtain ⟨hlt, hname, -⟩ := findIdx?_eq_some_iff_getElem.1 hk
    rw [hk, getElem?_inj_of_nodup_map t.nodup_names (getElem?_eq_getElem hlt) hb (eq_of_beq hname)]

end Cartograph
