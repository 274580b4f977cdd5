import Mathlib.Data.List.Nodup
import Cartograph.Graph.PackageView

/-!
# The graph of packages is exact

`Graph.packageEdges` goes through the imports of a graph once and files each that crosses between packages under the
edge for its pair of packages. What comes out is stated without that pass (`Graph.IsPackageView`): there is one edge for
each ordered pair of packages that an import crosses between, and no other; it lists exactly the imports that cross
between the two, in ascending order.

The pass is an induction on the number of imports looked at (`Graph.Groups`). One step can extend the list of an edge
that is there or add an edge behind all others, and `addCrossing_cases` says so once.
-/

namespace Cartograph.Graph

open List

variable {g : Graph} {source target id p q p' q' : Nat}

/-! ### Imports that cross -/

/-- The import with a number leads from a module of one package to a module of another. -/
def Crosses (g : Graph) (id source target : Nat) : Prop :=
  source ≠ target ∧ ∃ e a b, g.edges[id]? = some e ∧ g.module? e.source = some a ∧ g.module? e.target = some b ∧
    a.package = source ∧ b.package = target

theorem crossing?_eq_some_iff {e : Edge} :
    g.crossing? e = some (source, target) ↔
      source ≠ target ∧ ∃ a b, g.module? e.source = some a ∧ g.module? e.target = some b ∧
        a.package = source ∧ b.package = target := by
  unfold crossing?
  cases ha : g.module? e.source with
  | none => simp
  | some a =>
    cases hb : g.module? e.target with
    | none => simp
    | some b =>
      dsimp only
      split
      · next hsame =>
        refine ⟨nofun, ?_⟩
        rintro ⟨hne, _, _, ⟨⟩, ⟨⟩, rfl, rfl⟩
        exact absurd hsame hne
      · next hne =>
        constructor
        · intro h
          obtain ⟨rfl, rfl⟩ := Prod.mk.inj (Option.some.inj h)
          exact ⟨hne, a, b, rfl, rfl, rfl, rfl⟩
        · rintro ⟨-, _, _, ⟨⟩, ⟨⟩, rfl, rfl⟩
          rfl

theorem crosses_iff :
    g.Crosses id source target ↔ ∃ e, g.edges[id]? = some e ∧ g.crossing? e = some (source, target) := by
  constructor
  · rintro ⟨hne, e, a, b, he, h⟩
    exact ⟨e, he, crossing?_eq_some_iff.2 ⟨hne, a, b, h⟩⟩
  · rintro ⟨e, he, h⟩
    obtain ⟨hne, a, b, h⟩ := crossing?_eq_some_iff.1 h
    exact ⟨hne, e, a, b, he, h⟩

theorem Crosses.lt_size (h : g.Crosses id source target) : id < g.edges.size := by
  obtain ⟨-, e, -, -, he, -⟩ := h
  exact (Array.getElem?_eq_some_iff.1 he).1

/-- An import crosses between one pair of packages at most. -/
theorem Crosses.ends_eq (h : g.Crosses id p q) (h' : g.Crosses id p' q') : p = p' ∧ q = q' := by
  obtain ⟨e, he, hcrossing⟩ := crosses_iff.1 h
  obtain ⟨e', he', hcrossing'⟩ := crosses_iff.1 h'
  obtain rfl := Option.some.inj (he.symm.trans he')
  exact Prod.mk.inj (Option.some.inj (hcrossing.symm.trans hcrossing'))

/-! ### What the graph of packages is -/

/-- The packages that an edge leads between. -/
def ends (k : PackageEdge) : Nat × Nat := (k.source, k.target)

/-- **The edges between packages** are exact: one for each pair that imports cross between, with exactly these
imports in ascending order. -/
structure IsPackageView (g : Graph) (edges : List PackageEdge) : Prop where
  /-- There is an edge exactly where an import crosses. -/
  arc_iff : ∀ p q, (∃ k ∈ edges, ends k = (p, q)) ↔ ∃ id, g.Crosses id p q
  /-- There is at most one edge for an ordered pair. -/
  once : (edges.map ends).Nodup
  mem_iff : ∀ k ∈ edges, ∀ id, id ∈ k.realizing ↔ g.Crosses id k.source k.target
  ascending : ∀ k ∈ edges, k.realizing.Pairwise (· < ·)
  /-- Each import that crosses is listed once in all. -/
  partition : (edges.flatMap (·.realizing)).Nodup ∧ ∀ id, id ∈ edges.flatMap (·.realizing) ↔ ∃ p q, g.Crosses id p q

/-! ### One import -/

/-- **What filing an import can do**: the edge for its packages is there and its list gets one longer, or there is no
such edge and one is added. -/
theorem addCrossing_cases (id p q : Nat) (found : List PackageEdge) :
    (∃ front k back, found = front ++ k :: back ∧ ends k = (p, q) ∧
      addCrossing id p q found = front ++ { k with realizing := k.realizing ++ [id] } :: back) ∨
    (∀ k ∈ found, ends k ≠ (p, q)) ∧ addCrossing id p q found = found ++ [⟨p, q, [id]⟩] := by
  induction found with
  | nil => exact .inr ⟨nofun, rfl⟩
  | cons k found ih =>
    rw [addCrossing]
    split
    · next hends => exact .inl ⟨[], k, found, rfl, Prod.ext hends.1 hends.2, rfl⟩
    · next hends =>
      have hne : ends k ≠ (p, q) := fun h => hends ⟨(Prod.mk.inj h).1, (Prod.mk.inj h).2⟩
      obtain ⟨front, l, back, rfl, hl, hadd⟩ | ⟨hnone, hadd⟩ := ih
      · refine .inl ⟨k :: front, l, back, rfl, hl, ?_⟩
        rw [hadd, cons_append]
      · refine .inr ⟨forall_mem_cons.2 ⟨hne, hnone⟩, ?_⟩
        rw [hadd, cons_append]

/-- The edges between packages after the first imports have been looked at. -/
structure Groups (g : Graph) (n : Nat) (found : List PackageEdge) : Prop where
  once : (found.map ends).Nodup
  mem_iff : ∀ k ∈ found, ∀ id, id ∈ k.realizing ↔ id < n ∧ g.Crosses id k.source k.target
  ne_nil : ∀ k ∈ found, k.realizing ≠ []
  ascending : ∀ k ∈ found, k.realizing.Pairwise (· < ·)
  covers : ∀ id < n, ∀ p q, g.Crosses id p q → ∃ k ∈ found, ends k = (p, q)

namespace Groups

variable {n p q : Nat} {found front back : List PackageEdge} {k : PackageEdge}

/-- An edge for other packages than those of the next import keeps its list. -/
theorem mem_iff_succ (h : g.Groups n found) (hcrosses : g.Crosses n p q) (hk : k ∈ found)
    (hends : ends k ≠ (p, q)) (id : Nat) : id ∈ k.realizing ↔ id < n + 1 ∧ g.Crosses id k.source k.target := by
  rw [h.mem_iff k hk, Nat.lt_succ_iff_lt_or_eq, or_and_right]
  refine ⟨.inl, fun hid => hid.resolve_right ?_⟩
  rintro ⟨rfl, hother⟩
  obtain ⟨hp, hq⟩ := hother.ends_eq hcrosses
  exact hends (Prod.ext hp hq)

/-- The edge for the packages of the next import lists it behind all others. -/
theorem mem_concat_iff (h : g.Groups n found) (hk : k ∈ found) (hcrosses : g.Crosses n k.source k.target) (id : Nat) :
    id ∈ k.realizing ++ [n] ↔ id < n + 1 ∧ g.Crosses id k.source k.target := by
  rw [mem_append, h.mem_iff k hk, mem_singleton, Nat.lt_succ_iff_lt_or_eq, or_and_right]
  refine or_congr_right ⟨?_, And.left⟩
  rintro rfl
  exact ⟨rfl, hcrosses⟩

/-- The next import crosses between packages that have an edge: its ends stay, and its list goes on. -/
theorem extend (h : g.Groups n (front ++ k :: back)) (hcrosses : g.Crosses n k.source k.target) :
    g.Groups (n + 1) (front ++ { k with realizing := k.realizing ++ [n] } :: back) := by
  have hk : k ∈ front ++ k :: back := mem_append_right _ mem_cons_self
  have hothers : ∀ l, l ∈ front ∨ l ∈ back → l ∈ front ++ k :: back ∧ ends l ≠ ends k := by
    intro l hl
    have honce := h.once
    rw [map_append, map_cons, nodup_middle, nodup_cons, ← map_append] at honce
    have hmem : l ∈ front ++ back := mem_append.2 hl
    refine ⟨?_, fun hsame => honce.1 (hsame ▸ mem_map_of_mem hmem)⟩
    exact hl.elim (mem_append_left _) fun hl => mem_append_right _ (mem_cons_of_mem _ hl)
  have hsplit : ∀ {l}, l ∈ front ++ { k with realizing := k.realizing ++ [n] } :: back →
      l = { k with realizing := k.realizing ++ [n] } ∨ l ∈ front ∨ l ∈ back := by
    intro l hl
    rw [mem_append, mem_cons] at hl
    exact or_left_comm.1 hl
  have hmap : (front ++ { k with realizing := k.realizing ++ [n] } :: back).map ends =
      (front ++ k :: back).map ends := by
    rw [map_append, map_append]
    rfl
  refine ⟨hmap ▸ h.once, fun l hl => ?_, fun l hl => ?_, fun l hl => ?_, fun id hid p q hid' => ?_⟩
  · obtain rfl | hl := hsplit hl
    · exact h.mem_concat_iff hk hcrosses
    · exact h.mem_iff_succ hcrosses (hothers l hl).1 (hothers l hl).2
  · obtain rfl | hl := hsplit hl
    · exact concat_ne_nil n k.realizing
    · exact h.ne_nil l (hothers l hl).1
  · obtain rfl | hl := hsplit hl
    · -- all that was listed before has a smaller number
      refine pairwise_append.2 ⟨h.ascending k hk, pairwise_singleton _ _, fun id hid m hm => ?_⟩
      rw [mem_singleton.1 hm]
      exact ((h.mem_iff k hk id).1 hid).1
    · exact h.ascending l (hothers l hl).1
  · have hmem : (p, q) ∈ (front ++ k :: back).map ends := by
      obtain hid | rfl := Nat.lt_succ_iff_lt_or_eq.1 hid
      · obtain ⟨l, hl, hends⟩ := h.covers id hid p q hid'
        exact mem_map.2 ⟨l, hl, hends⟩
      · obtain ⟨rfl, rfl⟩ := hid'.ends_eq hcrosses
        exact mem_map_of_mem hk
    rw [← hmap] at hmem
    obtain ⟨l, hl, hends⟩ := mem_map.1 hmem
    exact ⟨l, hl, hends⟩

/-- The next import is the first that crosses between its packages. -/
theorem concat (h : g.Groups n found) (hcrosses : g.Crosses n p q) (hnone : ∀ k ∈ found, ends k ≠ (p, q)) :
    g.Groups (n + 1) (found ++ [⟨p, q, [n]⟩]) := by
  have hfirst : ∀ id < n, ¬ g.Crosses id p q := by
    intro id hid hid'
    obtain ⟨k, hk, hends⟩ := h.covers id hid p q hid'
    exact hnone k hk hends
  refine ⟨?_, ?_, ?_, ?_, fun id hid p' q' hid' => ?_⟩
  · rw [map_append, map_singleton, nodup_append]
    refine ⟨h.once, nodup_singleton _, fun a ha b hb => ?_⟩
    obtain ⟨k, hk, rfl⟩ := mem_map.1 ha
    rw [mem_singleton.1 hb]
    exact hnone k hk
  · rw [forall_mem_append, forall_mem_singleton]
    refine ⟨fun k hk => h.mem_iff_succ hcrosses hk (hnone k hk), fun id => ?_⟩
    rw [mem_singleton, Nat.lt_succ_iff_lt_or_eq]
    constructor
    · rintro rfl
      exact ⟨.inr rfl, hcrosses⟩
    · rintro ⟨hid | hid, hid'⟩
      · exact absurd hid' (hfirst id hid)
      · exact hid
  · rw [forall_mem_append, forall_mem_singleton]
    exact ⟨h.ne_nil, cons_ne_nil _ _⟩
  · rw [forall_mem_append, forall_mem_singleton]
    exact ⟨h.ascending, pairwise_singleton _ _⟩
  · obtain hid | rfl := Nat.lt_succ_iff_lt_or_eq.1 hid
    · obtain ⟨k, hk, hends⟩ := h.covers id hid p' q' hid'
      exact ⟨k, mem_append_left _ hk, hends⟩
    · obtain ⟨rfl, rfl⟩ := hid'.ends_eq hcrosses
      exact ⟨_, mem_append_right _ (mem_singleton_self _), rfl⟩

/-- The next import crosses between packages. -/
theorem cross (h : g.Groups n found) (hcrosses : g.Crosses n p q) : g.Groups (n + 1) (addCrossing n p q found) := by
  obtain ⟨front, k, back, rfl, hends, hadd⟩ | ⟨hnone, hadd⟩ := addCrossing_cases n p q found
  · obtain ⟨rfl, rfl⟩ := Prod.mk.inj hends
    rw [hadd]
    exact h.extend hcrosses
  · rw [hadd]
    exact h.concat hcrosses hnone

/-- The next import stays inside a package, or leaves the workspace. -/
theorem stay (h : g.Groups n found) (hnone : ∀ p q, ¬ g.Crosses n p q) : g.Groups (n + 1) found := by
  refine ⟨h.once, fun k hk id => ?_, h.ne_nil, h.ascending, fun id hid p q hid' => ?_⟩
  · rw [h.mem_iff k hk, Nat.lt_succ_iff_lt_or_eq, or_and_right]
    refine ⟨.inl, fun hid => hid.resolve_right ?_⟩
    rintro ⟨rfl, hcrosses⟩
    exact hnone _ _ hcrosses
  · obtain hid | rfl := Nat.lt_succ_iff_lt_or_eq.1 hid
    · exact h.covers id hid p q hid'
    · exact absurd hid' (hnone p q)

end Groups

/-! ### All imports -/

/-- Files an import under the edge for its packages, if it crosses between two. -/
def file (g : Graph) (found : List PackageEdge) (entry : Edge × Nat) : List PackageEdge :=
  match g.crossing? entry.1 with
  | some (source, target) => addCrossing entry.2 source target found
  | none => found

theorem packageEdges_eq (g : Graph) : g.packageEdges = g.edges.toList.zipIdx.foldl g.file [] := rfl

theorem Groups.file {n : Nat} {found : List PackageEdge} (h : g.Groups n found) {e : Edge} (he : g.edges[n]? = some e) :
    g.Groups (n + 1) (g.file found (e, n)) := by
  unfold Graph.file
  split
  · next p q hcrossing => exact h.cross (crosses_iff.2 ⟨e, he, hcrossing⟩)
  · next hcrossing =>
    refine h.stay fun p q hcrosses => ?_
    obtain ⟨e', he', hcrossing'⟩ := crosses_iff.1 hcrosses
    obtain rfl := Option.some.inj (he.symm.trans he')
    rw [hcrossing] at hcrossing'
    cases hcrossing'

theorem Groups.foldl {l : List Edge} : ∀ {n : Nat} {found : List PackageEdge}, g.Groups n found →
    (∀ i, g.edges[n + i]? = l[i]?) → g.Groups (n + l.length) ((l.zipIdx n).foldl g.file found) := by
  induction l with
  | nil => exact fun h _ => h
  | cons e l ih =>
    intro n found h hl
    have hrest : ∀ i, g.edges[n + 1 + i]? = l[i]? := by
      intro i
      rw [Nat.add_assoc, Nat.add_comm 1 i, hl (i + 1), getElem?_cons_succ]
    rw [zipIdx_cons, length_cons, Nat.add_comm l.length, ← Nat.add_assoc]
    exact ih (h.file (hl 0)) hrest

theorem groups_packageEdges (g : Graph) : g.Groups g.edges.size g.packageEdges := by
  have hstart : g.Groups 0 [] := ⟨nodup_nil, nofun, nofun, nofun, nofun⟩
  have hall := hstart.foldl (l := g.edges.toList) fun i => by rw [Nat.zero_add, Array.getElem?_toList]
  rwa [Nat.zero_add, Array.length_toList, ← packageEdges_eq] at hall

/-- **The graph of packages is exact.** -/
theorem isPackageView_packageEdges (g : Graph) : g.IsPackageView g.packageEdges := by
  have h := groups_packageEdges g
  have hmem : ∀ k ∈ g.packageEdges, ∀ id, id ∈ k.realizing ↔ g.Crosses id k.source k.target := by
    intro k hk id
    rw [h.mem_iff k hk id]
    exact ⟨And.right, fun hcrosses => ⟨hcrosses.lt_size, hcrosses⟩⟩
  refine ⟨fun p q => ?_, h.once, hmem, h.ascending, ?_, fun id => ?_⟩
  · constructor
    · rintro ⟨k, hk, hends⟩
      obtain ⟨rfl, rfl⟩ := Prod.mk.inj hends
      obtain ⟨id, hid⟩ := exists_mem_of_ne_nil _ (h.ne_nil k hk)
      exact ⟨id, (hmem k hk id).1 hid⟩
    · rintro ⟨id, hid⟩
      exact h.covers id hid.lt_size p q hid
  · refine nodup_flatMap.2 ⟨fun k hk => (h.ascending k hk).imp Nat.ne_of_lt, ?_⟩
    -- two lists that share an import are those of edges with the same ends
    refine (pairwise_map.1 h.once).imp_of_mem fun {k l} hk hl hne id hid hid' => ?_
    obtain ⟨hsource, htarget⟩ := ((hmem k hk id).1 hid).ends_eq ((hmem l hl id).1 hid')
    exact hne (Prod.ext hsource htarget)
  · rw [mem_flatMap]
    constructor
    · rintro ⟨k, hk, hid⟩
      exact ⟨_, _, (hmem k hk id).1 hid⟩
    · rintro ⟨p, q, hid⟩
      obtain ⟨k, hk, hends⟩ := h.covers id hid.lt_size p q hid
      obtain ⟨rfl, rfl⟩ := Prod.mk.inj hends
      exact ⟨k, hk, (hmem k hk id).2 hid⟩

end Cartograph.Graph
