import Mathlib.Logic.Relation
import Mathlib.Tactic.Common
import Cartograph.Digraph

/-!
# Strongly connected components

`Digraph.components` lists the classes of nodes that reach each other, each once. Reachability is the reflexive and
transitive closure of the edges (`Digraph.Reaches`), stated without any search.

* `mem_explore_iff` — the search from a node collects exactly what can be reached from it. For completeness the bound on
  the number of steps has to be enough: every step takes one node off the list of things to do, and a node brings as
  many new things as there are edges from it, once (`pending`).
* `mem_postorder_iff` — the depth-first search leaves every node. While it is inside a node, what was entered has been
  left or is one of those nodes (`Walk.Covers`).
* `collect_spec` — collecting components along a list of nodes gives each of them once.

Together they give `mem_components_iff` and `components_nodup`.
-/

namespace Cartograph.Digraph

open List
open Relation (ReflTransGen)

/-! ### Reachability -/

/-- An edge leads from one node to another. -/
def Arc (g : Digraph) (v w : Nat) : Prop := (v, w) ∈ g.edges

/-- A node can be reached from another along edges. -/
def Reaches (g : Digraph) : Nat → Nat → Prop := ReflTransGen g.Arc

/-- Two nodes reach each other. -/
def Connected (g : Digraph) (v w : Nat) : Prop := g.Reaches v w ∧ g.Reaches w v

/-- All edges are between nodes of the graph. -/
def InRange (g : Digraph) : Prop := ∀ v w, g.Arc v w → v < g.size ∧ w < g.size

theorem Connected.refl (g : Digraph) (v : Nat) : g.Connected v v := ⟨ReflTransGen.refl, ReflTransGen.refl⟩

variable {g : Digraph} {v w bound n : Nat} {inside : List Nat} {s : Walk} {next : Nat → List Nat}

theorem Connected.symm (h : g.Connected v w) : g.Connected w v := ⟨h.2, h.1⟩

theorem Connected.trans {u : Nat} (h : g.Connected u v) (h' : g.Connected v w) :
    g.Connected u w :=
  ⟨ReflTransGen.trans h.1 h'.1, ReflTransGen.trans h'.2 h.2⟩

@[simp] theorem flip_arc (g : Digraph) (v w : Nat) : g.flip.Arc v w ↔ g.Arc w v := by
  simp [Arc, flip]

theorem InRange.flip (h : g.InRange) : g.flip.InRange := by
  intro v w hvw
  rw [flip_arc] at hvw
  exact (h w v hvw).symm

theorem flip_reaches (g : Digraph) (v w : Nat) : g.flip.Reaches v w ↔ g.Reaches w v := by
  have hswap : g.flip.Arc = Function.swap g.Arc := by
    funext a b
    exact propext (flip_arc g a b)
  unfold Reaches
  rw [hswap]
  exact Relation.reflTransGen_swap

/-- What lies behind a node inside the graph lies inside the graph. -/
theorem Reaches.lt_size (hg : g.InRange) (h : g.Reaches v w) (hv : v < g.size) : w < g.size := by
  induction h with
  | refl => exact hv
  | tail _ hbc _ => exact (hg _ _ hbc).2

/-! ### The table of successors -/

theorem mem_successors (g : Digraph) (v w : Nat) : w ∈ g.successors v ↔ g.Arc v w := by
  simp [successors, Arc]

theorem lookup_table (g : Digraph) (hv : v < g.size) : lookup g.table v = g.successors v := by
  simp [lookup, table, hv]

theorem lookup_table_of_le (g : Digraph) (hv : g.size ≤ v) : lookup g.table v = [] := by
  simp [lookup, table, hv]

theorem mem_lookup_table (hg : g.InRange) (v w : Nat) : w ∈ lookup g.table v ↔ g.Arc v w := by
  by_cases hv : v < g.size
  · rw [lookup_table g hv, mem_successors]
  · rw [lookup_table_of_le g (Nat.le_of_not_lt hv)]
    constructor
    · exact fun h => absurd h not_mem_nil
    · exact fun h => absurd (hg v w h).1 hv

/-! ### The search from a node -/

/-- The number of edges from nodes that have not been seen. -/
def pending (edges : List (Nat × Nat)) (seen : Std.HashSet Nat) : Nat := edges.countP fun e => !seen.contains e.1

theorem pending_insert (edges : List (Nat × Nat)) {seen : Std.HashSet Nat} (hv : v ∉ seen) :
    pending edges (seen.insert v) + edges.countP (·.1 == v) = pending edges seen := by
  unfold pending
  induction edges with
  | nil => rfl
  | cons e edges ih =>
    simp only [countP_cons, ← ih]
    by_cases he : e.1 = v
    · subst he
      have hseen : seen.contains e.1 = false := by simpa using hv
      simp [hseen]
      omega
    · have hne : (v == e.1) = false := beq_false_of_ne (Ne.symm he)
      have hne' : (e.1 == v) = false := beq_false_of_ne he
      simp [hne, hne']
      omega

/-- A node brings at most as many things to do as there are edges from it. -/
theorem length_lookup_table_le (g : Digraph) (v : Nat) : (lookup g.table v).length ≤ g.edges.countP (·.1 == v) := by
  by_cases hv : v < g.size
  · refine Nat.le_of_eq ?_
    rw [lookup_table g hv, successors, length_map, countP_eq_length_filter]
  · rw [lookup_table_of_le g (Nat.le_of_not_lt hv)]
    exact Nat.zero_le _

/-- What the search collects was there before or is reached from something that was to be done. -/
theorem explore_sound (hg : g.InRange) :
    ∀ (n : Nat) (todo : List Nat) (seen : Std.HashSet Nat) (w : Nat),
      w ∈ explore (lookup g.table) n todo seen → w ∈ seen ∨ ∃ v ∈ todo, g.Reaches v w := by
  intro n
  induction n with
  | zero => intro todo seen w hw; exact .inl hw
  | succ n ih =>
    intro todo seen w hw
    cases todo with
    | nil => exact .inl hw
    | cons v todo =>
      simp only [explore] at hw
      split at hw
      · obtain hold | ⟨u, hu, hreach⟩ := ih todo seen w hw
        · exact .inl hold
        · exact .inr ⟨u, mem_cons_of_mem v hu, hreach⟩
      · obtain hold | ⟨u, hu, hreach⟩ := ih _ _ w hw
        · obtain hvw | hold := Std.HashSet.mem_insert.1 hold
          · rw [eq_of_beq hvw]
            exact .inr ⟨w, mem_cons_self, ReflTransGen.refl⟩
          · exact .inl hold
        · obtain hu | hu := mem_append.1 hu
          · have hvu : g.Arc v u := (mem_lookup_table hg v u).1 hu
            exact .inr ⟨v, mem_cons_self, ReflTransGen.head hvu hreach⟩
          · exact .inr ⟨u, mem_cons_of_mem v hu, hreach⟩

/-- With enough steps, what was seen or to be done is in what the search collects, and so are the successors
of everything in it. -/
theorem explore_closed (g : Digraph) :
    ∀ (n : Nat) (todo : List Nat) (seen : Std.HashSet Nat),
      todo.length + pending g.edges seen ≤ n →
      (∀ u ∈ seen, ∀ w ∈ lookup g.table u, w ∈ seen ∨ w ∈ todo) →
      (∀ u, u ∈ seen ∨ u ∈ todo → u ∈ explore (lookup g.table) n todo seen) ∧
        ∀ u ∈ explore (lookup g.table) n todo seen, ∀ w ∈ lookup g.table u,
          w ∈ explore (lookup g.table) n todo seen := by
  intro n
  induction n with
  | zero =>
    intro todo seen hn hseen
    obtain rfl : todo = [] := length_eq_zero_iff.1 (by omega)
    simp only [explore]
    simpa using hseen
  | succ n ih =>
    intro todo seen hn hseen
    cases todo with
    | nil =>
      simp only [explore]
      simpa using hseen
    | cons v todo =>
      simp only [explore]
      split
      next hv =>
        obtain ⟨hkeep, hclosed⟩ := ih todo seen (by simp at hn; omega) (by grind)
        exact ⟨by grind, hclosed⟩
      next hv =>
        have hcount := pending_insert g.edges hv
        have hlength := length_lookup_table_le g v
        obtain ⟨hkeep, hclosed⟩ := ih (lookup g.table v ++ todo) (seen.insert v) (by simp at hn ⊢; omega) (by grind)
        exact ⟨by grind, hclosed⟩

/-- **The search collects what can be reached.** -/
theorem mem_explore_iff (hg : g.InRange) (hn : g.edges.length + 1 ≤ n) (v w : Nat) :
    w ∈ explore (lookup g.table) n [v] {} ↔ g.Reaches v w := by
  constructor
  · intro hw
    obtain hold | ⟨u, hu, hreach⟩ := explore_sound hg n [v] {} w hw
    · exact absurd hold Std.HashSet.not_mem_empty
    · rwa [mem_singleton.1 hu] at hreach
  · intro hreach
    have hcount : pending g.edges {} ≤ g.edges.length := countP_le_length
    obtain ⟨hkeep, hclosed⟩ := explore_closed g n [v] {} (by simp; omega)
      (fun u hu => absurd hu Std.HashSet.not_mem_empty)
    induction hreach with
    | refl => exact hkeep v (.inr mem_cons_self)
    | tail _ hbc ih => exact hclosed _ ih _ ((mem_lookup_table hg _ _).2 hbc)

/-! ### The order of the depth-first search -/

/-- What was entered has been left, or is one of the nodes that the search is still inside. What has been
left is a node of the graph. -/
structure Walk.Covers (s : Walk) (inside : List Nat) (bound : Nat) : Prop where
  entered : ∀ w ∈ s.entered, w ∈ s.left ∨ w ∈ inside
  left : ∀ w ∈ s.left, w < bound

/-- One step of a search: it enters a node, forgets none, and leaves all that it enters on the way. -/
structure Walk.Enters (inside : List Nat) (bound v : Nat) (s t : Walk) : Prop where
  covers : t.Covers inside bound
  reached : v ∈ t.entered
  keeps : ∀ w ∈ s.entered, w ∈ t.entered

theorem Walk.Covers.leave (hs : s.Covers (v :: inside) bound) (hv : v < bound) :
    ({ s with left := v :: s.left } : Walk).Covers inside bound := by
  refine ⟨fun w hw => ?_, fun w hw => ?_⟩
  · obtain h | h := hs.entered w hw
    · exact .inl (mem_cons_of_mem v h)
    · obtain rfl | h := mem_cons.1 h
      · exact .inl mem_cons_self
      · exact .inr h
  · obtain rfl | h := mem_cons.1 hw
    · exact hv
    · exact hs.left w h

theorem Walk.Covers.enter (hs : s.Covers inside bound) (v : Nat) :
    ({ s with entered := s.entered.insert v } : Walk).Covers (v :: inside) bound := by
  refine ⟨fun w hw => ?_, hs.left⟩
  obtain hvw | h := Std.HashSet.mem_insert.1 hw
  · rw [eq_of_beq hvw]
    exact .inr mem_cons_self
  · exact (hs.entered w h).imp id (mem_cons_of_mem v)

/-- Steps for one node after the other enter all of them. -/
theorem foldl_enters {step : Walk → Nat → Walk}
    (hstep : ∀ s v, v < bound → s.Covers inside bound → Walk.Enters inside bound v s (step s v)) :
    ∀ (vs : List Nat) (s : Walk), (∀ v ∈ vs, v < bound) → s.Covers inside bound →
      (vs.foldl step s).Covers inside bound ∧ (∀ v ∈ vs, v ∈ (vs.foldl step s).entered) ∧
        ∀ w ∈ s.entered, w ∈ (vs.foldl step s).entered := by
  intro vs
  induction vs with
  | nil => intro s _ hs; exact ⟨hs, fun _ h => absurd h not_mem_nil, fun _ h => h⟩
  | cons v vs ih =>
    intro s hvs hs
    have hfirst := hstep s v (hvs v mem_cons_self) hs
    obtain ⟨hcovers, hall, hkeeps⟩ := ih (step s v) (forall_mem_cons.1 hvs).2 hfirst.covers
    refine ⟨hcovers, fun u hu => ?_, fun w hw => hkeeps w (hfirst.keeps w hw)⟩
    obtain rfl | hu := mem_cons.1 hu
    · exact hkeeps u hfirst.reached
    · exact hall u hu

theorem visit_enters (hnext : ∀ v, ∀ w ∈ next v, w < bound) :
    ∀ (n v : Nat) (s : Walk) (inside : List Nat), v < bound → s.Covers inside bound →
      Walk.Enters inside bound v s (visit next n v s) := by
  intro n
  induction n with
  | zero =>
    intro v s inside hv hs
    exact ⟨(hs.enter v).leave hv, Std.HashSet.mem_insert_self, fun w hw => Std.HashSet.mem_insert.2 (.inr hw)⟩
  | succ n ih =>
    intro v s inside hv hs
    rw [visit]
    split
    next hseen => exact ⟨hs, hseen, fun _ h => h⟩
    next =>
      -- while the successors are searched, the search is inside `v` too
      have hstep : ∀ (s : Walk) (w : Nat), w < bound → s.Covers (v :: inside) bound →
          Walk.Enters (v :: inside) bound w s (if s.entered.contains w then s else visit next n w s) := by
        intro s w hw hs
        split
        next hseen => exact ⟨hs, hseen, fun _ h => h⟩
        next => exact ih w s (v :: inside) hw hs
      obtain ⟨hcovers, -, hkeeps⟩ := foldl_enters hstep (next v).reverse _
        (fun w hw => hnext v w (mem_reverse.1 hw)) (hs.enter v)
      exact ⟨hcovers.leave hv, hkeeps v Std.HashSet.mem_insert_self,
        fun w hw => hkeeps w (Std.HashSet.mem_insert.2 (.inr hw))⟩

/-- **The depth-first search leaves every node.** -/
theorem mem_postorder_iff (hnext : ∀ v, ∀ w ∈ next v, w < g.size) (v : Nat) : v ∈ g.postorder next ↔ v < g.size := by
  have hstep : ∀ (s : Walk) (v : Nat), v < g.size → s.Covers [] g.size →
      Walk.Enters [] g.size v s (if s.entered.contains v then s else visit next g.size v s) := by
    intro s v hv hs
    split
    next hseen => exact ⟨hs, hseen, fun _ h => h⟩
    next => exact visit_enters hnext g.size v s [] hv hs
  have hstart : ({} : Walk).Covers [] g.size :=
    ⟨fun w hw => absurd hw Std.HashSet.not_mem_empty, fun w hw => absurd hw not_mem_nil⟩
  obtain ⟨hcovers, hall, -⟩ := foldl_enters hstep (List.range g.size) {} (fun v hv => mem_range.1 hv) hstart
  constructor
  · exact hcovers.left v
  · intro hv
    obtain h | h := hcovers.entered v (hall v (mem_range.2 hv))
    · exact h
    · exact absurd h not_mem_nil

/-! ### Components -/

/-- The component of a node, as `components` computes it. -/
def componentOf (g : Digraph) (v : Nat) : List Nat := g.component (lookup g.table) (lookup g.flip.table) v

theorem mem_componentOf (hg : g.InRange) (v w : Nat) : w ∈ g.componentOf v ↔ w < g.size ∧ g.Connected v w := by
  have hforward := mem_explore_iff hg (n := g.edges.length + 2) (by omega) v w
  have hbackward := mem_explore_iff hg.flip (n := g.edges.length + 2) (by simp [flip]) v w
  rw [flip_reaches] at hbackward
  simp only [componentOf, component, reach, mem_filter, mem_range, Bool.and_eq_true,
    Std.HashSet.contains_iff_mem, hforward, hbackward, Connected]

theorem self_mem_componentOf (hg : g.InRange) (hv : v < g.size) :
    v ∈ g.componentOf v :=
  (mem_componentOf hg v v).2 ⟨hv, Connected.refl g v⟩

/-- Nodes of one component have the same component. -/
theorem componentOf_eq (hg : g.InRange) (h : g.Connected v w) : g.componentOf v = g.componentOf w := by
  have hsame : ∀ u, u ∈ List.range g.size →
      ((g.reach (lookup g.table) v).contains u && (g.reach (lookup g.flip.table) v).contains u) =
        ((g.reach (lookup g.table) w).contains u && (g.reach (lookup g.flip.table) w).contains u) := by
    intro u hu
    have hu := mem_range.1 hu
    have hv := mem_componentOf hg v u
    have hw := mem_componentOf hg w u
    simp only [componentOf, component, mem_filter, mem_range, hu, true_and] at hv hw
    rw [Bool.eq_iff_iff, hv, hw]
    exact ⟨fun hvu => h.symm.trans hvu, fun hwu => h.trans hwu⟩
  exact filter_congr hsame

/-- A component is written in ascending order. -/
theorem pairwise_componentOf (g : Digraph) (v : Nat) : (g.componentOf v).Pairwise (· < ·) :=
  List.Pairwise.filter _ pairwise_lt_range

/-- Collecting along a list of nodes: nothing but components of these nodes is added, each of them is there
in the end, and none twice. -/
theorem collect_spec (component : Nat → List Nat) :
    ∀ (nodes : List Nat) (found : List (List Nat)), (∀ v ∈ nodes, v ∈ component v) →
      (∀ c ∈ collect component nodes found, c ∈ found ∨ ∃ v ∈ nodes, c = component v) ∧
      (∀ c ∈ found, c ∈ collect component nodes found) ∧
      (∀ v ∈ nodes, ∃ c ∈ collect component nodes found, v ∈ c) ∧
      (found.Nodup → (collect component nodes found).Nodup) := by
  intro nodes
  induction nodes with
  | nil =>
    intro found _
    exact ⟨fun c hc => .inl hc, fun c hc => hc, fun v hv => absurd hv not_mem_nil, fun h => h⟩
  | cons v nodes ih =>
    intro found hself
    have hself' : ∀ u ∈ nodes, u ∈ component u := (forall_mem_cons.1 hself).2
    rw [collect]
    split
    next hany =>
      obtain ⟨hfrom, hkeeps, hall, hnodup⟩ := ih found hself'
      obtain ⟨c, hc, hvc⟩ := any_eq_true.1 hany
      refine ⟨fun c hc => (hfrom c hc).imp id fun ⟨u, hu, h⟩ => ⟨u, mem_cons_of_mem v hu, h⟩,
        hkeeps, fun u hu => ?_, hnodup⟩
      obtain rfl | hu := mem_cons.1 hu
      · exact ⟨c, hkeeps c hc, by simpa using hvc⟩
      · exact hall u hu
    next hany =>
      obtain ⟨hfrom, hkeeps, hall, hnodup⟩ := ih (component v :: found) hself'
      have hv : v ∈ component v := hself v mem_cons_self
      refine ⟨fun c hc => ?_, (forall_mem_cons.1 hkeeps).2, fun u hu => ?_,
        fun hfound => hnodup (nodup_cons.2 ⟨fun hmem => ?_, hfound⟩)⟩
      · obtain hc | ⟨u, hu, h⟩ := hfrom c hc
        · obtain rfl | hc := mem_cons.1 hc
          · exact .inr ⟨v, mem_cons_self, rfl⟩
          · exact .inl hc
        · exact .inr ⟨u, mem_cons_of_mem v hu, h⟩
      · obtain rfl | hu := mem_cons.1 hu
        · exact ⟨component u, hkeeps _ mem_cons_self, hv⟩
        · exact hall u hu
      · exact hany (any_eq_true.2 ⟨component v, hmem, by simpa using hv⟩)

section Components

variable {g : Digraph} (hg : g.InRange)
include hg

theorem components_collect :
    (∀ c ∈ g.components, ∃ v < g.size, c = g.componentOf v) ∧
      (∀ v < g.size, ∃ c ∈ g.components, v ∈ c) ∧ g.components.Nodup := by
  have hnext : ∀ v, ∀ w ∈ lookup g.table v, w < g.size := fun v w hw => (hg v w ((mem_lookup_table hg v w).1 hw)).2
  have hpost := fun v => mem_postorder_iff hnext (g := g) v
  obtain ⟨hfrom, -, hall, hnodup⟩ := collect_spec g.componentOf
    (g.postorder (lookup g.table)) [] fun v hv => self_mem_componentOf hg ((hpost v).1 hv)
  refine ⟨fun c hc => ?_, fun v hv => hall v ((hpost v).2 hv), hnodup nodup_nil⟩
  obtain h | ⟨v, hv, h⟩ := hfrom c hc
  · exact absurd h not_mem_nil
  · exact ⟨v, (hpost v).1 hv, h⟩

/-- **The components are the classes of connected nodes.** -/
theorem mem_components_iff (c : List Nat) : c ∈ g.components ↔ ∃ v < g.size, c = g.componentOf v := by
  obtain ⟨hfrom, hall, -⟩ := components_collect hg
  constructor
  · exact hfrom c
  · rintro ⟨v, hv, rfl⟩
    obtain ⟨c, hc, hvc⟩ := hall v hv
    obtain ⟨u, -, rfl⟩ := hfrom c hc
    have huv : g.Connected u v := ((mem_componentOf hg u v).1 hvc).2
    rwa [componentOf_eq hg huv] at hc

/-- **No component is listed twice.** -/
theorem components_nodup : g.components.Nodup := (components_collect hg).2.2

end Components

end Cartograph.Digraph
