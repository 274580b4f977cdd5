import Mathlib.Data.List.Chain
import Mathlib.Data.List.Lex
import Mathlib.Data.List.Nodup
import Mathlib.Data.List.Perm.Subperm
import Cartograph.Digraph.Cycle
import Cartograph.Proofs.Digraph.Components

/-!
# Shortest cycles

`Digraph.knots` gives each strongly connected component of two nodes or more with a cycle through its smallest node.
That cycle is the first one (`IsFirstCycle`): no cycle through the node is shorter, and of those as short it is the
least when nodes are compared one after the other.

The search goes level by level, and its invariant (`Level`) says that level `k` holds, for each node at distance `k`,
the first shortest path to it, and that the paths come in the order of their nodes. A first shortest path extends a
first shortest path: so the next level is found among the extensions of this one (`candidates`), and since these come in
order again, the first extension that ends in a new node is the least (`keepNew_spec`).
-/

namespace Cartograph.Digraph

open List

variable {g : Digraph}

/-! ### Paths in the order of the search -/

/-- A path to a node, kept from its end to its start. -/
inductive Trail (next : Nat → List Nat) (start : Nat) : Nat → List Nat → Prop
  | start : Trail next start start [start]
  | step {u w : Nat} {p : List Nat} :
      Trail next start u p → w ∈ next u → Trail next start w (w :: p)

/-- A path comes before another: it is shorter, or it is as long and not behind it when nodes are compared
from the start on. -/
def Precedes (p q : List Nat) : Prop := p.length < q.length ∨ p.length = q.length ∧ p.reverse ≤ q.reverse

section Order

variable {p q s t : List Nat}

theorem append_lt_append (x y : List Nat) (hlength : s.length = t.length) (h : s < t) : s ++ x < t ++ y := by
  induction s generalizing t with
  | nil =>
    obtain rfl : t = [] := length_eq_zero_iff.1 hlength.symm
    exact absurd h (lt_irrefl _)
  | cons a s ih =>
    cases t with
    | nil => exact absurd hlength (Nat.succ_ne_zero _)
    | cons b t =>
      have hrest : s.length = t.length := by simpa using hlength
      obtain hab | ⟨rfl, hst⟩ := cons_lt_cons_iff.1 h
      · exact cons_lt_cons_iff.2 (.inl hab)
      · exact cons_lt_cons_iff.2 (.inr ⟨rfl, ih hrest hst⟩)

theorem reverse_cons_lt (w w' : Nat) (hlength : p.length = q.length) (h : p.reverse < q.reverse) :
    (w :: p).reverse < (w' :: q).reverse := by
  rw [reverse_cons, reverse_cons]
  exact append_lt_append _ _ (by simpa using hlength) h

theorem reverse_cons_le (w : Nat) (hlength : p.length = q.length) (h : p.reverse ≤ q.reverse) :
    (w :: p).reverse ≤ (w :: q).reverse := by
  obtain h | h := lt_or_eq_of_le h
  · exact le_of_lt (reverse_cons_lt w w hlength h)
  · rw [reverse_cons, reverse_cons, h]

theorem reverse_cons_lt_of_lt (p : List Nat) {w w' : Nat} (h : w < w') : (w :: p).reverse < (w' :: p).reverse := by
  rw [reverse_cons, reverse_cons]
  exact List.Lex.append_left _ (cons_lt_cons_iff.2 (.inl h)) _

end Order

namespace Trail

variable {next : Nat → List Nat} {start u w n : Nat}

theorem length_pos {p : List Nat} (h : Trail next start u p) : 0 < p.length := by
  cases h <;> exact Nat.succ_pos _

/-- A path of two nodes or more extends a path to the node before its end. -/
theorem exists_step {q : List Nat} (h : Trail next start w q) (hlength : q.length = n + 2) :
    ∃ u q', q = w :: q' ∧ q'.length = n + 1 ∧ Trail next start u q' ∧ w ∈ next u := by
  cases h with
  | start => simp at hlength
  | step hu hw => exact ⟨_, _, rfl, by simpa using hlength, hu, hw⟩

end Trail

/-! ### One level -/

/-- The extensions of the paths of a level. -/
def candidates (next : Nat → List Nat) (level : List (List Nat)) : List (List Nat) :=
  level.flatMap fun p => (next (p.headD 0)).map (· :: p)

/-- Keeps a path if its end is new. -/
def keepNew (s : List Nat × List (List Nat)) (p : List Nat) : List Nat × List (List Nat) :=
  if s.1.contains (p.headD 0) then s else (p.headD 0 :: s.1, s.2 ++ [p])

theorem keepNew_cons (s : List Nat × List (List Nat)) (w : Nat) (path : List Nat) :
    keepNew s (w :: path) = if s.1.contains w then s else (w :: s.1, s.2 ++ [w :: path]) := rfl

theorem extend_eq_foldl (next : Nat → List Nat) (path : List Nat) :
    ∀ (ws : List Nat) (s : List Nat × List (List Nat)),
      extend next path ws s = (ws.map (· :: path)).foldl keepNew s := by
  intro ws
  induction ws with
  | nil => intro s; rfl
  | cons w ws ih =>
    intro s
    rw [extend, map_cons, foldl_cons, keepNew_cons]
    by_cases hw : s.1.contains w = true
    · rw [if_pos hw, if_pos hw]
      exact ih s
    · rw [if_neg hw, if_neg hw]
      exact ih _

theorem nextLevel_eq_foldl (next : Nat → List Nat) (seen : List Nat) (level : List (List Nat)) :
    nextLevel next seen level = (candidates next level).foldl keepNew (seen, []) := by
  rw [nextLevel, candidates, foldl_flatMap]
  congr 1
  funext s path
  exact extend_eq_foldl next path _ s

theorem mem_candidates {next : Nat → List Nat} {level : List (List Nat)} {c : List Nat} :
    c ∈ candidates next level ↔ ∃ p ∈ level, ∃ w ∈ next (p.headD 0), w :: p = c := by
  simp [candidates]

/-- What is kept of a list of paths: a part of it, in its order, with one path for each new end, which is the
first with that end. -/
structure Kept (seen : List Nat) (paths : List (List Nat)) (seen' : List Nat)
    (kept : List (List Nat)) : Prop where
  sublist : kept.Sublist paths
  fresh : ∀ p ∈ kept, p.headD 0 ∉ seen
  all : ∀ p ∈ paths, p.headD 0 ∉ seen → ∃ q ∈ kept, q.headD 0 = p.headD 0
  least : ∀ p ∈ kept, ∀ q ∈ paths, q.headD 0 = p.headD 0 →
    paths.Pairwise (fun p q => p.reverse < q.reverse) → p.reverse ≤ q.reverse
  seen_iff : ∀ w, w ∈ seen' ↔ w ∈ seen ∨ ∃ p ∈ paths, p.headD 0 = w
  nodup : seen.Nodup → seen'.Nodup
  grows : seen.length + kept.length = seen'.length

theorem keepNew_spec : ∀ (paths : List (List Nat)) (seen : List Nat) (before : List (List Nat)),
    ∃ seen' kept, paths.foldl keepNew (seen, before) = (seen', before ++ kept) ∧ Kept seen paths seen' kept := by
  intro paths
  induction paths with
  | nil =>
    intro seen before
    refine ⟨seen, [], by simp, List.Sublist.refl [], ?_, ?_, ?_, ?_, fun h => h, rfl⟩ <;> simp
  | cons p paths ih =>
    intro seen before
    rw [foldl_cons, keepNew]
    split
    next hp =>
      have hp : p.headD 0 ∈ seen := by simpa using hp
      obtain ⟨seen', kept, hfold, hkept⟩ := ih seen before
      refine ⟨seen', kept, hfold, hkept.sublist.cons p, hkept.fresh, ?_, ?_, ?_, hkept.nodup, hkept.grows⟩
      · intro q hq hnew
        obtain rfl | hq := mem_cons.1 hq
        · exact absurd hp hnew
        · exact hkept.all q hq hnew
      · intro q hq r hr hqr hsorted
        obtain rfl | hr := mem_cons.1 hr
        · exact absurd (hqr ▸ hp) (hkept.fresh q hq)
        · exact hkept.least q hq r hr hqr (pairwise_cons.1 hsorted).2
      · intro w
        rw [hkept.seen_iff w]
        simp only [mem_cons, exists_eq_or_imp]
        exact ⟨fun h => h.imp id .inr, fun h => h.elim .inl fun h => h.elim (fun h => .inl (h ▸ hp)) .inr⟩
    next hp =>
      have hp : p.headD 0 ∉ seen := by simpa using hp
      obtain ⟨seen', kept, hfold, hkept⟩ := ih (p.headD 0 :: seen) (before ++ [p])
      refine ⟨seen', p :: kept, by rw [hfold, append_assoc, singleton_append],
        hkept.sublist.cons_cons p, ?_, ?_, ?_, ?_,
        fun h => hkept.nodup (nodup_cons.2 ⟨hp, h⟩), ?_⟩
      · intro q hq hseen
        obtain rfl | hq := mem_cons.1 hq
        · exact hp hseen
        · exact hkept.fresh q hq (mem_cons_of_mem _ hseen)
      · intro q hq hnew
        by_cases hpq : q.headD 0 = p.headD 0
        · exact ⟨p, mem_cons_self, hpq.symm⟩
        · obtain rfl | hq := mem_cons.1 hq
          · exact absurd rfl hpq
          · obtain ⟨r, hr, hrq⟩ := hkept.all q hq fun h => (mem_cons.1 h).elim hpq hnew
            exact ⟨r, mem_cons_of_mem p hr, hrq⟩
      · intro q hq r hr hqr hsorted
        obtain ⟨hfirst, hsorted⟩ := pairwise_cons.1 hsorted
        obtain hqp | hqkept := mem_cons.1 hq
        · obtain hrp | hrpaths := mem_cons.1 hr
          · rw [hqp, hrp]
          · rw [hqp]
            exact le_of_lt (hfirst r hrpaths)
        · obtain hrp | hrpaths := mem_cons.1 hr
          · rw [hrp] at hqr
            exact absurd (hqr ▸ mem_cons_self) (hkept.fresh q hqkept)
          · exact hkept.least q hqkept r hrpaths hqr hsorted
      · intro w
        rw [hkept.seen_iff w]
        simp only [mem_cons, exists_eq_or_imp]
        tauto
      · have := hkept.grows
        simp only [length_cons] at this ⊢
        omega

/-! ### Level by level -/

/-- Level `k` of a search: for each node at distance `k` the first path to it, in the order of the paths.
What has been seen is what a path of at most `k` steps leads to. -/
structure Level (next : Nat → List Nat) (start k : Nat) (seen : List Nat)
    (level : List (List Nat)) : Prop where
  trail : ∀ p ∈ level, Trail next start (p.headD 0) p
  length : ∀ p ∈ level, p.length = k + 1
  first : ∀ p ∈ level, ∀ q, Trail next start (p.headD 0) q → Precedes p q
  simple : ∀ p ∈ level, p.Nodup
  passed : ∀ p ∈ level, ∀ v ∈ p, v ∈ seen
  sorted : level.Pairwise fun p q => p.reverse < q.reverse
  seen_iff : ∀ w, w ∈ seen ↔ ∃ q, Trail next start w q ∧ q.length ≤ k + 1
  found : ∀ w q, Trail next start w q → q.length = k + 1 →
    (∀ q', Trail next start w q' → k + 1 ≤ q'.length) → ∃ p ∈ level, p.headD 0 = w
  nodup : seen.Nodup

section Search

variable {next : Nat → List Nat} {start w : Nat}

/-- The only path of one node is the start. -/
theorem Trail.eq_of_length_le_one {q : List Nat} (h : Trail next start w q) (hlength : q.length ≤ 1) :
    w = start ∧ q = [start] := by
  cases h with
  | start => exact ⟨rfl, rfl⟩
  | step hu _ =>
    have := hu.length_pos
    simp only [length_cons] at hlength
    omega

theorem level_zero : Level next start 0 [start] [[start]] where
  trail p hp := by
    obtain rfl := mem_singleton.1 hp
    exact Trail.start
  length p hp := by
    obtain rfl := mem_singleton.1 hp
    rfl
  first p hp q hq := by
    obtain rfl := mem_singleton.1 hp
    by_cases hlength : q.length ≤ 1
    · obtain ⟨-, rfl⟩ := hq.eq_of_length_le_one hlength
      exact .inr ⟨rfl, le_refl _⟩
    · exact .inl (by simpa using hlength)
  simple p hp := by
    obtain rfl := mem_singleton.1 hp
    exact nodup_singleton start
  passed p hp v hv := by
    obtain rfl := mem_singleton.1 hp
    exact hv
  sorted := pairwise_singleton _ _
  seen_iff w := by
    constructor
    · intro hw
      obtain rfl := mem_singleton.1 hw
      exact ⟨[w], Trail.start, le_refl _⟩
    · rintro ⟨q, hq, hlength⟩
      exact mem_singleton.2 (hq.eq_of_length_le_one hlength).1
  found w q hq hlength _ := ⟨[start], mem_singleton_self _, (hq.eq_of_length_le_one (le_of_eq hlength)).1.symm⟩
  nodup := nodup_singleton start

namespace Level

variable {k w u : Nat} {seen p : List Nat} {level : List (List Nat)} {q : List Nat}

/-- The extensions of a level come in the order of their nodes. -/
theorem sorted_candidates (h : Level next start k seen level) (hnext : ∀ v, (next v).Pairwise (· < ·)) :
    (candidates next level).Pairwise fun p q => p.reverse < q.reverse := by
  refine pairwise_flatMap.2 ⟨fun p _ => ?_, ?_⟩
  · rw [pairwise_map]
    exact (hnext (p.headD 0)).imp fun hw => reverse_cons_lt_of_lt p hw
  · refine h.sorted.imp_of_mem fun {p q} hp hq hpq c hc d hd => ?_
    obtain ⟨w, -, rfl⟩ := mem_map.1 hc
    obtain ⟨w', -, rfl⟩ := mem_map.1 hd
    exact reverse_cons_lt w w' ((h.length p hp).trans (h.length q hq).symm) hpq

/-- A path to a new node, one longer than those of the level, is not before some extension of the level: the
node before its end is at distance `k`, since otherwise the end would have been seen. -/
theorem exists_candidate (h : Level next start k seen level) (hw : w ∉ seen) (hq : Trail next start w q)
    (hlength : q.length = k + 2) : ∃ p ∈ level, w :: p ∈ candidates next level ∧ (w :: p).reverse ≤ q.reverse := by
  obtain ⟨u, q', rfl, hlength', hu, hwu⟩ := hq.exists_step hlength
  have hfar : ∀ r, Trail next start u r → k + 1 ≤ r.length := by
    intro r hr
    by_contra hshort
    exact hw ((h.seen_iff w).2 ⟨w :: r, hr.step hwu, by simp; omega⟩)
  obtain ⟨p, hp, rfl⟩ := h.found u q' hu hlength' hfar
  refine ⟨p, hp, mem_candidates.2 ⟨p, hp, w, hwu, rfl⟩, ?_⟩
  obtain hshorter | ⟨hsame, hle⟩ := h.first p hp q' hu
  · rw [h.length p hp] at hshorter
    omega
  · exact reverse_cons_le w hsame hle

/-- **One level gives the next**, and every path of the next level leads to a node not seen before. -/
theorem step (h : Level next start k seen level) (hnext : ∀ v, (next v).Pairwise (· < ·)) :
    Level next start (k + 1) (nextLevel next seen level).1 (nextLevel next seen level).2 ∧
      seen.length + (nextLevel next seen level).2.length = (nextLevel next seen level).1.length := by
  obtain ⟨seen', kept, hfold, hkept⟩ := keepNew_spec (candidates next level) seen []
  rw [nextLevel_eq_foldl, hfold]
  refine ⟨?_, hkept.grows⟩
  have hcandidate : ∀ c ∈ candidates next level, Trail next start (c.headD 0) c ∧ c.length = k + 2 := by
    intro c hc
    obtain ⟨p, hp, w, hw, rfl⟩ := mem_candidates.1 hc
    exact ⟨(h.trail p hp).step hw, by rw [length_cons, h.length p hp]⟩
  have hmem : ∀ c ∈ kept, c ∈ candidates next level := fun c hc => hkept.sublist.subset hc
  have hfar : ∀ c ∈ kept, ∀ q, Trail next start (c.headD 0) q → k + 2 ≤ q.length := by
    intro c hc q hq
    by_contra hshort
    exact hkept.fresh c hc ((h.seen_iff _).2 ⟨q, hq, by omega⟩)
  constructor
  case trail => exact fun c hc => (hcandidate c (hmem c hc)).1
  case length => exact fun c hc => (hcandidate c (hmem c hc)).2
  case first =>
    intro c hc q hq
    have hlength := (hcandidate c (hmem c hc)).2
    obtain hlong | hsame := lt_or_eq_of_le (hfar c hc q hq)
    · exact .inl (by omega)
    · obtain ⟨p, -, hp, hle⟩ := h.exists_candidate (hkept.fresh c hc) hq hsame.symm
      have hfirst := hkept.least c hc _ hp rfl (h.sorted_candidates hnext)
      exact .inr ⟨by omega, le_trans hfirst hle⟩
  case simple =>
    intro c hc
    obtain ⟨p, hp, w, -, rfl⟩ := mem_candidates.1 (hmem c hc)
    exact nodup_cons.2 ⟨fun hw => hkept.fresh _ hc (h.passed p hp w hw), h.simple p hp⟩
  case passed =>
    intro c hc v hv
    have hc' := hmem c hc
    obtain ⟨p, hp, w, -, rfl⟩ := mem_candidates.1 hc'
    obtain rfl | hv := mem_cons.1 hv
    · exact (hkept.seen_iff v).2 (.inr ⟨_, hc', rfl⟩)
    · exact (hkept.seen_iff v).2 (.inl (h.passed p hp v hv))
  case sorted => exact (h.sorted_candidates hnext).sublist hkept.sublist
  case seen_iff =>
    intro w
    rw [hkept.seen_iff w]
    constructor
    · rintro (hw | ⟨c, hc, rfl⟩)
      · obtain ⟨q, hq, hlength⟩ := (h.seen_iff w).1 hw
        exact ⟨q, hq, by omega⟩
      · exact ⟨c, (hcandidate c hc).1, by rw [(hcandidate c hc).2]⟩
    · rintro ⟨q, hq, hlength⟩
      by_cases hw : w ∈ seen
      · exact .inl hw
      · have hlong : k + 1 < q.length := by
          by_contra hshort
          exact hw ((h.seen_iff w).2 ⟨q, hq, by omega⟩)
        obtain ⟨p, -, hp, -⟩ := h.exists_candidate hw hq (by omega)
        exact .inr ⟨_, hp, rfl⟩
  case found =>
    intro w q hq hlength hleast
    have hw : w ∉ seen := by
      intro hw
      obtain ⟨r, hr, hshort⟩ := (h.seen_iff w).1 hw
      have := hleast r hr
      omega
    obtain ⟨p, -, hp, -⟩ := h.exists_candidate hw hq hlength
    exact hkept.all _ hp hw
  case nodup => exact hkept.nodup h.nodup

/-- If no node is at distance `k`, paths of fewer steps lead everywhere. -/
theorem exists_shorter (h : Level next start k seen []) (hq : Trail next start w q) :
    ∃ r, Trail next start w r ∧ r.length ≤ k := by
  have hcut : ∀ {w r}, Trail next start w r → r.length ≤ k + 1 →
      ∃ r, Trail next start w r ∧ r.length ≤ k := by
    intro w r hr hlength
    by_contra hnone
    have hfar : ∀ r, Trail next start w r → k + 1 ≤ r.length := fun r' hr' => by
      by_contra hshort
      exact hnone ⟨r', hr', by omega⟩
    obtain ⟨p, hp, -⟩ := h.found w r hr (le_antisymm hlength (hfar r hr)) hfar
    exact absurd hp not_mem_nil
  induction hq with
  | start => exact hcut Trail.start (by simp)
  | step _ hw ih =>
    obtain ⟨r, hr, hlength⟩ := ih
    exact hcut (hr.step hw) (by simp; omega)

/-- A level is not empty while every path that closes is longer. -/
theorem ne_nil (h : Level next start k seen level)
    (hlong : ∀ u q, Trail next start u q → start ∈ next u → k < q.length)
    (hex : ∃ u q, Trail next start u q ∧ start ∈ next u) : level ≠ [] := by
  rintro rfl
  obtain ⟨u, q, hq, hu⟩ := hex
  obtain ⟨r, hr, hlength⟩ := h.exists_shorter hq
  exact absurd (hlong u r hr hu) (by omega)

/-- The path that is taken from a level is the least that closes. -/
theorem closing?_least (h : Level next start k seen level) (hclosing : closing? next start level = some p) :
    p ∈ level ∧ start ∈ next (p.headD 0) ∧ ∀ r ∈ level, start ∈ next (r.headD 0) → p.reverse ≤ r.reverse := by
  obtain ⟨hp, before, after, hlevel, hbefore⟩ := find?_eq_some_iff_append.1 hclosing
  refine ⟨mem_of_find?_eq_some hclosing, contains_iff_mem.1 hp, fun r hr hcloses => ?_⟩
  have hsorted := h.sorted
  rw [hlevel] at hr hsorted
  obtain hr | hr := mem_append.1 hr
  · have hopen := hbefore r hr
    rw [contains_iff_mem.2 hcloses] at hopen
    exact absurd hopen Bool.false_ne_true
  · obtain rfl | hr := mem_cons.1 hr
    · exact le_refl _
    · exact le_of_lt ((pairwise_cons.1 (pairwise_append.1 hsorted).2.1).1 r hr)

/-- If no path that closes is shorter than those of the level, one as long is not before a path of the
level that closes. -/
theorem exists_closing (h : Level next start k seen level)
    (hlong : ∀ u q, Trail next start u q → start ∈ next u → k < q.length) (hq : Trail next start u q)
    (hu : start ∈ next u) (hlength : q.length = k + 1) :
    ∃ r ∈ level, start ∈ next (r.headD 0) ∧ r.reverse ≤ q.reverse := by
  obtain ⟨r, hr, rfl⟩ := h.found u q hq hlength fun r hr => hlong u r hr hu
  refine ⟨r, hr, hu, ?_⟩
  obtain hshorter | ⟨-, hle⟩ := h.first r hr q hq
  · rw [h.length r hr] at hshorter
    omega
  · exact hle

end Level

/-- **The search finds the first path that closes.** The nodes that paths lead to are among `members`, which
bounds the number of levels: each level that is not empty brings new nodes. -/
theorem cycleFrom_spec (hnext : ∀ v, (next v).Pairwise (· < ·)) {members : List Nat}
    (hmembers : ∀ w q, Trail next start w q → w ∈ members) (hex : ∃ u q, Trail next start u q ∧ start ∈ next u) :
    ∀ (n k : Nat) (seen : List Nat) (level : List (List Nat)), Level next start k seen level →
      members.length + 2 ≤ n + seen.length →
      (∀ u q, Trail next start u q → start ∈ next u → k < q.length) →
      ∃ u p, cycleFrom next start n seen level = some p.reverse ∧ Trail next start u p ∧
        start ∈ next u ∧ p.Nodup ∧
        ∀ u' q, Trail next start u' q → start ∈ next u' → Precedes p q := by
  intro n
  induction n with
  | zero =>
    intro k seen level h hbound _
    have hseen : seen ⊆ members := fun w hw => by
      obtain ⟨q, hq, -⟩ := (h.seen_iff w).1 hw
      exact hmembers w q hq
    have := (subperm_of_subset h.nodup hseen).length_le
    omega
  | succ n ih =>
    intro k seen level h hbound hlong
    rw [cycleFrom]
    cases hclosing : closing? next start level with
    | some p =>
      obtain ⟨hp, hcloses, hleast⟩ := h.closing?_least hclosing
      refine ⟨p.headD 0, p, rfl, h.trail p hp, hcloses, h.simple p hp, fun u q hq hu => ?_⟩
      have hlength := h.length p hp
      obtain hlonger | hsame := lt_or_eq_of_le (Nat.succ_le_of_lt (hlong u q hq hu))
      · exact .inl (by omega)
      · obtain ⟨r, hr, hrcloses, hrq⟩ := h.exists_closing hlong hq hu hsame.symm
        exact .inr ⟨by omega, le_trans (hleast r hr hrcloses) hrq⟩
    | none =>
      have hnone : ∀ p ∈ level, start ∉ next (p.headD 0) := by
        intro p hp
        simpa using find?_eq_none.1 hclosing p hp
      have hlong' : ∀ u q, Trail next start u q → start ∈ next u → k + 1 < q.length := by
        intro u q hq hu
        obtain hlonger | hsame := lt_or_eq_of_le (Nat.succ_le_of_lt (hlong u q hq hu))
        · exact hlonger
        · obtain ⟨p, hp, hcloses, -⟩ := h.exists_closing hlong hq hu hsame.symm
          exact absurd hcloses (hnone p hp)
      have hempty : level.isEmpty = false := by
        simpa using h.ne_nil hlong hex
      obtain ⟨hstep, hgrows⟩ := h.step hnext
      have hnew := length_pos_iff.2 (hstep.ne_nil hlong' hex)
      simp only [hempty]
      exact ih (k + 1) _ _ hstep (by omega) hlong'

end Search

/-! ### Cycles -/

/-- The steps around a list of nodes, the last of which leads back to the first. -/
def around (c : List Nat) : List (Nat × Nat) := c.zip (c.drop 1 ++ c.take 1)

theorem length_around (c : List Nat) : (around c).length = c.length := by
  cases c <;> simp [around]

/-- A cycle: two steps or more along edges between different nodes, back to the first node. -/
structure IsCycle (g : Digraph) (c : List Nat) : Prop where
  two_le : 2 ≤ c.length
  arc : ∀ hop ∈ around c, g.Arc hop.1 hop.2 ∧ hop.1 ≠ hop.2

/-- The first cycle through a node: it passes no node twice, no cycle through the node is shorter, and of
those as short none is less in the order of nodes. -/
structure IsFirstCycle (g : Digraph) (start : Nat) (c : List Nat) : Prop where
  isCycle : g.IsCycle c
  nodup : c.Nodup
  head : c.head? = some start
  first : ∀ c', g.IsCycle c' → c'.head? = some start → c.length < c'.length ∨ c.length = c'.length ∧ c ≤ c'

theorem around_cons (a : Nat) (l : List Nat) : around (a :: l) = (a :: l).zip (l ++ [a]) := rfl

/-- Steps in pairs are a chain. -/
theorem forall_mem_zip_iff_isChain (r : Nat → Nat → Prop) (b : Nat) : ∀ (l : List Nat) (a : Nat),
    (∀ hop ∈ (a :: l).zip (l ++ [b]), r hop.1 hop.2) ↔ (a :: (l ++ [b])).IsChain r := by
  intro l
  induction l with
  | nil => intro a; simp
  | cons c l ih =>
    intro a
    rw [cons_append, isChain_cons_cons, ← ih c, zip_cons_cons, forall_mem_cons]

/-- The nodes of a closed chain of edges reach each other. -/
theorem connected_of_isChain {r : Nat → Nat → Prop} (hr : ∀ v w, r v w → g.Arc v w) (b : Nat) :
    ∀ (l : List Nat) (a : Nat), (a :: (l ++ [b])).IsChain r →
      g.Reaches a b ∧ ∀ v ∈ l, g.Reaches a v ∧ g.Reaches v b := by
  intro l
  induction l with
  | nil =>
    intro a h
    have hab : r a b := by simpa using h
    exact ⟨Relation.ReflTransGen.single (hr a b hab), fun v hv => absurd hv not_mem_nil⟩
  | cons c l ih =>
    intro a h
    obtain ⟨hac, hrest⟩ := isChain_cons_cons.1 h
    obtain ⟨hcb, hall⟩ := ih c hrest
    have hstep := hr a c hac
    refine ⟨Relation.ReflTransGen.head hstep hcb, fun v hv => ?_⟩
    obtain rfl | hv := mem_cons.1 hv
    · exact ⟨Relation.ReflTransGen.single hstep, hcb⟩
    · exact ⟨Relation.ReflTransGen.head hstep (hall v hv).1, (hall v hv).2⟩

section Closed

variable {next : Nat → List Nat} {start u : Nat} {p : List Nat}

/-- A path and one more step are a chain from the start on. -/
theorem Trail.isChain (h : Trail next start u p) : ∀ w ∈ next u, (p.reverse ++ [w]).IsChain fun v w => w ∈ next v := by
  induction h with
  | start => simp
  | @step u v p hu hv ih =>
    intro w hw
    rw [reverse_cons, append_assoc, singleton_append, isChain_split]
    exact ⟨ih v hv, by simpa using hw⟩

theorem Trail.exists_reverse (h : Trail next start u p) : ∃ l, p.reverse = start :: l := by
  induction h with
  | start => exact ⟨[], rfl⟩
  | step _ _ ih =>
    obtain ⟨l, hl⟩ := ih
    exact ⟨l ++ [_], by rw [reverse_cons, hl, cons_append]⟩

/-- A closed chain is a path that closes. -/
theorem Trail.of_isChain : ∀ (l : List Nat) (a : Nat) (p : List Nat), Trail next start a p →
    (a :: (l ++ [start])).IsChain (fun v w => w ∈ next v) →
    ∃ u, Trail next start u (l.reverse ++ p) ∧ start ∈ next u := by
  intro l
  induction l with
  | nil =>
    intro a p hp h
    exact ⟨a, hp, by simpa using h⟩
  | cons b l ih =>
    intro a p hp h
    obtain ⟨hab, hrest⟩ := isChain_cons_cons.1 h
    obtain ⟨u, hu, hclose⟩ := ih b (b :: p) (hp.step hab) hrest
    exact ⟨u, by simpa using hu, hclose⟩

end Closed

/-! ### Components and their cycles -/

theorem exists_last_step {v w : Nat} (h : g.Reaches v w) (hne : v ≠ w) : ∃ u, u ≠ w ∧ g.Reaches v u ∧ g.Arc u w := by
  induction h using Relation.ReflTransGen.head_induction_on with
  | refl => exact absurd rfl hne
  | head hvc hcw ih =>
    rename_i v c
    by_cases hcw' : c = w
    · subst hcw'
      exact ⟨v, hne, Relation.ReflTransGen.refl, hvc⟩
    · obtain ⟨u, hu, hcu, huw⟩ := ih hcw'
      exact ⟨u, hu, Relation.ReflTransGen.head hvc hcu, huw⟩

/-- What the search finds in a component, from its first node on. -/
def cycleIn (g : Digraph) (members : List Nat) : List Nat :=
  (shortestCycle (inside (lookup g.table) members) members.length (members.headD 0)).getD []

section Component

variable {g : Digraph} (hg : g.InRange) {start w v u : Nat} {members c rest p : List Nat}
include hg

theorem mem_inside (members : List Nat) (v w : Nat) :
    w ∈ inside (lookup g.table) members v ↔ w ∈ members ∧ w ≠ v ∧ g.Arc v w := by
  simp [inside, mem_lookup_table hg]

/-- Inside a component a path leads from its start to each of its nodes. -/
theorem exists_trail (hw : g.Connected start w) :
    ∃ q, Trail (inside (lookup g.table) (g.componentOf start)) start w q := by
  obtain ⟨hforward, hback⟩ := hw
  induction hforward with
  | refl => exact ⟨[start], Trail.start⟩
  | @tail b c hb hbc ih =>
    obtain ⟨q, hq⟩ := ih (Relation.ReflTransGen.head hbc hback)
    by_cases hne : c = b
    · exact ⟨q, hne ▸ hq⟩
    · have hc : c ∈ g.componentOf start :=
        (mem_componentOf hg start c).2 ⟨(hg b c hbc).2, hb.tail hbc, hback⟩
      exact ⟨c :: q, hq.step ((mem_inside hg _ b c).2 ⟨hc, hne, hbc⟩)⟩

/-- A path inside a component that closes is a cycle. -/
theorem isCycle_of_trail
    (hp : Trail (inside (lookup g.table) members) start u p) (hu : start ∈ inside (lookup g.table) members u) :
    g.IsCycle p.reverse ∧ p.reverse.head? = some start := by
  obtain ⟨l, hl⟩ := hp.exists_reverse
  have hchain := hp.isChain start hu
  rw [hl, cons_append, ← forall_mem_zip_iff_isChain] at hchain
  refine ⟨⟨?_, fun hop hhop => ?_⟩, by rw [hl, head?_cons]⟩
  · by_contra hshort
    obtain ⟨rfl, -⟩ := hp.eq_of_length_le_one (by rw [length_reverse] at hshort; omega)
    exact ((mem_inside hg members u u).1 hu).2.1 rfl
  · rw [hl, around_cons] at hhop
    obtain ⟨-, hne, harc⟩ := (mem_inside hg _ _ _).1 (hchain hop hhop)
    exact ⟨harc, Ne.symm hne⟩

/-- A cycle through a node is a path inside the component of the node. -/
theorem exists_trail_of_isCycle (hstart : start < g.size) (hc : g.IsCycle c) (hhead : c.head? = some start) :
    ∃ u, Trail (inside (lookup g.table) (g.componentOf start)) start u c.reverse ∧
      start ∈ inside (lookup g.table) (g.componentOf start) u := by
  obtain ⟨l, rfl⟩ := head?_eq_some_iff.1 hhead
  have harc := hc.arc
  have hconnected := (connected_of_isChain (fun v w h => h.1) start l start
    ((forall_mem_zip_iff_isChain (fun v w => g.Arc v w ∧ v ≠ w) start l start).1 harc)).2
  have hmember : ∀ w ∈ l ++ [start], w ∈ g.componentOf start := by
    intro w hw
    obtain hw | hw := mem_append.1 hw
    · have hstartw : g.Connected start w := hconnected w hw
      exact (mem_componentOf hg start w).2 ⟨hstartw.1.lt_size hg hstart, hstartw⟩
    · rw [mem_singleton.1 hw]
      exact self_mem_componentOf hg hstart
  have hinside : ∀ hop ∈ (start :: l).zip (l ++ [start]),
      hop.2 ∈ inside (lookup g.table) (g.componentOf start) hop.1 := fun hop hhop =>
    (mem_inside hg _ _ _).2 ⟨hmember _ (of_mem_zip hhop).2, Ne.symm (harc hop hhop).2, (harc hop hhop).1⟩
  obtain ⟨u, hu, hclose⟩ := Trail.of_isChain l start [start] Trail.start
    ((forall_mem_zip_iff_isChain (fun v w => w ∈ inside (lookup g.table) (g.componentOf start) v)
      start l start).1 hinside)
  exact ⟨u, by rwa [reverse_cons], hclose⟩

/-- **The search inside a component gives the first cycle.** -/
theorem exists_shortestCycle (hstart : start < g.size) (htwo : ∃ w ∈ g.componentOf start, w ≠ start) :
    ∃ c, shortestCycle (inside (lookup g.table) (g.componentOf start)) (g.componentOf start).length
        start = some c ∧ g.IsFirstCycle start c := by
  have hsorted : ∀ v, (inside (lookup g.table) (g.componentOf start) v).Pairwise (· < ·) := fun v =>
    (pairwise_componentOf g start).filter _
  have hmembers : ∀ w q, Trail (inside (lookup g.table) (g.componentOf start)) start w q →
      w ∈ g.componentOf start := by
    intro w q hq
    cases hq with
    | start => exact self_mem_componentOf hg hstart
    | step _ hw => exact ((mem_inside hg _ _ _).1 hw).1
  have hex : ∃ u q, Trail (inside (lookup g.table) (g.componentOf start)) start u q ∧
      start ∈ inside (lookup g.table) (g.componentOf start) u := by
    obtain ⟨w, hw, hne⟩ := htwo
    obtain ⟨-, hforward, hback⟩ := (mem_componentOf hg start w).1 hw
    obtain ⟨u, hu, hwu, hclose⟩ := exists_last_step hback hne
    obtain ⟨q, hq⟩ := exists_trail hg ⟨hforward.trans hwu, Relation.ReflTransGen.single hclose⟩
    exact ⟨u, q, hq, (mem_inside hg _ _ _).2 ⟨self_mem_componentOf hg hstart, Ne.symm hu, hclose⟩⟩
  obtain ⟨u, p, hcycle, hp, hu, hnodup, hfirst⟩ := cycleFrom_spec hsorted hmembers hex
    ((g.componentOf start).length + 1) 0 [start] [[start]] level_zero (by simp)
    (fun u q hq _ => hq.length_pos)
  obtain ⟨hisCycle, hhead⟩ := isCycle_of_trail hg hp hu
  refine ⟨p.reverse, hcycle, hisCycle, nodup_reverse.2 hnodup, hhead, fun c' hc' hhead' => ?_⟩
  obtain ⟨u', hp', hu'⟩ := exists_trail_of_isCycle hg hstart hc' hhead'
  have hprecedes := hfirst u' _ hp' hu'
  simpa [Precedes] using hprecedes

/-- What there is of a component of two nodes or more: it is the component of its first node, which is
its smallest, and it has another one. -/
theorem component_cons (hc : v :: w :: rest ∈ g.components) :
    v < g.size ∧ v :: w :: rest = g.componentOf v ∧ ∃ u ∈ g.componentOf v, u ≠ v := by
  obtain ⟨u, -, hu⟩ := (mem_components_iff hg _).1 hc
  have hv : v ∈ g.componentOf u := hu ▸ mem_cons_self
  obtain ⟨hvsize, huv⟩ := (mem_componentOf hg u v).1 hv
  have hself : v :: w :: rest = g.componentOf v := hu.trans (componentOf_eq hg huv)
  refine ⟨hvsize, hself, w, by rw [← hself]; simp, fun hwv => ?_⟩
  have hsorted := pairwise_componentOf g v
  rw [← hself, hwv] at hsorted
  exact absurd ((pairwise_cons.1 hsorted).1 v mem_cons_self) (lt_irrefl v)

theorem exists_cycleIn (hc : v :: w :: rest ∈ g.components) :
    ∃ c, shortestCycle (inside (lookup g.table) (v :: w :: rest)) (v :: w :: rest).length v = some c ∧
      g.cycleIn (v :: w :: rest) = c ∧ g.IsFirstCycle v c := by
  obtain ⟨hv, hself, hother⟩ := component_cons hg hc
  obtain ⟨c, hc, hfirst⟩ := exists_shortestCycle hg hv hother
  rw [← hself] at hc
  refine ⟨c, hc, ?_, hfirst⟩
  rw [cycleIn, headD_cons, hc, Option.getD_some]

/-- **The knots are the components of two nodes or more**, each with what the search finds in it. -/
theorem knots_eq : g.knots = (g.components.filter (2 ≤ ·.length)).map fun members => ⟨members, g.cycleIn members⟩ := by
  rw [← filterMap_eq_map, filterMap_filter]
  refine filterMap_congr fun members hmembers => ?_
  match members, hmembers with
  | [], _ => rfl
  | [_], _ => rfl
  | v :: w :: rest, hmembers =>
    obtain ⟨c, hc, hcycle, -⟩ := exists_cycleIn hg hmembers
    change (shortestCycle (inside (lookup g.table) (v :: w :: rest)) (v :: w :: rest).length v).map _ = _
    rw [hc]
    simp [hcycle]

/-- **The cycle of a component is the first through its smallest node.** -/
theorem isFirstCycle_cycleIn (hmembers : members ∈ g.components) (htwo : 2 ≤ members.length) :
    ∃ start, members.head? = some start ∧ (∀ v ∈ members, start ≤ v) ∧ g.IsFirstCycle start (g.cycleIn members) := by
  match members, hmembers, htwo with
  | v :: w :: rest, hmembers, _ =>
    obtain ⟨-, hself, -⟩ := component_cons hg hmembers
    obtain ⟨c, -, hcycle, hfirst⟩ := exists_cycleIn hg hmembers
    have hsorted := pairwise_componentOf g v
    rw [← hself] at hsorted
    refine ⟨v, rfl, fun u hu => ?_, by rwa [hcycle]⟩
    obtain rfl | hu := mem_cons.1 hu
    · exact le_refl _
    · exact le_of_lt ((pairwise_cons.1 hsorted).1 u hu)

/-- A cycle lies in a component of two nodes or more. -/
theorem exists_component_of_isCycle (hc : g.IsCycle c) : ∃ members ∈ g.components, 2 ≤ members.length := by
  obtain ⟨a, b, l, rfl⟩ : ∃ a b l, c = a :: b :: l := by
    match c, hc.two_le with
    | a :: b :: l, _ => exact ⟨a, b, l, rfl⟩
  obtain ⟨hab, hne⟩ := hc.arc (a, b) (by simp [around])
  have harc := hc.arc
  have hchain := (forall_mem_zip_iff_isChain (fun v w => g.Arc v w ∧ v ≠ w) a (b :: l) a).1 harc
  have hconnected : g.Connected a b := (connected_of_isChain (fun v w h => h.1) a (b :: l) a hchain).2 b mem_cons_self
  obtain ⟨ha, hb⟩ := hg a b hab
  refine ⟨g.componentOf a, (mem_components_iff hg _).2 ⟨a, ha, rfl⟩, ?_⟩
  have hmem : [a, b] ⊆ g.componentOf a := by
    intro v hv
    obtain rfl | hv := mem_cons.1 hv
    · exact self_mem_componentOf hg ha
    · rw [mem_singleton.1 hv]
      exact (mem_componentOf hg a b).2 ⟨hb, hconnected⟩
  exact (subperm_of_subset (by simpa using hne) hmem).length_le

/-- There is a knot exactly if there is a cycle. -/
theorem knots_ne_nil_iff : g.knots ≠ [] ↔ ∃ c, g.IsCycle c := by
  rw [knots_eq hg, ne_eq, map_eq_nil_iff, filter_eq_nil_iff]
  constructor
  · intro hsome
    by_contra hnone
    refine hsome fun members hmembers htwo => ?_
    obtain ⟨start, -, -, hfirst⟩ := isFirstCycle_cycleIn hg hmembers (of_decide_eq_true htwo)
    exact hnone ⟨_, hfirst.isCycle⟩
  · rintro ⟨c, hc⟩ hnone
    obtain ⟨members, hmembers, htwo⟩ := exists_component_of_isCycle hg hc
    exact hnone members hmembers (decide_eq_true htwo)

end Component

end Cartograph.Digraph
