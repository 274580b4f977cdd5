import Cartograph.Grammar.Stack
import Cartograph.Proofs.Grammar.Derivations

/-!
# Stacks that hold

What the nodes of a stack say is true of the text (`Stack.Sound`): a node stands at the cursor that is `offset`
characters behind the start, and each of its links leads down by a derivation that holds at the node below, from the
state below to its state. So each path down a stack is a way to read a piece of the text (`Chain`), and the path that a
complete item pops has the symbols of a production of its phrase (`Chain.reads`).

Nodes are only added. Links come and go when readings are merged, but the `Place` of a node stays as it is
(`Stack.Keeps`), and links depend on nothing else of the nodes below. Each operation therefore has to show only that the
links it adds are sound.
-/

namespace Cartograph.Grammar

open Cartograph.Grammar.Derivation List
open Source (Cursor)

/-! ### Places -/

/-- Where a node stands. This is all of a node that does not change. -/
structure Place where
  state : State
  cursor : Cursor
  offset : Nat

/-- Where a node stands. -/
def Node.place (n : Node) : Place := ⟨n.state, n.cursor, n.offset⟩

/-- A derivation is passed from a state to another one; extra tokens leave it as it is. -/
def Passes (t : Table) (before : State) (d : Derivation) (after : State) : Prop :=
  if d.isExtra then after = before else before.next t d.symbol = some after

variable {d : Derivation} {t : Table} {before after : State}

theorem passes_of_extra (hd : d.isExtra = true) : Passes t before d after ↔ after = before := by rw [Passes, if_pos hd]

theorem passes_of_own (hd : d.isExtra = false) : Passes t before d after ↔ before.next t d.symbol = some after := by
  rw [Passes, if_neg (by simp [hd])]

/-- All items of a state have read the steps of some production. -/
def State.Sound (t : Table) (ways : List (List Production)) (s : State) : Prop :=
  ∀ n, s.Holds n → ∃ steps, (t.item n).Reads ways steps

theorem Passes.sound {ways : List (List Production)} (ht : t.IsFor ways)
    (h : Passes t before d after) (hbefore : before.Sound t ways) : after.Sound t ways := by
  cases hd : d.isExtra with
  | true => exact (passes_of_extra hd).1 h ▸ hbefore
  | false =>
    intro n hn
    obtain ⟨m, hm, -, hreads⟩ | ⟨-, step, -, hreads⟩ := ht.reads_next ((passes_of_own hd).1 h) hn
    · obtain ⟨steps, hsteps⟩ := hbefore m hm
      obtain ⟨step, -, hreads⟩ := hreads steps hsteps
      exact ⟨_, hreads⟩
    · exact ⟨_, hreads⟩

section

variable (t : Table) (ways : List (List Production)) (fits : Nat → Cursor → Nat → Prop) (origin : Cursor)

/-- A link from a place down to a node of the stack. -/
structure Link.Sound (s : Stack) (upper : Place) (l : Link) : Prop where
  inside : l.node < s.nodes.size
  offset : (s.node l.node).offset + l.derivation.extent = upper.offset
  holds : l.derivation.Holds t ways fits (s.node l.node).cursor
  passes : Passes t (s.node l.node).state l.derivation upper.state

/-- A node that stands in the text from `origin` on. Only the first one has no links. -/
structure Node.Sound (s : Stack) (n : Node) : Prop where
  cursor : n.cursor = origin.advance n.offset
  state : n.state.Sound t ways
  bottom : n.links = [] → n.offset = 0
  links : ∀ l ∈ n.links, l.Sound t ways fits s n.place

/-- All nodes of a stack stand in the text, and all heads are among them. -/
structure Stack.Sound (s : Stack) : Prop where
  nonempty : 0 < s.nodes.size
  nodes : ∀ n < s.nodes.size, (s.node n).Sound t ways fits origin s
  heads : ∀ h ∈ s.heads, h.node < s.nodes.size

end

namespace Stack

/-- The nodes of a stack stay where they are. -/
structure Keeps (before after : Stack) : Prop where
  size : before.nodes.size ≤ after.nodes.size
  place : ∀ n < before.nodes.size, (after.node n).place = (before.node n).place

theorem Keeps.refl (s : Stack) : Keeps s s := ⟨Nat.le_refl _, fun _ _ => rfl⟩

theorem Keeps.trans {a b c : Stack} (h : Keeps a b) (h' : Keeps b c) : Keeps a c where
  size := Nat.le_trans h.size h'.size
  place n hn := (h'.place n (Nat.lt_of_lt_of_le hn h.size)).trans (h.place n hn)

section Keeps

variable {before after : Stack} {n : Nat}

section

variable (h : Keeps before after) (hn : n < before.nodes.size)
include h hn

theorem Keeps.state : (after.node n).state = (before.node n).state := congrArg Place.state (h.place n hn)

theorem Keeps.cursor : (after.node n).cursor = (before.node n).cursor := congrArg Place.cursor (h.place n hn)

theorem Keeps.offset : (after.node n).offset = (before.node n).offset := congrArg Place.offset (h.place n hn)

end

end Keeps

end Stack

section Sound

variable {t : Table} {ways : List (List Production)} {fits : Nat → Cursor → Nat → Prop} {origin : Cursor}

theorem Link.Sound.keeps {before after : Stack} (h : before.Keeps after) {upper : Place} {l : Link}
    (hl : l.Sound t ways fits before upper) : l.Sound t ways fits after upper where
  inside := Nat.lt_of_lt_of_le hl.inside h.size
  offset := (h.offset hl.inside).symm ▸ hl.offset
  holds := (h.cursor hl.inside).symm ▸ hl.holds
  passes := (h.state hl.inside).symm ▸ hl.passes

theorem Node.Sound.keeps {before after : Stack} (h : before.Keeps after) {n : Node}
    (hn : n.Sound t ways fits origin before) : n.Sound t ways fits origin after :=
  { hn with links := fun l hl => (hn.links l hl).keeps h }

/-- Two nodes in the same state behind the same characters stand at the same place. -/
theorem Node.Sound.place_eq {s s' : Stack} {a b : Node} (ha : a.Sound t ways fits origin s)
    (hb : b.Sound t ways fits origin s') (hoffset : a.offset = b.offset) (hstate : a.state = b.state) :
    a.place = b.place := by
  rw [Node.place, Node.place, ha.cursor, hb.cursor, hoffset, hstate]

namespace Stack

variable {s : Stack} {n below v item fuel count : Nat} {state : State} {ds : List Derivation} {behind : List Derivation}
  {paths : List Path} {p q : Path}

theorem Sound.head_lt (h : s.Sound t ways fits origin) (v : Nat) :
    (s.heads.getD v ⟨0, .halted⟩).node < s.nodes.size := by
  rw [Array.getD_eq_getD_getElem?]
  cases hv : s.heads[v]? with
  | none => exact h.nonempty
  | some head => exact h.heads head (Array.mem_of_getElem? hv)

theorem Sound.top (h : s.Sound t ways fits origin) (v : Nat) : (s.top v).Sound t ways fits origin s :=
  h.nodes _ (h.head_lt v)

/-- The node below a link is as many characters behind as its derivation moves over. -/
theorem Sound.cursor_eq (h : s.Sound t ways fits origin) (hn : n < s.nodes.size) {l : Link}
    (hl : l ∈ (s.node n).links) : (s.node n).cursor = (s.node l.node).cursor.advance l.derivation.extent := by
  have hlink := (h.nodes n hn).links l hl
  calc (s.node n).cursor
      = origin.advance (s.node n).offset := (h.nodes n hn).cursor
    _ = origin.advance ((s.node l.node).offset + l.derivation.extent) := by rw [hlink.offset]; rfl
    _ = (s.node l.node).cursor.advance l.derivation.extent := by
      rw [(h.nodes _ hlink.inside).cursor, Cursor.advance_advance]

theorem keeps_setHeads (heads : Array Head) : s.Keeps { s with heads } := ⟨Nat.le_refl _, fun _ _ => rfl⟩

theorem Sound.setHeads (h : s.Sound t ways fits origin) {heads : Array Head}
    (hheads : ∀ head ∈ heads, head.node < s.nodes.size) : Sound t ways fits origin { s with heads } where
  nonempty := h.nonempty
  nodes n hn := (h.nodes n hn).keeps (keeps_setHeads heads)
  heads := hheads

theorem sound_initial (ht : t.IsFor ways) : (initial t origin).Sound t ways fits origin where
  nonempty := Nat.one_pos
  nodes n hn := by
    obtain rfl : n = 0 := Nat.lt_one_iff.1 hn
    refine ⟨rfl, fun m hm => ?_, fun _ => rfl, fun l hl => absurd hl not_mem_nil⟩
    obtain ⟨tokens, hm⟩ := hm
    obtain rfl := (Prod.mk.inj (mem_singleton.1 hm)).1
    exact ⟨[], ht.reads_goal.1⟩
  heads h hh := by
    rw [initial, mem_toArray, mem_singleton] at hh
    subst hh
    exact Nat.one_pos

/-! ### Placing -/

theorem node_push (s : Stack) (new : Node) (n : Nat) :
    ({ s with nodes := s.nodes.push new } : Stack).node n = if n = s.nodes.size then new else s.node n := by
  rw [node, node, Array.getD_eq_getD_getElem?, Array.getElem?_push, Array.getD_eq_getD_getElem?]
  split <;> rfl

/-- What putting something on top of a node gives. -/
structure Placed (t : Table) (ways : List (List Production)) (fits : Nat → Cursor → Nat → Prop) (origin : Cursor)
    (before : Stack) (state : State) (offset : Nat) (after : Stack × Nat) : Prop where
  sound : after.1.Sound t ways fits origin
  keeps : before.Keeps after.1
  heads : after.1.heads = before.heads
  inside : after.2 < after.1.nodes.size
  state_eq : (after.1.node after.2).state = state
  offset_eq : (after.1.node after.2).offset = offset

theorem Sound.place (ht : t.IsFor ways) (h : s.Sound t ways fits origin) {c : Cursor} (hbelow : below < s.nodes.size)
    (hd : d.Holds t ways fits (s.node below).cursor) (hpasses : Passes t (s.node below).state d state)
    (hc : c = origin.advance ((s.node below).offset + d.extent)) :
    Placed t ways fits origin s state ((s.node below).offset + d.extent) (s.place below d state c) := by
  obtain ⟨new, hnew⟩ : ∃ new : Node, new =
      ⟨state, c, (s.node below).offset + d.extent, (s.node below).weight + d.weight, [⟨below, d⟩]⟩ := ⟨_, rfl⟩
  have hplace : s.place below d state c = ({ s with nodes := s.nodes.push new }, s.nodes.size) := hnew ▸ rfl
  rw [hplace]
  have hkeeps : s.Keeps { s with nodes := s.nodes.push new } := by
    refine ⟨by simp, fun n hn => ?_⟩
    rw [node_push, if_neg (Nat.ne_of_lt hn)]
  have hlink : (⟨below, d⟩ : Link).Sound t ways fits s new.place := hnew ▸ ⟨hbelow, rfl, hd, hpasses⟩
  refine ⟨⟨by simp, fun n hn => ?_, fun head hhead => ?_⟩, hkeeps, rfl, by simp, ?_, ?_⟩
  · rw [node_push]
    split
    · refine ⟨hnew ▸ hc, hnew ▸ hpasses.sound ht (h.nodes below hbelow).state, fun hnil => by simp [hnew] at hnil,
        fun l hl => ?_⟩
      obtain rfl : l = ⟨below, d⟩ := by simpa [hnew] using hl
      exact hlink.keeps hkeeps
    · next hne =>
      rw [Array.size_push] at hn
      exact (h.nodes n (by omega)).keeps hkeeps
  · exact Nat.lt_of_lt_of_le (h.heads head hhead) hkeeps.size
  · rw [node_push, if_pos rfl, hnew]
  · rw [node_push, if_pos rfl, hnew]

/-- Derivations all of which are extra tokens. -/
theorem Sound.placeAll (ht : t.IsFor ways) (h : s.Sound t ways fits origin) (hbelow : below < s.nodes.size)
    (hds : HoldsAll t ways fits (s.node below).cursor ds) (hextra : ∀ d ∈ ds, d.isExtra = true) :
    Placed t ways fits origin s (s.node below).state ((s.node below).offset + extentOf ds)
      (s.placeAll below (s.node below).state ds) := by
  generalize hstate : (s.node below).state = state
  induction ds generalizing s below with
  | nil => exact ⟨h, .refl s, rfl, hbelow, hstate, rfl⟩
  | cons d ds ih =>
    have hcursor := (h.nodes below hbelow).cursor
    have hnext : (s.node below).cursor.advance d.extent = origin.advance ((s.node below).offset + d.extent) := by
      rw [hcursor, Cursor.advance_advance]
    have hfirst := h.place ht hbelow hds.1 ((passes_of_extra (hextra d mem_cons_self)).2 hstate.symm) hnext
    rw [Stack.placeAll]
    generalize s.place below d state ((s.node below).cursor.advance d.extent) = placed at hfirst ⊢
    have hcursor' : (placed.1.node placed.2).cursor = (s.node below).cursor.advance d.extent := by
      rw [(hfirst.sound.nodes _ hfirst.inside).cursor, hfirst.offset_eq, hnext]
    have hrest := ih hfirst.sound hfirst.inside (hcursor' ▸ hds.2) (forall_mem_cons.1 hextra).2 hfirst.state_eq
    refine { hrest with keeps := hfirst.keeps.trans hrest.keeps, heads := hrest.heads.trans hfirst.heads, offset_eq := ?_ }
    rw [hrest.offset_eq, hfirst.offset_eq, extentOf_cons, Nat.add_assoc]

/-! ### Merging -/

/-- What changing links gives: all nodes and heads stay. -/
structure Relinked (t : Table) (ways : List (List Production)) (fits : Nat → Cursor → Nat → Prop) (origin : Cursor)
    (before after : Stack) : Prop where
  sound : after.Sound t ways fits origin
  keeps : before.Keeps after
  heads : after.heads = before.heads

theorem Relinked.trans {a b c : Stack} (h : Relinked t ways fits origin a b) (h' : Relinked t ways fits origin b c) :
    Relinked t ways fits origin a c := ⟨h'.sound, h.keeps.trans h'.keeps, h'.heads.trans h.heads⟩

theorem Sound.relinked (h : s.Sound t ways fits origin) : Relinked t ways fits origin s s := ⟨h, .refl s, rfl⟩

theorem node_modify (s : Stack) (self : Nat) (f : Node → Node) (hn : n < s.nodes.size) :
    ({ s with nodes := s.nodes.modify self f } : Stack).node n = if self = n then f (s.node n) else s.node n := by
  rw [node, node, Array.getD_eq_getD_getElem?, Array.getElem?_modify, Array.getD_eq_getD_getElem?,
    Array.getElem?_eq_getElem hn]
  split <;> rfl

section

variable (h : s.Sound t ways fits origin)
include h

/-- Changing the links of a node to others that are sound. -/
theorem Sound.modify {self : Nat} {f : Node → Node} (hplace : ∀ n, (f n).place = n.place)
    (hsome : (f (s.node self)).links = [] → (s.node self).links = [])
    (hlinks : ∀ l ∈ (f (s.node self)).links, l ∈ (s.node self).links ∨ l.Sound t ways fits s (s.node self).place) :
    Relinked t ways fits origin s { s with nodes := s.nodes.modify self f } := by
  have hkeeps : s.Keeps { s with nodes := s.nodes.modify self f } := by
    refine ⟨by simp, fun n hn => ?_⟩
    rw [node_modify s self f hn]
    split
    · exact hplace _
    · rfl
  refine ⟨⟨by simpa using h.nonempty, fun n hn => ?_, fun head hhead => ?_⟩, hkeeps, rfl⟩
  · rw [Array.size_modify] at hn
    have hnode := h.nodes n hn
    rw [node_modify s self f hn]
    split
    · next heq =>
      subst heq
      have hcursor : (f (s.node self)).cursor = (s.node self).cursor := congrArg Place.cursor (hplace _)
      have hstate : (f (s.node self)).state = (s.node self).state := congrArg Place.state (hplace _)
      have hoffset : (f (s.node self)).offset = (s.node self).offset := congrArg Place.offset (hplace _)
      refine ⟨by rw [hcursor, hoffset, hnode.cursor], hstate ▸ hnode.state,
        fun hnil => hoffset ▸ hnode.bottom (hsome hnil), fun l hl => ?_⟩
      rw [hplace]
      obtain hl | hl := hlinks l hl
      · exact (hnode.links l hl).keeps hkeeps
      · exact hl.keeps hkeeps
    · exact hnode.keeps hkeeps
  · exact Nat.lt_of_lt_of_le (h.heads head hhead) hkeeps.size

/-- What is done for each of several sound links is done for all of them. -/
theorem Sound.foldl_links {add : Stack → Link → Stack} {upper : Place}
    {links : List Link} (hlinks : ∀ l ∈ links, l.Sound t ways fits s upper)
    (hadd : ∀ s' : Stack, s'.Sound t ways fits origin → s.Keeps s' → ∀ l : Link, l.Sound t ways fits s' upper →
      Relinked t ways fits origin s' (add s' l)) :
    Relinked t ways fits origin s (links.foldl add s) :=
  List.foldlRecOn links add h.relinked fun s' hs' l hl =>
    hs'.trans (hadd s' hs'.sound hs'.keeps l ((hlinks l hl).keeps hs'.keeps))

theorem Sound.addLink {fuel : Nat} {self : Nat} {link : Link} (hself : self < s.nodes.size)
    (hlink : link.Sound t ways fits s (s.node self).place) :
    Relinked t ways fits origin s (addLink t fuel s self link) := by
  induction fuel generalizing s self link with
  | zero => exact h.relinked
  | succ fuel ih =>
    rw [Stack.addLink]
    split
    · exact h.relinked
    dsimp only
    split
    · next l hl =>
      have hmem := mem_of_find?_eq_some hl
      have hsame := find?_some hl
      split
      · split
        · refine h.modify (fun _ => rfl) (fun hnil => map_eq_nil_iff.1 hnil) fun l' hl' => ?_
          obtain ⟨other, hother, rfl⟩ := mem_map.1 hl'
          split
          · exact .inr hlink
          · exact .inl hother
        · exact h.relinked
      · next hne =>
        -- the nodes below stand at the same place, so that all links of the one are links of the other
        simp only [Bool.and_eq_true, Bool.or_eq_true, beq_iff_eq, hne, false_or] at hsame
        have hinside := ((h.nodes self hself).links l hmem).inside
        have hbelow := h.nodes link.node hlink.inside
        have hplace := (h.nodes l.node hinside).place_eq hbelow hsame.2.1 hsame.2.2
        have hmerged := h.foldl_links hbelow.links fun s' hs' hkeeps inner hinner =>
          ih hs' (Nat.lt_of_lt_of_le hinside hkeeps.size) (by rwa [hkeeps.place l.node hinside, hplace])
        exact hmerged.trans (hmerged.sound.modify (fun _ => rfl) id fun l' hl' => .inl hl')
    · split
      · exact h.relinked
      · refine h.modify (fun _ => rfl) (fun hnil => (append_eq_nil_iff.1 hnil).1) fun l' hl' => ?_
        obtain hl' | hl' := mem_append.1 hl'
        · exact .inl hl'
        · exact .inr (mem_singleton.1 hl' ▸ hlink)

theorem Sound.merge {a b : Head} (ha : a.node < s.nodes.size) (hb : b.node < s.nodes.size)
    (hmerge : s.canMerge a b = true) : Relinked t ways fits origin s (s.merge t a b) := by
  simp only [canMerge, Bool.and_eq_true, beq_iff_eq] at hmerge
  have hplace := (h.nodes a.node ha).place_eq (h.nodes b.node hb) hmerge.1.2 hmerge.2
  exact h.foldl_links (h.nodes b.node hb).links fun s' hs' hkeeps l hl =>
    hs'.addLink (Nat.lt_of_lt_of_le ha hkeeps.size) (by rwa [hkeeps.place a.node ha, hplace])

end

/-! ### Paths -/

/-- Derivations lead from a node up to another one. -/
inductive Chain (s : Stack) : Nat → List Derivation → Nat → Prop where
  | nil {n : Nat} : Chain s n [] n
  | cons {n upper : Nat} {l : Link} {ds : List Derivation} (link : l ∈ (s.node n).links) (rest : Chain s n ds upper) :
      Chain s l.node (l.derivation :: ds) upper

/-- What a path has passed leads from where it has come up to a node, and it has stopped at the first chance: the lowest
derivation passed is an extra token only if there are more to pass. -/
structure Path.Sound (s : Stack) (upper count : Nat) (p : Path) : Prop where
  chain : s.Chain p.node p.passed upper
  left : p.left + (ownSymbols p.passed).length = count
  lowest : ∀ d, p.passed.head? = some d → d.isExtra = true → p.left ≠ 0

theorem Path.Sound.down {upper count : Nat} {p : Path} (h : p.Sound s upper count) (hleft : p.left ≠ 0) {l : Link}
    (hl : l ∈ (s.node p.node).links) : (p.down l).Sound s upper count := by
  cases hd : l.derivation.isExtra with
  | true =>
    have hdown : p.down l = ⟨l.node, p.left, l.derivation :: p.passed⟩ := by rw [Path.down, if_pos hd]
    rw [hdown]
    refine ⟨.cons hl h.chain, ?_, fun _ _ _ => hleft⟩
    rw [ownSymbols_cons_of_extra hd, h.left]
  | false =>
    have hdown : p.down l = ⟨l.node, p.left - 1, l.derivation :: p.passed⟩ := by
      rw [Path.down, if_neg (by simp [hd])]
    rw [hdown]
    refine ⟨.cons hl h.chain, ?_, fun d hhead hextra => ?_⟩
    · rw [ownSymbols_cons_of_own hd, length_cons, ← h.left]
      dsimp only
      omega
    · obtain rfl := Option.some.inj hhead
      exact absurd hextra (by simp [hd])

theorem mem_descend (h : p ∈ s.descend paths) : ∃ q ∈ paths, ∃ l ∈ (s.node q.node).links, p = q.down l := by
  rw [descend, mem_append] at h
  obtain h | h := h
  · obtain ⟨q, hq, hp⟩ := mem_filterMap.1 h
    obtain ⟨l, hl, rfl⟩ := Option.map_eq_some_iff.1 hp
    exact ⟨q, hq, l, mem_of_head? hl, rfl⟩
  · obtain ⟨q, hq, hp⟩ := mem_flatMap.1 (mem_of_mem_take h)
    obtain ⟨l, hl, rfl⟩ := mem_map.1 hp
    exact ⟨q, hq, l, mem_of_mem_tail hl, rfl⟩

/-- What holds of paths and is kept on the way down holds of all that are collected. -/
theorem collect_induction {P : Path → Prop} {done : Path → Bool}
    (hp : p ∈ s.collect done fuel paths) (hpaths : ∀ q ∈ paths, P q)
    (hdown : ∀ q, P q → done q = false → ∀ l ∈ (s.node q.node).links, P (q.down l)) : P p ∧ done p = true := by
  induction fuel generalizing paths with
  | zero =>
    exact absurd hp not_mem_nil
  | succ fuel ih =>
    cases paths with
    | nil => exact absurd hp not_mem_nil
    | cons first rest =>
      rw [collect, mem_append] at hp
      · obtain hp | hp := hp
        · obtain ⟨hmem, hdone⟩ := mem_filter.1 hp
          exact ⟨hpaths p hmem, hdone⟩
        · refine ih hp fun q hq => ?_
          obtain ⟨q', hq', l, hl, rfl⟩ := mem_descend hq
          obtain ⟨hmem, hnot⟩ := mem_filter.1 hq'
          exact hdown q' (hpaths q' hmem) (by simpa using hnot) l hl
      · simp

theorem mem_addPath {groups : List (Nat × List Path)} (h : (n, paths) ∈ addPath p groups) (hq : q ∈ paths) :
    q = p ∧ n = p.node ∨ ∃ others, (n, others) ∈ groups ∧ q ∈ others := by
  induction groups with
  | nil =>
    obtain ⟨rfl, rfl⟩ := Prod.mk.inj (mem_singleton.1 h)
    exact .inl ⟨mem_singleton.1 hq, rfl⟩
  | cons group groups ih =>
    obtain ⟨m, others⟩ := group
    rw [addPath] at h
    split at h
    · next heq =>
      obtain heq' | h := mem_cons.1 h
      · obtain ⟨rfl, rfl⟩ := Prod.mk.inj heq'
        obtain hq | hq := mem_append.1 hq
        · exact .inr ⟨others, mem_cons_self, hq⟩
        · exact .inl ⟨mem_singleton.1 hq, heq⟩
      · exact .inr ⟨paths, mem_cons_of_mem _ h, hq⟩
    · obtain heq' | h := mem_cons.1 h
      · obtain ⟨rfl, rfl⟩ := Prod.mk.inj heq'
        exact .inr ⟨paths, mem_cons_self, hq⟩
      · obtain hp | ⟨others', hothers, hq⟩ := ih h
        · exact .inl hp
        · exact .inr ⟨others', mem_cons_of_mem _ hothers, hq⟩

/-- The paths that are popped have passed as many derivations as asked for, and end in the node that they are given with. -/
theorem mem_pop (h : (n, paths) ∈ s.pop v count) (hp : p ∈ paths) :
    p.Sound s (s.heads.getD v ⟨0, .halted⟩).node count ∧ p.left = 0 ∧ p.node = n := by
  have hgroups (collected : List Path) : ∀ groups : List (Nat × List Path),
      (n, paths) ∈ collected.foldl (fun groups p => addPath p groups) groups →
      (p ∈ collected ∧ p.node = n) ∨ ∃ others, (n, others) ∈ groups ∧ p ∈ others := by
    induction collected with
    | nil => exact fun groups hmem => .inr ⟨paths, hmem, hp⟩
    | cons q collected ih =>
      intro groups hmem
      obtain ⟨hmem, hn⟩ | ⟨others, hothers, hp'⟩ := ih _ hmem
      · exact .inl ⟨mem_cons_of_mem _ hmem, hn⟩
      · obtain ⟨rfl, rfl⟩ | hbefore := mem_addPath hothers hp'
        · exact .inl ⟨mem_cons_self, rfl⟩
        · exact .inr hbefore
  obtain ⟨hmem, hn⟩ | ⟨others, hothers, -⟩ := hgroups _ [] h
  · have hstart : (s.pathFrom v count).Sound s (s.heads.getD v ⟨0, .halted⟩).node count :=
      ⟨.nil, rfl, fun d hd => by simp [pathFrom] at hd⟩
    obtain ⟨hsound, hleft⟩ := collect_induction hmem (fun q hq => mem_singleton.1 hq ▸ hstart)
      fun q hq hleft l hl => hq.down (by simpa using hleft) hl
    exact ⟨hsound, by simpa using hleft, hn⟩
  · exact absurd hothers not_mem_nil

/-- The paths to the bottom lead from a node without links. -/
theorem mem_popAll (h : ds ∈ s.popAll v) :
    ∃ n, s.Chain n ds (s.heads.getD v ⟨0, .halted⟩).node ∧ (s.node n).links = [] := by
  obtain ⟨p, hp, rfl⟩ := mem_map.1 h
  have hstart : s.Chain (s.pathFrom v s.nodes.size).node (s.pathFrom v s.nodes.size).passed
      (s.heads.getD v ⟨0, .halted⟩).node := .nil
  obtain ⟨hchain, hdone⟩ := collect_induction (P := fun q => s.Chain q.node q.passed (s.heads.getD v ⟨0, .halted⟩).node) hp
    (fun q hq => mem_singleton.1 hq ▸ hstart) fun q hq _ l hl => .cons hl hq
  exact ⟨p.node, hchain, isEmpty_iff.1 hdone⟩

/-! ### What is on a path -/

section Chain

variable {n upper m : Nat} {ds : List Derivation}

section

variable (hs : s.Sound t ways fits origin) (h : s.Chain n ds upper) (hupper : upper < s.nodes.size)
include hs h hupper

theorem Chain.inside : n < s.nodes.size := by
  induction h with
  | nil => exact hupper
  | cons hl _ ih => exact ((hs.nodes _ (ih hupper)).links _ hl).inside

theorem Chain.offset : (s.node n).offset + extentOf ds = (s.node upper).offset := by
  induction h with
  | nil => rfl
  | cons hl hrest ih =>
    have hlink := (hs.nodes _ (hrest.inside hs hupper)).links _ hl
    rw [extentOf_cons, ← Nat.add_assoc, hlink.offset]
    exact ih hupper

theorem Chain.holds : HoldsAll t ways fits (s.node n).cursor ds := by
  induction h with
  | nil => rw [HoldsAll]; trivial
  | cons hl hrest ih =>
    have hinside := hrest.inside hs hupper
    have hlink := (hs.nodes _ hinside).links _ hl
    refine holdsAll_cons.2 ⟨hlink.holds, ?_⟩
    rw [← hs.cursor_eq hinside hl]
    exact ih hupper

end

/-- An item that has read more than the symbols on a path has read the others before it. -/
theorem Chain.reads_before (ht : t.IsFor ways) (hs : s.Sound t ways fits origin) (h : s.Chain n ds upper)
    (hupper : upper < s.nodes.size) (hm : (s.node upper).state.Holds m)
    (hlt : (ownSymbols ds).length < (t.item m).read) :
    ∃ k, (s.node n).state.Holds k ∧ (t.item k).read + (ownSymbols ds).length = (t.item m).read ∧
      ∀ steps, (t.item k).Reads ways steps →
        ∃ more : List Step, more.map Step.symbol = ownSymbols ds ∧ (t.item m).Reads ways (steps ++ more) := by
  induction h with
  | nil => exact ⟨m, hm, rfl, fun steps hreads => ⟨[], rfl, (append_nil steps).symm ▸ hreads⟩⟩
  | @cons n upper l ds hl hrest ih =>
    have hpasses := ((hs.nodes n (hrest.inside hs hupper)).links l hl).passes
    cases hd : l.derivation.isExtra with
    | true =>
      rw [ownSymbols_cons_of_extra hd] at hlt ⊢
      rw [← (passes_of_extra hd).1 hpasses]
      exact ih hupper hm hlt
    | false =>
      rw [ownSymbols_cons_of_own hd, length_cons] at hlt ⊢
      obtain ⟨k, hk, hread, hmore⟩ := ih hupper hm (by omega)
      obtain ⟨j, hj, hreadj, hstep⟩ | ⟨hone, -⟩ := ht.reads_next ((passes_of_own hd).1 hpasses) hk
      · refine ⟨j, hj, by omega, fun steps hreads => ?_⟩
        obtain ⟨step, hsymbol, hreadsk⟩ := hstep steps hreads
        obtain ⟨more, hsymbols, hreadsm⟩ := hmore _ hreadsk
        refine ⟨step :: more, by rw [map_cons, hsymbol, hsymbols], ?_⟩
        rwa [append_assoc, singleton_append] at hreadsm
      · omega

/-- An item that has read as much as there is on a path has read the symbols on it. -/
theorem Chain.reads (ht : t.IsFor ways) (hs : s.Sound t ways fits origin) (h : s.Chain n ds upper)
    (hupper : upper < s.nodes.size) (hm : (s.node upper).state.Holds m)
    (heq : (t.item m).read = (ownSymbols ds).length) :
    ∃ steps, (t.item m).Reads ways steps ∧ ownSymbols ds = steps.map Step.symbol := by
  induction h with
  | nil =>
    obtain ⟨steps, hreads⟩ := (hs.nodes _ hupper).state m hm
    obtain rfl := length_eq_zero_iff.1 (hreads.read.symm.trans heq)
    exact ⟨[], hreads, rfl⟩
  | @cons n upper l ds hl hrest ih =>
    have hlink := (hs.nodes n (hrest.inside hs hupper)).links l hl
    cases hd : l.derivation.isExtra with
    | true =>
      rw [ownSymbols_cons_of_extra hd] at heq ⊢
      exact ih hupper hm heq
    | false =>
      rw [ownSymbols_cons_of_own hd, length_cons] at heq
      obtain ⟨k, hk, hread, hmore⟩ := hrest.reads_before ht hs hupper hm (by omega)
      have hfirst : ∃ step : Step, step.symbol = l.derivation.symbol ∧ (t.item k).Reads ways [step] := by
        obtain ⟨j, hj, hreadj, hstep⟩ | ⟨-, hstep⟩ := ht.reads_next ((passes_of_own hd).1 hlink.passes) hk
        · obtain ⟨steps, hreads⟩ := (hs.nodes _ hlink.inside).state j hj
          have hnone : steps = [] := length_eq_zero_iff.1 (hreads.read.symm.trans (by omega))
          subst hnone
          exact hstep [] hreads
        · exact hstep
      obtain ⟨step, hsymbol, hreadsk⟩ := hfirst
      obtain ⟨more, hsymbols, hreadsm⟩ := hmore _ hreadsk
      refine ⟨[step] ++ more, hreadsm, ?_⟩
      rw [ownSymbols_cons_of_own hd, map_append, hsymbols, map_singleton, hsymbol]
      rfl

end Chain

/-! ### Reducing -/

/-- The extra tokens at the end of derivations, and what is before them. -/
theorem splitExtras_eq (ds : List Derivation) :
    splitExtras ds = ((ds.reverse.dropWhile isExtra).reverse, (ds.reverse.takeWhile isExtra).reverse) := by
  have hsplit : ds = (ds.reverse.dropWhile isExtra).reverse ++
      (ds.reverse.takeWhile isExtra).reverse := by
    rw [← reverse_append, takeWhile_append_dropWhile, reverse_reverse]
  have hlength := congrArg List.length hsplit
  rw [length_append] at hlength
  rw [splitExtras]
  generalize (ds.reverse.dropWhile isExtra).reverse = children at *
  generalize (ds.reverse.takeWhile isExtra).reverse = behind at *
  rw [hlength, Nat.add_sub_cancel, hsplit, take_left]

/-- The parts of a phrase and the extra tokens behind it. -/
structure Split (ds children behind : List Derivation) : Prop where
  append : children ++ behind = ds
  extra : ∀ d ∈ behind, d.isExtra = true
  last_own : ∀ d, children.getLast? = some d → d.isExtra = false

theorem split_splitExtras (ds : List Derivation) : Split ds (splitExtras ds).1 (splitExtras ds).2 := by
  rw [splitExtras_eq]
  refine ⟨?_, fun d hd => ?_, fun d hd => ?_⟩
  · rw [← reverse_append, takeWhile_append_dropWhile, reverse_reverse]
  · exact all_eq_true.1 all_takeWhile d (mem_reverse.1 hd)
  · rw [getLast?_reverse] at hd
    have hnot := head?_dropWhile_not isExtra ds.reverse
    rw [hd] at hnot
    simpa using hnot

theorem Split.ownSymbols {children : List Derivation} (h : Split ds children behind) :
    ownSymbols children = ownSymbols ds := by
  have hnone : Derivation.ownSymbols behind = [] := by
    rw [Derivation.ownSymbols, filter_eq_nil_iff.2 fun d hd => by simp [h.extra d hd], map_nil]
  rw [← h.append, ownSymbols_append, hnone, append_nil]

/-- The phrase of a path, with the extra tokens behind it. -/
def phraseOn (t : Table) (item : Nat) (p : Path) : Derivation × List Derivation :=
  (.ofChildren t item (splitExtras p.passed).1, (splitExtras p.passed).2)

/-- The best phrase of several paths is that of one of them. -/
theorem bestPhrase_eq_some {best : Derivation × List Derivation}
    (h : bestPhrase t item paths = some best) : ∃ p ∈ paths, best = phraseOn t item p := by
  cases paths with
  | nil => simp [bestPhrase] at h
  | cons p rest =>
    obtain rfl := Option.some.inj h
    refine List.foldlRecOn (motive := fun best => ∃ q ∈ p :: rest, best = phraseOn t item q) rest _
      ⟨p, mem_cons_self, rfl⟩ fun best hbest q hq => ?_
    dsimp only
    split
    · exact ⟨q, mem_cons_of_mem _ hq, rfl⟩
    · exact hbest

/-- What settling a new reading gives: it is merged into another one or comes behind all of them. -/
theorem Sound.settle (h : s.Sound t ways fits origin) (v : Nat) {head : Head} (hhead : head.node < s.nodes.size) :
    (s.settle t v head).Sound t ways fits origin ∧ s.Keeps (s.settle t v head) ∧
      ((s.settle t v head).heads = s.heads ∨ (s.settle t v head).heads = s.heads.push head) := by
  rw [Stack.settle]
  split
  · next other hfitting =>
    obtain ⟨j, -, hj⟩ := exists_of_findSome?_eq_some hfitting
    split at hj
    · simp at hj
    · obtain ⟨hother, hmerge⟩ := Option.filter_eq_some_iff.1 hj
      have hmerged := h.merge (h.heads other (Array.mem_of_getElem? hother)) hhead hmerge
      exact ⟨hmerged.sound, hmerged.keeps, .inl hmerged.heads⟩
  · refine ⟨h.setHeads fun other hother => ?_, keeps_setHeads _, .inr rfl⟩
    obtain hother | rfl := Array.mem_push.1 hother
    · exact h.heads other hother
    · exact hhead

/-- **The parts on a path that is popped** are those of a phrase, if an item that has read them is complete. -/
theorem Path.Sound.holds_ofChildren (ht : t.IsFor ways) (hs : s.Sound t ways fits origin) {p : Path}
    (h : p.Sound s (s.heads.getD v ⟨0, .halted⟩).node (t.item item).read) (hleft : p.left = 0)
    (hcomplete : ∃ tokens, (item, tokens) ∈ (s.top v).state.complete t) {children : List Derivation}
    (hsplit : Split p.passed children behind) : (ofChildren t item children).Holds t ways fits (s.node p.node).cursor := by
  have hupper := hs.head_lt v
  have hholds := h.chain.holds hs hupper
  rw [← hsplit.append, holdsAll_append] at hholds
  have hcount : (t.item item).read = (ownSymbols p.passed).length := by
    have := h.left
    omega
  -- the item has read the symbols of the parts, also when there are none
  have hreads : (t.item item).rest = [] ∧
      ∃ steps, (t.item item).Reads ways steps ∧ ownSymbols children = steps.map Step.symbol := by
    obtain ⟨tokens, htokens⟩ := hcomplete
    rw [hsplit.ownSymbols]
    obtain ⟨hrest, hitem⟩ | ⟨q, hempty⟩ := State.mem_complete htokens
    · exact ⟨hrest, h.chain.reads ht hs hupper hitem hcount⟩
    · obtain ⟨hreads, hrest⟩ := ht.reads_empty hempty
      refine ⟨hrest, [], hreads, length_eq_zero_iff.1 ?_⟩
      rw [← hcount, hreads.read, length_nil]
  obtain ⟨hrest, steps, hreads, hsymbols⟩ := hreads
  -- extra tokens are passed only while symbols are left to pass, so none stands in front
  have hfirst (e : Derivation) (he : children.head? = some e) : e.isExtra = false := by
    have hhead : p.passed.head? = some e := by rw [← hsplit.append, head?_append, he, Option.some_or]
    by_contra hextra
    exact h.lowest e hhead (by simpa using hextra) hleft
  exact Derivation.holds_ofChildren hholds.1 hrest hreads hsymbols hfirst hsplit.last_own

/-- What reducing gives: readings that have come as far as the one at `v` are added behind all others. -/
structure Reduced (t : Table) (ways : List (List Production)) (fits : Nat → Cursor → Nat → Prop) (origin : Cursor)
    (before : Stack) (v : Nat) (after : Stack) : Prop where
  sound : after.Sound t ways fits origin
  keeps : before.Keeps after
  heads : ∃ more : Array Head, after.heads = before.heads ++ more ∧
    ∀ h ∈ more, h.node < after.nodes.size ∧ (after.node h.node).offset = (before.top v).offset

/-- Reducing along one of the paths that end in a node. -/
theorem Reduced.step (ht : t.IsFor ways) {after : Stack} (hs : s.Sound t ways fits origin)
    (h : Reduced t ways fits origin s v after) (hcomplete : ∃ tokens, (item, tokens) ∈ (s.top v).state.complete t)
    (hpop : (below, paths) ∈ s.pop v (t.item item).read) (hbest : bestPhrase t item paths = some (d, behind))
    (hnext : (after.node below).state.next t (.phrase (t.item item).phrase) = some state) {c : Cursor}
    (hc : c = if behind.isEmpty then (s.top v).cursor else (after.node below).cursor.advance d.extent) :
    Reduced t ways fits origin s v
      (((after.place below d state c).1.placeAll (after.place below d state c).2 state behind).1.settle t v
        ⟨((after.place below d state c).1.placeAll (after.place below d state c).2 state behind).2, .active⟩) := by
  obtain ⟨p, hp, hphrase⟩ := bestPhrase_eq_some hbest
  obtain ⟨rfl, rfl⟩ := Prod.mk.inj hphrase
  obtain ⟨hpath, hleft, rfl⟩ := mem_pop hpop hp
  have hupper := hs.head_lt v
  have hsplit := split_splitExtras p.passed
  generalize (splitExtras p.passed).1 = children at *
  generalize (splitExtras p.passed).2 = behind at *
  have hbelow := hpath.chain.inside hs hupper
  have hbelow' := Nat.lt_of_lt_of_le hbelow h.keeps.size
  have hoffset : (s.node p.node).offset + extentOf p.passed = (s.top v).offset := hpath.chain.offset hs hupper
  have hholds := hpath.chain.holds hs hupper
  rw [← hsplit.append, holdsAll_append] at hholds
  rw [← hsplit.append, extentOf_append] at hoffset
  have hd : (ofChildren t item children).Holds t ways fits (after.node p.node).cursor := by
    rw [h.keeps.cursor hbelow]
    exact hpath.holds_ofChildren ht hs hleft hcomplete hsplit
  have hcursor : c = origin.advance ((after.node p.node).offset + (ofChildren t item children).extent) := by
    rw [hc, extent_ofChildren]
    split
    · next hnil =>
      rw [isEmpty_iff.1 hnil, extentOf_nil, Nat.add_zero] at hoffset
      rw [(hs.top v).cursor, h.keeps.offset hbelow, hoffset]
    · rw [(h.sound.nodes _ hbelow').cursor, Cursor.advance_advance]
  have hplaced := h.sound.place ht hbelow' hd ((passes_of_own rfl).2 hnext) hcursor
  rw [extent_ofChildren] at hplaced
  generalize after.place p.node (.ofChildren t item children) state c = placed at *
  have hbehind : HoldsAll t ways fits (placed.1.node placed.2).cursor behind := by
    rw [(hplaced.sound.nodes _ hplaced.inside).cursor, hplaced.offset_eq, h.keeps.offset hbelow,
      ← Cursor.advance_advance, ← (hs.nodes _ hbelow).cursor]
    exact hholds.2
  have hall := hplaced.sound.placeAll ht hplaced.inside hbehind hsplit.extra
  rw [hplaced.state_eq] at hall
  generalize placed.1.placeAll placed.2 state behind = new at *
  obtain ⟨hsound, hkeeps, hheads⟩ := hall.sound.settle v (show Head.node ⟨new.2, .active⟩ < _ from hall.inside)
  generalize new.1.settle t v ⟨new.2, .active⟩ = final at *
  have hkept : after.Keeps final := (hplaced.keeps.trans hall.keeps).trans hkeeps
  obtain ⟨more, hmore, hplaces⟩ := h.heads
  have hmore' (other : Head) (hother : other ∈ more) :
      other.node < final.nodes.size ∧ (final.node other.node).offset = (s.top v).offset := by
    obtain ⟨hinside, hoffset⟩ := hplaces other hother
    exact ⟨Nat.lt_of_lt_of_le hinside hkept.size, (hkept.offset hinside).trans hoffset⟩
  refine ⟨hsound, h.keeps.trans hkept, ?_⟩
  rw [hall.heads, hplaced.heads, hmore] at hheads
  obtain hheads | hheads := hheads
  · exact ⟨more, hheads, hmore'⟩
  · refine ⟨more.push ⟨new.2, .active⟩, by rw [hheads, Array.push_append], fun other hother => ?_⟩
    obtain hother | rfl := Array.mem_push.1 hother
    · exact hmore' other hother
    · refine ⟨Nat.lt_of_lt_of_le hall.inside hkeeps.size, ?_⟩
      rw [hkeeps.offset hall.inside, hall.offset_eq, hplaced.offset_eq, h.keeps.offset hbelow, Nat.add_assoc, hoffset]

theorem Sound.reduce (ht : t.IsFor ways) (h : s.Sound t ways fits origin)
    (hcomplete : ∃ tokens, (item, tokens) ∈ (s.top v).state.complete t) :
    Reduced t ways fits origin s v (s.reduce t v item) := by
  refine List.foldlRecOn (motive := Reduced t ways fits origin s v) (s.pop v (t.item item).read) _
    ⟨h, .refl s, #[], by simp, by simp⟩ fun after hafter group hgroup => ?_
  dsimp only
  split
  · exact hafter
  · split
    · next d behind state hbest hnext => exact hafter.step ht h hcomplete hgroup hbest hnext rfl
    · exact hafter

/-! ### Reading on -/

theorem Sound.setStatus (h : s.Sound t ways fits origin) (v : Nat) (status : Status) :
    (s.setStatus v status).Sound t ways fits origin := by
  refine h.setHeads fun head hhead => ?_
  obtain ⟨i, hi, rfl⟩ := Array.mem_iff_getElem.1 hhead
  have hi' : i < s.heads.size := by simpa using hi
  rw [Array.getElem_modify]
  split <;> exact h.heads s.heads[i] (Array.getElem_mem hi')

theorem Sound.shift (ht : t.IsFor ways) (h : s.Sound t ways fits origin) (hd : d.Holds t ways fits (s.top v).cursor)
    (hpasses : Passes t (s.top v).state d state) : (s.shift v d state).Sound t ways fits origin := by
  have hplaced := h.place ht (h.head_lt v) hd hpasses
    (show (s.top v).cursor.advance d.extent = _ by rw [(h.top v).cursor, Cursor.advance_advance]; rfl)
  refine hplaced.sound.setHeads fun head hhead => ?_
  obtain ⟨i, hi, rfl⟩ := Array.mem_iff_getElem.1 hhead
  rw [Array.getElem_modify]
  split
  · exact hplaced.inside
  · exact hplaced.sound.heads _ (Array.getElem_mem _)

/-! ### Condensing -/

theorem Sound.insertHead {before kept : List Head} {head : Head} (h : s.Sound t ways fits origin)
    (hbefore : ∀ other ∈ before, other.node < s.nodes.size) (hhead : head.node < s.nodes.size)
    (hkept : ∀ other ∈ kept, other.node < s.nodes.size) :
    Relinked t ways fits origin s (s.insertHead t before head kept).1 ∧
      ∀ other ∈ (s.insertHead t before head kept).2, other.node < s.nodes.size := by
  induction kept generalizing before head with
  | nil =>
    refine ⟨h.relinked, fun other hother => ?_⟩
    obtain hother | hother := mem_append.1 hother
    · exact hbefore other hother
    · exact mem_singleton.1 hother ▸ hhead
  | cons first rest ih =>
    have hfirst := hkept first mem_cons_self
    have hrest (other : Head) (hother : other ∈ rest) := hkept other (mem_cons_of_mem _ hother)
    have hbehind (next : Head) (hnext : next.node < s.nodes.size) (other : Head) (hother : other ∈ before ++ [next]) :
        other.node < s.nodes.size := by
      obtain hother | hother := mem_append.1 hother
      · exact hbefore other hother
      · exact mem_singleton.1 hother ▸ hnext
    have hall (other : Head) (hother : other ∈ before ++ first :: rest) : other.node < s.nodes.size :=
      (mem_append.1 hother).elim (hbefore other) (hkept other)
    rw [Stack.insertHead]
    split
    · split
      · next hmerge => exact ⟨h.merge hfirst hhead hmerge, hall⟩
      · split
        · exact ih (hbehind head hhead) hfirst hrest
        · exact ih (hbehind first hfirst) hhead hrest
    · exact ⟨h.relinked, hall⟩
    · exact ih hbefore hhead hrest
    · exact ih (hbehind first hfirst) hhead hrest

theorem Sound.condense (h : s.Sound t ways fits origin) : (s.condense t).Sound t ways fits origin := by
  have hkept : ∀ after : Stack × List Head,
      after = s.heads.toList.foldl
        (fun after head => if head.status = .halted then after else after.1.insertHead t [] head after.2) (s, []) →
      Relinked t ways fits origin s after.1 ∧ ∀ head ∈ after.2, head.node < after.1.nodes.size := by
    rintro _ rfl
    refine List.foldlRecOn (motive := fun after : Stack × List Head =>
      Relinked t ways fits origin s after.1 ∧ ∀ head ∈ after.2, head.node < after.1.nodes.size) s.heads.toList _
      ⟨h.relinked, fun _ hhead => absurd hhead not_mem_nil⟩ fun after hafter head hhead => ?_
    split
    · exact hafter
    · have hinside := Nat.lt_of_lt_of_le (h.heads head (Array.mem_toList_iff.1 hhead)) hafter.1.keeps.size
      obtain ⟨hlinked, hinserted⟩ := hafter.1.sound.insertHead
        (fun _ hhead => absurd hhead not_mem_nil) hinside hafter.2
      exact ⟨hafter.1.trans hlinked, fun other hother => Nat.lt_of_lt_of_le (hinserted other hother) hlinked.keeps.size⟩
  rw [Stack.condense, ← Array.foldl_toList]
  obtain ⟨hlinked, hheads⟩ := hkept _ rfl
  refine hlinked.sound.setHeads fun head hhead => hheads head ?_
  exact mem_of_mem_take (mem_toArray.1 hhead)

end Stack

end Sound

end Cartograph.Grammar
