import Mathlib.Data.List.Lex
import Mathlib.Data.Prod.Lex
import Mathlib.Data.String.Basic
import Mathlib.Order.Compare
import Cartograph.Diagnostic.Order
import Cartograph.Proofs.Path.Segments

/-!
# Sorted findings

The order of reports is a linear order of what it looks at (`Diagnostic.sortKey`): it compares components of paths in
the lexicographic order, and the parts of findings one after the other. Sorting by it is stable, so leaving findings out
before and after sorting comes to the same (`Diagnostic.sort_filter`).

The order looks at the place, the code and the message of a finding; so it may leave two findings undecided
(`Diagnostic.Tied`) that differ in their evidence or in their hint. Where it does not, the sorted list is the same for
every order in which the findings came in (`Diagnostic.Distinguished.sort_eq_of_perm`). Lists with different codes can
be put together (`Diagnostic.Distinguished.append`).
-/

namespace Cartograph

open List

variable {α : Type}

/-! ### Stable sorting -/

/-- A list falls apart in one way into items without a property and items with it. -/
theorem eq_of_append_eq {p : α → Bool} {a b c d : List α} (h : a ++ b = c ++ d)
    (ha : ∀ x ∈ a, p x = false) (hb : ∀ x ∈ b, p x = true) (hc : ∀ x ∈ c, p x = false) (hd : ∀ x ∈ d, p x = true) :
    a = c ∧ b = d := by
  -- the items with the property, and those without it, are what a filter leaves
  have hfront {l m : List α} (hl : ∀ x ∈ l, p x = false) (hm : ∀ x ∈ m, p x = true) : (l ++ m).filter (!p ·) = l := by
    rw [filter_append, filter_eq_self.2 (by simpa using hl), filter_eq_nil_iff.2 (by simpa using hm), append_nil]
  have hacd : a = c := by rw [← hfront ha hb, h, hfront hc hd]
  subst hacd
  exact ⟨rfl, append_cancel_left h⟩

/-- **Leaving items out commutes with sorting.** -/
theorem mergeSort_filter {le : α → α → Bool} (htrans : ∀ a b c, le a b → le b c → le a c)
    (htotal : ∀ a b, le a b || le b a) (keep : α → Bool) (l : List α) :
    (l.filter keep).mergeSort le = (l.mergeSort le).filter keep := by
  induction l with
  | nil => simp
  | cons a l ih =>
    -- the first item stands behind all that are smaller, in both lists
    obtain ⟨front, back, hsorted, hrest, hfront⟩ := mergeSort_cons htrans htotal a l
    rw [hrest] at ih
    have hpairwise := pairwise_mergeSort htrans htotal (a :: l)
    rw [hsorted] at hpairwise
    have hback : ∀ b ∈ back, le a b = true := by
      have := (pairwise_append.1 hpairwise).2.1
      exact (pairwise_cons.1 this).1
    rw [hsorted, filter_append, filter_cons]
    by_cases ha : keep a = true
    · rw [filter_cons_of_pos ha, if_pos ha]
      obtain ⟨front', back', hsorted', hrest', hfront'⟩ := mergeSort_cons htrans htotal a (l.filter keep)
      have hpairwise' := pairwise_mergeSort htrans htotal (a :: l.filter keep)
      rw [hsorted'] at hpairwise'
      have hback' : ∀ b ∈ back', le a b = true := by
        have := (pairwise_append.1 hpairwise').2.1
        exact (pairwise_cons.1 this).1
      rw [hrest', filter_append] at ih
      obtain ⟨rfl, rfl⟩ := eq_of_append_eq (p := le a) ih (fun b hb => by simpa using hfront' b hb) hback'
        (fun b hb => by simpa using hfront b (mem_filter.1 hb).1)
        (fun b hb => hback b (mem_filter.1 hb).1)
      exact hsorted'
    · rw [filter_cons_of_neg ha, if_neg ha, ih, filter_append]

/-! ### Lexicographic orders -/

section Lex

variable {α β : Type} [LinearOrder α] [LinearOrder β] {first second : Ordering} {a b : α}

/-- Pairs are compared part by part. -/
theorem compares_then {c d : β} (h : first.Compares a b) (h' : second.Compares c d) :
    (first.then second).Compares (toLex (a, c)) (toLex (b, d)) := by
  cases first <;> cases second <;> simp_all [Prod.Lex.toLex_lt_toLex]

/-- Lists are compared item by item. -/
theorem compares_cons {l m : List α} (h : first.Compares a b) (h' : second.Compares l m) :
    (first.then second).Compares (a :: l) (b :: m) := by
  cases first <;> cases second <;> simp_all [cons_lt_cons_iff]

theorem compares_compare (a b : α) : (Ord.compare a b).Compares a b := (compare_iff a b).1 rfl

end Lex

/-! ### The order of paths -/

namespace Path

/-- A component as what it is sorted by: its kind and its name. -/
def Component.sortKey (c : Component) : Nat ×ₗ String := toLex (c.rank, Spelling.Component.text c)

theorem Component.compares (a b : Component) : (a.cmp b).Compares a.sortKey b.sortKey := by
  have hcmp : a.cmp b =
      (Ord.compare a.rank b.rank).then (Ord.compare (Spelling.Component.text a) (Spelling.Component.text b)) := by
    cases a <;> cases b <;> rfl
  rw [hcmp]
  exact compares_then (compares_compare _ _) (compares_compare _ _)

theorem Component.sortKey_injective : Function.Injective Component.sortKey := by
  intro a b h
  cases a <;> cases b <;> simp_all [Component.sortKey, Component.rank, Spelling.Component.text]

/-- Paths are compared component by component. -/
theorem compares_components (a b : List Component) :
    (compareComponents a b).Compares (a.map Component.sortKey) (b.map Component.sortKey) := by
  induction a generalizing b with
  | nil =>
    cases b with
    | nil => exact rfl
    | cons y b => exact nil_lt_cons y.sortKey _
  | cons x a ih =>
    cases b with
    | nil => exact nil_lt_cons x.sortKey _
    | cons y b => exact compares_cons (x.compares y) (ih b)

theorem components_of_isOrdinary {path : String} (h : ∀ s ∈ segments path, isOrdinary s = true) :
    components path = (segments path).map .name := by
  have hinner : (segments path).filterMap component? = (segments path).map .name := by
    rw [← filterMap_eq_map]
    exact filterMap_congr fun s hs => component?_of_isOrdinary (h s hs)
  rw [components, hinner]
  split
  · next hsegments => exact absurd (h "" (hsegments ▸ mem_cons_self)) (by decide)
  · next hsegments => exact absurd (h "." (hsegments ▸ mem_cons_self)) (by decide)
  · rfl

/-- **Canonical paths are told apart** by their components. -/
theorem eq_of_compare_eq {a b : String} (ha : IsCanonical a) (hb : IsCanonical b) (h : compare a b = .eq) : a = b := by
  have hcomponents : components a = components b :=
    map_injective_iff.2 Component.sortKey_injective ((compares_components _ _).eq_eq.1 h)
  have hempty : components "" = [] := by decide
  have hne : ∀ path, (segments path).map Component.name ≠ [] := by simp
  obtain rfl | ha := ha
  · obtain rfl | hb := hb
    · rfl
    · rw [hempty, components_of_isOrdinary hb] at hcomponents
      exact absurd hcomponents.symm (hne b)
  · obtain rfl | hb := hb
    · rw [hempty, components_of_isOrdinary ha] at hcomponents
      exact absurd hcomponents (hne a)
    · rw [components_of_isOrdinary ha, components_of_isOrdinary hb] at hcomponents
      apply segments_injective
      exact map_injective_iff.2 (fun _ _ hname => Component.name.inj hname) hcomponents

end Path

/-! ### The order of reports -/

namespace Diagnostic

variable {d e : Diagnostic}

/-- What findings are sorted by: the category, the file, component by component, the line, the column, the code and the
message. -/
def sortKey (d : Diagnostic) : Nat ×ₗ List (Nat ×ₗ String) ×ₗ Nat ×ₗ Nat ×ₗ String ×ₗ String :=
  toLex (d.category.rank, toLex ((Path.components d.location.file).map Path.Component.sortKey,
    toLex (d.location.line, toLex (d.location.column, toLex (d.code, d.message)))))

theorem compares_sortKey (d e : Diagnostic) : (compare d e).Compares d.sortKey e.sortKey :=
  compares_then (compares_compare _ _) <| compares_then (Path.compares_components _ _) <|
    compares_then (compares_compare _ _) <| compares_then (compares_compare _ _) <|
      compares_then (compares_compare _ _) (compares_compare _ _)

theorem isLE_compare_iff : (compare d e).isLE = true ↔ d.sortKey ≤ e.sortKey := by
  rw [← (compares_sortKey d e).ne_gt, ne_eq, Ordering.ne_gt_iff_isLE]

theorem isLE_trans (a b c : Diagnostic) :
    (compare a b).isLE = true → (compare b c).isLE = true → (compare a c).isLE = true := by
  simp only [isLE_compare_iff]
  exact le_trans

theorem isLE_total (a b : Diagnostic) : ((compare a b).isLE || (compare b a).isLE) = true := by
  simp only [Bool.or_eq_true, isLE_compare_iff]
  exact le_total _ _

/-- **Leaving findings out commutes with sorting them.** -/
theorem sort_filter (keep : Diagnostic → Bool) (l : List Diagnostic) :
    sort (l.filter keep) = (sort l).filter keep :=
  mergeSort_filter isLE_trans isLE_total keep l

/-! ### Findings that the order tells apart -/

/-- Two findings that agree in the place, the code and the message. -/
structure Tied (d e : Diagnostic) : Prop where
  file : Path.compare d.location.file e.location.file = .eq
  line : d.location.line = e.location.line
  column : d.location.column = e.location.column
  code : d.code = e.code
  message : d.message = e.message

/-- The order leaves only such findings undecided. -/
theorem tied_of_compare_eq (h : compare d e = .eq) : Tied d e := by
  simp only [compare, Ordering.then_eq_eq, Std.compare_eq_iff_eq] at h
  obtain ⟨-, hfile, hline, hcolumn, hcode, hmessage⟩ := h
  exact ⟨hfile, hline, hcolumn, hcode, hmessage⟩

/-- Findings with some of the given codes, no two of which the order leaves undecided. -/
structure Distinguished (codes : List String) (l : List Diagnostic) : Prop where
  code : ∀ d ∈ l, d.code ∈ codes
  eq_of_tied : ∀ d ∈ l, ∀ e ∈ l, Tied d e → d = e

namespace Distinguished

variable {codes others : List String} {l m : List Diagnostic}

theorem nil : Distinguished codes [] := ⟨nofun, nofun⟩

theorem subset (h : Distinguished codes l) (hsub : m ⊆ l) : Distinguished codes m where
  code d hd := h.code d (hsub hd)
  eq_of_tied d hd e he := h.eq_of_tied d (hsub hd) e (hsub he)

/-- Findings with different codes are told apart. -/
theorem append (hl : Distinguished codes l) (hm : Distinguished others m)
    (hcodes : ∀ code ∈ codes, code ∉ others) :
    Distinguished (codes ++ others) (l ++ m) where
  code d hd := by
    obtain hd | hd := mem_append.1 hd
    · exact mem_append_left others (hl.code d hd)
    · exact mem_append_right codes (hm.code d hd)
  eq_of_tied d hd e he h := by
    obtain hd | hd := mem_append.1 hd
    · obtain he | he := mem_append.1 he
      · exact hl.eq_of_tied d hd e he h
      · exact absurd (h.code ▸ hm.code e he) (hcodes _ (hl.code d hd))
    · obtain he | he := mem_append.1 he
      · exact absurd (h.code ▸ hm.code d hd) (hcodes _ (hl.code e he))
      · exact hm.eq_of_tied d hd e he h

/-- Findings that differ at most in the place and the message are told apart, as long as their files are. -/
theorem of_alike {code : String} (hcode : ∀ d ∈ l, d.code = code)
    (halike : ∀ d ∈ l, ∀ e ∈ l, d = { e with location := d.location, message := d.message } ∧
      (Path.compare d.location.file e.location.file = .eq → d.location.file = e.location.file)) :
    Distinguished [code] l where
  code d hd := by
    rw [hcode d hd]
    exact mem_singleton_self code
  eq_of_tied d hd e he h := by
    obtain ⟨heq, hfile⟩ := halike d hd e he
    have hlocation : d.location = e.location := by
      have hsame := hfile h.file
      have hline := h.line
      have hcolumn := h.column
      cases hd' : d.location
      cases he' : e.location
      rw [hd', he'] at hsame hline hcolumn
      exact Location.mk.injEq .. ▸ ⟨hsame, hline, hcolumn⟩
    rw [heq, hlocation, h.message]

/-- **Sorting forgets the order** in which findings came in that are told apart. -/
theorem sort_eq_of_perm (h : Distinguished codes l) (hperm : m.Perm l) : sort m = sort l := by
  have hsorted : (sort m).Perm (sort l) :=
    calc sort m
      _ |>.Perm m := mergeSort_perm m _
      _ |>.Perm l := hperm
      _ |>.Perm (sort l) := (mergeSort_perm l _).symm
  refine hsorted.eq_of_pairwise (fun d e hd he hde hed => ?_) (pairwise_mergeSort isLE_trans isLE_total m)
    (pairwise_mergeSort isLE_trans isLE_total l)
  have hcompare : compare d e = .eq :=
    (compares_sortKey d e).eq_eq.2 (le_antisymm (isLE_compare_iff.1 hde) (isLE_compare_iff.1 hed))
  refine h.eq_of_tied d ?_ e ?_ (tied_of_compare_eq hcompare)
  · exact hperm.mem_iff.1 (mem_mergeSort.1 hd)
  · exact mem_mergeSort.1 he

end Distinguished

end Diagnostic

end Cartograph
