import Mathlib.Data.List.Forall2
import Mathlib.Data.List.Nodup

/-!
# Lists

What a list and the lists made of it have to do with each other: entry by entry (`forall₂_filter_filterMap`), when two
selections are put one after the other (`filter_append_filter`), and by keys, by which a list can be sorted
(`pairwise_mergeSort_le`) and its entries be known (`getElem?_inj_of_nodup_map`). And what comes before a result
(`of_bind_eq_ok`).
-/

namespace Cartograph

open List

/-! ### Entry by entry -/

section Forall₂

variable {α β : Type} {R : α → β → Prop} {f : α → Option β} {l : List α}

/-- What a function gives for those entries of a list that it gives something for. -/
theorem forall₂_filter_filterMap {p : α → Bool}
    (hsome : ∀ a ∈ l, p a = true → ∃ b, f a = some b ∧ R a b) (hnone : ∀ a ∈ l, p a = false → f a = none) :
    Forall₂ R (l.filter p) (l.filterMap f) := by
  induction l with
  | nil => exact .nil
  | cons a l ih =>
    have hrest := ih (forall_mem_cons.1 hsome).2 (forall_mem_cons.1 hnone).2
    cases hp : p a with
    | false =>
      rw [filter_cons_of_neg (by simp [hp]), filterMap_cons_none (hnone a mem_cons_self hp)]
      exact hrest
    | true =>
      obtain ⟨b, hb, hr⟩ := hsome a mem_cons_self hp
      rw [filter_cons_of_pos hp, filterMap_cons_some hb]
      exact .cons hr hrest

theorem forall₂_filterMap : ∀ l : List α, (∀ a ∈ l, ∃ b, f a = some b ∧ R a b) → Forall₂ R l (l.filterMap f) := by
  intro l h
  have hall := forall₂_filter_filterMap (p := fun _ => true) (fun a ha _ => h a ha) fun _ _ => nofun
  rwa [filter_true] at hall

theorem forall₂_self_map {f : α → β} (h : ∀ a ∈ l, R a (f a)) : Forall₂ R l (l.map f) :=
  forall₂_map_right_iff.2 (forall₂_same.2 h)

end Forall₂

/-! ### Selections -/

variable {α β γ ε : Type} {l : List α}

/-- What has one property and what has another, if nothing with the second comes before something with the first. -/
theorem filter_append_filter {p q : α → Bool} (hdisjoint : ∀ a ∈ l, p a = true → q a = false)
    (h : l.Pairwise fun a b => q a = true → p b = false) :
    l.filter p ++ l.filter q = l.filter fun a => p a || q a := by
  induction l with
  | nil => rfl
  | cons a l ih =>
    obtain ⟨ha, hl⟩ := pairwise_cons.1 h
    have hrest := ih (forall_mem_cons.1 hdisjoint).2 hl
    cases hp : p a with
    | true =>
      have hq := hdisjoint a mem_cons_self hp
      simp [hp, hq, hrest]
    | false =>
      cases hq : q a with
      | false => simp [hp, hq, hrest]
      | true =>
        -- the first part is over here
        have hnone : l.filter p = [] := filter_eq_nil_iff.2 fun b hb => by simp [ha b hb hq]
        rw [hnone, nil_append] at hrest
        simp [hp, hq, hnone, hrest]

/-- Of pairs of a name and an entry, the entries of one name. -/
theorem map_filter_filterMap (f : α → Option String) (name : String) (l : List α) :
    ((l.filterMap fun a => (f a).map (·, a)).filter (·.1 == name)).map (·.2) = l.filter fun a => f a == some name := by
  induction l with
  | nil => rfl
  | cons a l ih =>
    cases hf : f a with
    | none => simpa [hf] using ih
    | some b =>
      by_cases hb : b = name
      · simpa [hf, hb] using ih
      · simpa [hf, hb] using ih

theorem mapM_map_eq_some {f : β → Option γ} {g : α → β} {h : α → γ} (hf : ∀ a, f (g a) = some (h a))
    (l : List α) : (l.map g).mapM f = some (l.map h) := by
  induction l with
  | nil => rfl
  | cons a l ih =>
    rw [map_cons, mapM_cons, ih, hf]
    rfl

/-! ### Keys -/

/-- Sorting by a text. -/
theorem pairwise_mergeSort_le (key : α → String) (l : List α) :
    (l.mergeSort fun a b => decide (key a ≤ key b)).Pairwise fun a b => key a ≤ key b := by
  refine Pairwise.imp of_decide_eq_true (pairwise_mergeSort (fun a b c hab hbc => ?_) (fun a b => ?_) l)
  · exact decide_eq_true (String.le_trans (of_decide_eq_true hab) (of_decide_eq_true hbc))
  · simpa using String.le_total (key a) (key b)

/-- A key that no two entries share has one place. -/
theorem getElem?_inj_of_nodup_map {key : α → β} (hnodup : (l.map key).Nodup) {i j : Nat}
    {a b : α} (ha : l[i]? = some a) (hb : l[j]? = some b) (h : key a = key b) : i = j := by
  have hkeys : (l.map key)[i]? = (l.map key)[j]? := by
    rw [getElem?_map, getElem?_map, ha, hb, Option.map_some, Option.map_some, h]
  have hlt : i < (l.map key).length := by
    rw [List.length_map]
    exact (List.getElem?_eq_some_iff.1 ha).1
  exact (List.getElem?_inj hlt hnodup).1 hkeys

/-! ### Results -/

theorem of_bind_eq_ok {x : Except ε α} {f : α → Except ε β} {b : β} (h : x >>= f = .ok b) :
    ∃ a, x = .ok a ∧ f a = .ok b := by
  cases x with
  | error e => cases h
  | ok a => exact ⟨a, rfl, h⟩

end Cartograph
