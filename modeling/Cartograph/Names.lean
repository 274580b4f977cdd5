/-!
# Sets of names

A set of names is a strictly ascending list of texts, ordered by code point. The order is part of the
type, so a set has one form: equal sets are equal values, and listing a set is sorting it.
-/

namespace Cartograph

structure Names where
  toList : List String
  ascending : toList.Pairwise (· < ·)

namespace Names

theorem ext {a b : Names} (h : a.toList = b.toList) : a = b := by
  cases a; cases b; cases h; rfl

instance : DecidableEq Names := fun a b =>
  decidable_of_iff (a.toList = b.toList) ⟨ext, fun h => h ▸ rfl⟩

instance : Repr Names := ⟨fun n p => reprPrec n.toList p⟩

def empty : Names := ⟨[], .nil⟩

instance : Inhabited Names := ⟨empty⟩

def contains (n : Names) (name : String) : Bool := n.toList.contains name

def insertInto (name : String) : List String → List String
  | [] => [name]
  | a :: rest =>
    if name < a then name :: a :: rest
    else if name = a then a :: rest
    else a :: insertInto name rest

theorem mem_insertInto {name b : String} {l : List String} :
    b ∈ insertInto name l ↔ b = name ∨ b ∈ l := by
  induction l with
  | nil => simp [insertInto]
  | cons a rest ih =>
    simp only [insertInto]
    split
    · simp
    · split
      · simp_all
      · simp only [List.mem_cons, ih]
        constructor <;> rintro (h | h | h) <;> simp [h]

theorem pairwise_insertInto {name : String} {l : List String} (h : l.Pairwise (· < ·)) :
    (insertInto name l).Pairwise (· < ·) := by
  induction l with
  | nil => simp [insertInto]
  | cons a rest ih =>
    rw [List.pairwise_cons] at h
    simp only [insertInto]
    split
    · rename_i hlt
      refine List.pairwise_cons.2 ⟨?_, List.pairwise_cons.2 h⟩
      rintro b (_ | ⟨_, hb⟩)
      · exact hlt
      · exact String.lt_trans hlt (h.1 b hb)
    · rename_i hge
      split
      · exact List.pairwise_cons.2 h
      · rename_i hne
        refine List.pairwise_cons.2 ⟨?_, ih h.2⟩
        intro b hb
        rcases mem_insertInto.1 hb with rfl | hb
        · by_cases hab : a < b
          · exact hab
          · exact absurd (String.le_antisymm (String.not_lt.1 hab) (String.not_lt.1 hge)) hne
        · exact h.1 b hb

def insert (n : Names) (name : String) : Names :=
  ⟨insertInto name n.toList, pairwise_insertInto n.ascending⟩

def ofList (names : List String) : Names := names.foldl insert empty

theorem mem_ofList {name : String} {l : List String} : name ∈ (ofList l).toList ↔ name ∈ l := by
  have hfold : ∀ (l : List String) (n : Names), name ∈ (l.foldl insert n).toList ↔ name ∈ n.toList ∨ name ∈ l := by
    intro l
    induction l with
    | nil => simp
    | cons a l ih =>
      intro n
      rw [List.foldl_cons, ih, insert, mem_insertInto, List.mem_cons, or_assoc, or_left_comm]
  rw [ofList, hfold]
  simp [empty]

theorem nodup (n : Names) : n.toList.Nodup := by
  refine n.ascending.imp ?_
  rintro a b hlt rfl
  exact String.lt_irrefl a hlt

theorem ext_mem {a b : Names} (h : ∀ name, name ∈ a.toList ↔ name ∈ b.toList) : a = b := by
  refine ext (List.Perm.eq_of_pairwise (fun x y _ _ hxy hyx => ?_) a.ascending b.ascending ?_)
  · exact absurd hyx (String.lt_asymm hxy)
  · exact (List.perm_ext_iff_of_nodup a.nodup b.nodup).2 h

end Names

end Cartograph
