import Cartograph.Proofs.Path.Normalization

/-!
# Containment of paths

A path lies in a directory if its names start with those of the directory (`LiesIn`). Of canonical paths, this is what
`isWithin` decides on their texts (`isWithin_iff`): a name that only starts as the directory's name does not count,
because the text of the directory is to end at a slash. The directories that a path lies in are in a row, each lying in
the ones before it, and they get longer as texts exactly as they get more names (`LiesIn.utf8ByteSize_le_iff`).
-/

namespace Cartograph.Path

open List

/-- A path is a directory or is somewhere below it. -/
def LiesIn (path dir : String) : Prop := dirNames dir <+: dirNames path

instance (path dir : String) : Decidable (LiesIn path dir) := inferInstanceAs (Decidable (_ <+: _))

/-! ### The names of canonical paths -/

@[simp] theorem dirNames_empty : dirNames "" = [] := by rw [dirNames, segments_empty]; rfl

variable {path a b dir name : String}

theorem dirNames_eq_segments (h : IsCanonical path) (hne : path ≠ "") : dirNames path = segments path := by
  rw [dirNames, filter_eq_self]
  intro s hs
  have hs := (h.resolve_left hne) s hs
  rw [isOrdinary, Bool.and_eq_true, Bool.and_eq_true] at hs
  exact hs.1.1

theorem dirNames_injective (ha : IsCanonical a) (hb : IsCanonical b) (h : dirNames a = dirNames b) : a = b := by
  by_cases hae : a = ""
  · by_cases hbe : b = ""
    · rw [hae, hbe]
    · rw [hae, dirNames_empty, dirNames_eq_segments hb hbe] at h
      exact absurd h.symm (segments_ne_nil b)
  · by_cases hbe : b = ""
    · rw [hbe, dirNames_empty, dirNames_eq_segments ha hae] at h
      exact absurd h (segments_ne_nil a)
    · rw [dirNames_eq_segments ha hae, dirNames_eq_segments hb hbe] at h
      exact segments_injective h

/-! ### Containment as text -/

/-- Below a directory comes a slash. -/
theorem isPrefixOf_iff : (dir ++ "/").toList.isPrefixOf path.toList = true ↔ ∃ tail, path = dir ++ "/" ++ tail := by
  have htext : ∀ tail, (dir ++ "/" ++ tail).toList = (dir ++ "/").toList ++ tail.toList := fun tail =>
    String.toList_append
  rw [ isPrefixOf_iff_prefix]
  constructor
  · rintro ⟨rest, hrest⟩
    refine ⟨String.ofList rest, String.toList_injective ?_⟩
    rw [htext, String.toList_ofList, hrest]
  · rintro ⟨tail, rfl⟩
    rw [htext]
    exact prefix_append _ _

theorem isWithin_cases : isWithin path dir = true ↔ dir = "" ∨ path = dir ∨ ∃ tail, path = dir ++ "/" ++ tail := by
  rw [isWithin, Bool.or_eq_true, Bool.or_eq_true, beq_iff_eq, beq_iff_eq, isPrefixOf_iff, or_assoc]

/-- **Containment is decided on the text.** -/
theorem isWithin_iff (hpath : IsCanonical path) (hdir : IsCanonical dir) :
    isWithin path dir = true ↔ LiesIn path dir := by
  rw [isWithin_cases, LiesIn]
  by_cases hempty : dir = ""
  · subst hempty
    simp
  rw [dirNames_eq_segments hdir hempty]
  constructor
  · rintro (h | rfl | ⟨tail, rfl⟩)
    · exact absurd h hempty
    · rw [dirNames_eq_segments hdir hempty]
    · rw [dirNames_eq_segments hpath (by simp [hempty]), segments_append]
      exact prefix_append _ _
  · intro h
    -- the directory has a name, so the path has one
    have hne : path ≠ "" := by
      rintro rfl
      rw [dirNames_empty, prefix_nil] at h
      exact segments_ne_nil dir h
    rw [dirNames_eq_segments hpath hne] at h
    obtain ⟨rest, hrest⟩ := h
    -- either no name is left, or the others come behind a slash
    by_cases hlast : rest = []
    · rw [hlast, append_nil] at hrest
      exact .inr (.inl (segments_injective hrest.symm))
    · refine .inr (.inr ⟨ofSegments rest, segments_injective ?_⟩)
      have hslash : ∀ s ∈ rest, '/' ∉ s.toList := fun s hs =>
        slash_not_mem_of_mem_segments (hrest ▸ mem_append_right _ hs)
      rw [segments_append, segments_ofSegments hlast hslash, hrest]

example : LiesIn "packages/core/a.ts" "packages/core" ∧ ¬LiesIn "packages/core-utils/a.ts" "packages/core" := by decide

/-! ### Longer directories -/

/-- **What lies in a directory is longer.** -/
theorem LiesIn.utf8ByteSize_lt (hpath : IsCanonical path) (hdir : IsCanonical dir) (h : LiesIn path dir)
    (hne : path ≠ dir) : dir.utf8ByteSize < path.utf8ByteSize := by
  obtain rfl | heq | ⟨tail, rfl⟩ := isWithin_cases.1 ((isWithin_iff hpath hdir).2 h)
  · exact Nat.pos_of_ne_zero fun hzero => hne (String.utf8ByteSize_eq_zero_iff.1 hzero)
  · exact absurd heq hne
  · have hslash : "/".utf8ByteSize = 1 := rfl
    rw [String.utf8ByteSize_append, String.utf8ByteSize_append]
    omega

/-- Of two directories that a path lies in, the one with fewer names holds the other. -/
theorem LiesIn.of_length_le (ha : LiesIn path a) (hb : LiesIn path b) (h : (dirNames a).length ≤ (dirNames b).length) :
    LiesIn b a :=
  prefix_of_prefix_length_le ha hb h

/-- **Of two directories that a path lies in**, the longer text has more names. -/
theorem LiesIn.utf8ByteSize_le_iff (hca : IsCanonical a) (hcb : IsCanonical b) (ha : LiesIn path a)
    (hb : LiesIn path b) : a.utf8ByteSize ≤ b.utf8ByteSize ↔ (dirNames a).length ≤ (dirNames b).length := by
  constructor
  · intro hsize
    -- with fewer names, the second would hold the first and be shorter
    by_contra hlength
    have hlength : (dirNames b).length < (dirNames a).length := Nat.lt_of_not_le hlength
    have hne : a ≠ b := fun heq => Nat.lt_irrefl _ (heq ▸ hlength)
    have hlt := (hb.of_length_le ha (Nat.le_of_lt hlength)).utf8ByteSize_lt hca hcb hne
    exact Nat.not_le_of_lt hlt hsize
  · intro hlength
    by_cases hne : b = a
    · rw [hne]
    · exact Nat.le_of_lt ((ha.of_length_le hb hlength).utf8ByteSize_lt hcb hca hne)

/-! ### Files of a directory -/

theorem parent_append (dir : String) (hname : '/' ∉ name.toList) : parent (dir ++ "/" ++ name) = dir := by
  rw [parent, segments_append, segments_eq_singleton hname, dropLast_concat]
  split
  · next h => exact absurd h (segments_ne_nil dir)
  · exact ofSegments_segments dir

/-- **The file of a name in a directory** is the canonical path with this name and this directory. -/
theorem join_eq_iff (hpath : IsCanonical path) (hname : '/' ∉ name.toList) (hne : name ≠ "") :
    join dir name = path ↔ fileName path = name ∧ parent path = dir := by
  have hsegments := segments_eq_singleton hname
  constructor
  · rintro rfl
    by_cases hdir : dir = ""
    · rw [join, if_pos hdir, fileName, parent, hsegments, hdir]
      exact ⟨rfl, rfl⟩
    · rw [join, if_neg hdir, if_neg hne, parent_append dir hname, fileName, segments_append, hsegments,
        getLastD_concat]
      exact ⟨rfl, rfl⟩
  · rintro ⟨rfl, rfl⟩
    refine join_parent (hpath.resolve_left ?_)
    rintro rfl
    exact hne (by decide)

theorem isCanonical_parent (h : IsCanonical path) : IsCanonical (parent path) := by
  rw [parent]
  split
  · exact .inl rfl
  · next front hfront =>
    refine .inr ?_
    have hordinary : ∀ s ∈ segments path, isOrdinary s = true := by
      refine h.resolve_left ?_
      rintro rfl
      exact hfront rfl
    rw [segments_ofSegments (fun hnil => hfront hnil) fun s hs =>
      slash_not_mem_of_mem_segments (mem_of_mem_dropLast hs)]
    exact fun s hs => hordinary s (mem_of_mem_dropLast hs)

end Cartograph.Path
