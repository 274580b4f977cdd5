import Mathlib.Data.List.Basic
import Cartograph.Proofs.Path.Segments

/-!
# Extensions

The extension of a path is what stands behind its last dot, if that dot belongs to the file name and does not open it.
So a path with an extension is a stem that ends in a name, a dot, and the extension (`extension?_eq_some_iff`).
-/

namespace Cartograph.Path

open List

variable {c : Char} {front last text : List Char} {tail extension : String}

/-- A text is taken apart at its last occurrence of a character. -/
theorem exists_eq_append_last (h : c ∈ text) : ∃ front last, text = front ++ c :: last ∧ c ∉ last := by
  obtain ⟨last, front, hreverse, hmem⟩ := eq_append_cons_of_mem (mem_reverse.2 h)
  refine ⟨front.reverse, last.reverse, ?_, by simpa using hmem⟩
  rw [← reverse_reverse text, hreverse]
  simp

theorem splitOn_append_last (h : c ∉ last) : (front ++ c :: last).splitOn c = front.splitOn c ++ [last] := by
  rw [splitOn_append_cons_self, splitOn_eq_singleton h]

/-! ### Texts behind a file name -/

theorem ofSegments_concat_append (front : List String) (name tail : String) :
    ofSegments (front ++ [name]) ++ tail = ofSegments (front ++ [name ++ tail]) := by
  have hslash : "/".toList = ['/'] := rfl
  apply String.toList_injective
  rw [String.toList_append, ofSegments, ofSegments, String.toList_intercalate, String.toList_intercalate]
  induction front with
  | nil => simp
  | cons segment front ih =>
    obtain ⟨next, rest, hrest⟩ := exists_cons_of_ne_nil (l := front ++ [name]) (by simp)
    obtain ⟨next', rest', hrest'⟩ := exists_cons_of_ne_nil (l := front ++ [name ++ tail]) (by simp)
    rw [cons_append, cons_append, map_cons, map_cons]
    rw [hrest, hrest', map_cons, map_cons] at ih ⊢
    rw [intercalate_cons_cons, intercalate_cons_cons, ← ih]
    simp

variable {path : String}

/-- What is written behind a path without a slash is written behind its last segment. -/
theorem segments_concat_append {last : String} {front : List String} (hpath : segments path = front ++ [last])
    (h : '/' ∉ tail.toList) : segments (path ++ tail) = front ++ [last ++ tail] := by
  have htext : path ++ tail = ofSegments (front ++ [last ++ tail]) := by
    rw [← ofSegments_concat_append, ← hpath, ofSegments_segments]
  have hslash : ∀ segment ∈ front ++ [last], '/' ∉ segment.toList := fun segment hsegment =>
    slash_not_mem_of_mem_segments (hpath ▸ hsegment)
  rw [htext, segments_ofSegments (by simp)]
  intro segment hsegment
  obtain hsegment | hsegment := mem_append.1 hsegment
  · exact hslash segment (mem_append_left _ hsegment)
  · rw [mem_singleton.1 hsegment, String.toList_append, mem_append, not_or]
    exact ⟨hslash last (mem_append_right _ mem_cons_self), h⟩

theorem fileName_append (h : '/' ∉ tail.toList) (path : String) : fileName (path ++ tail) = fileName path ++ tail := by
  obtain ⟨front, hsegments⟩ := exists_segments_eq path
  rw [fileName, segments_concat_append hsegments h]
  simp

/-! ### Extensions of names -/

/-- The extension of a path, by its file name. -/
theorem extension?_of_fileName (h : (fileName path).toList = front ++ '.' :: last)
    (hlast : '.' ∉ last) : extension? path = if front = [] then none else some (String.ofList last) := by
  rw [extension?, h, splitOn_append_last hlast, reverse_concat]
  have hne : (front.splitOn '.').reverse ≠ [] := by simp
  have hempty : (front.splitOn '.').reverse = [[]] ↔ front = [] := by
    rw [reverse_eq_iff]
    refine ⟨fun hsplit => ?_, fun hfront => by rw [hfront]; rfl⟩
    have hjoined : front = ['.'].intercalate (front.splitOn '.') := (intercalate_splitOn '.').symm
    rw [hjoined, hsplit]
    rfl
  simp only [hne, false_or, hempty]

theorem extension?_eq_none_of_fileName (h : '.' ∉ (fileName path).toList) : extension? path = none := by
  rw [extension?, splitOn_eq_singleton h]
  rfl

/-- **A path with an extension** is a stem that ends in a name, a dot, and the extension. -/
theorem extension?_eq_some_iff : extension? path = some extension ↔
      ∃ stem, fileName stem ≠ "" ∧ path = stem ++ "." ++ extension ∧ '.' ∉ extension.toList ∧
        '/' ∉ extension.toList := by
  constructor
  · intro h
    by_cases hdot : '.' ∈ (fileName path).toList
    · obtain ⟨pre, last, hname, hlast⟩ := exists_eq_append_last hdot
      rw [extension?_of_fileName hname hlast] at h
      split at h
      · cases h
      · next hpre =>
        obtain rfl : String.ofList last = extension := Option.some.inj h
        obtain ⟨front, hsegments⟩ := exists_segments_eq path
        have hslash : ∀ s ∈ front ++ [fileName path], '/' ∉ s.toList := fun s hs =>
          slash_not_mem_of_mem_segments (hsegments ▸ hs)
        have hfile : fileName path = String.ofList pre ++ ("." ++ String.ofList last) := by
          apply String.toList_injective
          rw [hname]
          simp
        have hchars : '/' ∉ pre ∧ '/' ∉ last := by
          have hmem := hslash _ (mem_append_right _ mem_cons_self)
          rw [hname] at hmem
          simpa using hmem
        refine ⟨ofSegments (front ++ [String.ofList pre]), ?_, ?_, by simpa using hlast, by simpa using hchars.2⟩
        · rw [fileName_ofSegments]
          · simpa using hpre
          · intro s hs
            obtain hs | hs := mem_append.1 hs
            · exact hslash s (mem_append_left _ hs)
            · rw [mem_singleton.1 hs]
              simpa using hchars.1
        · rw [String.append_assoc, ofSegments_concat_append, ← hfile, ← hsegments, ofSegments_segments]
    · rw [extension?_eq_none_of_fileName hdot] at h
      cases h
  · rintro ⟨stem, hstem, rfl, hdot, hslash⟩
    have hname : (fileName (stem ++ "." ++ extension)).toList = (fileName stem).toList ++ '.' :: extension.toList := by
      rw [String.append_assoc, fileName_append]
      · simp
      · simpa using hslash
    rw [extension?_of_fileName hname hdot, if_neg (by simpa using hstem), String.ofList_toList]

end Cartograph.Path
