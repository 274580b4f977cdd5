import Cartograph.Path.Spelling

/-!
# Segments and names

A path and the list of its segments determine each other (`segments_ofSegments`, `ofSegments_segments`), and
segments of a path below a directory are those of the directory and those of the path (`segments_append`).
A path with an extension ends in a name, and the extension is that of the name (`name?_of_extension?`).
-/

namespace Cartograph.Path

open List Spelling

variable {c : Char} {l : List String} {name base extension : String}

/-! ### Segments -/

theorem not_mem_of_mem_splitOn {text piece : List Char} (h : piece ∈ text.splitOn c) : c ∉ piece := by
  induction text generalizing piece with
  | nil =>
    rw [splitOn_nil, mem_singleton] at h
    rw [h]
    exact not_mem_nil
  | cons d text ih =>
    rw [splitOn_cons_eq_if_modifyHead] at h
    split at h
    · obtain rfl | h := mem_cons.1 h
      · exact not_mem_nil
      · exact ih h
    · next hd =>
      -- the character belongs to the first piece
      obtain ⟨first, rest, hpieces⟩ := exists_cons_of_ne_nil (splitOn_ne_nil c text)
      rw [hpieces] at ih h
      obtain rfl | h := mem_cons.1 h
      · intro hc
        obtain rfl | hc := mem_cons.1 hc
        · simp at hd
        · exact ih mem_cons_self hc
      · exact ih (mem_cons_of_mem first h)

variable {path segment a b last : String} {rest front : List String}

theorem slash_not_mem_of_mem_segments (h : segment ∈ segments path) : '/' ∉ segment.toList := by
  obtain ⟨piece, hpiece, rfl⟩ := mem_map.1 h
  rw [String.toList_ofList]
  exact not_mem_of_mem_splitOn hpiece

@[simp] theorem segments_ne_nil (path : String) : segments path ≠ [] := by
  simp [segments]

/-- **A path has the segments that it was made of.** -/
theorem segments_ofSegments (hne : l ≠ []) (h : ∀ s ∈ l, '/' ∉ s.toList) : segments (ofSegments l) = l := by
  have hslash : "/".toList = ['/'] := rfl
  rw [segments, ofSegments, String.toList_intercalate, hslash, splitOn_intercalate]
  · simp
  · intro piece hpiece
    obtain ⟨s, hs, rfl⟩ := mem_map.1 hpiece
    exact h s hs
  · simpa using hne

/-- **A path is made of its segments.** -/
theorem ofSegments_segments (path : String) : ofSegments (segments path) = path := by
  have hslash : "/".toList = ['/'] := rfl
  apply String.toList_injective
  rw [ofSegments, String.toList_intercalate, hslash, segments, map_map]
  have hid : (String.toList ∘ String.ofList) = id := by funext l; simp
  rw [hid, map_id, intercalate_splitOn]

theorem segments_injective (h : segments a = segments b) : a = b := by
  rw [← ofSegments_segments a, h, ofSegments_segments]

theorem segments_append (dir tail : String) : segments (dir ++ "/" ++ tail) = segments dir ++ segments tail := by
  have hchars : (dir ++ "/" ++ tail).toList = dir.toList ++ '/' :: tail.toList := by simp
  rw [segments, hchars, splitOn_append_cons_self, map_append]
  rfl

theorem segments_eq_singleton (h : '/' ∉ name.toList) : segments name = [name] := by
  rw [segments, splitOn_eq_singleton h]
  simp

@[simp] theorem segments_empty : segments "" = [""] := by decide

/-- A path has no characters but those of its segments and slashes. -/
theorem not_mem_ofSegments (hc : c ≠ '/') (h : ∀ s ∈ l, c ∉ s.toList) : c ∉ (ofSegments l).toList := by
  have hslash : "/".toList = ['/'] := rfl
  rw [ofSegments, String.toList_intercalate, hslash]
  induction l with
  | nil => exact not_mem_nil
  | cons s l ih =>
    have hs := h s mem_cons_self
    have hl := ih (forall_mem_cons.1 h).2
    cases l with
    | nil => simpa using hs
    | cons t l =>
      rw [map_cons] at hl
      simp [hs, hc, hl]

/-- The characters of a segment are characters of the path. -/
theorem mem_of_mem_segments (h : segment ∈ segments path) (hc : c ∈ segment.toList) : c ∈ path.toList := by
  have hslash : "/".toList = ['/'] := rfl
  rw [← ofSegments_segments path, ofSegments, String.toList_intercalate]
  generalize segments path = l at h
  induction l with
  | nil => cases h
  | cons s l ih =>
    cases l with
    | nil => simpa [mem_singleton.1 h] using hc
    | cons t l =>
      rw [map_cons, map_cons, intercalate_cons_cons, mem_append]
      obtain rfl | h := mem_cons.1 h
      · exact .inl (mem_append_left _ hc)
      · exact .inr (ih h)

/-! ### Paths below a directory -/

/-- A text that ends in a slash, and what stands in front of it. -/
theorem exists_eq_append_slash (h : base.toList.getLast? = some '/') : ∃ front, base = front ++ "/" := by
  obtain ⟨cs, hcs⟩ := getLast?_eq_some_iff.1 h
  refine ⟨String.ofList cs, String.toList_injective ?_⟩
  rw [hcs]
  simp

/-- The segments of a directory in front of another path. -/
def Spelling.frontSegments (base : String) : List String :=
  if base = "" then [] else if base.toList.getLast? = some '/' then (segments base).dropLast else segments base

/-- Apart from an empty segment behind a slash at its end, a directory has the segments that it has in front of
another path. -/
theorem segments_eq_frontSegments (hbase : base ≠ "") : ∃ idle : List String, (∀ segment ∈ idle, segment = "") ∧
      segments base = frontSegments base ++ idle := by
  rw [frontSegments, if_neg hbase]
  split
  · next hslash =>
    obtain ⟨front, rfl⟩ := exists_eq_append_slash hslash
    refine ⟨[""], by simp, ?_⟩
    rw [← String.append_empty (s := front ++ "/"), segments_append, segments_empty, dropLast_concat]
  · exact ⟨[], by simp, (append_nil _).symm⟩

/-- **A path below a directory has the segments of both.** -/
theorem segments_under (base : String) (h : isAbsolute path = false) :
    segments (under base path) = frontSegments base ++ segments path := by
  by_cases hempty : base = ""
  · simp [under, frontSegments, hempty]
  by_cases hslash : base.toList.getLast? = some '/'
  · obtain ⟨front, rfl⟩ := exists_eq_append_slash hslash
    have hfront : segments (front ++ "/") = segments front ++ [""] := by
      rw [← String.append_empty (s := front ++ "/"), segments_append, segments_empty]
    have hunder : under (front ++ "/") path = front ++ "/" ++ path := by
      rw [under, if_neg (by simp [h, hempty]), if_pos (by simp)]
    rw [hunder, segments_append, frontSegments, if_neg hempty, if_pos hslash, hfront, dropLast_concat]
  · have hunder : under base path = base ++ "/" ++ path := by
      rw [under, if_neg (by simp [h, hempty]), if_neg (by simpa using hslash)]
    rw [hunder, segments_append, frontSegments, if_neg hempty, if_neg hslash]

theorem isAbsolute_eq_false (h : segments path = name :: rest) (hname : name ≠ "") : isAbsolute path = false := by
  rw [isAbsolute, beq_eq_false_iff_ne]
  intro hhead
  obtain ⟨cs, hcs⟩ := head?_eq_some_iff.1 hhead
  have hpath : path = "" ++ "/" ++ String.ofList cs := String.toList_injective (by rw [hcs]; simp)
  rw [hpath, segments_append] at h
  exact hname (List.cons.inj h).1.symm

/-! ### Names and extensions -/

/-- The file name is the last segment. -/
theorem exists_segments_eq (path : String) : ∃ front, segments path = front ++ [fileName path] := by
  refine ⟨(segments path).dropLast, ?_⟩
  rw [fileName, getLastD_eq_getLast?, getLast?_eq_some_getLast (segments_ne_nil path),
    Option.getD_some, dropLast_concat_getLast]

theorem fileName_ofSegments (h : ∀ s ∈ front ++ [last], '/' ∉ s.toList) :
    fileName (ofSegments (front ++ [last])) = last := by
  rw [fileName, segments_ofSegments (by simp) h, getLastD_concat]

theorem segments_fileName (path : String) : segments (fileName path) = [fileName path] := by
  obtain ⟨front, hsegments⟩ := exists_segments_eq path
  exact segments_eq_singleton (slash_not_mem_of_mem_segments (hsegments ▸ mem_append_right front mem_cons_self))

/-- **A path is its file name in its directory**, if it is canonical. -/
theorem join_parent (h : ∀ s ∈ segments path, isOrdinary s = true) : join (parent path) (fileName path) = path := by
  apply segments_injective
  obtain ⟨front, hsegments⟩ := exists_segments_eq path
  have hslash : ∀ s ∈ front, '/' ∉ s.toList := fun s hs =>
    slash_not_mem_of_mem_segments (hsegments ▸ mem_append_left _ hs)
  rw [parent, hsegments, dropLast_concat]
  cases front with
  | nil => rw [join, if_pos rfl, segments_fileName, nil_append]
  | cons name front =>
    have hname : name ≠ "" := by
      rintro rfl
      exact absurd (h "" (hsegments ▸ mem_cons_self)) (by decide)
    have hlast : fileName path ≠ "" := by
      intro hempty
      exact absurd (h "" (hsegments ▸ hempty ▸ mem_append_right _ mem_cons_self)) (by decide)
    have hfront := segments_ofSegments (cons_ne_nil name front) hslash
    have hdir : ofSegments (name :: front) ≠ "" := by
      intro hempty
      rw [hempty] at hfront
      exact hname (List.cons.inj hfront).1.symm
    rw [join, if_neg hdir, if_neg hlast, segments_append, hfront, segments_fileName]

theorem extension?_fileName (path : String) : extension? (fileName path) = extension? path := by
  have hname : fileName (fileName path) = fileName path := by
    rw [fileName, segments_fileName]
    rfl
  rw [extension?, hname]
  rfl

/-- A path with an extension ends in a name. -/
theorem isOrdinary_fileName (h : extension? path = some extension) (hne : extension ≠ "") :
    isOrdinary (fileName path) = true := by
  rw [isOrdinary, Bool.and_eq_true, Bool.and_eq_true]
  refine ⟨⟨?_, ?_⟩, ?_⟩ <;> refine bne_iff_ne.2 fun hname => ?_
  all_goals
    have hdots : extension? path = extension? (fileName path) := (extension?_fileName path).symm
    rw [hname, h] at hdots
  · exact absurd (hdots.trans (show extension? "" = none by decide)) (Option.some_ne_none extension)
  · exact absurd (hdots.trans (show extension? "." = none by decide)) (Option.some_ne_none extension)
  · exact hne (Option.some.inj (hdots.trans (show extension? ".." = some "" by decide)))

theorem component?_of_isOrdinary (h : isOrdinary segment = true) : component? segment = some (.name segment) := by
  simp only [isOrdinary, Bool.and_eq_true, bne_iff_ne] at h
  rw [component?, if_neg (by simp [h.1.1, h.1.2]), if_neg h.2]

/-- **The last name of a path with an extension is its file name.** -/
theorem name?_of_extension? (h : extension? path = some extension) (hne : extension ≠ "") :
    name? path = some (fileName path) := by
  obtain ⟨front, hsegments⟩ := exists_segments_eq path
  have hinner : (segments path).filterMap component? =
      front.filterMap component? ++ [.name (fileName path)] := by
    rw [hsegments]
    simp [component?_of_isOrdinary (isOrdinary_fileName h hne)]
  have hlast : (components path).getLast? = some (.name (fileName path)) := by
    rw [components, hinner]
    split <;> simp [getLast?_cons]
  rw [name?, hlast]

end Cartograph.Path
