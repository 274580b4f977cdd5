import Cartograph.Proofs.FileSystem.Spelled
import Cartograph.Proofs.Path.Normalization

/-!
# Paths resolved by position alone

`lexical` is the place of an absolute path when `.` and `..` are resolved by their position, without a look at the
file system; a `..` at the root stays there. Only the segments that lead somewhere count, the `moves` of the path
(`lexical_eq`).

* `below?_spell` — a path is spelled below a directory if its moves start with the names of the directory;
* `of_resolve?` — a path that does not climb above the place at which it starts leads to a place below it, and
  `resolve?` gives the names in between.
-/

namespace Cartograph.Path

open List
open FileSystem (Place IsName spell)
open Spelling (isIdle isAbsolute below? dropComponents? under)

/-! ### Characters -/

variable {l stack above rest : List String} {segment path s below : String} {names place : Place}

theorem mem_ofSegments {c : Char} (hs : s ∈ l) (hc : c ∈ s.toList) : c ∈ (ofSegments l).toList := by
  have hslash : "/".toList = ['/'] := rfl
  rw [ofSegments, String.toList_intercalate]
  induction l with
  | nil => exact absurd hs not_mem_nil
  | cons first l ih =>
    cases l with
    | nil =>
      obtain rfl := mem_singleton.1 hs
      simpa using hc
    | cons next l =>
      rw [map_cons, map_cons, intercalate_cons_cons, mem_append, mem_append]
      obtain rfl | hs := mem_cons.1 hs
      · exact .inl (.inl hc)
      · exact .inr (ih hs)

/-! ### Moves -/

/-- Where a segment leads by its position alone: `..` leaves the innermost directory, and stays at the root. -/
def enter (place : Place) (segment : String) : Place :=
  if segment = "" ∨ segment = "." then place
  else if segment = ".." then place.dropLast
  else place ++ [segment]

/-- The place of an absolute path when `.` and `..` are resolved by their position alone. -/
def lexical (path : String) : Place := (segments path).foldl enter []

/-- The segments of a path that lead somewhere. -/
def moves (path : String) : List String := (segments path).filter fun segment => !isIdle segment

theorem isIdle_iff : isIdle segment = true ↔ segment = "" ∨ segment = "." := by
  simp [isIdle]

theorem of_mem_moves (h : segment ∈ moves path) : isIdle segment = false ∧ '/' ∉ segment.toList := by
  obtain ⟨hmem, hidle⟩ := mem_filter.1 h
  exact ⟨by simpa using hidle, slash_not_mem_of_mem_segments hmem⟩

theorem not_isIdle_of_isOrdinary (h : isOrdinary segment = true) : isIdle segment = false := by
  simp only [isOrdinary, Bool.and_eq_true, bne_iff_ne] at h
  simp [isIdle, h.1.1, h.1.2]

theorem foldl_enter_filter (l : List String) (place : Place) :
    (l.filter fun segment => !isIdle segment).foldl enter place = l.foldl enter place := by
  rw [foldl_filter]
  congr 1
  funext place segment
  by_cases h : isIdle segment = true
  · rw [enter, if_pos (isIdle_iff.1 h)]
    simp [h]
  · simp [h]

/-- **Only moves count.** -/
theorem lexical_eq (path : String) : lexical path = (moves path).foldl enter [] :=
  (foldl_enter_filter (segments path) []).symm

theorem foldl_enter_names (h : ∀ name ∈ names, isOrdinary name = true) (place : Place) :
    names.foldl enter place = place ++ names := by
  induction names generalizing place with
  | nil => exact (append_nil place).symm
  | cons name names ih =>
    have hname := h name mem_cons_self
    simp only [isOrdinary, Bool.and_eq_true, bne_iff_ne] at hname
    rw [foldl_cons, ih (forall_mem_cons.1 h).2, enter,
      if_neg (by simp [hname.1.1, hname.1.2]), if_neg hname.2, append_assoc, singleton_append]

theorem filter_isIdle_eq_self (h : ∀ s ∈ l, isIdle s = false) :
    (l.filter fun segment => !isIdle segment) = l :=
  filter_eq_self.2 fun s hs => by rw [h s hs]; rfl

/-- Moves that were written down are the moves of what was written. -/
theorem moves_ofSegments (h : ∀ s ∈ l, isIdle s = false ∧ '/' ∉ s.toList) : moves (ofSegments l) = l := by
  by_cases hne : l = []
  · rw [hne]
    decide
  · rw [moves, segments_ofSegments hne fun s hs => (h s hs).2]
    exact filter_isIdle_eq_self fun s hs => (h s hs).1

theorem moves_names (h : ∀ name ∈ names, IsName name) : moves (ofSegments names) = names :=
  moves_ofSegments fun name hname => ⟨not_isIdle_of_isOrdinary (h name hname).1, (h name hname).2.1⟩

theorem moves_spell (h : ∀ name ∈ place, IsName name) : moves (spell place) = place := by
  by_cases hne : place = []
  · rw [hne]
    decide
  · rw [moves, FileSystem.segments_spell hne h, filter_cons_of_neg (by decide)]
    exact filter_isIdle_eq_self fun name hname => not_isIdle_of_isOrdinary (h name hname).1

/-- The moves of a path that is seen from a directory. -/
theorem moves_under_spell (hplace : ∀ name ∈ place, IsName name) (h : isAbsolute path = false) :
    moves (under (spell place) path) = place ++ moves path := by
  rw [moves, segments_under _ h, FileSystem.frontSegments_spell hplace, cons_append,
    filter_cons_of_neg (by decide), filter_append,
    filter_isIdle_eq_self fun name hname => not_isIdle_of_isOrdinary (hplace name hname).1]
  rfl

/-! ### Components -/

theorem map_text_components (l : List String) :
    (l.filterMap component?).map Spelling.Component.text = l.filter fun segment => !isIdle segment := by
  induction l with
  | nil => rfl
  | cons segment l ih =>
    by_cases hidle : segment = "" ∨ segment = "."
    · rw [filterMap_cons_none (by rw [component?, if_pos hidle]), ih,
        filter_cons_of_neg (by simp [isIdle_iff.2 hidle])]
    · rw [filter_cons_of_pos (by simpa [isIdle] using hidle), ← ih]
      by_cases hup : segment = ".."
      · subst hup
        rfl
      · rw [filterMap_cons_some (b := .name segment) (by rw [component?, if_neg hidle, if_neg hup])]
        rfl

theorem components_of_isAbsolute (h : isAbsolute path = true) :
    components path = .root :: (segments path).filterMap component? := by
  obtain ⟨cs, hcs⟩ := head?_eq_some_iff.1 (eq_of_beq h)
  have hpath : path = "" ++ "/" ++ String.ofList cs := String.toList_injective (by rw [hcs]; simp)
  have hsegments : segments path = "" :: segments (String.ofList cs) := by
    rw [hpath, segments_append, segments_empty, singleton_append]
  obtain ⟨next, rest, hrest⟩ := exists_cons_of_ne_nil (segments_ne_nil (String.ofList cs))
  rw [components, hsegments, hrest]
  rfl

theorem dropComponents?_eq_some {dir path rest : List Component} :
    dropComponents? dir path = some rest ↔ path = dir ++ rest := by
  fun_induction dropComponents? dir path with
  | case1 path => exact ⟨Option.some.inj, congrArg some⟩
  | case2 a dir => simp
  | case3 a dir path ih => simpa using ih
  | case4 a dir b path hne => simp [Ne.symm hne]

theorem component?_text {c : Component} (h : component? segment = some c) : Spelling.Component.text c = segment := by
  unfold component? at h
  split at h
  · cases h
  · split at h
    · next hup =>
      cases h
      exact hup.symm
    · cases h
      rfl

theorem map_component?_injective {l : List Component}
    (hl : ∀ c ∈ l, ∃ segment, component? segment = some c) (h : l.map Spelling.Component.text = names ++ rest)
    (hnames : ∀ name ∈ names, isOrdinary name = true) :
    ∃ tail, l = names.map .name ++ tail ∧ tail.map Spelling.Component.text = rest := by
  induction names generalizing l with
  | nil => exact ⟨l, rfl, h⟩
  | cons name names ih =>
    cases l with
    | nil => cases h
    | cons c l =>
      rw [map_cons, cons_append, List.cons.injEq] at h
      obtain ⟨tail, rfl, htail⟩ := ih (forall_mem_cons.1 hl).2 h.2 (forall_mem_cons.1 hnames).2
      refine ⟨tail, ?_, htail⟩
      -- an ordinary name is the text of no component but itself
      obtain ⟨segment, hsegment⟩ := hl c mem_cons_self
      have hname : segment = name := (component?_text hsegment).symm.trans h.1
      subst hname
      rw [component?_of_isOrdinary (hnames segment mem_cons_self)] at hsegment
      cases hsegment
      rfl

/-- **What is spelled below a directory** starts with its names. -/
theorem below?_spell (hplace : ∀ name ∈ place, IsName name) {rest : String} (hpath : isAbsolute path = true) :
    below? (spell place) path = some rest ↔ ∃ tail, moves path = place ++ tail ∧ rest = ofSegments tail := by
  have hordinary : ∀ name ∈ place, isOrdinary name = true := fun name hname => (hplace name hname).1
  have hdir : components (spell place) = .root :: place.map .name := by
    rw [components_of_isAbsolute (FileSystem.isAbsolute_spell place)]
    have htext : ((segments (spell place)).filterMap component?).map Spelling.Component.text = place ++ [] := by
      rw [map_text_components, append_nil]
      exact moves_spell hplace
    obtain ⟨tail, htail, hempty⟩ := map_component?_injective
      (fun c hc => (mem_filterMap.1 hc).imp fun _ h => h.2) htext hordinary
    rw [htail, map_eq_nil_iff.1 hempty, append_nil]
  rw [below?, hdir, components_of_isAbsolute hpath, Option.map_eq_some_iff]
  simp only [dropComponents?_eq_some, cons_append, List.cons.injEq, true_and]
  constructor
  · rintro ⟨tail, htail, rfl⟩
    refine ⟨_, ?_, rfl⟩
    rw [moves, ← map_text_components, htail, map_append, map_map]
    congr 1
    exact map_id place
  · rintro ⟨rest, hrest, rfl⟩
    rw [moves, ← map_text_components] at hrest
    obtain ⟨tail, htail, rfl⟩ := map_component?_injective
      (fun c hc => (mem_filterMap.1 hc).imp fun _ h => h.2) hrest hordinary
    exact ⟨tail, htail, rfl⟩

/-! ### Resolution -/

theorem enter_of_step {place : List String} (h : step stack segment = some above) :
    enter (place ++ stack.reverse) segment = place ++ above.reverse := by
  unfold step at h
  unfold enter
  split at h
  · next hidle =>
    cases h
    rw [if_pos hidle]
  · next hidle =>
    rw [if_neg hidle]
    split at h
    · next hup =>
      rw [if_pos hup]
      cases stack with
      | nil => cases h
      | cons innermost stack =>
        cases h
        rw [reverse_cons, ← append_assoc, dropLast_concat]
    · next hup =>
      cases h
      rw [if_neg hup, reverse_cons, append_assoc]

theorem foldl_enter_of_foldlM (h : l.foldlM step stack = some above) (place : Place) :
    l.foldl enter (place ++ stack.reverse) = place ++ above.reverse := by
  induction l generalizing stack with
  | nil =>
    cases h
    rfl
  | cons segment l ih =>
    obtain ⟨next, hnext, hrest⟩ := Option.bind_eq_some_iff.1 h
    rw [foldl_cons, enter_of_step hnext, ih hrest]

/-- Only moves count for resolution too. -/
theorem resolve?_eq (path : String) :
    resolve? "" path = ((moves path).foldlM step []).map fun stack => ofSegments stack.reverse := by
  have hstart : ((segments "").filter (· != "")).reverse = [] := by decide
  have hstep : (fun stack segment => if (!isIdle segment) = true then step stack segment else pure stack) = step := by
    funext stack segment
    by_cases h : isIdle segment = true
    · have hidle := isIdle_iff.1 h
      simp [step, hidle]
    · simp [h]
  rw [resolve?, hstart, moves, foldlM_filter, hstep]

/-- **A path that does not climb out** leads to the place with the resolved names below the one where it starts. -/
theorem of_resolve? (h : resolve? "" path = some below) :
    ∃ names, below = ofSegments names ∧ ∀ place, (moves path).foldl enter place = place ++ names := by
  rw [resolve?_eq] at h
  obtain ⟨stack, hstack, rfl⟩ := Option.map_eq_some_iff.1 h
  refine ⟨stack.reverse, rfl, fun place => ?_⟩
  have hplace := foldl_enter_of_foldlM hstack place
  rwa [reverse_nil, append_nil] at hplace

/-- Names are resolved to themselves. -/
theorem resolve?_names (h : ∀ name ∈ names, IsName name) :
    resolve? "" (ofSegments names) = some (ofSegments names) := by
  cases names with
  | nil => rfl
  | cons name names =>
    apply resolve?_of_ordinary
    rw [segments_ofSegments (cons_ne_nil name names) fun s hs => (h s hs).2.1]
    exact fun s hs => (h s hs).1

end Cartograph.Path
