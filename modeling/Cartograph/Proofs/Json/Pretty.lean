import Cartograph.Proofs.Json.RoundTrip

/-!
# Reading what was laid out in lines

A value that was written with one item to a line is read back (`read?_pretty`), under the conditions under which
its compact text is. The two layouts differ in gaps only, and the reader skips a gap wherever one is written: in
front of an item, in front of a closing bracket, behind a colon and behind the whole value.
-/

namespace Cartograph.Json

open List

variable {v : Json}

/-! ### Layout -/

theorem isGap_newline (level : Nat) : IsGap (newline level) := by
  intro c hc
  obtain rfl | hc := mem_cons.1 hc
  · decide
  · rw [eq_of_mem_replicate hc]
    decide

theorem isGap_space : IsGap [' '] := by
  intro c hc
  rw [mem_singleton.1 hc]
  decide

theorem prettyItems_eq_map (level : Nat) (vs : List Json) : prettyItems level vs = vs.map (prettyChars level) := by
  induction vs with
  | nil => rfl
  | cons v vs ih => rw [prettyItems, ih, map_cons]

theorem prettyEntries_eq_map (level : Nat) (es : List (String × Json)) :
    prettyEntries level es = es.map (entryChars (·.toList.flatMap escape) fun v => ' ' :: prettyChars level v) := by
  induction es with
  | nil => rfl
  | cons e es ih =>
    rw [prettyEntries, ih, map_cons, entryChars, quote]
    simp

/-- Brackets stand around texts with gaps between them; without any text there is no gap at all. -/
theorem exists_indented_eq (opening closing : Char) (level : Nat) (parts : List (List Char)) :
    ∃ gap, IsGap gap ∧ indented opening closing level parts =
      opening :: (commaSeparated (parts.map (newline (level + 1) ++ ·)) ++ (gap ++ [closing])) := by
  cases parts with
  | nil => exact ⟨[], isGap_nil, rfl⟩
  | cons part parts =>
    refine ⟨newline level, isGap_newline level, ?_⟩
    rw [indented, if_neg (by simp), append_assoc]

/-- What holds no other values is written alike in both layouts. -/
theorem prettyChars_of_scalar (level : Nat) (harray : ∀ vs, v ≠ array vs) (hobject : ∀ es, v ≠ object es) :
    prettyChars level v = compactChars v := by
  cases v with
  | array vs => exact absurd rfl (harray vs)
  | object es => exact absurd rfl (hobject es)
  | _ => rw [prettyChars, compactChars]

/-! ### Reading -/

/-- A gap in front of a value is skipped. -/
theorem value_gap {style : Style} {gap : List Char} (hgap : IsGap gap) (depth : Nat) (cs : List Char) :
    value style depth (gap ++ cs) = value style depth cs := by
  rw [value, value, skipGap_append hgap]

section Values

variable {style : Style} {lax : Bool} {depth level : Nat}

theorem value_prettyArray {vs : List Json}
    (hvs : ∀ v ∈ vs, ReadsAs lax (value style depth) (prettyChars (level + 1) v) (echoed v)) :
    ReadsAs lax (value style (depth + 1)) (prettyChars level (array vs)) (echoed (array vs)) := by
  obtain ⟨closing, hclosing, hchars⟩ := exists_indented_eq '[' ']' level (prettyItems (level + 1) vs)
  rw [prettyItems_eq_map, map_map] at hchars
  rw [prettyChars, prettyItems_eq_map, hchars, echoed, echoedItems_eq_map]
  refine ⟨⟨'[', _, rfl, by decide, by decide, by decide⟩, fun rest _ => ?_⟩
  have hread := Style.Reads.value_items (isGap_newline (level + 1)) hclosing hvs rest
  rwa [cons_append, append_assoc, append_assoc, singleton_append]

theorem value_prettyObject (h : style.Reads lax fun c => [c]) {es : List (String × Json)}
    (hes : ∀ e ∈ es, ReadsAs lax (value style depth) (prettyChars (level + 1) e.2) (echoed e.2)) :
    ReadsAs lax (value style (depth + 1)) (prettyChars level (object es)) (echoed (object es)) := by
  obtain ⟨closing, hclosing, hchars⟩ := exists_indented_eq '\x7b' '\x7d' level (prettyEntries (level + 1) es)
  rw [prettyEntries_eq_map, map_map] at hchars
  rw [prettyChars, prettyEntries_eq_map, hchars, echoed, echoedEntries_eq_map]
  refine ⟨⟨'\x7b', _, rfl, by decide, by decide, by decide⟩, fun rest _ => ?_⟩
  -- the value of an entry starts behind a space, so it does not open its text
  have hbehind : ∀ e ∈ es, ∀ rest, Ends rest →
      Gives lax (value style depth ((' ' :: prettyChars (level + 1) e.2) ++ rest)) (echoed e.2) rest := by
    intro e he rest hrest
    have hgap : (' ' :: prettyChars (level + 1) e.2) ++ rest = [' '] ++ (prettyChars (level + 1) e.2 ++ rest) := rfl
    rw [hgap, value_gap isGap_space]
    exact (hes e he).2 rest hrest
  have hread := h.value_entries (isGap_newline (level + 1)) hclosing
    (fun v => ' ' :: prettyChars (level + 1) v) echoed hbehind rest
  simp only [flatMap_singleton'] at hread
  rwa [cons_append, append_assoc, append_assoc, singleton_append]

/-- **Every plain value is read from its lines**, whatever ends it there. -/
theorem readsAs_pretty (h : style.Reads lax fun c => [c]) (hv : isPlain lax depth v = true) (level : Nat) :
    ReadsAs lax (value style depth) (prettyChars level v) (echoed v) := by
  -- each container spends one level of depth, so the induction is on the depth
  induction depth using Nat.strongRecOn generalizing v level with
  | _ depth ih =>
    by_cases harray : ∃ vs, v = array vs
    · obtain ⟨vs, rfl⟩ := harray
      simp only [isPlain, Bool.and_eq_true, decide_eq_true_eq, arePlain_iff] at hv
      obtain ⟨d, rfl⟩ : ∃ d, depth = d + 1 := ⟨depth - 1, by omega⟩
      exact value_prettyArray fun w hw => ih d (by omega) (hv.2 w hw) (level + 1)
    by_cases hobject : ∃ es, v = object es
    · obtain ⟨es, rfl⟩ := hobject
      simp only [isPlain, Bool.and_eq_true, decide_eq_true_eq, entriesArePlain_iff] at hv
      obtain ⟨d, rfl⟩ : ∃ d, depth = d + 1 := ⟨depth - 1, by omega⟩
      exact value_prettyObject h fun e he => ih d (by omega) (hv.2 e he) (level + 1)
    rw [prettyChars_of_scalar level (fun vs hvs => harray ⟨vs, hvs⟩) fun es hes => hobject ⟨es, hes⟩]
    have hread := h.readsAs_value hv
    rwa [flatMap_singleton'] at hread

end Values

/-- **The lines of a value whose numbers fit are read as that value**, also with a gap behind them. -/
theorem read?_pretty (hv : isPlain false depthLimit v = true) {gap : String} (hgap : IsGap gap.toList) :
    read? (v.pretty ++ gap) = some v := by
  have hends : Ends gap.toList := by
    have hgap := ends_gap hgap ends_nil
    rwa [append_nil] at hgap
  have hskip : skipGap gap.toList = [] := by
    have hskip := skipGap_append hgap []
    rwa [append_nil] at hskip
  obtain hread | ⟨hlax, -⟩ := (readsAs_pretty (reads_strict false) hv 0).2 gap.toList hends
  · rw [read?, readChars, whole, String.toList_append, pretty, String.toList_ofList, hread, echoed_eq hv]
    simp only [hskip]
    rfl
  · cases hlax

end Cartograph.Json
