import Cartograph.Glob.Match
import Mathlib.Data.List.Chain

/-!
# The search for a match

`run` tries the places at which a wildcard can stop one after another, and gives the whole match up where a token meets
the end of the text. Main statement: `Aligned.run_eq_matched_iff`. The search succeeds exactly if the text splits into
pieces for the tokens.

Both wildcards look for the first place at which the tokens behind them come to more than a mismatch (`firstOutcome`).
Where these run into the end of the text, they do not match at any shorter place either, for what a longer piece leaves
over is a part of what has been read in vain. This needs that a `**` is never tried in the middle of a name, where it
would find a place to stop that its own search does not have (`Aligned`). The outcomes are followed token by token
(`decides_one`, `decides_sequence`, `decides_recursive`) and then for all tokens (`Aligned.decides`).
-/

namespace Cartograph.Glob

open List

/-! ### Places where wildcards stop -/

/-- The outcome at the first of several places that is more than a mismatch. -/
def firstOutcome (next : List Char → Outcome) : List (List Char) → Outcome
  | [] => .mismatch
  | place :: places =>
    match next place with
    | .mismatch => firstOutcome next places
    | outcome => outcome

theorem firstOutcome_cons (next : List Char → Outcome) (place : List Char) (places : List (List Char)) :
    firstOutcome next (place :: places) =
      if next place = .mismatch then firstOutcome next places else next place := by
  rw [firstOutcome]
  cases next place <;> rfl

/-- What a `*` can leave of a text, from the longest to the shortest. -/
def sequenceStops : List Char → List (List Char)
  | [] => [[]]
  | c :: text => (c :: text) :: if c = '/' then [] else sequenceStops text

/-- What stands behind the slashes of a text, from the longest to the shortest. -/
def slashStops : List Char → List (List Char)
  | [] => []
  | c :: text => if c = '/' then text :: slashStops text else slashStops text

theorem runSequence_eq (next : List Char → Outcome) (text : List Char) :
    runSequence next text = firstOutcome next (sequenceStops text) := by
  induction text with
  | nil =>
    rw [runSequence, sequenceStops, firstOutcome]
    cases next [] <;> rfl
  | cons c text ih =>
    rw [runSequence, sequenceStops, firstOutcome, ih]
    cases next (c :: text) <;> try rfl
    by_cases hc : c = '/'
    · rw [if_pos hc, if_pos hc]
      rfl
    · rw [if_neg hc, if_neg hc]

theorem runRecursive_eq (next : List Char → Outcome) (text : List Char) :
    runRecursive next text = firstOutcome next (slashStops text ++ [[]]) := by
  induction text with
  | nil =>
    rw [runRecursive, slashStops, nil_append, firstOutcome_cons]
    cases next [] <;> rfl
  | cons c text ih =>
    rw [runRecursive, slashStops]
    by_cases hc : c = '/'
    · rw [if_pos hc, if_pos hc, cons_append, firstOutcome_cons, ih]
      cases next text <;> rfl
    · rw [if_neg hc, if_neg hc, ih]

theorem run_recursive_eq (tokens : List Token) (text : List Char) :
    run (.recursive :: tokens) text = firstOutcome (run tokens) (text :: slashStops text ++ [[]]) := by
  rw [run, runRecursive_eq, cons_append, firstOutcome_cons]
  cases run tokens text <;> rfl

variable {text rest middle : List Char} {tokens : List Token}

theorem mem_sequenceStops : rest ∈ sequenceStops text ↔ ∃ piece, text = piece ++ rest ∧ '/' ∉ piece := by
  induction text with
  | nil =>
    rw [sequenceStops, mem_singleton]
    constructor
    · rintro rfl
      exact ⟨[], rfl, by simp⟩
    · rintro ⟨piece, h, -⟩
      exact (append_eq_nil_iff.1 h.symm).2
  | cons c text ih =>
    rw [sequenceStops, mem_cons]
    constructor
    · rintro (rfl | h)
      · exact ⟨[], rfl, by simp⟩
      · by_cases hc : c = '/'
        · simp [hc] at h
        · rw [if_neg hc, ih] at h
          obtain ⟨piece, rfl, hpiece⟩ := h
          exact ⟨c :: piece, rfl, by simp [hpiece, Ne.symm hc]⟩
    · rintro ⟨piece, h, hpiece⟩
      cases piece with
      | nil => exact .inl h.symm
      | cons d piece =>
        obtain ⟨rfl, rfl⟩ := cons.inj h
        rw [mem_cons, not_or] at hpiece
        rw [if_neg (Ne.symm hpiece.1), ih]
        exact .inr ⟨piece, rfl, hpiece.2⟩

theorem mem_slashStops : rest ∈ slashStops text ↔ ∃ front, text = front ++ '/' :: rest := by
  induction text with
  | nil => simp [slashStops]
  | cons c text ih =>
    rw [slashStops]
    constructor
    · intro h
      by_cases hc : c = '/'
      · rw [if_pos hc, mem_cons, ih] at h
        obtain rfl | ⟨front, rfl⟩ := h
        · exact ⟨[], by rw [hc, nil_append]⟩
        · exact ⟨c :: front, rfl⟩
      · rw [if_neg hc, ih] at h
        obtain ⟨front, rfl⟩ := h
        exact ⟨c :: front, rfl⟩
    · rintro ⟨front, h⟩
      cases front with
      | nil =>
        obtain ⟨rfl, rfl⟩ := cons.inj h
        exact mem_cons_self
      | cons d front =>
        obtain ⟨rfl, rfl⟩ := cons.inj h
        have hrest : rest ∈ slashStops (front ++ '/' :: rest) := ih.2 ⟨front, rfl⟩
        by_cases hc : c = '/'
        · rw [if_pos hc]
          exact mem_cons_of_mem _ hrest
        · rwa [if_neg hc]

/-- A place where whole directories end: the start of the text or behind a slash. -/
def IsStop (text rest : List Char) : Prop := rest = text ∨ ∃ front, text = front ++ '/' :: rest

theorem mem_stops : rest ∈ text :: slashStops text ↔ IsStop text rest := by
  rw [mem_cons, mem_slashStops, IsStop]

theorem IsStop.suffix (h : IsStop text rest) : rest <:+ text := by
  obtain rfl | ⟨front, rfl⟩ := h
  · exact suffix_refl _
  · exact ⟨front ++ ['/'], by simp⟩

theorem IsStop.trans (h : IsStop text middle) (hrest : IsStop middle rest) : IsStop text rest := by
  obtain rfl | ⟨front, rfl⟩ := h
  · exact hrest
  · obtain rfl | ⟨inner, rfl⟩ := hrest
    · exact .inr ⟨front, rfl⟩
    · exact .inr ⟨front ++ '/' :: inner, by simp⟩

theorem pairwise_sequenceStops (text : List Char) : (sequenceStops text).Pairwise fun place later => later <:+ place := by
  induction text with
  | nil => exact pairwise_singleton _ _
  | cons c text ih =>
    rw [sequenceStops, pairwise_cons]
    by_cases hc : c = '/'
    · rw [if_pos hc]
      exact ⟨by simp, .nil⟩
    · rw [if_neg hc]
      refine ⟨fun later hlater => ?_, ih⟩
      obtain ⟨piece, rfl, -⟩ := mem_sequenceStops.1 hlater
      exact ⟨c :: piece, rfl⟩

theorem pairwise_stops (text : List Char) : (text :: slashStops text).Pairwise IsStop := by
  rw [pairwise_cons]
  refine ⟨fun later hlater => .inr (mem_slashStops.1 hlater), ?_⟩
  induction text with
  | nil => exact .nil
  | cons c text ih =>
    rw [slashStops]
    by_cases hc : c = '/'
    · rw [if_pos hc, pairwise_cons]
      exact ⟨fun later hlater => .inr (mem_slashStops.1 hlater), ih⟩
    · rwa [if_neg hc]

/-! ### Outcomes of a search -/

section FirstOutcome

variable {next : List Char → Outcome} {places more : List (List Char)}

theorem firstOutcome_append :
    firstOutcome next (places ++ more) =
      match firstOutcome next places with
      | .mismatch => firstOutcome next more
      | outcome => outcome := by
  induction places with
  | nil => rfl
  | cons place places ih =>
    rw [cons_append, firstOutcome, firstOutcome, ih]
    cases next place <;> rfl

theorem exists_of_firstOutcome_matched (h : firstOutcome next places = .matched) :
    ∃ place ∈ places, next place = .matched := by
  induction places with
  | nil => simp [firstOutcome] at h
  | cons place places ih =>
    rw [firstOutcome] at h
    cases hplace : next place with
    | matched => exact ⟨place, mem_cons_self, hplace⟩
    | mismatch =>
      rw [hplace] at h
      obtain ⟨other, hmem, hother⟩ := ih h
      exact ⟨other, mem_cons_of_mem _ hmem, hother⟩
    | exhausted => simp [hplace] at h

theorem forall_of_firstOutcome_mismatch (h : firstOutcome next places = .mismatch) :
    ∀ place ∈ places, next place = .mismatch := by
  induction places with
  | nil => simp
  | cons place places ih =>
    rw [firstOutcome] at h
    cases hplace : next place with
    | mismatch =>
      rw [hplace] at h
      exact forall_mem_cons.2 ⟨hplace, ih h⟩
    | matched => simp [hplace] at h
    | exhausted => simp [hplace] at h

/-- A search that meets the end of the text has done so at some place. All places are mismatches before it, and behind
it they are as the order of the places says. -/
theorem exists_of_firstOutcome_exhausted {R : List Char → List Char → Prop} (hplaces : places.Pairwise R)
    (h : firstOutcome next places = .exhausted) :
    ∃ stop ∈ places, next stop = .exhausted ∧
      ∀ place ∈ places, next place = .mismatch ∨ place = stop ∨ R stop place := by
  induction places with
  | nil => simp [firstOutcome] at h
  | cons place places ih =>
    rw [firstOutcome] at h
    rw [pairwise_cons] at hplaces
    cases hplace : next place with
    | exhausted =>
      refine ⟨place, mem_cons_self, hplace, forall_mem_cons.2 ⟨.inr (.inl rfl), fun other hother => ?_⟩⟩
      exact .inr (.inr (hplaces.1 other hother))
    | mismatch =>
      rw [hplace] at h
      obtain ⟨stop, hmem, hstop, hall⟩ := ih hplaces.2 h
      exact ⟨stop, mem_cons_of_mem _ hmem, hstop, forall_mem_cons.2 ⟨.inl hplace, hall⟩⟩
    | matched => simp [hplace] at h

end FirstOutcome

/-! ### Splitting a text -/

/-- The tokens that stand for pieces of any length. -/
def Token.isWildcard (t : Token) : Bool := t == .sequence || t == .recursive

section Pieces

variable {token : Token} {last : Bool} {piece : List Char}

theorem piece_one_iff (h : token.isWildcard = false) :
    Piece token last piece ↔ ∃ c, piece = [c] ∧ token.accepts c = true := by
  constructor
  · intro hpiece
    cases hpiece with
    | one hc => exact ⟨_, rfl, hc⟩
    | sequence => exact absurd h (by decide)
    | none => exact absurd h (by decide)
    | directories => exact absurd h (by decide)
    | all => exact absurd h (by decide)
  · rintro ⟨c, rfl, hc⟩
    exact .one hc

theorem piece_sequence_iff : Piece .sequence last piece ↔ '/' ∉ piece := by
  constructor
  · intro hpiece
    cases hpiece with
    | one hc => exact absurd hc (by simp [Token.accepts])
    | sequence hslash => exact hslash
  · exact .sequence

theorem piece_recursive_iff :
    Piece .recursive last piece ↔ piece = [] ∨ (∃ front, piece = front ++ ['/']) ∨ last = true := by
  constructor
  · intro hpiece
    cases hpiece with
    | one hc => exact absurd hc (by simp [Token.accepts])
    | none => exact .inl rfl
    | directories => exact .inr (.inl ⟨_, rfl⟩)
    | all => exact .inr (.inr rfl)
  · rintro (rfl | ⟨front, rfl⟩ | rfl)
    · exact .none
    · exact .directories
    · exact .all

end Pieces

section Splitting

variable {token : Token} {tokens : List Token} {text name : List Char}

theorem splits_nil_iff : Splits [] text ↔ text = [] := by
  constructor
  · rintro ⟨⟩
    rfl
  · rintro rfl
    exact .nil

theorem splits_cons_iff :
    Splits (token :: tokens) text ↔
      ∃ piece rest, text = piece ++ rest ∧ Piece token tokens.isEmpty piece ∧ Splits tokens rest := by
  constructor
  · rintro ⟨⟩
    exact ⟨_, _, rfl, ‹_›, ‹_›⟩
  · rintro ⟨piece, rest, rfl, hpiece, hrest⟩
    exact .cons hpiece hrest

theorem splits_one_iff (h : token.isWildcard = false) :
    Splits (token :: tokens) text ↔ ∃ c rest, text = c :: rest ∧ token.accepts c = true ∧ Splits tokens rest := by
  rw [splits_cons_iff]
  constructor
  · rintro ⟨piece, rest, rfl, hpiece, hrest⟩
    obtain ⟨c, rfl, hc⟩ := (piece_one_iff h).1 hpiece
    exact ⟨c, rest, rfl, hc, hrest⟩
  · rintro ⟨c, rest, rfl, hc, hrest⟩
    exact ⟨[c], rest, rfl, .one hc, hrest⟩

theorem splits_sequence_iff : Splits (.sequence :: tokens) text ↔ ∃ rest ∈ sequenceStops text, Splits tokens rest := by
  rw [splits_cons_iff]
  constructor
  · rintro ⟨piece, rest, htext, hpiece, hrest⟩
    exact ⟨rest, mem_sequenceStops.2 ⟨piece, htext, piece_sequence_iff.1 hpiece⟩, hrest⟩
  · rintro ⟨rest, hmem, hrest⟩
    obtain ⟨piece, htext, hslash⟩ := mem_sequenceStops.1 hmem
    exact ⟨piece, rest, htext, .sequence hslash, hrest⟩

theorem Splits.recursive_of_stop (h : Splits tokens rest) (hstop : IsStop text rest) :
    Splits (.recursive :: tokens) text := by
  obtain rfl | ⟨front, rfl⟩ := hstop
  · exact splits_cons_iff.2 ⟨[], rest, rfl, .none, h⟩
  · exact splits_cons_iff.2 ⟨front ++ ['/'], rest, append_cons .., .directories, h⟩

/-- What splits the empty text splits every name as well: its first wildcard takes it. -/
theorem Splits.of_nil (h : Splits tokens []) (hne : tokens ≠ []) (hslash : '/' ∉ name) : Splits tokens name := by
  induction tokens with
  | nil => exact absurd rfl hne
  | cons token tokens ih =>
    obtain ⟨piece, rest, hnil, hpiece, hrest⟩ := splits_cons_iff.1 h
    obtain ⟨rfl, rfl⟩ := append_eq_nil_iff.1 hnil.symm
    have hwhole {piece : List Char} (hpiece : Piece token tokens.isEmpty piece) : Splits (token :: tokens) piece :=
      append_nil piece ▸ .cons hpiece hrest
    cases htoken : token with
    | sequence => exact htoken ▸ hwhole (htoken ▸ .sequence hslash)
    | recursive =>
      by_cases htokens : tokens = []
      · subst htokens
        exact htoken ▸ hwhole (htoken ▸ .all)
      · exact (ih hrest htokens).recursive_of_stop (.inl rfl)
    | _ =>
      obtain ⟨c, hc, -⟩ := (piece_one_iff (by rw [htoken]; rfl)).1 hpiece
      simp at hc

/-- A recursive wildcard takes the directories of a text, and the name behind them is left to tokens that match the
empty text. -/
theorem Splits.recursive_of_nil (h : Splits tokens []) (text : List Char) : Splits (.recursive :: tokens) text := by
  by_cases hne : tokens = []
  · subst hne
    exact splits_cons_iff.2 ⟨text, [], (append_nil text).symm, .all, h⟩
  by_cases hslash : '/' ∈ text
  · obtain ⟨name, front, hname, htext⟩ := eq_append_cons_of_mem (mem_reverse.2 hslash)
    have hstop : text = front.reverse ++ '/' :: name.reverse := by
      rw [← reverse_reverse text, hname]
      simp
    exact (h.of_nil hne (by simpa using htext)).recursive_of_stop (.inr ⟨front.reverse, hstop⟩)
  · exact (h.of_nil hne hslash).recursive_of_stop (.inl rfl)

theorem splits_recursive_iff (hne : tokens ≠ []) :
    Splits (.recursive :: tokens) text ↔ ∃ rest, IsStop text rest ∧ Splits tokens rest := by
  constructor
  · intro h
    obtain ⟨piece, rest, rfl, hpiece, hrest⟩ := splits_cons_iff.1 h
    obtain rfl | ⟨front, rfl⟩ | hlast := piece_recursive_iff.1 hpiece
    · exact ⟨rest, .inl rfl, hrest⟩
    · exact ⟨rest, .inr ⟨front, (append_cons ..).symm⟩, hrest⟩
    · exact absurd (isEmpty_iff.1 hlast) hne
  · rintro ⟨rest, hstop, hrest⟩
    exact hrest.recursive_of_stop hstop

end Splitting

/-! ### The search and the splitting -/

/-- The tokens of a compiled pattern: a recursive wildcard follows a slash or another recursive wildcard. -/
def Aligned (tokens : List Token) : Prop :=
  tokens.IsChain fun before token => token = .recursive → before = .literal '/' ∨ before = .recursive

/-- What an earlier wildcard can leave to tokens once it has left `text` to them. To a recursive wildcard it is what starts
at a directory. -/
def LaterStart (tokens : List Token) (text rest : List Char) : Prop :=
  if tokens.head? = some .recursive then IsStop text rest else rest <:+ text

section LaterStart

variable {tokens : List Token} {text rest : List Char}

theorem IsStop.laterStart (h : IsStop text rest) : LaterStart tokens text rest := by
  rw [LaterStart]
  split
  · exact h
  · exact h.suffix

theorem LaterStart.suffix (h : LaterStart tokens text rest) : rest <:+ text := by
  rw [LaterStart] at h
  split at h
  · exact h.suffix
  · exact h

theorem laterStart_of_suffix (htokens : tokens.head? ≠ some .recursive) (h : rest <:+ text) :
    LaterStart tokens text rest := by
  rwa [LaterStart, if_neg htokens]

end LaterStart

/-- What the outcomes of matching tokens against a text mean. -/
structure Decides (tokens : List Token) (text : List Char) : Prop where
  matched : run tokens text = .matched → Splits tokens text
  mismatch : run tokens text = .mismatch → ¬Splits tokens text
  exhausted : run tokens text = .exhausted → ∀ rest, LaterStart tokens text rest → ¬Splits tokens rest

theorem decides_nil (text : List Char) : Decides [] text where
  matched h := by
    cases text with
    | nil => exact .nil
    | cons => simp [run] at h
  mismatch h := by
    cases text with
    | nil => simp [run] at h
    | cons => exact fun hsplits => absurd (splits_nil_iff.1 hsplits) (by simp)
  exhausted h := by cases text <;> simp [run] at h

section Step

variable {token : Token} {tokens : List Token} {text : List Char}

theorem run_one_nil (h : token.isWildcard = false) : run (token :: tokens) [] = .exhausted := by
  cases token <;> first | rfl | exact absurd h (by decide)

theorem run_one_cons (h : token.isWildcard = false) (c : Char) :
    run (token :: tokens) (c :: text) = if token.accepts c then run tokens text else .mismatch := by
  cases token <;> first | rfl | exact absurd h (by decide)

theorem decides_one (h : token.isWildcard = false) (hrec : tokens.head? = some .recursive → token = .literal '/')
    (ih : ∀ text, Decides tokens text) : Decides (token :: tokens) text := by
  cases text with
  | nil =>
    have hrun : run (token :: tokens) [] = .exhausted := run_one_nil h
    refine ⟨by simp [hrun], by simp [hrun], fun _ rest hlater hsplits => ?_⟩
    obtain ⟨c, rest', rfl, -, -⟩ := (splits_one_iff h).1 hsplits
    simpa using hlater.suffix
  | cons c text =>
    by_cases hc : token.accepts c = true
    · have hrun : run (token :: tokens) (c :: text) = run tokens text := by rw [run_one_cons h, if_pos hc]
      refine ⟨fun hm => ?_, fun hm hsplits => ?_, fun hm rest hlater hsplits => ?_⟩
      · exact (splits_one_iff h).2 ⟨c, text, rfl, hc, (ih text).matched (hrun ▸ hm)⟩
      · obtain ⟨d, rest, heq, -, hrest⟩ := (splits_one_iff h).1 hsplits
        obtain ⟨rfl, rfl⟩ := cons.inj heq
        exact (ih text).mismatch (hrun ▸ hm) hrest
      · obtain ⟨d, rest', rfl, hd, hrest⟩ := (splits_one_iff h).1 hsplits
        refine (ih text).exhausted (hrun ▸ hm) rest' ?_ hrest
        by_cases hhead : tokens.head? = some .recursive
        · -- the slash that the token takes is the one before `rest'`
          obtain rfl := hrec hhead
          obtain rfl : '/' = d := eq_of_beq hd
          apply IsStop.laterStart
          obtain heq | hsuffix := suffix_cons_iff.1 hlater.suffix
          · exact .inl (cons.inj heq).2
          · obtain ⟨front, hfront⟩ := hsuffix
            exact .inr ⟨front, hfront.symm⟩
        · apply laterStart_of_suffix hhead
          obtain heq | hsuffix := suffix_cons_iff.1 hlater.suffix
          · exact (cons.inj heq).2 ▸ suffix_refl _
          · exact (suffix_cons d rest').trans hsuffix
    · have hrun : run (token :: tokens) (c :: text) = .mismatch := by rw [run_one_cons h, if_neg hc]
      refine ⟨by simp [hrun], fun _ hsplits => ?_, by simp [hrun]⟩
      obtain ⟨d, rest, heq, hd, -⟩ := (splits_one_iff h).1 hsplits
      exact hc ((cons.inj heq).1 ▸ hd)

theorem decides_sequence (hrec : tokens.head? ≠ some .recursive) (ih : ∀ text, Decides tokens text) :
    Decides (.sequence :: tokens) text := by
  have hrun : run (.sequence :: tokens) text = firstOutcome (run tokens) (sequenceStops text) := by
    rw [run, runSequence_eq]
  refine ⟨fun hm => ?_, fun hm hsplits => ?_, fun hm rest hlater hsplits => ?_⟩
  · obtain ⟨stop, hstop, hmatched⟩ := exists_of_firstOutcome_matched (hrun ▸ hm)
    exact splits_sequence_iff.2 ⟨stop, hstop, (ih stop).matched hmatched⟩
  · obtain ⟨stop, hstop, hrest⟩ := splits_sequence_iff.1 hsplits
    exact (ih stop).mismatch (forall_of_firstOutcome_mismatch (hrun ▸ hm) stop hstop) hrest
  · obtain ⟨stop, hstop, hexhausted, hall⟩ :=
      exists_of_firstOutcome_exhausted (pairwise_sequenceStops text) (hrun ▸ hm)
    obtain ⟨place, hplace, hrest⟩ := splits_sequence_iff.1 hsplits
    have hsuffix : place <:+ text := by
      obtain ⟨piece, rfl, -⟩ := mem_sequenceStops.1 hplace
      exact (suffix_append piece place).trans hlater.suffix
    -- places longer than `stop` are among those that were tried before it
    by_cases hlength : place.length ≤ stop.length
    · obtain ⟨piece, rfl, -⟩ := mem_sequenceStops.1 hstop
      have hlater' : place <:+ stop := suffix_of_suffix_length_le hsuffix (suffix_append piece stop) hlength
      exact (ih stop).exhausted hexhausted place (laterStart_of_suffix hrec hlater') hrest
    · have htried : place ∈ sequenceStops text := by
        obtain ⟨piece, rfl, hslash⟩ := mem_sequenceStops.1 hstop
        obtain ⟨front, hfront⟩ := hsuffix
        have hshort : front <+: piece := by
          refine prefix_of_prefix_length_le ⟨place, hfront⟩ (prefix_append piece stop) ?_
          have hlengths := congrArg length hfront
          simp only [length_append] at hlengths
          omega
        exact mem_sequenceStops.2 ⟨front, hfront.symm, fun hmem => hslash (hshort.subset hmem)⟩
      obtain hmismatch | rfl | hshorter := hall place htried
      · exact (ih place).mismatch hmismatch hrest
      · exact hlength (Nat.le_refl _)
      · exact hlength hshorter.length_le

theorem decides_recursive (ih : ∀ text, Decides tokens text) : Decides (.recursive :: tokens) text := by
  refine ⟨fun hm => ?_, fun hm hsplits => ?_, fun hm rest hlater hsplits => ?_⟩ <;> rw [run_recursive_eq] at hm
  · obtain ⟨stop, hstop, hmatched⟩ := exists_of_firstOutcome_matched hm
    obtain hstop | hend := mem_append.1 hstop
    · exact ((ih stop).matched hmatched).recursive_of_stop (mem_stops.1 hstop)
    · obtain rfl := mem_singleton.1 hend
      exact ((ih []).matched hmatched).recursive_of_nil text
  · have hall := forall_of_firstOutcome_mismatch hm
    have hne : tokens ≠ [] := by
      rintro rfl
      exact absurd (hall [] (by simp)) (by decide)
    obtain ⟨stop, hstop, hrest⟩ := (splits_recursive_iff hne).1 hsplits
    exact (ih stop).mismatch (hall stop (mem_append_left _ (mem_stops.2 hstop))) hrest
  · have hne : tokens ≠ [] := by
      rintro rfl
      have htrivial := pairwise_of_forall (R := fun _ _ => True) (l := text :: slashStops text ++ [[]])
        fun _ _ => trivial
      obtain ⟨stop, -, hstop, -⟩ := exists_of_firstOutcome_exhausted htrivial hm
      exact (decides_nil stop).exhausted hstop [] (nil_suffix ..) .nil
    -- the tokens would match at a place that the search has or had before it
    obtain ⟨place, hplace, hrest⟩ := (splits_recursive_iff hne).1 hsplits
    have hplace : IsStop text place := IsStop.trans hlater hplace
    rw [firstOutcome_append] at hm
    cases hstops : firstOutcome (run tokens) (text :: slashStops text) with
    | matched => simp [hstops] at hm
    | mismatch =>
      have hmismatch := forall_of_firstOutcome_mismatch hstops place (mem_stops.2 hplace)
      exact (ih place).mismatch hmismatch hrest
    | exhausted =>
      obtain ⟨stop, -, hexhausted, hall⟩ := exists_of_firstOutcome_exhausted (pairwise_stops text) hstops
      obtain hmismatch | rfl | hlater' := hall place (mem_stops.2 hplace)
      · exact (ih place).mismatch hmismatch hrest
      · exact (ih place).exhausted hexhausted place (IsStop.laterStart (.inl rfl)) hrest
      · exact (ih stop).exhausted hexhausted place hlater'.laterStart hrest

end Step

/-- The outcomes of the search mean what they say, for all tokens of a compiled pattern. -/
theorem Aligned.decides (h : Aligned tokens) (text : List Char) : Decides tokens text := by
  induction tokens generalizing text with
  | nil => exact decides_nil text
  | cons token tokens ih =>
    have htail : ∀ text, Decides tokens text := ih h.tail
    have hhead (hrec : tokens.head? = some .recursive) : token = .literal '/' ∨ token = .recursive := by
      obtain ⟨rest, rfl⟩ := head?_eq_some_iff.1 hrec
      exact (isChain_cons_cons.1 h).1 rfl
    cases hwild : token.isWildcard with
    | false =>
      refine decides_one hwild (fun hrec => (hhead hrec).resolve_right ?_) htail
      rintro rfl
      exact absurd hwild (by decide)
    | true =>
      obtain heq | heq := Bool.or_eq_true_iff.1 hwild
      · obtain rfl := eq_of_beq heq
        exact decides_sequence (fun hrec => absurd (hhead hrec) (by decide)) htail
      · obtain rfl := eq_of_beq heq
        exact decides_recursive htail

/-- **The search finds every way to split a text**, although it gives up at the end of the text. -/
theorem Aligned.run_eq_matched_iff (h : Aligned tokens) (text : List Char) :
    run tokens text = .matched ↔ Splits tokens text := by
  have hdecides := h.decides text
  refine ⟨hdecides.matched, fun hsplits => ?_⟩
  cases hrun : run tokens text with
  | matched => rfl
  | mismatch => exact absurd hsplits (hdecides.mismatch hrun)
  | exhausted => exact absurd hsplits (hdecides.exhausted hrun text (IsStop.laterStart (.inl rfl)))

end Cartograph.Glob
