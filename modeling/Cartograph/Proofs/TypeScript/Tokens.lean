import Cartograph.Proofs.Grammar.Readings
import Cartograph.TypeScript.Reader
import Mathlib.Data.List.Basic

/-!
# Tokens in the text

A mark is a fixed text, and the reader of a dialect finds it only where the text goes on with it (`scans_reader`). Nothing
else that is found has the number of a mark: not the tokens that depend on the text around them, and neither identifiers
nor the keywords that they can be taken for.
-/

namespace Cartograph.TypeScript

open Lexicon List
open Source (Cursor)
open Grammar (TokenSet Lookahead)

/-- Where the number is that of a mark, the text goes on with the mark. -/
def FitsMark (tokens : List Token) (n : Nat) (c : Cursor) (size : Nat) : Prop :=
  ∀ m, n = tokens.idxOf (.mark m) → Text.startsWith m.toList c.rest = true ∧ size = m.length

theorem fitsMark_of_getElem? {tokens : List Token} {n : Nat} {t : Token} (h : tokens[n]? = some t) {c : Cursor}
    {size : Nat} (ht : t.length? c.rest = some size ∨ ∀ m, t ≠ .mark m) : FitsMark tokens n c size := by
  intro m hn
  have hmem : Token.mark m ∈ tokens := by
    refine idxOf_lt_length_iff.1 ?_
    rw [← hn]
    exact (List.getElem?_eq_some_iff.1 h).1
  obtain rfl : t = .mark m := by
    rw [hn, getElem?_idxOf hmem] at h
    exact (Option.some.inj h).symm
  obtain ht | ht := ht
  · rw [Token.length?] at ht
    split at ht
    · next hstarts => exact ⟨hstarts, (Option.some.inj ht).symm⟩
    · simp at ht
  · exact absurd rfl (ht m)

/-! ### Tokens that depend on their surroundings -/

variable {text : List Char} {f : Found} {allows : Token → Bool}

theorem question?_token (h : question? text = some f) : f.token = .question := by
  unfold question? at h
  dsimp only at h
  split at h
  · split at h
    · simp at h
    · split at h
      · simp at h
      · simp at h
      · simp at h
      · split at h
        · rw [← Option.some.inj h]
        · simp at h
      · rw [← Option.some.inj h]
  · simp at h

theorem htmlComment?_token (h : htmlComment? text = some f) : f.token = .htmlComment := by
  obtain ⟨opening, -, h⟩ := exists_of_findSome?_eq_some h
  obtain ⟨rest, -, rfl⟩ := Option.map_eq_some_iff.1 h
  rfl

theorem endOrQuestion?_not_mark (h : endOrQuestion? allows text = some f) (m : String) : f.token ≠ .mark m := by
  unfold endOrQuestion? at h
  dsimp only at h
  split at h
  · split at h
    · rw [← Option.some.inj h]
      simp
    · split at h
      · obtain ⟨f', hf', rfl⟩ := Option.map_eq_some_iff.1 h
        simp [Found.behind, question?_token hf']
      · simp at h
  · split at h
    · simp [question?_token h]
    · split at h
      · simp [htmlComment?_token h]
      · simp at h

theorem layoutToken?_not_mark (h : layoutToken? allows text = some f) (m : String) : f.token ≠ .mark m := by
  unfold layoutToken? at h
  split at h
  · split at h
    · simp at h
    · obtain ⟨n, -, rfl⟩ := Option.map_eq_some_iff.1 h
      simp
  · split at h
    · split at h
      · rw [← Option.some.inj h]
        simp
      · obtain ⟨f', hf', rfl⟩ := Option.map_eq_some_iff.1 h
        exact endOrQuestion?_not_mark hf' m
    · exact endOrQuestion?_not_mark h m

/-! ### Numbers -/

section Lexicon

variable {tokens : List Token} {allowed : TokenSet} {n gap : Nat} {t : Token} {c : Candidate}

theorem getElem?_of_mem_numbered (h : (n, t) ∈ tokens.mapIdx fun n t => (n, t)) : tokens[n]? = some t := by
  obtain ⟨i, hi, heq⟩ := mem_mapIdx.1 h
  obtain ⟨rfl, rfl⟩ := Prod.mk.inj heq
  exact getElem?_eq_getElem hi

theorem getElem?_of_numbers (h : (ofTokens tokens).numbers[t]? = some n) : tokens[n]? = some t := by
  have hfold : ∀ (t : Token) (n : Nat), (ofTokens tokens).numbers[t]? = some n → tokens[n]? = some t := by
    refine foldlRecOn
      (motive := fun map : Std.HashMap Token Nat => ∀ (t : Token) (n : Nat), map[t]? = some n → tokens[n]? = some t)
      (tokens.mapIdx fun n t => (n, t)) _ (by simp) fun map hmap entry hentry t n h => ?_
    rw [Std.HashMap.getElem?_insert] at h
    split at h
    · next heq =>
      obtain rfl := eq_of_beq heq
      obtain rfl := Option.some.inj h
      exact getElem?_of_mem_numbered hentry
    · exact hmap t n h
  exact hfold t n h

theorem sound_of_mem_candidates (h : c ∈ (ofTokens tokens).candidates allowed gap text) :
    c.gap = gap ∧ ∃ t, tokens[c.number]? = some t ∧ t.length? text = some c.size := by
  obtain ⟨⟨n, t⟩, hmem, h⟩ := mem_filterMap.1 h
  have hget := getElem?_of_mem_numbered (mem_filter.1 hmem).1
  dsimp only at h
  split at h
  · split at h
    · simp at h
    · obtain ⟨size, hsize, rfl⟩ := Option.map_eq_some_iff.1 h
      exact ⟨rfl, t, hget, hsize⟩
  · simp at h

theorem plainToken?_sound (h : (ofTokens tokens).plainToken? allowed text = some c) :
    ∃ t, tokens[c.number]? = some t ∧ t.length? (text.drop c.gap) = some c.size := by
  have hbetter (cs : List Candidate) : ∀ best, cs.foldl Candidate.better best = some c → best = some c ∨ c ∈ cs := by
    induction cs with
    | nil => exact fun best hbest => .inl hbest
    | cons first rest ih =>
      intro best hbest
      obtain hbest | hmem := ih _ hbest
      · have hcases : Candidate.better best first = best ∨ Candidate.better best first = some first := by
          unfold Candidate.better
          split
          · exact .inr rfl
          · split
            · exact .inl rfl
            · exact .inr rfl
        obtain hcases | hcases := hcases
        · exact .inl (hcases ▸ hbest)
        · exact .inr (Option.some.inj (hcases.symm.trans hbest) ▸ mem_cons_self)
      · exact .inr (mem_cons_of_mem _ hmem)
  obtain hnone | hmem := hbetter _ _ h
  · simp at hnone
  obtain hmem | hmem := mem_append.1 (mem_filter.1 hmem).1
  · obtain ⟨hgap, hfound⟩ := sound_of_mem_candidates hmem
    rw [hgap]
    exact hfound
  · split at hmem
    · exact absurd hmem not_mem_nil
    · obtain ⟨hgap, hfound⟩ := sound_of_mem_candidates hmem
      rw [hgap]
      exact hfound

/-- A mark is found only where the text goes on with it. -/
theorem fits_scan (hword : Token.identifier ∈ tokens) {c : Cursor} {look : Lookahead}
    (h : (ofTokens tokens).scan allowed c = some look) :
    look.Fits (FitsMark tokens) (tokens.idxOf .identifier) c := by
  have hword {c : Cursor} {size : Nat} : FitsMark tokens (tokens.idxOf .identifier) c size :=
    fitsMark_of_getElem? (getElem?_idxOf hword) (.inr fun m => by simp)
  unfold scan at h
  dsimp only at h
  split at h
  · next f hf =>
    obtain ⟨n, hn, rfl⟩ := Option.map_eq_some_iff.1 h
    exact ⟨fitsMark_of_getElem? (getElem?_of_numbers hn) (.inr (layoutToken?_not_mark hf)), fun _ => hword⟩
  · obtain ⟨found, hfound, rfl⟩ := Option.map_eq_some_iff.1 h
    obtain ⟨t, ht, hsize⟩ := plainToken?_sound hfound
    have hfits : FitsMark tokens found.number (c.advance found.gap) found.size :=
      fitsMark_of_getElem? ht (.inl (by rwa [Cursor.advance_rest]))
    unfold resolve
    split
    · split
      · next n hn =>
        refine ⟨?_, fun _ => hword⟩
        split
        · exact fitsMark_of_getElem? (getElem?_of_numbers hn) (.inr fun m => by simp)
        · exact hfits
      · exact ⟨hfits, fun _ => hword⟩
    · exact ⟨hfits, fun _ => hword⟩

end Lexicon

/-! ### Readers -/

theorem word_mem_tokenList {P : Type} (g : Grammar P Token) : g.word ∈ g.tokenList := by
  rw [Grammar.tokenList, mem_eraseDups]
  exact mem_append_left _ (mem_cons_of_mem _ mem_cons_self)

theorem word_reader (d : Dialect) : d.reader.word = (grammar d).tokenList.idxOf .identifier := by
  simp only [Dialect.reader, ofTokens]

theorem scan_reader (d : Dialect) : d.reader.scan = (ofTokens (grammar d).tokenList).scan := by
  simp only [Dialect.reader]

/-- The reader of a dialect finds a mark only where the text goes on with it. -/
theorem scans_reader (d : Dialect) : d.reader.Scans (FitsMark (grammar d).tokenList) := by
  intro allowed c look h
  rw [scan_reader] at h
  rw [word_reader]
  exact fits_scan (word_mem_tokenList (grammar d)) h

end Cartograph.TypeScript
