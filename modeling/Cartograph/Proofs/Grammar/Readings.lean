import Cartograph.Grammar.Reading
import Cartograph.Proofs.Grammar.Stacks

/-!
# What is read holds

Main statement: `Reader.read_whole`. If a text is read, then what the derivation says is true of the text from its first
character on (`Derivation.Whole`). It rests on what is known of the reader's tokens: each token that `scan` finds fits the
text at its place, and so does a plain word in the place of a keyword that can be read as one (`Reader.Scans`).

Each step of a reading keeps its stack sound. The one thing to follow closely is the token that a reading acts on: it is
found once and read only after several reductions, by readings that have replaced the first. They have all come to the
same place in the text (`Readings.Follows`).
-/

namespace Cartograph.Grammar

open Cartograph.Grammar.Derivation List Readings
open Source (Cursor)

section

variable (t : Table) (ways : List (List Production)) (fits : Nat → Cursor → Nat → Prop) (origin : Cursor)

/-- A derivation of a whole text holds. Its first parts are the steps of a production, and extra tokens may stand anywhere
among its parts. -/
def Derivation.Whole : Derivation → Prop
  | token _ _ _ _ => False
  | phrase item _ _ _ _ parts => HoldsAll t ways fits origin parts ∧
    ∃ productions ∈ ways, ∃ p ∈ productions, (t.item item).labels.reverse = p.steps.map Step.label ∧
      p.steps.map Step.symbol <+: ownSymbols parts

/-- The stack of readings is sound, and what has been read to the end holds. -/
structure Readings.Sound (r : Readings) : Prop where
  stack : r.stack.Sound t ways fits origin
  finished : ∀ d, r.finished = some d → d.Whole t ways fits origin

end

/-- A token fits the text behind a cursor, and so does a plain word if the token is a keyword that can be read as one. -/
structure Lookahead.Fits (fits : Nat → Cursor → Nat → Prop) (word : Nat) (c : Cursor) (look : Lookahead) : Prop where
  token : fits look.token (c.advance look.gap) look.size
  word : look.isWord = true → fits word (c.advance look.gap) look.size

/-- All tokens that a reader finds fit. -/
def Reader.Scans (l : Reader) (fits : Nat → Cursor → Nat → Prop) : Prop :=
  ∀ allowed c look, l.scan allowed c = some look → look.Fits fits l.word c

namespace Readings

variable {l : Reader} {ways : List (List Production)} {fits : Nat → Cursor → Nat → Prop} {origin : Cursor}
  {r : Readings} {v fuel : Nat}

/-! ### Whole texts -/

theorem whole_of_wholeText {t : Table} {passed : List Derivation} {d : Derivation}
    (hpassed : HoldsAll t ways fits origin passed) (h : wholeText passed = some d) :
    d.Whole t ways fits origin := by
  have hsplit : passed.takeWhile isExtra ++ passed.dropWhile isExtra = passed := takeWhile_append_dropWhile
  unfold wholeText at h
  split at h
  · next item number gap size weight children behind hbehind =>
    obtain rfl := Option.some.inj h
    rw [hbehind] at hsplit
    have hbefore : ownSymbols (passed.takeWhile isExtra) = [] := by
      rw [ownSymbols, filter_eq_nil_iff.2, map_nil]
      exact fun e he => by simp [all_eq_true.1 all_takeWhile e he]
    generalize passed.takeWhile isExtra = before at *
    rw [← hsplit, holdsAll_append, holdsAll_cons] at hpassed
    obtain ⟨hbefore', ⟨hmade, hchildren⟩, hbehind'⟩ := hpassed
    obtain ⟨productions, p, hways, hp, hsymbols, hlabels⟩ := hmade.production
    refine ⟨?_, productions, mem_of_getElem? hways, p, hp, hlabels, ?_⟩
    · have hextent : extent (.phrase item number gap size weight children) = extentOf children :=
        hmade.extent_eq
      rw [holdsAll_append, holdsAll_append, extentOf_append, ← Cursor.advance_advance, ← hextent]
      exact ⟨⟨hbefore', hchildren⟩, hbehind'⟩
    · rw [ownSymbols_append, ownSymbols_append, hbefore, hsymbols, nil_append]
      exact prefix_append _ _
  · simp at h

theorem better_eq (t : Table) (a b : Derivation) : a.better t b = a ∨ a.better t b = b := by
  unfold better
  split
  · exact .inr rfl
  · split
    · exact .inl rfl
    · split
      · exact .inr rfl
      · exact .inl rfl

theorem Sound.accept (h : r.Sound l.table ways fits origin) (v : Nat) : (r.accept l v).Sound l.table ways fits origin := by
  have hwhole (d : Derivation) (hd : d ∈ (r.stack.popAll v).filterMap wholeText) : d.Whole l.table ways fits origin := by
    obtain ⟨passed, hpassed, hd⟩ := mem_filterMap.1 hd
    obtain ⟨n, hchain, hbottom⟩ := Stack.mem_popAll hpassed
    have hholds := hchain.holds h.stack (h.stack.head_lt v)
    have hnode := h.stack.nodes n (hchain.inside h.stack (h.stack.head_lt v))
    rw [hnode.cursor, hnode.bottom hbottom] at hholds
    exact whole_of_wholeText hholds hd
  refine ⟨h.stack.setStatus v .halted, ?_⟩
  refine foldlRecOn (motive := fun best : Option Derivation => ∀ d, best = some d → d.Whole l.table ways fits origin)
    ((r.stack.popAll v).filterMap wholeText) _ h.finished fun best hbest d hd => ?_
  cases best with
  | none =>
    intro e he
    obtain rfl := Option.some.inj he
    exact hwhole d hd
  | some b =>
    intro e he
    obtain rfl := Option.some.inj he
    obtain heq | heq := better_eq l.table b d
    · rw [heq]
      exact hbest b rfl
    · rw [heq]
      exact hwhole d hd

/-! ### Acting on a token -/

theorem Sound.giveUp (h : r.Sound l.table ways fits origin) (v : Nat) (look : Option Lookahead) :
    (r.giveUp l v look).Sound l.table ways fits origin := ⟨h.stack.setStatus v _, h.finished⟩

/-- Where the new readings start. -/
def Progress.first : Progress → Option Nat
  | reduced first => first
  | _ => Option.none

/-- A reading at a place is being reduced. It has not moved itself, and the readings that come from it have come as far. -/
structure Follows (l : Reader) (ways : List (List Production)) (fits : Nat → Cursor → Nat → Prop) (origin : Cursor)
    (place : Place) (v : Nat) (r : Readings) (done : Progress) : Prop where
  sound : r.Sound l.table ways fits origin
  inside : v < r.stack.heads.size
  place_eq : (r.stack.top v).place = place
  first : ∀ first, done.first = some first →
    v < first ∧ ∃ h : Head, r.stack.heads[first]? = some h ∧ (r.stack.node h.node).offset = place.offset

section

variable (ht : l.table.IsFor ways)
include ht

theorem Follows.reduce {place : Place} {item : Nat} {done : Progress} (h : Follows l ways fits origin place v r done)
    (hcomplete : ∃ tokens, (item, tokens) ∈ place.state.complete l.table) :
    Follows l ways fits origin place v { r with stack := r.stack.reduce l.table v item }
      (.reduced (if (r.stack.reduce l.table v item).heads.size > r.stack.heads.size then some r.stack.heads.size
        else done.first)) := by
  have hreduced : Stack.Reduced l.table ways fits origin r.stack v (r.stack.reduce l.table v item) :=
    h.sound.stack.reduce ht (by rwa [← h.place_eq] at hcomplete)
  generalize r.stack.reduce l.table v item = after at hreduced ⊢
  obtain ⟨more, hheads, hmore⟩ := hreduced.heads
  have hkept {i : Nat} (hi : i < r.stack.heads.size) : after.heads[i]? = r.stack.heads[i]? := by
    rw [hheads, Array.getElem?_append_left hi]
  have hhead : after.heads.getD v ⟨0, .halted⟩ = r.stack.heads.getD v ⟨0, .halted⟩ := by
    rw [Array.getD_eq_getD_getElem?, Array.getD_eq_getD_getElem?, hkept h.inside]
  refine ⟨⟨hreduced.sound, h.sound.finished⟩, ?_, ?_, fun first hfirst => ?_⟩
  · have hsize : r.stack.heads.size ≤ after.heads.size := by simp [hheads]
    exact Nat.lt_of_lt_of_le h.inside hsize
  · rw [← h.place_eq, Stack.top, Stack.top, hhead]
    exact hreduced.keeps.place _ (h.sound.stack.head_lt v)
  · split at hfirst
    · next hnew =>
      -- the last reduction has given new readings
      obtain rfl := Option.some.inj hfirst
      have hlt : 0 < more.size := by
        rw [hheads, Array.size_append] at hnew
        omega
      have hoffset : (r.stack.top v).offset = place.offset := congrArg Place.offset h.place_eq
      refine ⟨h.inside, more[0], ?_, (hmore _ (Array.getElem_mem hlt)).2.trans hoffset⟩
      rw [hheads, Array.getElem?_append_right (Nat.le_refl _), Nat.sub_self, Array.getElem?_eq_getElem hlt]
    · obtain ⟨hv, head, hget, hoffset⟩ := h.first first hfirst
      refine ⟨hv, head, (hkept (Array.getElem?_eq_some_iff.1 hget).1).trans hget, ?_⟩
      rw [hreduced.keeps.offset (h.sound.stack.heads head (Array.mem_of_getElem? hget)), hoffset]

theorem Follows.follow {place : Place} {look : Lookahead} {extra : Derivation} {done : Progress}
    {actions : List Action} (h : Follows l ways fits origin place v r done)
    (hlook : look.Fits fits l.word place.cursor) (hextra : extra = .token look.token look.gap look.size true)
    (hactions : ∀ item, .reduce item ∈ actions → ∃ tokens, (item, tokens) ∈ place.state.complete l.table) :
    (follow l v look extra r done actions).1.Sound l.table ways fits origin ∧
      ((follow l v look extra r done actions).2 = .moved ∨
        Follows l ways fits origin place v (follow l v look extra r done actions).1
          (follow l v look extra r done actions).2) := by
  have hrest {action : Action} {rest : List Action} (hactions : ∀ item, .reduce item ∈ action :: rest →
      ∃ tokens, (item, tokens) ∈ place.state.complete l.table) (item : Nat) (hitem : .reduce item ∈ rest) :=
    hactions item (mem_cons_of_mem _ hitem)
  induction actions generalizing r done with
  | nil => exact ⟨h.sound, .inr h⟩
  | cons action rest ih =>
    have hcursor : (r.stack.top v).cursor = place.cursor := congrArg Place.cursor h.place_eq
    cases action with
    | shift =>
      rw [follow]
      split
      · next state hstate =>
        refine ⟨⟨h.sound.stack.shift ht ?_ ((passes_of_own rfl).2 hstate), h.sound.finished⟩, .inl rfl⟩
        rw [Holds, hcursor]
        exact hlook.token
      · exact ih h (hrest hactions)
    | skip =>
      rw [follow, hextra]
      refine ⟨⟨h.sound.stack.shift ht ?_ ((passes_of_extra rfl).2 rfl), h.sound.finished⟩, .inl rfl⟩
      rw [Holds, hcursor]
      exact hlook.token
    | accept => exact ⟨h.sound.accept v, .inl rfl⟩
    | reduce item => exact ih (h.reduce ht (hactions item mem_cons_self)) (hrest hactions)

theorem Sound.act {look : Lookahead} (h : r.Sound l.table ways fits origin) (hv : v < r.stack.heads.size)
    (hlook : look.Fits fits l.word (r.stack.top v).cursor) : (act l v fuel look r).Sound l.table ways fits origin := by
  induction fuel generalizing look r with
  | zero => exact h.giveUp v look
  | succ fuel ih =>
    have hstart : Follows l ways fits origin (r.stack.top v).place v r .none :=
      ⟨h, hv, rfl, fun _ hnone => by simp [Progress.first] at hnone⟩
    have hactions (item : Nat) (hitem : .reduce item ∈ (r.stack.top v).state.actions l.table look.token) :
        ∃ tokens, (item, tokens) ∈ (r.stack.top v).state.complete l.table := State.complete_of_reduce hitem
    obtain ⟨hsound, hfollows⟩ := hstart.follow ht hlook rfl hactions
    rw [act]
    dsimp only
    split
    · next hfollow =>
      rw [hfollow] at hsound
      exact hsound
    · next hfollow =>
      rw [hfollow] at hsound
      exact ⟨hsound.stack.setStatus v .halted, hsound.finished⟩
    · next after first hfollow =>
      rw [hfollow] at hsound hfollows
      obtain hmoved | hfollows := hfollows
      · simp at hmoved
      obtain ⟨hfirst, head, hget, hoffset⟩ := hfollows.first first rfl
      dsimp only at hget hoffset hfollows
      rw [hget]
      -- the first of the new readings goes on at `v`
      have hhead := hsound.stack.heads head (Array.mem_of_getElem? hget)
      have hlt : first < (after.stack.heads.setIfInBounds v head).size := by
        rw [Array.size_setIfInBounds]
        exact (Array.getElem?_eq_some_iff.1 hget).1
      have herase : (after.stack.heads.setIfInBounds v head).eraseIdxIfInBounds first =
          (after.stack.heads.setIfInBounds v head).eraseIdx first hlt := dif_pos hlt
      have hat : ((after.stack.heads.setIfInBounds v head).eraseIdxIfInBounds first)[v]? = some head := by
        rw [herase, Array.getElem?_eraseIdx_of_lt hlt hfirst, Array.getElem?_setIfInBounds_self_of_lt hfollows.inside]
      refine ih ⟨hsound.stack.setHeads fun other hother => ?_, hsound.finished⟩
        (Array.getElem?_eq_some_iff.1 hat).1 ?_
      · rw [herase] at hother
        obtain hother | rfl := Array.mem_or_eq_of_mem_setIfInBounds (Array.mem_of_mem_eraseIdx hother)
        · exact hsound.stack.heads other hother
        · exact hhead
      · have htop : (Stack.top { after.stack with
            heads := (after.stack.heads.setIfInBounds v head).eraseIdxIfInBounds first } v) = after.stack.node head.node := by
          rw [Stack.top, Array.getD_eq_getD_getElem?, hat]
          rfl
        rw [htop, (hsound.stack.nodes _ hhead).cursor, hoffset]
        exact (h.stack.top v).cursor ▸ hlook
    · next after hfollow =>
      rw [hfollow] at hsound hfollows
      obtain hmoved | hfollows := hfollows
      · simp at hmoved
      have hcursor : (after.stack.top v).cursor = (r.stack.top v).cursor := congrArg Place.cursor hfollows.place_eq
      split
      · next hword =>
        simp only [Bool.and_eq_true] at hword
        refine ih hsound hfollows.inside (hcursor ▸ ⟨hlook.word hword.1.1, hlook.word⟩)
      · exact hsound.giveUp v look

/-! ### Moving along the text -/

section

variable (hscan : l.Scans fits) (h : r.Sound l.table ways fits origin)
include hscan h

theorem Sound.advance (hv : v < r.stack.heads.size) : (r.advance l fuel v).Sound l.table ways fits origin := by
  rw [Readings.advance]
  split
  · exact h.giveUp v none
  · next look hlook => exact h.act ht hv (hscan _ _ look hlook)

theorem Sound.sweep {steps reached : Nat} : (sweep l steps fuel v reached r).1.Sound l.table ways fits origin := by
  induction fuel generalizing v reached r with
  | zero => exact h
  | succ fuel ih =>
    rw [sweep]
    split
    · exact h
    · next hv =>
      split
      · have hadvance : (r.advance l steps v).Sound l.table ways fits origin := h.advance ht hscan (Nat.not_le.1 hv)
        dsimp only
        split <;> exact ih hadvance
      · exact ih h

theorem Sound.run {steps reached : Nat} {d : Derivation} (hrun : run l steps fuel reached r = .ok d) :
    d.Whole l.table ways fits origin := by
  induction fuel generalizing reached r with
  | zero => simp [run] at hrun
  | succ fuel ih =>
    rw [run] at hrun
    have hswept : (Readings.sweep l steps steps 0 reached r).1.Sound l.table ways fits origin := h.sweep ht hscan
    generalize Readings.sweep l steps steps 0 reached r = swept at hswept hrun
    have hcondensed : Sound l.table ways fits origin { swept.1 with stack := swept.1.stack.condense l.table } :=
      ⟨hswept.stack.condense, hswept.finished⟩
    dsimp only at hrun
    split at hrun
    · exact ih hcondensed hrun
    · split at hrun
      · next e he =>
        obtain rfl := Except.ok.inj hrun
        exact hswept.finished e he
      · simp at hrun

end

end

end Readings

/-- What is read of a text is true of it. -/
theorem Reader.read_whole {l : Reader} {ways : List (List Production)} {fits : Nat → Cursor → Nat → Prop}
    (ht : l.table.IsFor ways) (hscan : l.Scans fits) {text : List Char} {d : Derivation} (h : l.read text = .ok d) :
    d.Whole l.table ways fits (.ofText text) := by
  have hinitial : Sound l.table ways fits (.ofText text) ⟨.initial l.table (.ofText text), none⟩ :=
    ⟨Stack.sound_initial ht, fun e he => by simp at he⟩
  exact hinitial.run ht hscan h

end Cartograph.Grammar
