import Cartograph.Grammar.State
import Mathlib.Data.List.Induction

/-!
# Items and productions

An item knows the steps that are left to read but not the symbols that have been read, and items of different productions
share a number where all that is left is the same. What has been read is known only along a path of states. Main
statement: `Table.IsFor.reads_next`. If an item stands in the state behind a symbol, then it is reached by that symbol
from an item of the state before, or it opens a production with it. So the symbols on a path that ends in a complete item
are those of a production of its phrase, with the shapes and roles that the item holds (`Item.Reads`).

The table is built once for a grammar: items are numbered as they come up (`Items.add`), and an item is never moved
(`Items.Extends`).
-/

namespace Cartograph.Grammar

open Item List
open Source (Shape Role)

/-! ### What an item has read -/

/-- What a production asks a step to become in a source tree. -/
def Step.label (s : Step) : Option Shape × Option Role := (s.shape, s.role)

/-- The item has read the given steps of a production of its phrase. `ways` are the productions of all phrases. -/
structure Item.Reads (ways : List (List Production)) (item : Item) (steps : List Step) : Prop where
  way : ∃ productions p, ways[item.phrase]? = some productions ∧ p ∈ productions ∧ p.steps = steps ++ item.rest
  read : item.read = steps.length
  labels : item.labels.reverse = steps.map Step.label

section Reads

variable {ways : List (List Production)} {item : Item}

theorem Item.reads_ofProduction {phrase : Nat} {productions : List Production} {p : Production}
    (hways : ways[phrase]? = some productions) (hp : p ∈ productions) : (ofProduction phrase p).Reads ways [] where
  way := ⟨productions, p, hways, hp, rfl⟩
  read := rfl
  labels := rfl

theorem Item.Reads.advance {steps rest : List Step} {step : Step} (h : item.Reads ways steps)
    (hrest : item.rest = step :: rest) : (item.advance step rest).Reads ways (steps ++ [step]) where
  way := by
    obtain ⟨productions, p, hways, hp, hsteps⟩ := h.way
    refine ⟨productions, p, hways, hp, ?_⟩
    rw [hsteps, hrest, append_assoc]
    rfl
  read := by
    show item.read + 1 = _
    rw [h.read, length_append]
    rfl
  labels := by
    show ((step.shape, step.role) :: item.labels).reverse = _
    rw [reverse_cons, h.labels, map_append]
    rfl

theorem Item.next?_eq_some_iff {symbol : Symbol} :
    item.next? = some symbol ↔ ∃ step rest, item.rest = step :: rest ∧ step.symbol = symbol := by
  rw [next?]
  cases item.rest with
  | nil => simp
  | cons step rest => simp

end Reads

/-! ### Numbered items -/

namespace Items

variable {items a b c : Items}

/-- The number of an item is its place, and the successor of an item with steps left is the item behind the next one. -/
structure Sound (items : Items) : Prop where
  numbered : ∀ (item : Item) (n : Nat), items.number[item]? = some n → items.all[n]? = some item
  aligned : items.successor.size = items.all.size
  followed : ∀ (n : Nat) (item : Item) (step : Step) (rest : List Step), items.all[n]? = some item →
    item.rest = step :: rest →
    ∃ m : Nat, items.successor[n]? = some m ∧ items.all[m]? = some (item.advance step rest)

/-- Items that are there stay where they are. -/
def Extends (before after : Items) : Prop :=
  ∀ (n : Nat) (item : Item), before.all[n]? = some item → after.all[n]? = some item

theorem Extends.refl (items : Items) : Extends items items := fun _ _ h => h

theorem Extends.trans (h : Extends a b) (h' : Extends b c) : Extends a c := fun n item hn => h' n item (h n item hn)

theorem sound_empty : Sound {} where
  numbered item n h := by simp at h
  aligned := rfl
  followed n item step rest h := by simp at h

/-- The items with one more, whose successor is `following`. -/
def push (items : Items) (item : Item) (following : Nat) : Items where
  all := items.all.push item
  number := items.number.insert item items.all.size
  successor := items.successor.push following

section Push

variable {items : Items} {item : Item} {following : Nat}

theorem extends_push : Extends items (items.push item following) := by
  intro n other h
  have hlt := (Array.getElem?_eq_some_iff.1 h).1
  rw [push, Array.getElem?_push, if_neg (Nat.ne_of_lt hlt), h]

theorem getElem?_push_size : (items.push item following).all[items.all.size]? = some item := Array.getElem?_push_size

theorem Sound.push (h : Sound items)
    (hfollowing : ∀ step rest, item.rest = step :: rest →
      (items.push item following).all[following]? = some (item.advance step rest)) :
    Sound (items.push item following) where
  numbered other n hn := by
    rw [Items.push, Std.HashMap.getElem?_insert] at hn
    split at hn
    · next heq =>
      obtain rfl := eq_of_beq heq
      obtain rfl := Option.some.inj hn
      exact getElem?_push_size
    · exact extends_push n other (h.numbered other n hn)
  aligned := by
    simp [Items.push, h.aligned]
  followed n other step rest hn hrest := by
    rw [Items.push, Array.getElem?_push] at hn
    split at hn
    · next hlast =>
      obtain rfl := Option.some.inj hn
      refine ⟨following, ?_, hfollowing step rest hrest⟩
      rw [Items.push, Array.getElem?_push, if_pos (hlast.trans h.aligned.symm)]
    · next hlast =>
      obtain ⟨m, hm, hnext⟩ := h.followed n other step rest hn hrest
      refine ⟨m, ?_, extends_push m _ hnext⟩
      rw [Items.push, Array.getElem?_push, if_neg (h.aligned ▸ hlast), hm]

end Push

/-- What adding an item gives: it stands at the number returned, and nothing else has moved. -/
structure Added (items : Items) (item : Item) (after : Items × Nat) : Prop where
  sound : Sound after.1
  extends_ : Extends items after.1
  found : after.1.all[after.2]? = some item

/-- Items are added from the last step of a production back to the first, so that every successor is there before the item
that it follows. -/
theorem added_add (h : Sound items) (item : Item) : Added items item (items.add item item.rest) := by
  generalize hrest : item.rest = rest
  induction rest generalizing item with
  | nil =>
    rw [add]
    cases hnumber : items.number[item]? with
    | some n => exact ⟨h, .refl items, h.numbered item n hnumber⟩
    | none =>
      exact ⟨h.push fun step rest hcons => absurd (hrest.symm.trans hcons) (by simp), extends_push, getElem?_push_size⟩
  | cons step rest ih =>
    rw [add]
    cases hnumber : items.number[item]? with
    | some n => exact ⟨h, .refl items, h.numbered item n hnumber⟩
    | none =>
      have hnext : Added items (item.advance step rest) (items.add (item.advance step rest) rest) := ih _ rfl
      refine ⟨hnext.sound.push fun step' rest' hcons => ?_, hnext.extends_.trans extends_push, getElem?_push_size⟩
      obtain ⟨rfl, rfl⟩ := cons.inj (hrest.symm.trans hcons)
      exact extends_push _ _ hnext.found

/-- The numbers returned for productions are those of the items at their starts. -/
structure AddedAll (items : Items) (phrase : Nat) (productions : List Production) (after : Items × List Nat) : Prop where
  sound : Sound after.1
  extends_ : Extends items after.1
  found : ∀ n ∈ after.2, ∃ p ∈ productions, after.1.all[n]? = some (.ofProduction phrase p)

theorem addedAll_addAll (h : Sound items) (phrase : Nat) (productions : List Production) :
    AddedAll items phrase productions (items.addAll phrase productions) := by
  induction productions generalizing items with
  | nil => exact ⟨h, .refl items, by simp [addAll]⟩
  | cons p ps ih =>
    have hfirst := added_add h (.ofProduction phrase p)
    have hrest := ih hfirst.sound
    refine ⟨hrest.sound, hfirst.extends_.trans hrest.extends_, fun n hn => ?_⟩
    obtain rfl | hn := mem_cons.1 hn
    · exact ⟨p, mem_cons_self, hrest.extends_ _ _ hfirst.found⟩
    · obtain ⟨q, hq, hfound⟩ := hrest.found n hn
      exact ⟨q, mem_cons_of_mem _ hq, hfound⟩

end Items

/-! ### Tables -/

/-- The production of a whole text, which is one phrase. -/
def goalProduction (start : Nat) : Production := ⟨[{ symbol := .phrase start }], 0⟩

/-- What the table of a grammar is to its productions. -/
structure Table.IsFor (t : Table) (ways : List (List Production)) : Prop where
  followed : ∀ n step rest, (t.item n).rest = step :: rest →
    t.item (t.successor.getD n n) = (t.item n).advance step rest
  opened : ∀ (symbol : Symbol) (p : Nat) (ns : List Nat) (n : Nat), (p, ns) ∈ t.openers.getD symbol [] → n ∈ ns →
    ∃ productions way step rest, ways[p]? = some productions ∧ way ∈ productions ∧ way.steps = step :: rest ∧
      step.symbol = symbol ∧ t.item n = (ofProduction p way).advance step rest
  emptied : ∀ (p n : Nat), (p, n) ∈ t.empties →
    ∃ productions way, ways[p]? = some productions ∧ way ∈ productions ∧ way.steps = [] ∧
      t.item n = ofProduction p way
  goal : ∃ p start productions, ways[p]? = some productions ∧ goalProduction start ∈ productions ∧
    t.item t.goal = ofProduction p (goalProduction start)

namespace Table

/-- The items at the starts of productions, phrase by phrase. -/
def starts (items : Items) (productions : List (List Production)) : Items × Array (List Nat) × Nat :=
  productions.foldl
    (fun (items, starts, p) ways =>
      let (items, ns) := items.addAll p ways
      (items, starts.push ns, p + 1)) (items, (#[] : Array (List Nat)), 0)

/-- Adds what the start of a production opens. -/
def addStart (items : Items) (itemOf : Nat → Item) (p : Nat)
    (found : Std.HashMap Symbol (List (Nat × List Nat)) × List (Nat × Nat)) (n : Nat) :
    Std.HashMap Symbol (List (Nat × List Nat)) × List (Nat × Nat) :=
  match (itemOf n).next? with
  | some s => (addOpener found.1 s p (items.successor.getD n n), found.2)
  | none => (found.1, (p, n) :: found.2)

/-- What the starts of all productions open. -/
def openings (items : Items) (itemOf : Nat → Item) (starts : Array (List Nat)) :
    Std.HashMap Symbol (List (Nat × List Nat)) × List (Nat × Nat) × Nat :=
  starts.foldl
    (fun (openers, empties, p) ns =>
      let (openers, empties) := ns.foldl (addStart items itemOf p) (openers, empties)
      (openers, empties, p + 1)) ({}, [], 0)

/-- The starts of the productions of a phrase stand at its number. -/
structure Numbered (items : Items) (productions : List (List Production)) (after : Items × Array (List Nat) × Nat) :
    Prop where
  sound : after.1.Sound
  extends_ : items.Extends after.1
  size : after.2.1.size = productions.length
  count : after.2.2 = productions.length
  found : ∀ (p : Nat) (ns : List Nat), after.2.1[p]? = some ns → ∀ n ∈ ns,
    ∃ ways way, productions[p]? = some ways ∧ way ∈ ways ∧ after.1.all[n]? = some (.ofProduction p way)

theorem numbered_starts {items : Items} (h : items.Sound) (productions : List (List Production)) :
    Numbered items productions (starts items productions) := by
  -- phrases are added behind those that are there, so the induction is on the end of the list
  induction productions using reverseRecOn with
  | nil => exact ⟨h, .refl items, rfl, rfl, by simp [starts]⟩
  | append_singleton productions ways ih =>
    have hadded := Items.addedAll_addAll ih.sound productions.length ways
    have hstep : starts items (productions ++ [ways]) =
        (((starts items productions).1.addAll productions.length ways).1,
          (starts items productions).2.1.push ((starts items productions).1.addAll productions.length ways).2,
          productions.length + 1) := by
      rw [← ih.count, starts, foldl_append]
      rfl
    rw [hstep]
    refine ⟨hadded.sound, ih.extends_.trans hadded.extends_, ?_, ?_, fun p ns hns n hn => ?_⟩
    · simp [ih.size]
    · simp
    · rw [Array.getElem?_push, ih.size] at hns
      split at hns
      · next hlast =>
        subst hlast
        obtain rfl := Option.some.inj hns
        obtain ⟨way, hway, hfound⟩ := hadded.found n hn
        exact ⟨ways, way, by simp, hway, hfound⟩
      · obtain ⟨others, way, hothers, hway, hfound⟩ := ih.found p ns hns n hn
        refine ⟨others, way, ?_, hway, hadded.extends_ n _ hfound⟩
        rw [List.getElem?_append_left (List.getElem?_eq_some_iff.1 hothers).1, hothers]

/-! ### What productions open -/

theorem mem_addOpener {openers : Std.HashMap Symbol (List (Nat × List Nat))} {symbol s : Symbol}
    {phrase item p n : Nat} {ns : List Nat} (h : (p, ns) ∈ (addOpener openers symbol phrase item).getD s [])
    (hn : n ∈ ns) : (s = symbol ∧ p = phrase ∧ n = item) ∨ ∃ ms, (p, ms) ∈ openers.getD s [] ∧ n ∈ ms := by
  by_cases hs : symbol = s
  · subst hs
    unfold addOpener at h
    split at h
    · next q items rest hopeners =>
      split at h
      · next heq =>
        rw [Std.HashMap.getD_insert_self, mem_cons] at h
        obtain heq' | h := h
        · obtain ⟨rfl, rfl⟩ := Prod.mk.inj heq'
          by_cases hmem : n ∈ items
          · exact .inr ⟨items, hopeners ▸ mem_cons_self, hmem⟩
          · refine .inl ⟨rfl, heq, ?_⟩
            split at hn
            · exact absurd hn hmem
            · simpa [hmem] using hn
        · exact .inr ⟨ns, hopeners ▸ mem_cons_of_mem _ h, hn⟩
      · rw [Std.HashMap.getD_insert_self, mem_cons] at h
        obtain heq' | h := h
        · obtain ⟨rfl, rfl⟩ := Prod.mk.inj heq'
          exact .inl ⟨rfl, rfl, mem_singleton.1 hn⟩
        · exact .inr ⟨ns, hopeners ▸ h, hn⟩
    · rw [Std.HashMap.getD_insert_self, mem_singleton] at h
      obtain ⟨rfl, rfl⟩ := Prod.mk.inj h
      exact .inl ⟨rfl, rfl, mem_singleton.1 hn⟩
  · have hother : (addOpener openers symbol phrase item).getD s [] = openers.getD s [] := by
      unfold addOpener
      split
      · split <;> simp [Std.HashMap.getD_insert, hs]
      · simp [Std.HashMap.getD_insert, hs]
    exact .inr ⟨ns, hother ▸ h, hn⟩

/-- All that has been found comes from starts of productions, which `from_` gives with their phrases. -/
structure OpenedFrom (items : Items) (itemOf : Nat → Item) (from_ : Nat → Nat → Prop)
    (found : Std.HashMap Symbol (List (Nat × List Nat)) × List (Nat × Nat)) : Prop where
  openers : ∀ (symbol : Symbol) (p : Nat) (ns : List Nat) (n : Nat), (p, ns) ∈ found.1.getD symbol [] → n ∈ ns →
    ∃ m, from_ p m ∧ (itemOf m).next? = some symbol ∧ n = items.successor.getD m m
  empties : ∀ (p n : Nat), (p, n) ∈ found.2 → from_ p n ∧ (itemOf n).next? = none

section Openings

variable {items : Items} {itemOf : Nat → Item} {from_ : Nat → Nat → Prop}

theorem OpenedFrom.addStart {found : Std.HashMap Symbol (List (Nat × List Nat)) × List (Nat × Nat)}
    (h : OpenedFrom items itemOf from_ found) {p n : Nat} (hfrom : from_ p n) :
    OpenedFrom items itemOf from_ (addStart items itemOf p found n) := by
  unfold Table.addStart
  cases hnext : (itemOf n).next? with
  | some symbol =>
    refine ⟨fun s q ns m hmem hm => ?_, h.empties⟩
    obtain ⟨rfl, rfl, rfl⟩ | ⟨ms, hms, hm⟩ := mem_addOpener hmem hm
    · exact ⟨n, hfrom, hnext, rfl⟩
    · exact h.openers s q ms m hms hm
  | none =>
    refine ⟨h.openers, fun q m hmem => ?_⟩
    obtain heq | hmem := mem_cons.1 hmem
    · obtain ⟨rfl, rfl⟩ := Prod.mk.inj heq
      exact ⟨hfrom, hnext⟩
    · exact h.empties q m hmem

variable (items itemOf from_) in
theorem openedFrom_openings {starts : Array (List Nat)}
    (hfrom : ∀ (p : Nat) (ns : List Nat), starts[p]? = some ns → ∀ n ∈ ns, from_ p n) :
    OpenedFrom items itemOf from_ ((openings items itemOf starts).1, (openings items itemOf starts).2.1) := by
  have hphrase : ∀ (ns : List Nat) (p : Nat) (found : Std.HashMap Symbol (List (Nat × List Nat)) × List (Nat × Nat)),
      (∀ n ∈ ns, from_ p n) → OpenedFrom items itemOf from_ found →
      OpenedFrom items itemOf from_ (ns.foldl (Table.addStart items itemOf p) found) := by
    intro ns p
    induction ns with
    | nil => exact fun found _ h => h
    | cons n ns ih =>
      intro found hns h
      exact ih _ (forall_mem_cons.1 hns).2 (h.addStart (hns n mem_cons_self))
  have hphrases : ∀ (starts : List (List Nat)) (p : Nat)
      (found : Std.HashMap Symbol (List (Nat × List Nat)) × List (Nat × Nat)),
      (∀ (i : Nat) (ns : List Nat), starts[i]? = some ns → ∀ n ∈ ns, from_ (p + i) n) →
      OpenedFrom items itemOf from_ found →
      let after := starts.foldl
        (fun (openers, empties, p) ns =>
          let (openers, empties) := ns.foldl (Table.addStart items itemOf p) (openers, empties)
          (openers, empties, p + 1)) (found.1, found.2, p)
      OpenedFrom items itemOf from_ (after.1, after.2.1) := by
    intro starts
    induction starts with
    | nil => exact fun p found _ h => h
    | cons ns starts ih =>
      intro p found hstarts h
      refine ih (p + 1) _ (fun i ms hms n hn => ?_) (hphrase ns p found (hstarts 0 ns rfl) h)
      have hfrom' := hstarts (i + 1) ms (by simpa using hms) n hn
      rwa [Nat.add_assoc, Nat.add_comm 1]
  have hempty : OpenedFrom items itemOf from_ ({}, []) := ⟨by simp, by simp⟩
  rw [openings, ← Array.foldl_toList]
  refine hphrases starts.toList 0 ({}, []) (fun i ns hns n hn => ?_) hempty
  rw [Nat.zero_add]
  exact hfrom i ns (by simpa using hns) n hn

end Openings

/-! ### The table of productions -/

section OfProductions

variable (tokens named start : Nat) (productions : List (List Production)) (extras : TokenSet)
  (orders : List (List (Standing Nat)))

/-- The item of a whole text, with all that follows it. -/
def goalItems : Items × Nat :=
  let goal : Item := .ofProduction productions.length (goalProduction start)
  Items.add {} goal goal.rest

/-- The items of a whole text and of all productions. -/
def allItems : Items × Array (List Nat) × Nat := starts (goalItems start productions).1 productions

/-- What the productions open, among these items. -/
def allOpenings : Std.HashMap Symbol (List (Nat × List Nat)) × List (Nat × Nat) × Nat :=
  openings (allItems start productions).1
    (fun n => (allItems start productions).1.all.getD n (.ofProduction productions.length (goalProduction start)))
    (allItems start productions).2.1

/-- The parts of a table that say how its items follow one another. -/
theorem ofProductions_parts :
    let t := ofProductions tokens named start productions extras orders
    t.items = (allItems start productions).1.all ∧ t.successor = (allItems start productions).1.successor ∧
      t.goal = (goalItems start productions).2 ∧ t.openers = (allOpenings start productions).1 ∧
      t.empties = (allOpenings start productions).2.1 :=
  ⟨rfl, rfl, rfl, rfl, rfl⟩

theorem isFor_ofProductions :
    (ofProductions tokens named start productions extras orders).IsFor (productions ++ [[goalProduction start]]) := by
  obtain ⟨hitems, hsuccessor, hgoal, hopeners, hempties⟩ :=
    ofProductions_parts tokens named start productions extras orders
  generalize ofProductions tokens named start productions extras orders = t at *
  have hadded := Items.added_add Items.sound_empty (.ofProduction productions.length (goalProduction start))
  have hall : Numbered (goalItems start productions).1 productions (allItems start productions) :=
    numbered_starts hadded.sound productions
  have hitem {n : Nat} {item : Item} (h : (allItems start productions).1.all[n]? = some item) : t.item n = item := by
    rw [Table.item, hitems, Array.getD_eq_getD_getElem?, h, Option.getD_some]
  have hfollowed (n : Nat) (step : Step) (rest : List Step) (hrest : (t.item n).rest = step :: rest) :
      t.item (t.successor.getD n n) = (t.item n).advance step rest := by
    cases hn : (allItems start productions).1.all[n]? with
    | none =>
      rw [Table.item, hitems, Array.getD_eq_getD_getElem?, hn] at hrest
      exact absurd hrest (by simp [ofProduction])
    | some item =>
      rw [hitem hn] at hrest ⊢
      obtain ⟨m, hm, hnext⟩ := hall.sound.followed n item step rest hn hrest
      rw [hsuccessor, Array.getD_eq_getD_getElem?, hm, Option.getD_some, hitem hnext]
  -- the starts of productions, by their phrases
  have hopened := openedFrom_openings (allItems start productions).1
    (fun n => (allItems start productions).1.all.getD n (.ofProduction productions.length (goalProduction start)))
    (fun p n => ∃ ways way, productions[p]? = some ways ∧ way ∈ ways ∧
      (allItems start productions).1.all[n]? = some (.ofProduction p way)) hall.found
  have hways {p : Nat} {ways : List Production} (h : productions[p]? = some ways) :
      (productions ++ [[goalProduction start]])[p]? = some ways := by
    rw [List.getElem?_append_left (List.getElem?_eq_some_iff.1 h).1, h]
  refine ⟨hfollowed, fun symbol p ns n hns hn => ?_, fun p n hn => ?_, ?_⟩
  · rw [hopeners] at hns
    obtain ⟨m, ⟨ways, way, hp, hway, hm⟩, hnext, rfl⟩ := hopened.openers symbol p ns n hns hn
    rw [Array.getD_eq_getD_getElem?, hm, Option.getD_some] at hnext
    obtain ⟨step, rest, hrest, hsymbol⟩ := next?_eq_some_iff.1 hnext
    have hfollow := hfollowed m step rest (by rw [hitem hm, hrest])
    rw [hsuccessor, hitem hm] at hfollow
    exact ⟨ways, way, step, rest, hways hp, hway, hrest, hsymbol, hfollow⟩
  · rw [hempties] at hn
    obtain ⟨⟨ways, way, hp, hway, hn⟩, hnext⟩ := hopened.empties p n hn
    rw [Array.getD_eq_getD_getElem?, hn, Option.getD_some, Item.next?, Option.map_eq_none_iff,
      head?_eq_none_iff] at hnext
    exact ⟨ways, way, hways hp, hway, hnext, hitem hn⟩
  · refine ⟨productions.length, start, [goalProduction start], by simp, mem_singleton.2 rfl, ?_⟩
    rw [hgoal]
    exact hitem (hall.extends_ _ _ hadded.found)

end OfProductions

end Table

/-! ### States -/

namespace State

variable {n m token : Nat} {tokens set : TokenSet} {t : Table} {entries done : List (Nat × TokenSet)} {s : State}

theorem mem_insert (h : (m, set) ∈ insert n tokens entries) : m = n ∨ ∃ other, (m, other) ∈ entries := by
  induction entries with
  | nil =>
    rw [insert, mem_singleton] at h
    exact .inl (Prod.mk.inj h).1
  | cons entry rest ih =>
    obtain ⟨k, others⟩ := entry
    rw [insert] at h
    split at h
    · obtain heq | h := mem_cons.1 h
      · exact .inl (Prod.mk.inj heq).1
      · exact .inr ⟨set, h⟩
    · split at h
      · obtain heq | h := mem_cons.1 h
        · exact .inr ⟨others, (Prod.mk.inj heq).1 ▸ mem_cons_self⟩
        · exact .inr ⟨set, mem_cons_of_mem _ h⟩
      · obtain heq | h := mem_cons.1 h
        · exact .inr ⟨others, (Prod.mk.inj heq).1 ▸ mem_cons_self⟩
        · obtain heq | ⟨other, hother⟩ := ih h
          · exact .inl heq
          · exact .inr ⟨other, mem_cons_of_mem _ hother⟩

theorem mem_foldl_insert {ns : List Nat} (h : (m, set) ∈ ns.foldl (fun kernel n => insert n tokens kernel) entries) :
    m ∈ ns ∨ ∃ other, (m, other) ∈ entries := by
  induction ns generalizing entries with
  | nil => exact .inr ⟨set, h⟩
  | cons n ns ih =>
    obtain hm | ⟨other, hother⟩ := ih h
    · exact .inl (mem_cons_of_mem _ hm)
    · obtain rfl | hentries := mem_insert hother
      · exact .inl mem_cons_self
      · exact .inr hentries

/-- An item stands in a state. -/
def Holds (s : State) (n : Nat) : Prop := ∃ tokens, (n, tokens) ∈ s.kernel

section Next

variable {t : Table} {s after : State} {symbol : Symbol} {n : Nat} {found kernel ahead : List (Nat × TokenSet)}
  {set : TokenSet}

/-- The items that a symbol moves on. -/
theorem mem_advanced (h : (n, set) ∈ kernel.foldl (fun found (m, tokens) =>
      if (t.item m).next? = some symbol then insert (t.successor.getD m m) tokens found else found) found) :
    (∃ other, (n, other) ∈ found) ∨
      ∃ m tokens, (m, tokens) ∈ kernel ∧ (t.item m).next? = some symbol ∧ n = t.successor.getD m m := by
  induction kernel generalizing found with
  | nil => exact .inl ⟨set, h⟩
  | cons entry kernel ih =>
    obtain ⟨m, tokens⟩ := entry
    obtain ⟨other, hother⟩ | ⟨k, others, hk, hnext, heq⟩ := ih h
    · dsimp only at hother
      split at hother
      · next hnext =>
        obtain heq | hfound := mem_insert hother
        · exact .inr ⟨m, tokens, mem_cons_self, hnext, heq⟩
        · exact .inl hfound
      · exact .inl ⟨other, hother⟩
    · exact .inr ⟨k, others, mem_cons_of_mem _ hk, hnext, heq⟩

/-- The items that open with a symbol. -/
theorem mem_opened {openers : List (Nat × List Nat)} (h : (n, set) ∈ openers.foldl (fun kernel (p, items) =>
      match behind t ahead p with
      | none => kernel
      | some tokens => items.foldl (fun kernel n => insert n tokens kernel) kernel) found) :
    (∃ other, (n, other) ∈ found) ∨ ∃ p ns, (p, ns) ∈ openers ∧ n ∈ ns := by
  induction openers generalizing found with
  | nil => exact .inl ⟨set, h⟩
  | cons opener openers ih =>
    obtain ⟨p, ns⟩ := opener
    obtain ⟨other, hother⟩ | ⟨q, ms, hq, hn⟩ := ih h
    · dsimp only at hother
      split at hother
      · exact .inl ⟨other, hother⟩
      · obtain hn | hfound := mem_foldl_insert hother
        · exact .inr ⟨p, ns, mem_cons_self, hn⟩
        · exact .inl hfound
    · exact .inr ⟨q, ms, mem_cons_of_mem _ hq, hn⟩

/-- The items behind a symbol are those that were before it, moved on, and those of productions that start with it. -/
theorem holds_next (h : s.next t symbol = some after) (hn : after.Holds n) :
    (∃ m, s.Holds m ∧ (t.item m).next? = some symbol ∧ n = t.successor.getD m m) ∨
      ∃ p ns, (p, ns) ∈ t.openers.getD symbol [] ∧ n ∈ ns := by
  unfold next at h
  dsimp only at h
  split at h
  · simp at h
  · obtain rfl := Option.some.inj h
    obtain ⟨set, hset⟩ := hn
    obtain ⟨other, hadvanced⟩ | hopened := mem_opened hset
    · obtain ⟨other, hnil⟩ | ⟨m, tokens, hm, hnext, heq⟩ := mem_advanced hadvanced
      · simp at hnil
      · exact .inl ⟨m, ⟨tokens, hm⟩, hnext, heq⟩
    · exact .inr hopened

end Next

/-- A complete item stands in the state, or it is that of an empty production. -/
theorem mem_complete (h : (n, tokens) ∈ s.complete t) : (t.item n).rest = [] ∧ s.Holds n ∨ ∃ p, (p, n) ∈ t.empties := by
  unfold complete at h
  rw [mem_mergeSort, mem_append] at h
  obtain h | h := h
  · obtain ⟨⟨p, m⟩, hmem, heq⟩ := mem_filterMap.1 h
    obtain ⟨set, -, heq⟩ := Option.map_eq_some_iff.1 heq
    exact .inr ⟨p, (Prod.mk.inj heq).1 ▸ hmem⟩
  · obtain ⟨hmem, hrest⟩ := mem_filter.1 h
    exact .inl ⟨isEmpty_iff.1 hrest, tokens, hmem⟩

theorem reduce_eq_reduction (h : reduction t m = .reduce n) : m = n := by
  unfold reduction at h
  split at h
  · simp at h
  · exact Action.reduce.inj h

/-- Items are reduced only if they are complete. -/
theorem mem_items_of_foldl_add {start : Option Reductions} {r : Reductions}
    (h : done.foldl (fun r (n, _) => Reductions.add t r n) start = some r) (hn : n ∈ r.items) :
    (∃ tokens, (n, tokens) ∈ done) ∨ ∃ first, start = some first ∧ n ∈ first.items := by
  induction done generalizing start with
  | nil => exact .inr ⟨r, h, hn⟩
  | cons entry done ih =>
    obtain ⟨m, tokens⟩ := entry
    obtain ⟨set, hset⟩ | ⟨first, hfirst, hmem⟩ := ih h
    · exact .inl ⟨set, mem_cons_of_mem _ hset⟩
    have hthis (heq : n = m) : ∃ set, (n, set) ∈ (m, tokens) :: done := ⟨tokens, heq ▸ mem_cons_self⟩
    unfold Reductions.add at hfirst
    dsimp only at hfirst
    split at hfirst
    · obtain rfl := Option.some.inj hfirst
      exact .inl (hthis (mem_singleton.1 hmem))
    · next others =>
      split at hfirst
      · obtain rfl := Option.some.inj hfirst
        exact .inl (hthis (mem_singleton.1 hmem))
      · obtain rfl := Option.some.inj hfirst
        exact .inr ⟨others, rfl, hmem⟩
      · obtain rfl := Option.some.inj hfirst
        obtain hmem | hmem := mem_append.1 hmem
        · exact .inr ⟨others, rfl, hmem⟩
        · exact .inl (hthis (mem_singleton.1 hmem))

theorem complete_of_reduce (h : Action.reduce n ∈ s.actions t token) : ∃ tokens, (n, tokens) ∈ s.complete t := by
  have hdone {r : Reductions}
      (hr : ((s.complete t).filter fun (_, tokens) => tokens.mem token).foldl
        (fun r (n, _) => Reductions.add t r n) none = some r)
      (hmem : Action.reduce n ∈ r.items.map (reduction t)) : ∃ tokens, (n, tokens) ∈ s.complete t := by
    obtain ⟨m, hm, heq⟩ := mem_map.1 hmem
    obtain rfl := reduce_eq_reduction heq
    obtain ⟨tokens, htokens⟩ | ⟨first, hfirst, -⟩ := mem_items_of_foldl_add hr hm
    · exact ⟨tokens, (mem_filter.1 htokens).1⟩
    · simp at hfirst
  unfold actions at h
  dsimp only at h
  split at h
  · simp at h
  · split at h <;> simp at h
  · next hr _ => exact hdone hr h
  · next hr _ =>
    split at h
    · exact hdone hr h
    · split at h
      · simp at h
      · exact hdone hr h
      · obtain h | h := mem_append.1 h
        · exact hdone hr h
        · simp at h

end State

/-! ### What is read along a path -/

namespace Table.IsFor

variable {t : Table} {ways : List (List Production)} {s after : State} {n p : Nat}

/-- An item behind a symbol is reached by it, or opens a production with it. -/
theorem reads_next (h : t.IsFor ways) {symbol : Symbol} (hnext : s.next t symbol = some after) (hn : after.Holds n) :
    (∃ m, s.Holds m ∧ (t.item n).read = (t.item m).read + 1 ∧ ∀ steps, (t.item m).Reads ways steps →
      ∃ step : Step, step.symbol = symbol ∧ (t.item n).Reads ways (steps ++ [step])) ∨
    ((t.item n).read = 1 ∧ ∃ step : Step, step.symbol = symbol ∧ (t.item n).Reads ways [step]) := by
  obtain ⟨m, hm, hsymbol, rfl⟩ | ⟨p, ns, hns, hn⟩ := State.holds_next hnext hn
  · obtain ⟨step, rest, hrest, hstep⟩ := next?_eq_some_iff.1 hsymbol
    rw [h.followed m step rest hrest]
    exact .inl ⟨m, hm, rfl, fun steps hreads => ⟨step, hstep, hreads.advance hrest⟩⟩
  · obtain ⟨productions, way, step, rest, hp, hway, hsteps, hstep, hitem⟩ := h.opened symbol p ns n hns hn
    rw [hitem]
    exact .inr ⟨rfl, step, hstep, (reads_ofProduction hp hway).advance hsteps⟩

theorem reads_empty (h : t.IsFor ways) (hn : (p, n) ∈ t.empties) : (t.item n).Reads ways [] ∧ (t.item n).rest = [] := by
  obtain ⟨productions, way, hp, hway, hsteps, hitem⟩ := h.emptied p n hn
  rw [hitem]
  exact ⟨reads_ofProduction hp hway, hsteps⟩

theorem reads_goal (h : t.IsFor ways) : (t.item t.goal).Reads ways [] ∧ (t.item t.goal).rest ≠ [] := by
  obtain ⟨p, start, productions, hp, hgoal, hitem⟩ := h.goal
  rw [hitem]
  exact ⟨reads_ofProduction hp hgoal, by simp [ofProduction, goalProduction]⟩

end Table.IsFor

end Cartograph.Grammar
