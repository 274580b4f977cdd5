import Mathlib.Data.List.Basic
import Cartograph.Proofs.Json.Scalars
import Cartograph.Proofs.Lists

/-!
# Reading what was written

A value that was written without spaces is read back (`read?_compact`), if it is plain: its numbers are naturals that
fit in sixty-four bits, all of it stands for something, and it nests no deeper than the reader goes. Without the bound
on numbers it may be refused, and what is read otherwise differs from it in those numbers only (`echoed`).

Both are one statement about one induction. A reading `Gives` a value, or fails where it is lax. That holds of items and
entries one after the other when it holds of each, and so of all plain values when it holds of texts and numbers
(`Style.Reads.readsAs_value`).
-/

namespace Cartograph.Json

open List

/-! ### Values -/

mutual

/-- Whether a value can be read back: everything in it stands for something, its numbers are naturals, and
its containers nest at most as deep as given. Unless the reader is lax, the numbers have to fit. -/
def isPlain (lax : Bool) (depth : Nat) : Json → Bool
  | array items => 0 < depth && arePlain lax (depth - 1) items
  | object entries => 0 < depth && entriesArePlain lax (depth - 1) entries
  | number (.ofNat n) => lax || decide (n < 2 ^ 64)
  | number (.negSucc _) => false
  | decimal _ => false
  | flawed => false
  | null => true
  | bool _ => true
  | text _ => true

/-- Whether several values can be read back. -/
def arePlain (lax : Bool) (depth : Nat) : List Json → Bool
  | [] => true
  | v :: rest => isPlain lax depth v && arePlain lax depth rest

/-- Whether the values of entries can be read back. -/
def entriesArePlain (lax : Bool) (depth : Nat) : List (String × Json) → Bool
  | [] => true
  | (_, v) :: rest => isPlain lax depth v && entriesArePlain lax depth rest

end

variable {lax : Bool} {depth limit : Nat} {v w : Json} {rest gap cs : List Char} {spell : Char → List Char} {α : Type}
  {c : Char}

theorem arePlain_iff {vs : List Json} : arePlain lax depth vs = true ↔ ∀ v ∈ vs, isPlain lax depth v = true := by
  induction vs with
  | nil => simp [arePlain]
  | cons v vs ih => simp [arePlain, ih]

theorem entriesArePlain_iff {es : List (String × Json)} :
    entriesArePlain lax depth es = true ↔ ∀ e ∈ es, isPlain lax depth e.2 = true := by
  induction es with
  | nil => simp [entriesArePlain]
  | cons e es ih => simp [entriesArePlain, ih]

theorem isPlain_ofList {encode : α → Json} (depth : Nat) (l : List α)
    (h : ∀ a ∈ l, isPlain lax depth (encode a) = true) :
    isPlain lax (depth + 1) (.ofList encode l) = true := by
  simp only [ofList, isPlain, arePlain_iff, mem_map, Bool.and_eq_true, decide_eq_true_eq]
  refine ⟨Nat.succ_pos depth, ?_⟩
  rintro _ ⟨a, ha, rfl⟩
  exact h a ha

theorem isPlain_mono (hle : depth ≤ limit) (hv : isPlain lax depth v = true) : isPlain lax limit v = true := by
  induction limit using Nat.strongRecOn generalizing depth v with
  | _ limit ih =>
    cases v with
    | array vs =>
      simp only [isPlain, Bool.and_eq_true, decide_eq_true_eq, arePlain_iff] at hv ⊢
      exact ⟨by omega, fun w hw => ih (limit - 1) (by omega) (by omega) (hv.2 w hw)⟩
    | object es =>
      simp only [isPlain, Bool.and_eq_true, decide_eq_true_eq, entriesArePlain_iff] at hv ⊢
      exact ⟨by omega, fun e he => ih (limit - 1) (by omega) (by omega) (hv.2 e he)⟩
    | number n => cases n <;> exact hv
    | _ => exact hv

mutual

/-- What a value is read as. -/
@[simp] def echoed : Json → Json
  | array items => array (echoedItems items)
  | object entries => object (echoedEntries entries)
  | number (.ofNat n) => echo n
  | number (.negSucc n) => number (.negSucc n)
  | decimal l => decimal l
  | flawed => flawed
  | null => null
  | bool b => bool b
  | text s => text s

/-- What several values are read as. -/
@[simp] def echoedItems : List Json → List Json
  | [] => []
  | v :: rest => echoed v :: echoedItems rest

/-- What entries are read as. -/
@[simp] def echoedEntries : List (String × Json) → List (String × Json)
  | [] => []
  | (k, v) :: rest => (k, echoed v) :: echoedEntries rest

end

theorem echoedItems_eq_map (vs : List Json) : echoedItems vs = vs.map echoed := by
  induction vs with
  | nil => rfl
  | cons v vs ih => rw [echoedItems, ih, map_cons]

theorem echoedEntries_eq_map (es : List (String × Json)) : echoedEntries es = es.map fun e => (e.1, echoed e.2) := by
  induction es with
  | nil => rfl
  | cons e es ih => rw [echoedEntries, ih, map_cons]

/-- A value whose numbers fit is read as itself. -/
theorem echoed_eq (hv : isPlain false depth v = true) : echoed v = v := by
  -- each container spends one level of depth
  induction depth using Nat.strongRecOn generalizing v with
  | _ depth ih =>
    cases v with
    | number n =>
      cases n with
      | ofNat n => exact echo_of_lt (by simpa [isPlain] using hv)
      | negSucc n => simp [isPlain] at hv
    | array vs =>
      simp only [isPlain, Bool.and_eq_true, decide_eq_true_eq, arePlain_iff] at hv
      have hvs : ∀ w ∈ vs, echoed w = w := fun w hw => ih (depth - 1) (by omega) (hv.2 w hw)
      rw [echoed, echoedItems_eq_map, map_congr_left hvs, map_id']
    | object es =>
      simp only [isPlain, Bool.and_eq_true, decide_eq_true_eq, entriesArePlain_iff] at hv
      have hes : ∀ e ∈ es, (e.1, echoed e.2) = e := fun e he =>
        congrArg (Prod.mk e.1) (ih (depth - 1) (by omega) (hv.2 e he))
      rw [echoed, echoedEntries_eq_map, map_congr_left hes, map_id']
    | _ => rfl

/-! ### Spelling

A reader may see the characters of a text one by one or byte by byte. What it sees of a character is given by
a function that leaves the characters of ASCII as they are. -/

/-- Whether a spelling leaves the characters of ASCII as they are. -/
def KeepsAscii (spell : Char → List Char) : Prop := ∀ c : Char, c.toNat < 0x80 → spell c = [c]

/-- Whether a text starts with a character that opens a value. -/
def Opens (cs : List Char) : Prop := ∃ c tail, cs = c :: tail ∧ isGap c = false ∧ c ≠ ']' ∧ c ≠ '\x7d'

theorem toNat_lt_of_isDigit (hc : isDigit c = true) : c.toNat < 0x80 := by
  simp only [isDigit, decide_eq_true_eq] at hc
  have := UInt32.le_iff_toNat_le.1 hc.2
  change c.val.toNat < 128
  have h9 : ('9' : Char).val.toNat = 57 := by decide
  omega

/-- The digits of a number start with one. -/
theorem exists_toDigits_eq (n : Nat) : ∃ c cs, Nat.toDigits 10 n = c :: cs ∧ isDigit c = true := by
  cases h : Nat.toDigits 10 n with
  | nil => exact absurd h Nat.toDigits_ne_nil
  | cons c cs => exact ⟨c, cs, rfl, isDigit_of_mem_toDigits (n := n) (by rw [h]; exact mem_cons_self)⟩

theorem opens_spelled (hspell : KeepsAscii spell) (hv : isPlain lax depth v = true) :
    Opens ((compactChars v).flatMap spell) := by
  have hopens (c : Char) (cs : List Char) (hc : c.toNat < 0x80 ∧ isGap c = false ∧ c ≠ ']' ∧ c ≠ '\x7d') :
      Opens ((c :: cs).flatMap spell) := by
    rw [flatMap_cons, hspell c hc.1]
    exact ⟨c, cs.flatMap spell, rfl, hc.2⟩
  cases v with
  | null => exact hopens 'n' _ (by decide)
  | bool b => cases b <;> exact hopens _ _ (by decide)
  | number n =>
    cases n with
    | ofNat n =>
      obtain ⟨c, cs, hdigits, hc⟩ := exists_toDigits_eq n
      have hchars : compactChars (.number (.ofNat n)) = c :: cs := (integer_ofNat n).trans hdigits
      rw [hchars]
      refine hopens c cs ⟨toNat_lt_of_isDigit hc, isGap_of_isDigit hc, ?_, ?_⟩
      all_goals
        rintro rfl
        exact absurd hc (by decide)
    | negSucc n => exact absurd hv Bool.false_ne_true
  | decimal l => exact absurd hv Bool.false_ne_true
  | text s => exact hopens '"' _ (by decide)
  | array items => exact hopens '[' _ (by decide)
  | object entries => exact hopens '\x7b' _ (by decide)
  | flawed => exact absurd hv Bool.false_ne_true

theorem skipGap_cons (h : isGap c = false) (cs : List Char) : skipGap (c :: cs) = c :: cs := by
  simp [skipGap, h]

/-- Whether a text is a gap between lexemes, which may be empty. -/
def IsGap (cs : List Char) : Prop := ∀ c ∈ cs, isGap c = true

theorem isGap_nil : IsGap [] := nofun

theorem skipGap_append (h : IsGap gap) (cs : List Char) : skipGap (gap ++ cs) = skipGap cs :=
  dropWhile_append_of_pos h

theorem ends_comma (rest : List Char) : Ends (',' :: rest) := by
  intro c hc
  exact .inr (.inl (Option.some.inj hc).symm)

theorem ends_bracket (rest : List Char) : Ends (']' :: rest) := by
  intro c hc
  exact .inr (.inr (.inl (Option.some.inj hc).symm))

theorem ends_brace (rest : List Char) : Ends ('\x7d' :: rest) := by
  intro c hc
  exact .inr (.inr (.inr (Option.some.inj hc).symm))

theorem ends_gap (h : IsGap gap) (hrest : Ends rest) : Ends (gap ++ rest) := by
  cases gap with
  | nil => exact hrest
  | cons g gap =>
    intro c hc
    obtain rfl := Option.some.inj hc
    exact .inl (h g mem_cons_self)

theorem ends_nil : Ends [] := by
  intro c hc
  cases hc

theorem ends_behind (chars : α → List Char) (l : List α) (hrest : Ends rest) :
    Ends (l.flatMap (fun a => ',' :: chars a) ++ rest) := by
  cases l with
  | nil => exact hrest
  | cons a l => exact ends_comma _

theorem commaSeparated_cons (a : List Char) (l : List (List Char)) :
    commaSeparated (a :: l) = a ++ l.flatMap (',' :: ·) := by
  induction l generalizing a with
  | nil => simp [commaSeparated]
  | cons b l ih => rw [commaSeparated, ih b, flatMap_cons, cons_append]; simp

theorem length_le_commaSeparated (parts : List (List Char)) (h : ∀ part ∈ parts, part ≠ []) :
    parts.length ≤ (commaSeparated parts).length := by
  cases parts with
  | nil => exact Nat.zero_le _
  | cons part parts =>
    have hpart := length_pos_iff.2 (h part mem_cons_self)
    have hparts : parts.length ≤ (parts.flatMap (',' :: ·)).length := by
      clear hpart h
      induction parts with
      | nil => exact Nat.zero_le _
      | cons p parts ih =>
        rw [flatMap_cons, length_append, length_cons, length_cons]
        omega
    rw [commaSeparated_cons, length_append, length_cons]
    omega

/-- What a reading gives: a value and what is left, or, where it is lax, perhaps a failure. -/
def Gives (lax : Bool) (r : Reading α) (a : α) (rest : List Char) : Prop :=
  r = .ok (a, rest) ∨ lax = true ∧ ∃ f, r = .error f

theorem Gives.map {α β : Type} {r : Reading α} {a : α} (h : Gives lax r a rest) (g : α → β) :
    Gives lax (r.map fun (a, rest) => (g a, rest)) (g a) rest := by
  obtain rfl | ⟨hlax, f, rfl⟩ := h
  · exact .inl rfl
  · exact .inr ⟨hlax, f, rfl⟩

/-- A reader reads a text as a value, whatever ends it. -/
def ReadsAs (lax : Bool) (read : List Char → Reading Json) (cs : List Char) (v : Json) : Prop :=
  Opens cs ∧ ∀ rest, Ends rest → Gives lax (read (cs ++ rest)) v rest

/-! ### Series

The parts of a container are read one after the other. A gap may stand in front of each of them and in front of the
closing bracket. -/

section Series

variable {α β : Type} {loop : Nat → List β → List Char → Reading (List β)} {gap tail : List Char}
  {chars : α → List Char} {image : α → β} {a : α} {r s : Reading α} {l : List α}

/-- A reading goes on as another one, or, where it is lax, perhaps fails. -/
def GoesOn (lax : Bool) (r s : Reading β) : Prop := r = s ∨ lax = true ∧ ∃ f, r = .error f

theorem GoesOn.gives (h : GoesOn lax r s) (hs : Gives lax s a rest) : Gives lax r a rest := by
  obtain rfl | hfails := h
  · exact hs
  · exact .inr hfails

theorem Gives.goesOn (h : Gives lax r a rest) (next : α → List Char → Reading β) :
    GoesOn lax (r.bind fun found => next found.1 found.2) (next a rest) := by
  obtain rfl | ⟨hlax, f, rfl⟩ := h
  · exact .inl rfl
  · exact .inr ⟨hlax, f, rfl⟩

/-- A loop takes a part to those that are done, from behind a comma unless it is the first. -/
structure Takes (lax : Bool) (loop : Nat → List β → List Char → Reading (List β)) (gap : List Char)
    (chars : α → List Char) (image : α → β) (a : α) : Prop where
  nonempty : chars a ≠ []
  first : ∀ n more, Ends more → GoesOn lax (loop (n + 1) [] (gap ++ (chars a ++ more))) (loop n [image a] more)
  next : ∀ n done more, done ≠ [] → Ends more →
    GoesOn lax (loop (n + 1) done (',' :: (gap ++ (chars a ++ more)))) (loop n (image a :: done) more)

/-- The parts behind the first one are read. -/
theorem gives_behind (hend : ∀ n done, loop (n + 1) done tail = .ok (done.reverse, rest)) (htail : Ends tail)
    (hl : ∀ a ∈ l, Takes lax loop gap chars image a) {n : Nat} {done : List β} (hdone : done ≠ [])
    (hn : l.length < n) :
    Gives lax (loop n done (l.flatMap (fun a => ',' :: (gap ++ chars a)) ++ tail)) (done.reverse ++ l.map image)
      rest := by
  induction l generalizing n done with
  | nil =>
    obtain ⟨n, rfl⟩ : ∃ m, n = m + 1 := ⟨n - 1, by simp at hn; omega⟩
    rw [flatMap_nil, nil_append, hend, map_nil, append_nil]
    exact .inl rfl
  | cons a l ih =>
    obtain ⟨n, rfl⟩ : ∃ m, n = m + 1 := ⟨n - 1, by simp at hn; omega⟩
    rw [flatMap_cons, cons_append, cons_append, append_assoc, append_assoc]
    refine ((hl a mem_cons_self).next n done _ hdone (ends_behind (gap ++ chars ·) l htail)).gives ?_
    have hbehind := ih (forall_mem_cons.1 hl).2 (cons_ne_nil (image a) done)
      (by simpa using hn)
    rwa [reverse_cons, append_assoc, singleton_append] at hbehind

/-- **A series is read**, because it is longer than it has parts. -/
theorem gives_commaSeparated (hend : ∀ n done, loop (n + 1) done tail = .ok (done.reverse, rest)) (htail : Ends tail)
    (hl : ∀ a ∈ l, Takes lax loop gap chars image a) :
    Gives lax
      (loop ((commaSeparated (l.map (gap ++ chars ·)) ++ tail).length + 1) []
        (commaSeparated (l.map (gap ++ chars ·)) ++ tail))
      (l.map image) rest := by
  have hlength : l.length ≤ (commaSeparated (l.map (gap ++ chars ·)) ++ tail).length := by
    rw [← length_map (gap ++ chars ·)]
    refine Nat.le_trans (length_le_commaSeparated _ fun part hpart => ?_) (List.IsPrefix.length_le ⟨tail, rfl⟩)
    obtain ⟨a, ha, rfl⟩ := mem_map.1 hpart
    exact append_ne_nil_of_right_ne_nil gap (hl a ha).nonempty
  generalize (commaSeparated (l.map (gap ++ chars ·)) ++ tail).length = n at hlength ⊢
  cases l with
  | nil => exact .inl (hend n [])
  | cons a l =>
    rw [map_cons, commaSeparated_cons, flatMap_map, append_assoc, append_assoc]
    refine ((hl a mem_cons_self).first n _ (ends_behind (gap ++ chars ·) l htail)).gives ?_
    exact gives_behind hend htail (forall_mem_cons.1 hl).2 (cons_ne_nil (image a) []) hlength

end Series

/-! ### Items -/

section Items

variable {lax : Bool} {read : List Char → Reading Json} {chars : Json → List Char} {image : Json → Json}
  {gap closing tail : List Char} {c : Char}

theorem items_end (hclosing : IsGap closing) (n : Nat) (done : List Json) (rest : List Char) :
    items read (n + 1) done (closing ++ ']' :: rest) = .ok (done.reverse, rest) := by
  rw [items, skipGap_append hclosing, skipGap_cons (by decide)]
  rfl

theorem items_first (hgap : IsGap gap) (n : Nat) (hstart : isGap c = false) (hc : c ≠ ']') :
    items read (n + 1) [] (gap ++ c :: tail) =
      (read (c :: tail)).bind fun found => items read n [found.1] found.2 := by
  rw [items, skipGap_append hgap, skipGap_cons hstart]
  split
  next h => cases h
  next h => cases h; exact absurd rfl hc
  next h =>
    cases h
    dsimp only [isEmpty_nil, if_true]
    cases read (c :: tail) <;> rfl

theorem items_comma (hgap : IsGap gap) (n : Nat) {done : List Json} (hdone : done ≠ [])
    (hstart : isGap c = false) (hc : c ≠ ']') :
    items read (n + 1) done (',' :: (gap ++ c :: tail)) =
      (read (c :: tail)).bind fun found => items read n (found.1 :: done) found.2 := by
  rw [items, skipGap_cons (by decide)]
  split
  next h => cases h
  next h => simp at h
  next h =>
    cases h
    simp only [List.isEmpty_iff, hdone, if_false, if_true, skipGap_append hgap, skipGap_cons hstart]
    split
    next h => cases h
    next h => cases h; exact absurd rfl hc
    next => cases read (c :: tail) <;> rfl

theorem takes_items (hgap : IsGap gap) (hv : ReadsAs lax read (chars v) (image v)) :
    Takes lax (items read) gap chars image v := by
  obtain ⟨⟨c, tail, hchars, hstart, hc, -⟩, hread⟩ := hv
  have hstep (more : List Char) (hmore : Ends more) : Gives lax (read (c :: (tail ++ more))) (image v) more := by
    have hnext := hread more hmore
    rwa [hchars] at hnext
  refine ⟨hchars ▸ cons_ne_nil c tail, fun n more hmore => ?_, fun n done more hdone hmore => ?_⟩
  · rw [hchars, cons_append, items_first hgap n hstart hc]
    exact (hstep more hmore).goesOn fun w rest => items read n [w] rest
  · rw [hchars, cons_append, items_comma hgap n hdone hstart hc]
    exact (hstep more hmore).goesOn fun w rest => items read n (w :: done) rest

end Items

/-! ### Entries -/

section Entries

variable {lax : Bool} {style : Style} {read : List Char → Reading Json} {body : String → List Char}
  {chars : Json → List Char} {image : Json → Json} {gap closing : List Char} {e : String × Json}

/-- An entry as it is written, with what stands between the quotes of a text. -/
def entryChars (body : String → List Char) (chars : Json → List Char) (e : String × Json) : List Char :=
  '"' :: (body e.1 ++ '"' :: ':' :: chars e.2)

/-- An entry as it is read, with its key as a value. -/
def keyed (image : Json → Json) (e : String × Json) : Json × Json := (.text e.1, image e.2)

theorem entry_reads (htext : ∀ s rest, Gives lax (style.text (body s ++ '"' :: rest)) (.text s) rest)
    (he : ∀ rest, Ends rest → Gives lax (read (chars e.2 ++ rest)) (image e.2) rest)
    (hrest : Ends rest) :
    Gives lax (entry style read (body e.1 ++ '"' :: ':' :: (chars e.2 ++ rest))) (keyed image e) rest := by
  rw [entry]
  obtain hkey | ⟨hlax, f, hkey⟩ := htext e.1 (':' :: (chars e.2 ++ rest))
  · rw [hkey]
    simp only [skipGap_cons (show isGap ':' = false by decide)]
    exact (he rest hrest).map (Prod.mk (text e.1))
  · rw [hkey]
    exact .inr ⟨hlax, f, rfl⟩

theorem entries_end (hclosing : IsGap closing) (n : Nat) (done : List (Json × Json)) (rest : List Char) :
    entries style read (n + 1) done (closing ++ '\x7d' :: rest) = .ok (done.reverse, rest) := by
  rw [entries, skipGap_append hclosing, skipGap_cons (by decide)]
  rfl

theorem entries_first (hgap : IsGap gap) (n : Nat) (tail : List Char) :
    entries style read (n + 1) [] (gap ++ '"' :: tail) =
      (entry style read tail).bind fun found => entries style read n [found.1] found.2 := by
  rw [entries, skipGap_append hgap, skipGap_cons (by decide)]
  split
  next h => cases h
  next h => simp at h
  next h =>
    cases h
    refine (if_pos rfl).trans ((if_pos rfl).trans ?_)
    cases entry style read tail <;> rfl

theorem entries_comma (hgap : IsGap gap) (n : Nat) {done : List (Json × Json)} (hdone : done ≠ []) (tail : List Char) :
    entries style read (n + 1) done (',' :: (gap ++ '"' :: tail)) =
      (entry style read tail).bind fun found => entries style read n (found.1 :: done) found.2 := by
  have hkey : skipGap (gap ++ '"' :: tail) = '"' :: tail :=
    (skipGap_append hgap _).trans (skipGap_cons (by decide) tail)
  rw [entries, skipGap_cons (by decide)]
  split
  next h => cases h
  next h => simp at h
  next h =>
    cases h
    have hempty : ¬done.isEmpty = true := by simpa using hdone
    refine (if_neg hempty).trans ((if_pos rfl).trans ?_)
    generalize skipGap (gap ++ '"' :: tail) = behind at hkey
    subst hkey
    cases hentry : entry style read tail <;> simp [hentry, Except.bind]

theorem takes_entries (htext : ∀ s rest, Gives lax (style.text (body s ++ '"' :: rest)) (.text s) rest)
    (hgap : IsGap gap)
    (he : ∀ rest, Ends rest → Gives lax (read (chars e.2 ++ rest)) (image e.2) rest) :
    Takes lax (entries style read) gap (entryChars body chars) (keyed image) e := by
  have hchars (more : List Char) :
      entryChars body chars e ++ more = '"' :: (body e.1 ++ '"' :: ':' :: (chars e.2 ++ more)) := by
    rw [entryChars, cons_append, append_assoc, cons_append, cons_append]
  refine ⟨cons_ne_nil _ _, fun n more hmore => ?_, fun n done more hdone hmore => ?_⟩
  · rw [hchars, entries_first hgap]
    exact (entry_reads htext he hmore).goesOn fun e rest => entries style read n [e] rest
  · rw [hchars, entries_comma hgap n hdone]
    exact (entry_reads htext he hmore).goesOn fun e rest => entries style read n (e :: done) rest

theorem ofEntries_keyed (es : List (String × Json)) :
    ofEntries (es.map (keyed image)) = object (es.map fun e => (e.1, image e.2)) := by
  rw [ofEntries, mapM_map_eq_some (g := keyed image) (h := fun e => (e.1, image e.2))]
  exact fun _ => rfl

end Entries

/-! ### Whole values -/

theorem compactItems_eq_map (vs : List Json) : compactItems vs = vs.map compactChars := by
  induction vs with
  | nil => rfl
  | cons v vs ih => rw [compactItems, ih, map_cons]

theorem compactEntries_eq_map (es : List (String × Json)) :
    compactEntries es = es.map (entryChars (·.toList.flatMap escape) compactChars) := by
  induction es with
  | nil => rfl
  | cons e es ih =>
    rw [compactEntries, ih, map_cons, entryChars, quote]
    simp

/-- A style of reading takes texts and numbers for what they are, in a spelling. -/
structure Style.Reads (style : Style) (lax : Bool) (spell : Char → List Char) : Prop where
  ascii : KeepsAscii spell
  text : ∀ (s : String) (rest : List Char),
    Gives lax (style.text ((s.toList.flatMap escape).flatMap spell ++ '"' :: rest)) (.text s) rest
  number : ∀ n, lax = true ∨ n < 2 ^ 64 → ∀ rest, Ends rest →
    Gives lax (style.number false (Nat.toDigits 10 n ++ rest)) (echo n) rest

theorem ascii_of_all (h : cs.all (·.toNat < 0x80) = true) : ∀ c ∈ cs, c.toNat < 0x80 := by
  simpa only [all_eq_true, decide_eq_true_eq] using h

namespace Style.Reads

variable {style : Style} {lax : Bool} {spell : Char → List Char} {es : List (String × Json)}

section

variable (h : style.Reads lax spell)
include h

theorem spell_cons (hc : c.toNat < 0x80) (cs : List Char) : (c :: cs).flatMap spell = c :: cs.flatMap spell := by
  rw [flatMap_cons, h.ascii c hc, singleton_append]

theorem spell_commaSeparated (parts : List (List Char)) :
    (commaSeparated parts).flatMap spell = commaSeparated (parts.map (·.flatMap spell)) := by
  induction parts with
  | nil => rfl
  | cons part parts ih =>
    cases parts with
    | nil => rfl
    | cons next parts =>
      rw [map_cons] at ih
      rw [commaSeparated, flatMap_append, h.spell_cons (by decide), ih]
      · rfl
      · simp

theorem spell_entryChars (body : String → List Char) (chars : Json → List Char) (e : String × Json) :
    (entryChars body chars e).flatMap spell =
      entryChars (fun s => (body s).flatMap spell) (fun v => (chars v).flatMap spell) e := by
  rw [entryChars, entryChars, h.spell_cons (by decide), flatMap_append, h.spell_cons (by decide),
    h.spell_cons (by decide)]

theorem spell_ascii {cs : List Char} (hcs : ∀ c ∈ cs, c.toNat < 0x80) : cs.flatMap spell = cs := by
  rw [flatMap_congr fun c hc => h.ascii c (hcs c hc), flatMap_singleton']

end

/-- A digit starts none of the other values. -/
theorem value_digit (depth : Nat) (hc : isDigit c = true) (tail : List Char) :
    value style depth (c :: tail) = style.number false (c :: tail) := by
  rw [value, skipGap_cons (isGap_of_isDigit hc)]
  split
  all_goals
    rename_i heq
    cases heq
  all_goals first
    | exact absurd hc (by decide)
    | rw [if_pos hc]

/-- An array is read, whatever gaps stand between its items. -/
theorem value_items {closing : List Char} (hgap : IsGap gap) (hclosing : IsGap closing) {chars : Json → List Char}
    {image : Json → Json} {vs : List Json} (hvs : ∀ v ∈ vs, ReadsAs lax (value style depth) (chars v) (image v))
    (rest : List Char) :
    Gives lax
      (value style (depth + 1) ('[' :: (commaSeparated (vs.map (gap ++ chars ·)) ++ (closing ++ ']' :: rest))))
      (array (vs.map image)) rest := by
  have hitems := gives_commaSeparated (fun n done => items_end hclosing n done rest)
    (ends_gap hclosing (ends_bracket rest)) fun v hv => takes_items hgap (hvs v hv)
  rw [value, skipGap_cons (by decide)]
  exact hitems.map array

section

variable (h : style.Reads lax spell)
include h

/-- An object is read, whatever gaps stand between its entries. -/
theorem value_entries {closing : List Char} (hgap : IsGap gap)
    (hclosing : IsGap closing) (chars : Json → List Char) (image : Json → Json)
    (hes : ∀ e ∈ es, ∀ rest, Ends rest →
      Gives lax (value style depth (chars e.2 ++ rest)) (image e.2) rest) (rest : List Char) :
    Gives lax
      (value style (depth + 1) ('\x7b' :: (commaSeparated (es.map (gap ++
        entryChars (fun s => (s.toList.flatMap escape).flatMap spell) chars ·)) ++ (closing ++ '\x7d' :: rest))))
      (object (es.map fun e => (e.1, image e.2))) rest := by
  have hentries := gives_commaSeparated (fun n done => entries_end hclosing n done rest)
    (ends_gap hclosing (ends_brace rest)) fun e he => takes_entries h.text hgap (hes e he)
  rw [value, skipGap_cons (by decide), ← ofEntries_keyed]
  exact hentries.map ofEntries

theorem value_array {vs : List Json}
    (hvs : ∀ v ∈ vs, ReadsAs lax (value style depth) ((compactChars v).flatMap spell) (echoed v)) (rest : List Char) :
    Gives lax (value style (depth + 1) ((compactChars (array vs)).flatMap spell ++ rest))
      (echoed (array vs)) rest := by
  have hspelled : (compactChars (array vs)).flatMap spell ++ rest =
      '[' :: (commaSeparated (vs.map fun v => (compactChars v).flatMap spell) ++ ']' :: rest) := by
    rw [compactChars, h.spell_cons (by decide), flatMap_append, h.spell_commaSeparated,
      compactItems_eq_map, map_map, h.spell_cons (by decide), flatMap_nil, cons_append,
      append_assoc, singleton_append]
    rfl
  rw [hspelled, echoed, echoedItems_eq_map]
  exact value_items isGap_nil isGap_nil hvs rest

theorem value_object
    (hes : ∀ e ∈ es,
      ReadsAs lax (value style depth) ((compactChars e.2).flatMap spell) (echoed e.2)) (rest : List Char) :
    Gives lax (value style (depth + 1) ((compactChars (object es)).flatMap spell ++ rest))
      (echoed (object es)) rest := by
  have hspelled : (compactChars (object es)).flatMap spell ++ rest =
      '\x7b' :: (commaSeparated (es.map (entryChars (fun s => (s.toList.flatMap escape).flatMap spell)
        fun v => (compactChars v).flatMap spell)) ++ '\x7d' :: rest) := by
    rw [compactChars, h.spell_cons (by decide), flatMap_append, h.spell_commaSeparated,
      compactEntries_eq_map, map_map, h.spell_cons (by decide), flatMap_nil, cons_append,
      append_assoc, singleton_append]
    congr 4
    funext e
    exact h.spell_entryChars _ _ e
  rw [hspelled, echoed, echoedEntries_eq_map]
  exact h.value_entries isGap_nil isGap_nil (fun v => (compactChars v).flatMap spell) echoed
    (fun e he => (hes e he).2) rest

theorem value_scalar (hv : isPlain lax depth v = true) (harray : ∀ vs, v ≠ array vs) (hobject : ∀ es, v ≠ object es)
    (hrest : Ends rest) : Gives lax (value style depth ((compactChars v).flatMap spell ++ rest)) (echoed v) rest := by
  cases v with
  | null => rw [h.spell_ascii (ascii_of_all (by decide)), value]; exact .inl rfl
  | bool b => cases b <;> (rw [h.spell_ascii (ascii_of_all (by decide)), value]; exact .inl rfl)
  | number n =>
    cases n with
    | ofNat n =>
      have hchars : compactChars (.number (.ofNat n)) = Nat.toDigits 10 n := integer_ofNat n
      obtain ⟨c, tail, hdigits, hc⟩ := exists_toDigits_eq n
      have hread := h.number n (by simpa [isPlain] using hv) rest hrest
      rw [hchars, h.spell_ascii fun c hc => toNat_lt_of_isDigit (isDigit_of_mem_toDigits hc)]
      rw [hdigits, cons_append] at hread ⊢
      rw [value_digit depth hc]
      exact hread
    | negSucc n => simp [isPlain] at hv
  | decimal l => simp [isPlain] at hv
  | flawed => simp [isPlain] at hv
  | text s =>
    have hspelled : (compactChars (.text s)).flatMap spell ++ rest =
        '"' :: ((s.toList.flatMap escape).flatMap spell ++ '"' :: rest) := by
      change (quote s).flatMap spell ++ rest = _
      rw [quote, h.spell_cons (by decide), flatMap_append, h.spell_cons (by decide),
        flatMap_nil, cons_append, append_assoc, singleton_append]
    rw [hspelled, value, skipGap_cons (by decide)]
    exact h.text s rest
  | array vs => exact absurd rfl (harray vs)
  | object es => exact absurd rfl (hobject es)

/-- **Every plain value is read from its compact text**, whatever ends it there. -/
theorem readsAs_value (hv : isPlain lax depth v = true) :
    ReadsAs lax (value style depth) ((compactChars v).flatMap spell) (echoed v) := by
  -- each container spends one level of depth, so the induction is on the depth
  induction depth using Nat.strongRecOn generalizing v with
  | _ depth ih =>
    refine ⟨opens_spelled h.ascii hv, fun rest hrest => ?_⟩
    by_cases harray : ∃ vs, v = array vs
    · obtain ⟨vs, rfl⟩ := harray
      simp only [isPlain, Bool.and_eq_true, decide_eq_true_eq, arePlain_iff] at hv
      obtain ⟨d, rfl⟩ : ∃ d, depth = d + 1 := ⟨depth - 1, by omega⟩
      exact h.value_array (fun w hw => ih d (by omega) (hv.2 w hw)) rest
    by_cases hobject : ∃ es, v = object es
    · obtain ⟨es, rfl⟩ := hobject
      simp only [isPlain, Bool.and_eq_true, decide_eq_true_eq, entriesArePlain_iff] at hv
      obtain ⟨d, rfl⟩ : ∃ d, depth = d + 1 := ⟨depth - 1, by omega⟩
      exact h.value_object (fun e he => ih d (by omega) (hv.2 e he)) rest
    exact h.value_scalar hv (fun vs hvs => harray ⟨vs, hvs⟩) (fun es hes => hobject ⟨es, hes⟩) hrest

end

end Style.Reads

/-! ### Strict reading -/

/-- Strictly read, texts are themselves and numbers that fit are themselves. -/
theorem reads_strict (lax : Bool) : strict.Reads lax fun c => [c] where
  ascii _ _ := rfl
  text s rest := by
    rw [flatMap_singleton', strict]
    exact Gives.map (.inl (readText_escape s rest)) text
  number n hn rest hrest := by
    have hread := readNumber_toDigits n hrest
    rw [strict, echo]
    split at hread
    next hlarge =>
      -- too large a number is refused, so the reader has to be lax
      obtain hlax | hn := hn
      · exact .inr ⟨hlax, _, hread⟩
      · rw [isTooLarge_of_lt hn] at hlarge
        cases hlarge
    next hlarge =>
      rw [if_neg hlarge]
      exact .inl hread

/-- What is read of the compact text of a plain value, if anything, is what it echoes. -/
theorem gives_whole {style : Style} (h : style.Reads lax spell) (hv : isPlain lax depth v = true) :
    whole style depth ((compactChars v).flatMap spell) = .ok (echoed v) ∨
      lax = true ∧ ∃ f, whole style depth ((compactChars v).flatMap spell) = .error f := by
  have hread := (h.readsAs_value hv).2 [] ends_nil
  rw [append_nil] at hread
  rw [whole]
  obtain hread | ⟨hlax, f, hread⟩ := hread
  · rw [hread]
    exact .inl rfl
  · rw [hread]
    exact .inr ⟨hlax, f, rfl⟩

theorem whole_strict (hv : isPlain lax depthLimit v = true) :
    readChars (compactChars v) = .ok (echoed v) ∨ lax = true ∧ ∃ f, readChars (compactChars v) = .error f := by
  have hwhole := gives_whole (reads_strict lax) hv
  rwa [flatMap_singleton'] at hwhole

/-- **The compact text of a value whose numbers fit is read as that value.** -/
theorem read?_compact (hv : isPlain false depthLimit v = true) : read? v.compact = some v := by
  rw [read?, compact, String.toList_ofList]
  obtain hread | ⟨h, -⟩ := whole_strict hv
  · rw [hread, echoed_eq hv]
    rfl
  · cases h

/-- Two such values with one compact text are one value. -/
theorem compact_injOn (hv : isPlain false depthLimit v = true) (hw : isPlain false depthLimit w = true)
    (h : v.compact = w.compact) : v = w := by
  have hread := read?_compact hv
  rw [h, read?_compact hw] at hread
  exact (Option.some.inj hread).symm

end Cartograph.Json
