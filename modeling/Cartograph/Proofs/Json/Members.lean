import Cartograph.Json.Read
import Cartograph.Proofs.Lists
import Cartograph.Text.Chars

/-!
# Where the members of an object stand

A reader gives the value of a text and forgets where its parts stood. Here the members of an object are listed
with the places of their keys and contents, a place being the text from there on.

* `passes_value`: what a reader leaves is an end of the text that it was given, so every place that a
  reading passes is a place of the text;
* `eq_members_of_value`: an object that is read has exactly the listed members, in their order.
-/

namespace Cartograph.Json

open List

/-- Reading passes over a part of the text and leaves the rest as it is. -/
def Passes {α : Type} (read : List Char → Reading α) : Prop := ∀ cs a rest, read cs = .ok (a, rest) → rest <:+ cs

/-! ### Lexemes -/

theorem skipGap_suffix (cs : List Char) : skipGap cs <:+ cs := dropWhile_suffix _

variable {cs rest expected place body behind : List Char} {n depth : Nat} {done l : List (Json × Json)}
  {read : List Char → Reading Json} {v w : Json} {m : Member} {s : String}

/-- What stands behind the first character that is no blank. -/
theorem suffix_of_skipGap {c : Char} (h : skipGap cs = c :: rest) : rest <:+ cs :=
  (suffix_cons c rest).trans (h ▸ skipGap_suffix cs)

theorem passes_hexEscape : Passes hexEscape := by
  intro cs n rest h
  unfold hexEscape at h
  repeat' split at h
  all_goals cases h
  exact suffix_append [_, _, _, _] rest

theorem passes_lowSurrogate (high : Nat) : Passes (lowSurrogate high) := by
  intro cs c rest h
  unfold lowSurrogate at h
  split at h
  case h_3 digits =>
    split at h
    · cases h
    · rename_i low behind hdigits
      split at h
      · obtain ⟨-, rfl⟩ := Prod.mk.inj (Except.ok.inj h)
        exact (passes_hexEscape _ _ _ hdigits).trans (suffix_append ['\\', 'u'] digits)
      · cases h
  all_goals cases h

theorem passes_unicodeEscape : Passes unicodeEscape := by
  intro cs c rest h
  unfold unicodeEscape at h
  split at h
  · cases h
  · rename_i hdigits
    have hbehind := passes_hexEscape _ _ _ hdigits
    repeat' split at h
    · cases h
    · exact (passes_lowSurrogate _ _ _ _ h).trans hbehind
    · cases h
      exact hbehind

theorem passes_escapeBody : Passes escapeBody := by
  intro cs c rest h
  unfold escapeBody at h
  split at h
  case h_10 => exact (passes_unicodeEscape _ _ _ h).trans (suffix_cons _ _)
  all_goals cases h
  all_goals exact suffix_cons _ _

theorem suffix_of_quoted {done : List Char} (h : quoted n done cs = .ok (s, rest)) : rest <:+ cs := by
  fun_induction quoted n done cs with
  | case1 | case2 | case4 | case6 => cases h
  | case3 => cases h; exact suffix_cons _ _
  | case5 n done rest' c behind hescape ih =>
    exact ((ih h).trans (passes_escapeBody _ _ _ hescape)).trans (suffix_cons _ _)
  | case7 n done c rest' _ _ _ ih => exact (ih h).trans (suffix_cons _ _)

theorem passes_readText : Passes readText := fun _ _ _ h => suffix_of_quoted h

theorem ident_eq_ok (h : ident v expected cs = .ok (w, rest)) : rest <:+ cs ∧ w = v := by
  fun_induction ident v expected cs with
  | case1 => cases h; exact ⟨suffix_refl _, rfl⟩
  | case2 => cases h
  | case3 _ _ _ ih => exact ⟨(ih h).1.trans (suffix_cons _ _), (ih h).2⟩
  | case4 => cases h

/-! ### Numbers -/

theorem passes_exponent (s : Significand) : Passes (exponent s) := by
  intro cs u rest h
  unfold exponent at h
  split at h
  rename_i negative digits hsign
  have hdigits : digits <:+ cs := by
    revert hsign
    split <;> intro hsign <;> cases hsign
    · exact suffix_cons _ _
    · exact suffix_cons _ _
    · exact suffix_refl _
  split at h
  · cases h
  · rename_i c behind
    have hrest : behind.dropWhile isDigit <:+ cs := ((dropWhile_suffix _).trans (suffix_cons c behind)).trans hdigits
    dsimp only at h
    repeat' split at h
    all_goals cases h
    all_goals exact hrest

theorem passes_exponentPart (s : Significand) : Passes (exponentPart s) := by
  intro cs u rest h
  unfold exponentPart at h
  split at h
  · exact (passes_exponent s _ _ _ h).trans (suffix_cons _ _)
  · exact (passes_exponent s _ _ _ h).trans (suffix_cons _ _)
  · split at h
    · cases h
    · cases h
      exact suffix_refl _

/-- A reading whose result is changed leaves what it left before. -/
theorem exists_of_map_eq_ok {α β : Type} {r : Reading α} {f : α × List Char → β × List Char} {b : β}
    (h : r.map f = .ok (b, rest)) :
    ∃ a behind, r = .ok (a, behind) ∧ f (a, behind) = (b, rest) := by
  cases r with
  | error e => cases h
  | ok r => exact ⟨r.1, r.2, rfl, Except.ok.inj h⟩

theorem passes_fraction (digits : List Char) : Passes (fraction digits) := by
  intro cs isDecimal rest h
  unfold fraction at h
  split at h
  · rename_i behind
    dsimp only at h
    split at h
    · split at h <;> cases h
    · obtain ⟨u, left, hread, hleft⟩ := exists_of_map_eq_ok h
      cases hleft
      exact ((passes_exponentPart _ _ _ _ hread).trans (dropWhile_suffix _)).trans (suffix_cons _ _)
  · obtain ⟨u, left, hread, hleft⟩ := exists_of_map_eq_ok h
    cases hleft
    exact passes_exponentPart _ _ _ _ hread

/-- A number is no object, and reading one leaves an end of the text. -/
theorem readNumber_eq_ok {negative : Bool} (h : readNumber negative cs = .ok (v, rest)) :
    rest <:+ cs ∧ ∀ es, v ≠ object es := by
  unfold readNumber at h
  split at h
  · cases h
  · split at h
    · dsimp only at h
      split at h
      · cases h
      · obtain ⟨isDecimal, left, hread, hleft⟩ := exists_of_map_eq_ok h
        have hsuffix := (passes_fraction _ _ _ _ hread).trans (drop_suffix _ _)
        split at hleft
        · cases hleft
          exact ⟨hsuffix, nofun⟩
        · cases hleft
          refine ⟨hsuffix, fun es hes => ?_⟩
          unfold wholeNumber at hes
          dsimp only at hes
          repeat' split at hes
          all_goals cases hes
    · cases h

/-! ### Containers -/

theorem suffix_of_items (hread : Passes read) {done l : List Json} (h : items read n done cs = .ok (l, rest)) :
    rest <:+ cs := by
  fun_induction items read n done cs with
  | case3 n done cs behind hgap =>
    cases h
    exact suffix_of_skipGap hgap
  | case5 n done cs c behind _ hgap _ v left hvalue ih =>
    exact ((ih h).trans (hread _ _ _ hvalue)).trans (hgap ▸ skipGap_suffix cs)
  | case9 n done cs behind _ v left _ hgap _ _ hvalue ih =>
    exact ((ih h).trans (hread _ _ _ hvalue)).trans ((skipGap_suffix _).trans (suffix_of_skipGap hgap))
  | _ => cases h

/-- An entry is a key, a colon and a value. -/
theorem entry_eq_ok {e : Json × Json} (h : entry strict read cs = .ok (e, rest)) : ∃ key behind content,
      readText cs = .ok (key, behind) ∧ skipGap behind = ':' :: content ∧
      read content = .ok (e.2, rest) ∧ e.1 = .text key := by
  unfold entry at h
  split at h
  · cases h
  · rename_i key behind htext
    obtain ⟨s, left, hread, hleft⟩ := exists_of_map_eq_ok htext
    cases hleft
    split at h
    · cases h
    · rename_i content hcolon
      obtain ⟨v, left, hvalue, hleft⟩ := exists_of_map_eq_ok h
      cases hleft
      exact ⟨s, behind, content, hread, hcolon, hvalue, rfl⟩
    · cases h

/-- The place behind the opening quote of the next key. -/
def nextKey? (cs : List Char) : Option (List Char) :=
  match skipGap cs with
  | '"' :: place => some place
  | ',' :: behind =>
    match skipGap behind with
    | '"' :: place => some place
    | _ => none
  | _ => none

theorem nextKey?_suffix (h : nextKey? cs = some place) : '"' :: place <:+ cs := by
  unfold nextKey? at h
  split at h
  · rename_i hgap
    cases h
    exact hgap ▸ skipGap_suffix cs
  · rename_i behind hgap
    split at h
    · rename_i hgap'
      cases h
      exact (hgap' ▸ skipGap_suffix behind).trans (suffix_of_skipGap hgap)
    · cases h
  · cases h

/-- Reading entries ends at a closing brace, or takes the entry at the next key and goes on. -/
theorem entries_eq_ok {style : Style} (h : entries style read n done cs = .ok (l, rest)) :
    (skipGap cs = '\x7d' :: rest ∧ l = done.reverse) ∨
    ∃ m place e behind, n = m + 1 ∧ nextKey? cs = some place ∧ entry style read place = .ok (e, behind) ∧
      entries style read m (e :: done) behind = .ok (l, rest) := by
  revert h
  fun_cases entries style read n done cs with
  | case3 m done cs behind hgap =>
    intro h
    left
    cases h
    exact ⟨hgap, rfl⟩
  | case5 m done cs place _ e behind hentry _ hgap =>
    intro h
    right
    exact ⟨m, place, e, behind, rfl, by simp only [nextKey?, hgap], hentry, h⟩
  | case9 m done cs behind _ place hgap' e left hentry _ hgap =>
    intro h
    right
    exact ⟨m, place, e, left, rfl, by simp only [nextKey?, hgap, hgap'], hentry, h⟩
  | _ => exact nofun

theorem suffix_of_entries (hread : Passes read) (h : entries strict read n done cs = .ok (l, rest)) : rest <:+ cs := by
  induction n generalizing done cs with
  | zero => cases h
  | succ n ih =>
    obtain ⟨hgap, -⟩ | ⟨m, place, e, left, hm, hkey, hentry, hrest⟩ := entries_eq_ok h
    · exact suffix_of_skipGap hgap
    · cases hm
      obtain ⟨key, behind, content, htext, hcolon, hvalue, -⟩ := entry_eq_ok hentry
      have hcontent : rest <:+ content := (ih hrest).trans (hread _ _ _ hvalue)
      have hplace : content <:+ place := (suffix_of_skipGap hcolon).trans (passes_readText _ _ _ htext)
      exact (hcontent.trans hplace).trans ((suffix_cons _ _).trans (nextKey?_suffix hkey))

/-- A value is a container with a smaller depth for what it holds, or it is read at once and no object. -/
theorem value_eq_ok (h : value strict depth cs = .ok (v, rest)) : (rest <:+ cs ∧ ∀ es, v ≠ object es) ∨
    (∃ n l behind, depth = n + 1 ∧ skipGap cs = '[' :: behind ∧ v = array l ∧
      items (value strict n) (behind.length + 1) [] behind = .ok (l, rest)) ∨
    (∃ n l behind, depth = n + 1 ∧ skipGap cs = '\x7b' :: behind ∧ v = ofEntries l ∧
      entries strict (value strict n) (behind.length + 1) [] behind = .ok (l, rest)) := by
  revert h
  fun_cases value strict depth cs with
  | case2 _ _ _ hgap | case3 _ _ _ hgap | case4 _ _ _ hgap =>
    intro h
    obtain ⟨hrest, rfl⟩ := ident_eq_ok h
    exact .inl ⟨hrest.trans (suffix_of_skipGap hgap), nofun⟩
  | case5 depth cs behind hgap =>
    intro h
    obtain ⟨s, left, hread, hleft⟩ := exists_of_map_eq_ok h
    cases hleft
    exact .inl ⟨(passes_readText _ _ _ hread).trans (suffix_of_skipGap hgap), nofun⟩
  | case6 depth cs behind hgap =>
    intro h
    obtain ⟨hrest, hv⟩ := readNumber_eq_ok h
    exact .inl ⟨hrest.trans (suffix_of_skipGap hgap), hv⟩
  | case8 cs behind hgap n =>
    intro h
    obtain ⟨l, left, hread, hleft⟩ := exists_of_map_eq_ok h
    cases hleft
    exact .inr (.inl ⟨n, l, behind, rfl, hgap, rfl, hread⟩)
  | case10 cs behind hgap n =>
    intro h
    obtain ⟨l, left, hread, hleft⟩ := exists_of_map_eq_ok h
    cases hleft
    exact .inr (.inr ⟨n, l, behind, rfl, hgap, rfl, hread⟩)
  | case11 depth cs c behind _ _ _ _ _ _ _ hgap =>
    intro h
    obtain ⟨hrest, hv⟩ := readNumber_eq_ok (show readNumber false (c :: behind) = _ from h)
    exact .inl ⟨hrest.trans (hgap ▸ skipGap_suffix cs), hv⟩
  | _ => exact nofun

theorem passes_value (depth : Nat) : Passes (value strict depth) := by
  -- what a container holds is read with a smaller depth
  induction depth with
  | zero =>
    intro cs v rest h
    obtain ⟨hrest, -⟩ | ⟨n, _, _, hn, -⟩ | ⟨n, _, _, hn, -⟩ := value_eq_ok h
    · exact hrest
    · cases hn
    · cases hn
  | succ depth ih =>
    intro cs v rest h
    obtain ⟨hrest, -⟩ | ⟨n, l, behind, hn, hgap, -, hitems⟩ | ⟨n, l, behind, hn, hgap, -, hentries⟩ := value_eq_ok h
    · exact hrest
    · cases hn
      exact (suffix_of_items ih hitems).trans (suffix_of_skipGap hgap)
    · cases hn
      exact (suffix_of_entries ih hentries).trans (suffix_of_skipGap hgap)

/-! ### Members -/

/-- A member of an object: the place of its key, from the opening quote on, and that of its value. -/
structure Member where
  place : List Char
  key : String
  content : List Char
  value : Json

/-- The members that are read from a place in an object on. The first argument bounds their number. -/
def members (read : List Char → Reading Json) : Nat → List Char → List Member
  | 0, _ => []
  | n + 1, cs =>
    match nextKey? cs with
    | none => []
    | some place =>
      match readText place with
      | .error _ => []
      | .ok (key, behind) =>
        match skipGap behind with
        | ':' :: content =>
          match read content with
          | .error _ => []
          | .ok (v, rest) => ⟨'"' :: place, key, content, v⟩ :: members read n rest
        | _ => []

/-- The members of the object at a place whose containers nest at most as deep as given. -/
def membersAt : (depth : Nat) → List Char → List Member
  | 0, _ => []
  | depth + 1, cs =>
    match skipGap cs with
    | '{' :: behind => members (Json.value strict depth) (behind.length + 1) behind
    | _ => []

/-- The members are what the reader of entries takes. -/
theorem entries_eq_members (h : entries strict read n done cs = .ok (l, rest)) :
    l = done.reverse ++ (members read n cs).map fun m => (.text m.key, m.value) := by
  induction n generalizing done cs with
  | zero => cases h
  | succ n ih =>
    obtain ⟨hgap, rfl⟩ | ⟨m, place, e, left, hm, hkey, hentry, hrest⟩ := entries_eq_ok h
    · have hkey : nextKey? cs = none := by rw [nextKey?, hgap]; rfl
      simp only [members, hkey, map_nil, append_nil]
    · cases hm
      obtain ⟨key, behind, content, htext, hcolon, hvalue, he⟩ := entry_eq_ok hentry
      rw [ih hrest]
      simp only [members, hkey, htext, hcolon, hvalue, map_cons, reverse_cons, append_assoc, singleton_append, ← he]

theorem ofEntries_members (ms : List Member) :
    ofEntries (ms.map fun m => (.text m.key, m.value)) = object (ms.map fun m => (m.key, m.value)) := by
  rw [ofEntries, mapM_map_eq_some (h := fun m : Member => (m.key, m.value))]
  exact fun _ => rfl

/-- The entries of an object that is read are its members. -/
theorem eq_members_of_value {es : List (String × Json)} (h : value strict depth cs = .ok (.object es, rest)) :
    es = (membersAt depth cs).map fun m => (m.key, m.value) := by
  obtain ⟨-, hv⟩ | ⟨_, _, _, -, -, hv, -⟩ | ⟨n, l, behind, rfl, hgap, hv, hentries⟩ := value_eq_ok h
  · exact absurd rfl (hv es)
  · cases hv
  · have hmembers : membersAt (n + 1) cs = members (value strict n) (behind.length + 1) behind := by
      rw [membersAt, hgap]
      rfl
    rw [entries_eq_members hentries, reverse_nil, nil_append, ofEntries_members, ← hmembers] at hv
    exact Json.object.inj hv

/-- A member stands in a text: its key is read from its place on, then a colon, and behind it the value. -/
structure Member.IsIn (m : Member) (read : List Char → Reading Json) (cs : List Char) : Prop where
  suffix : m.place <:+ cs
  key : ∃ behind, readText m.place.tail = .ok (m.key, behind) ∧ skipGap behind = ':' :: m.content
  value : ∃ rest, read m.content = .ok (m.value, rest)

theorem isIn_of_mem_members (hread : Passes read) (h : m ∈ members read n cs) : m.IsIn read cs := by
  fun_induction members read n cs with
  | case5 n cs place hkey key behind htext content hcolon v rest hvalue ih =>
    have hplace := nextKey?_suffix hkey
    rcases mem_cons.1 h with rfl | h
    · exact ⟨hplace, ⟨behind, htext, hcolon⟩, rest, hvalue⟩
    · have hcontent : content <:+ place := (suffix_of_skipGap hcolon).trans (passes_readText _ _ _ htext)
      have hrest : rest <:+ cs := ((hread _ _ _ hvalue).trans hcontent).trans ((suffix_cons _ _).trans hplace)
      exact { ih h with suffix := (ih h).suffix.trans hrest }
  | _ => cases h

theorem isIn_of_mem_membersAt (h : m ∈ membersAt (depth + 1) cs) : m.IsIn (Json.value strict depth) cs := by
  rw [membersAt] at h
  split at h
  · rename_i behind hgap
    have hin := isIn_of_mem_members (passes_value depth) h
    exact { hin with suffix := hin.suffix.trans (suffix_of_skipGap hgap) }
  · cases h

/-! ### Keys without escapes -/

/-- Whether a member's key is written as it reads, between its quotes. -/
def Member.isPlain (m : Member) : Bool :=
  Text.startsWith ('"' :: m.key.toList ++ ['"']) m.place && m.key.toList.all fun c => c != '"' && c != '\\'

theorem rest_eq_of_quoted {done : List Char} (hbody : body.all (fun c => c != '"' && c != '\\') = true)
    (h : quoted n done (body ++ '"' :: behind) = .ok (s, rest)) : rest = behind := by
  induction body generalizing n done with
  | nil =>
    cases n with
    | zero => cases h
    | succ n => cases h; rfl
  | cons c body ih =>
    obtain ⟨hc, hbody⟩ := Bool.and_eq_true_iff.1 hbody
    obtain ⟨hquote, hslash⟩ := Bool.and_eq_true_iff.1 hc
    cases n with
    | zero => cases h
    | succ n =>
      rw [cons_append, quoted] at h
      · split at h
        · cases h
        · exact ih hbody h
      · simpa using hquote
      · simpa using hslash

/-- Behind a plain key stand the quote that ends it, a gap and the colon. -/
theorem Member.IsIn.place_eq (h : m.IsIn read cs) (hplain : m.isPlain = true) :
    ∃ behind, m.place = '"' :: m.key.toList ++ ['"'] ++ behind ∧ skipGap behind = ':' :: m.content := by
  obtain ⟨hstart, hkey⟩ := Bool.and_eq_true_iff.1 hplain
  obtain ⟨behind, hbehind⟩ := Option.isSome_iff_exists.1 hstart
  have hplace := Text.eq_append_of_dropStart? hbehind
  obtain ⟨rest, htext, hcolon⟩ := h.key
  rw [hplace, cons_append, cons_append, append_assoc, singleton_append] at htext
  exact ⟨behind, hplace, rest_eq_of_quoted hkey htext ▸ hcolon⟩

end Cartograph.Json
