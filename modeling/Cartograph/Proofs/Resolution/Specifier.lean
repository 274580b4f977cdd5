import Mathlib.Data.List.Basic
import Cartograph.Proofs.Path.Segments
import Cartograph.Specifier

/-!
# How specifiers are written

A specifier is a path if it starts at the root or with a dot segment (`IsRooted`, `IsRelative`), and bare if it is any
other text but the empty one (`isBare_iff`).

A bare specifier starts with the name of a package. The name has one segment, or two if the specifier opens with the
sign of a scope, and a path inside the package may follow behind a slash (`IsSplit`). A specifier has one such reading,
and it is the one that `split` gives (`split_eq_iff`).
-/

namespace Cartograph

open List Text

/-! ### Characters -/

namespace Text

variable {text : List Char} {c : Char}

theorem startsWith_iff {start : List Char} : startsWith start text = true ↔ ∃ rest, text = start ++ rest := by
  rw [startsWith, Option.isSome_iff_exists]
  constructor
  · rintro ⟨rest, hrest⟩
    exact ⟨rest, eq_append_of_dropStart? hrest⟩
  · rintro ⟨rest, rfl⟩
    exact ⟨rest, dropStart?_append start rest⟩

/-- A text is cut at the first of the characters. -/
theorem cutAt?_eq_some_iff {before after : List Char} :
    cutAt? c text = some (before, after) ↔ text = before ++ c :: after ∧ c ∉ before := by
  induction text generalizing before with
  | nil => simp [cutAt?]
  | cons d text ih =>
    unfold cutAt?
    split
    · next hd =>
      subst hd
      cases before with
      | nil => simp
      | cons b before =>
        simp only [Option.some.injEq, Prod.mk.injEq, nil_eq, reduceCtorEq, false_and, cons_append,
          cons.injEq, mem_cons, not_or, false_iff, not_and]
        exact fun hb hne => absurd hb.1 hne
    · next hd =>
      rw [Option.map_eq_some_iff]
      cases before with
      | nil => simp [hd]
      | cons b before =>
        simp only [Prod.exists, Prod.mk.injEq, cons.injEq, cons_append, mem_cons, not_or]
        constructor
        · rintro ⟨front, rest, hcut, ⟨rfl, rfl⟩, rfl⟩
          obtain ⟨rfl, hmem⟩ := ih.1 hcut
          exact ⟨⟨rfl, rfl⟩, Ne.symm hd, hmem⟩
        · rintro ⟨⟨rfl, rfl⟩, -, hmem⟩
          exact ⟨before, after, ih.2 ⟨rfl, hmem⟩, ⟨rfl, rfl⟩, rfl⟩

theorem cutAt?_eq_none_iff : cutAt? c text = none ↔ c ∉ text := by
  induction text with
  | nil => simp [cutAt?]
  | cons d text ih =>
    unfold cutAt?
    split
    · next hd => simp [hd]
    · next hd => simp [ih, Ne.symm hd]

end Text

/-- A path has one segment more than slashes. -/
theorem Path.length_segments (path : String) : (segments path).length = path.toList.count '/' + 1 := by
  rw [segments, length_map]
  induction path.toList with
  | nil => rfl
  | cons c cs ih =>
    rw [splitOn_cons_eq_if_modifyHead, count_cons]
    split
    · rw [length_cons, ih]
    · rw [length_modifyHead, ih]

namespace Specifier

/-! ### Paths -/

/-- A path from the importing module. -/
def IsRelative (specifier : String) : Prop :=
  specifier = "." ∨ specifier = ".." ∨ (∃ rest, specifier = "./" ++ rest) ∨ ∃ rest, specifier = "../" ++ rest

/-- A path from the root. -/
def IsRooted (specifier : String) : Prop := ∃ rest, specifier = "/" ++ rest

theorem toList_eq_append_iff {text start : String} : (∃ rest, text.toList = start.toList ++ rest) ↔
    ∃ rest, text = start ++ rest := by
  constructor
  · rintro ⟨rest, hrest⟩
    exact ⟨String.ofList rest, String.toList_injective (by rw [hrest]; simp)⟩
  · rintro ⟨rest, rfl⟩
    exact ⟨rest.toList, String.toList_append⟩

variable {specifier name : String} {sub : Option String}

/-- **A bare specifier** is neither empty nor a path. -/
theorem isBare_iff : isBare specifier = true ↔ specifier ≠ "" ∧ ¬IsRelative specifier ∧ ¬IsRooted specifier := by
  have hlist : ∀ text : String, specifier.toList = text.toList ↔ specifier = text := fun text => String.toList_inj
  have hstart : ∀ start : String, startsWith start.toList specifier.toList = true ↔
      ∃ rest, specifier = start ++ rest := fun start => startsWith_iff.trans toList_eq_append_iff
  have hbare : isBare specifier = false ↔ specifier = "" ∨ IsRelative specifier ∨ IsRooted specifier := by
    rw [IsRelative, IsRooted, ← hlist "", ← hlist ".", ← hlist "..", ← hstart "./", ← hstart "../", ← hstart "/", isBare,
      Bool.not_eq_eq_eq_not, Bool.not_false]
    simp only [Bool.or_eq_true, beq_iff_eq, or_assoc]
    rfl
  rw [← Bool.not_eq_false, hbare, not_or, not_or]

/-! ### Names -/

/-- A name as a specifier may start with: of one segment, or of two when the specifier opens with the sign of a
scope. -/
def IsName (specifier name : String) : Prop :=
  name ≠ "" ∧ (Path.segments name).length = if specifier.toList.head? = some '@' then 2 else 1

/-- The readings of a specifier as a name and a path inside the package. -/
inductive IsSplit (specifier : String) : (name : String) → (sub : Option String) → Prop where
  | whole (unsplit : ∀ name rest, IsName specifier name → specifier ≠ name ++ "/" ++ rest) :
      IsSplit specifier specifier none
  | slash {name : String} (named : IsName specifier name) (written : specifier = name ++ "/") :
      IsSplit specifier name none
  | inside {name sub : String} (named : IsName specifier name) (written : specifier = name ++ "/" ++ sub)
      (nonempty : sub ≠ "") : IsSplit specifier name (some sub)

/-- The slash at which a specifier is split, by what stands on both sides. -/
def cutName? (cs : List Char) : Option (List Char × List Char) :=
  match cutAt? '/' cs, cs.head? with
  | some (scope, rest), some '@' => (cutAt? '/' rest).map fun (name, sub) => (scope ++ '/' :: name, sub)
  | cut, _ => cut

theorem splitChars_eq (cs : List Char) :
    splitChars cs =
      match cutName? cs with
      | some (name, sub) => if name.isEmpty then (cs, none) else (name, if sub.isEmpty then none else some sub)
      | none => (cs, none) := rfl

/-- **The slash behind the name** is the first, or the second in a scope. -/
theorem cutName?_eq_some_iff {cs name sub : List Char} :
    cutName? cs = some (name, sub) ↔
      cs = name ++ '/' :: sub ∧ name.count '/' + 1 = if cs.head? = some '@' then 2 else 1 := by
  by_cases hscope : cs.head? = some '@'
  · rw [if_pos hscope, cutName?, hscope]
    constructor
    · intro h
      cases hcut : cutAt? '/' cs with
      | none => rw [hcut] at h; cases h
      | some cut =>
        obtain ⟨scope, rest⟩ := cut
        rw [hcut] at h
        obtain ⟨⟨name', sub'⟩, hrest, heq⟩ := Option.map_eq_some_iff.1 h
        cases heq
        obtain ⟨rfl, hname⟩ := cutAt?_eq_some_iff.1 hrest
        obtain ⟨rfl, hmem⟩ := cutAt?_eq_some_iff.1 hcut
        refine ⟨by simp, ?_⟩
        rw [count_append, count_cons_self, count_eq_zero.2 hmem, count_eq_zero.2 hname]
    · rintro ⟨rfl, hcount⟩
      -- a name with one slash in it is a scope and a rest without one
      have hmem : '/' ∈ name := count_pos_iff.1 (by omega)
      cases hcut : cutAt? '/' name with
      | none => exact absurd hmem (cutAt?_eq_none_iff.1 hcut)
      | some cut =>
        obtain ⟨scope, inner⟩ := cut
        obtain ⟨rfl, hbefore⟩ := cutAt?_eq_some_iff.1 hcut
        have hinner : '/' ∉ inner := by
          rw [count_append, count_cons_self] at hcount
          exact count_eq_zero.1 (by omega)
        have hfirst : cutAt? '/' (scope ++ '/' :: inner ++ '/' :: sub) = some (scope, inner ++ '/' :: sub) :=
          cutAt?_eq_some_iff.2 ⟨by simp, hbefore⟩
        have hsecond : cutAt? '/' (inner ++ '/' :: sub) = some (inner, sub) := cutAt?_eq_some_iff.2 ⟨rfl, hinner⟩
        rw [hfirst]
        simp [hsecond]
  · have hplain : cutName? cs = cutAt? '/' cs := by
      unfold cutName?
      split
      · next h => exact absurd h hscope
      · rfl
    rw [hplain, if_neg hscope, cutAt?_eq_some_iff, Nat.add_eq_right, count_eq_zero]

/-- A reading of a specifier whose name is not empty is the only one. -/
theorem cutName?_of_isName {rest : String} (hname : IsName specifier name) (h : specifier = name ++ "/" ++ rest) :
    cutName? specifier.toList = some (name.toList, rest.toList) := by
  refine cutName?_eq_some_iff.2 ⟨by rw [h]; simp, ?_⟩
  rw [← Path.length_segments]
  exact hname.2

theorem of_cutName? {name rest : List Char} (h : cutName? specifier.toList = some (name, rest)) :
    specifier = String.ofList name ++ "/" ++ String.ofList rest ∧
      (name ≠ [] → IsName specifier (String.ofList name)) := by
  obtain ⟨hchars, hcount⟩ := cutName?_eq_some_iff.1 h
  refine ⟨String.toList_injective (by rw [hchars]; simp), fun hne => ⟨?_, ?_⟩⟩
  · simpa using hne
  · rw [Path.length_segments, String.toList_ofList]
    exact hcount

/-- The reading that `split` gives. -/
theorem isSplit_split (specifier : String) : IsSplit specifier (split specifier).1 (split specifier).2 := by
  rw [split, splitChars_eq]
  cases hcut : cutName? specifier.toList with
  | none =>
    simp only [String.ofList_toList]
    refine .whole fun name rest hname h => ?_
    rw [cutName?_of_isName hname h] at hcut
    cases hcut
  | some cut =>
    obtain ⟨name, rest⟩ := cut
    obtain ⟨hwritten, hnamed⟩ := of_cutName? hcut
    by_cases hempty : name = []
    · simp only [hempty, isEmpty_nil, if_true, String.ofList_toList, Option.map_none]
      -- the text starts with a slash, so every other name would be cut at this slash too
      refine .whole fun other rest' hother h => hother.1 ?_
      rw [cutName?_of_isName hother h, hempty] at hcut
      exact String.toList_eq_nil_iff.1 (Prod.mk.inj (Option.some.inj hcut)).1
    · have hne : name.isEmpty = false := by simpa using hempty
      simp only [hne]
      by_cases hrest : rest = []
      · rw [hrest] at hwritten
        simp only [hrest]
        exact .slash (hnamed hempty) (by simpa using hwritten)
      · have hne : rest.isEmpty = false := by simpa using hrest
        simp only [hne]
        exact .inside (hnamed hempty) hwritten (by simpa using hrest)

/-- There is no other reading. -/
theorem split_of_isSplit (h : IsSplit specifier name sub) : split specifier = (name, sub) := by
  rw [split, splitChars_eq]
  cases h with
  | whole unsplit =>
    cases hcut : cutName? specifier.toList with
    | none => simp
    | some cut =>
      obtain ⟨name, rest⟩ := cut
      obtain ⟨hwritten, hnamed⟩ := of_cutName? hcut
      by_cases hempty : name = []
      · simp [hempty]
      · exact absurd hwritten (unsplit _ _ (hnamed hempty))
  | slash named written =>
    have hcut := @cutName?_of_isName _ _ "" named (by simpa using written)
    have hne : name.toList.isEmpty = false := by simpa using named.1
    simp [hcut, hne]
  | @inside _ sub named written nonempty =>
    have hname : name.toList.isEmpty = false := by simpa using named.1
    have hsub : sub.toList.isEmpty = false := by simpa using nonempty
    simp [cutName?_of_isName named written, hname, hsub]

/-- **A specifier has one reading as a name and a path**, the one that `split` gives. -/
theorem split_eq_iff : split specifier = (name, sub) ↔ IsSplit specifier name sub := by
  refine ⟨fun h => ?_, split_of_isSplit⟩
  have hsplit := isSplit_split specifier
  rwa [h] at hsplit

end Specifier

end Cartograph
