import Cartograph.Glob.Pattern
import Cartograph.Proofs.Glob.Matching
import Cartograph.Proofs.Path.Containment
import Cartograph.Proofs.Resolution.Specifier

/-!
# What a pattern matches

A pattern matches by its tokens, and a pattern `dir/**` also claims what starts with the name of the directory. Main
statement: `Pattern.matches_meaning`. The tokens of a compiled pattern are aligned, so the search among them loses no
match. The claim makes a difference only for patterns like `dir//**`, whose tokens ask for two slashes: where one slash
stands before the stars, the tokens are the characters of the directory, a slash and a recursive wildcard
(`compile_directory`), and match what the pattern claims.
-/

namespace Cartograph.Glob

open List Text

variable {rest front ending after : List Char} {tokens done : List Token} {source path : String} {pattern p : Pattern}

/-! ### Compiled patterns -/

/-- What compiling keeps: the tokens so far, last first, are aligned, and a position that opens a component lets a recursive
wildcard follow. -/
structure Prepared (atStart : Bool) (done : List Token) : Prop where
  aligned : Aligned done.reverse
  opens : atStart = true → ∀ token, done.head? = some token → token = .literal '/' ∨ token = .recursive

namespace Prepared

variable {atStart opening : Bool} {done : List Token} {token : Token}

theorem cons (h : Prepared atStart done) (hrec : token = .recursive → atStart = true)
    (hopening : opening = true → token = .literal '/' ∨ token = .recursive) : Prepared opening (token :: done) where
  aligned := by
    rw [Aligned, reverse_cons, isChain_append]
    refine ⟨h.aligned, isChain_singleton _, fun before hbefore next hnext heq => ?_⟩
    rw [getLast?_reverse] at hbefore
    have htoken : token = next := by simpa using hnext
    exact h.opens (hrec (htoken.trans heq)) before hbefore
  opens hopen _ heq := Option.some.inj heq ▸ hopening hopen

theorem cons_other (h : Prepared atStart done) (hne : token ≠ .recursive) : Prepared false (token :: done) :=
  h.cons (fun hrec => absurd hrec hne) fun hfalse => absurd hfalse Bool.false_ne_true

theorem pushRecursive (h : Prepared true done) : Prepared true (pushRecursive done) := by
  unfold Glob.pushRecursive
  split
  · exact h
  · exact h.cons (fun _ => rfl) fun _ => .inr rfl

end Prepared

theorem classToken?_ne_recursive {token : Token} (h : classToken? rest = some (token, after)) : token ≠ .recursive := by
  unfold classToken? at h
  split at h
  all_goals
    obtain ⟨p, -, hp⟩ := Option.map_eq_some_iff.1 h
    obtain ⟨rfl, -⟩ := Prod.mk.inj hp
    simp

variable {text dir : List Char}

theorem compileFrom_aligned {fuel position : Nat} {atStart : Bool}
    (hdone : Prepared atStart done) (h : compileFrom fuel position atStart done text = .ok tokens) :
    Aligned tokens := by
  fun_induction compileFrom fuel position atStart done text with
  | case1 => exact Except.ok.inj h ▸ hdone.aligned
  | case2 => exact Except.ok.inj h ▸ hdone.aligned
  | case3 fuel position atStart done rest ih => exact ih (hdone.cons_other (by simp)) h
  | case4 => simp at h
  | case5 fuel position atStart done rest stars after _ _ ih => exact ih (hdone.cons_other (by simp)) h
  | case6 => simp at h
  | case7 fuel position atStart done rest stars after _ _ hstart _ =>
    obtain rfl : atStart = true := by simpa using hstart
    exact Except.ok.inj h ▸ hdone.pushRecursive.aligned
  | case8 fuel position atStart done rest stars after _ _ hstart tail _ ih =>
    obtain rfl : atStart = true := by simpa using hstart
    exact ih hdone.pushRecursive h
  | case9 => simp at h
  | case10 fuel position atStart done rest token after hclass ih =>
    exact ih (hdone.cons_other (classToken?_ne_recursive hclass)) h
  | case11 => simp at h
  | case12 fuel position atStart done rest c _ _ _ ih =>
    exact ih (hdone.cons (by simp) fun hc => .inl (congrArg _ (eq_of_beq hc))) h

theorem Pattern.ofString_eq_ok (h : Pattern.ofString source = .ok pattern) :
    pattern.source = source ∧ compile source.toList = .ok pattern.tokens := by
  unfold Pattern.ofString at h
  split at h
  · simp at h
  · split at h
    · next tokens hcompile =>
      obtain rfl := Except.ok.inj h
      exact ⟨rfl, hcompile⟩
    · simp at h

theorem Pattern.aligned (h : Pattern.ofString source = .ok pattern) : Aligned pattern.tokens :=
  have hstart : Prepared true [] := ⟨List.IsChain.nil, by simp⟩
  compileFrom_aligned hstart (Pattern.ofString_eq_ok h).2

/-! ### Patterns of whole directories -/

/-- A text without the characters that open wildcards and classes. -/
def IsPlain (text : List Char) : Prop := ∀ c ∈ text, c ≠ '*' ∧ c ≠ '?' ∧ c ≠ '['

instance (text : List Char) : Decidable (IsPlain text) := List.decidableBAll _ text

theorem compileFrom_plain (h : IsPlain text) (rest : List Char) (fuel position : Nat) (atStart : Bool)
    (done : List Token) :
    compileFrom (text.length + fuel) position atStart done (text ++ rest) =
      compileFrom fuel (position + text.length) ((text.getLast?.map (· == '/')).getD atStart)
        ((text.map Token.literal).reverse ++ done) rest := by
  induction text generalizing position atStart done with
  | nil => simp
  | cons c text ih =>
    obtain ⟨hc, htext⟩ := forall_mem_cons.1 h
    rw [length_cons, Nat.add_right_comm, cons_append, compileFrom, ih htext]
    · congr 1
      · omega
      · cases text <;> simp [getLast?_cons]
      · simp
    all_goals simp_all

/-- A directory without wildcards and the stars behind it compile to its characters, a slash and a recursive wildcard. -/
theorem compile_directory (h : IsPlain dir) :
    compile (dir ++ "/**".toList) = .ok ((dir ++ ['/']).map Token.literal ++ [.recursive]) := by
  have hslash : IsPlain (dir ++ ['/']) := forall_mem_append.2 ⟨h, (by decide : IsPlain ['/'])⟩
  have hlength : (dir ++ "/**".toList).length = (dir ++ ['/']).length + 2 := by simp
  have htext : dir ++ "/**".toList = (dir ++ ['/']) ++ ['*', '*'] := by simp
  rw [compile, hlength, htext, compileFrom_plain hslash]
  simp [compileFrom, pushRecursive]

theorem splits_literals_iff : Splits (front.map Token.literal ++ [.recursive]) text ↔ ∃ rest, text = front ++ rest := by
  induction front generalizing text with
  | nil =>
    refine ⟨fun _ => ⟨text, rfl⟩, fun _ => ?_⟩
    exact Splits.recursive_of_nil .nil text
  | cons c front ih =>
    rw [map_cons, cons_append, splits_one_iff rfl]
    constructor
    · rintro ⟨d, rest, rfl, hd, hrest⟩
      obtain ⟨rest, rfl⟩ := ih.1 hrest
      exact ⟨rest, by rw [eq_of_beq hd, cons_append]⟩
    · rintro ⟨rest, rfl⟩
      exact ⟨c, front ++ rest, rfl, beq_self_eq_true c, ih.2 ⟨rest, rfl⟩⟩

/-- The pattern is a directory without wildcards, slashes, and `/**`, and the path lies below that directory as text. -/
def Claims (source path : List Char) : Prop :=
  ∃ dir slashes rest, source = dir ++ slashes ++ "/**".toList ∧ (∀ c ∈ slashes, c = '/') ∧
    dir.getLast? ≠ some '/' ∧ IsPlain dir ∧ path = dir ++ '/' :: rest

theorem dropEnd?_eq_some_iff : dropEnd? ending text = some rest ↔ text = rest ++ ending := by
  rw [dropEnd?, Option.map_eq_some_iff]
  constructor
  · rintro ⟨front, h, rfl⟩
    rw [← reverse_reverse text, eq_append_of_dropStart? h, reverse_append, reverse_reverse]
  · rintro rfl
    exact ⟨rest.reverse, by rw [reverse_append, dropStart?_append], reverse_reverse rest⟩

theorem dropEndWhile_append {p : Char → Bool} (hending : ∀ c ∈ ending, p c = true)
    (htext : ∀ c, text.getLast? = some c → p c = false) : dropEndWhile p (text ++ ending) = text := by
  have hdrop : text.reverse.dropWhile p = text.reverse := by
    cases hrev : text.reverse with
    | nil => rfl
    | cons c rest =>
      have hlast : text.getLast? = some c := by rw [getLast?_eq_head?_reverse, hrev, head?_cons]
      rw [dropWhile_cons_of_neg (by simp [htext c hlast])]
  rw [dropEndWhile, reverse_append, dropWhile_append_of_pos (by simpa using hending), hdrop, reverse_reverse]

theorem exists_dropEndWhile (p : Char → Bool) (text : List Char) :
    ∃ ending, text = dropEndWhile p text ++ ending ∧ (∀ c ∈ ending, p c = true) ∧
      ∀ c, (dropEndWhile p text).getLast? = some c → p c = false := by
  refine ⟨(text.reverse.takeWhile p).reverse, ?_, fun c hc => ?_, fun c hc => ?_⟩
  · rw [dropEndWhile, ← reverse_append, takeWhile_append_dropWhile, reverse_reverse]
  · exact all_eq_true.1 all_takeWhile c (mem_reverse.1 hc)
  · rw [dropEndWhile, getLast?_reverse] at hc
    have hnot := head?_dropWhile_not p text.reverse
    rw [hc] at hnot
    exact hnot

theorem any_eq_false_iff_isPlain : (dir.any fun c => c == '*' || c == '?' || c == '[') = false ↔ IsPlain dir := by
  simp [IsPlain, any_eq_false, and_assoc]

theorem Pattern.claimed?_eq_some_iff :
    p.claimed? = some dir ↔ ∃ slashes, p.source.toList = dir ++ slashes ++ "/**".toList ∧ (∀ c ∈ slashes, c = '/') ∧
      dir.getLast? ≠ some '/' ∧ IsPlain dir := by
  constructor
  · intro h
    unfold claimed? at h
    split at h
    · simp at h
    · next front hfront =>
      obtain ⟨slashes, heq, hslashes, hlast⟩ := exists_dropEndWhile (· == '/') front
      dsimp only at h
      split at h
      · simp at h
      · next hany =>
        obtain rfl := Option.some.inj h
        refine ⟨slashes, ?_, fun c hc => eq_of_beq (hslashes c hc), fun hslash => ?_, ?_⟩
        · rw [dropEnd?_eq_some_iff.1 hfront, ← heq]
          rfl
        · exact absurd (hlast _ hslash) (by decide)
        · exact any_eq_false_iff_isPlain.1 (by simpa using hany)
  · rintro ⟨slashes, hsource, hslashes, hlast, hplain⟩
    have hfront : dropEnd? ['/', '*', '*'] p.source.toList = some (dir ++ slashes) := dropEnd?_eq_some_iff.2 hsource
    have hdir : dropEndWhile (· == '/') (dir ++ slashes) = dir := by
      refine dropEndWhile_append (fun c hc => beq_iff_eq.2 (hslashes c hc)) fun c hc => beq_eq_false_iff_ne.2 ?_
      rintro rfl
      exact hlast hc
    simp [claimed?, hfront, hdir, any_eq_false_iff_isPlain.2 hplain]

theorem Pattern.matches_eq_true_iff :
    p.matches path = true ↔ run p.tokens path.toList = .matched ∨ Claims p.source.toList path.toList := by
  have hclaims : Claims p.source.toList path.toList ↔
      ∃ dir, p.claimed? = some dir ∧ startsWith (dir ++ ['/']) path.toList = true := by
    simp only [claimed?_eq_some_iff, startsWith_iff, append_assoc]
    constructor
    · rintro ⟨dir, slashes, rest, hsource, hslashes, hlast, hplain, hpath⟩
      exact ⟨dir, ⟨slashes, by simpa using hsource, hslashes, hlast, hplain⟩, rest, hpath⟩
    · rintro ⟨dir, ⟨slashes, hsource, hslashes, hlast, hplain⟩, rest, hpath⟩
      exact ⟨dir, slashes, rest, by simpa using hsource, hslashes, hlast, hplain, hpath⟩
  rw [Pattern.matches, Bool.or_eq_true, hclaims]
  cases p.claimed? <;> simp

/-! ### The meaning of patterns -/

/-- Where no slash stands before the stars, what is claimed is what the tokens match. -/
theorem Claims.splits {path : List Char} (h : Claims (front ++ "/**".toList) path)
    (hlast : front.getLast? ≠ some '/') (hcompile : compile (front ++ "/**".toList) = .ok tokens) :
    Splits tokens path := by
  obtain ⟨dir, slashes, rest, hsource, hslashes, -, hplain, rfl⟩ := h
  have hfront : front = dir ++ slashes := append_cancel_right hsource
  have hnone : slashes = [] := by
    by_contra hne
    refine hlast ?_
    rw [hfront, getLast?_append_of_ne_nil _ hne, getLast?_eq_some_getLast hne, hslashes _ (getLast_mem hne)]
  subst hnone
  rw [append_nil] at hfront
  subst hfront
  rw [compile_directory hplain] at hcompile
  obtain rfl := Except.ok.inj hcompile
  exact splits_literals_iff.2 ⟨rest, by simp⟩

theorem exists_ofString_directory {dir : String} (h : IsPlain dir.toList) :
    ∃ pattern, Pattern.ofString (dir ++ "/**") = .ok pattern ∧
      pattern.tokens = (dir.toList ++ ['/']).map Token.literal ++ [.recursive] := by
  have hne : dir ++ "/**" ≠ "" := by simp
  refine ⟨⟨dir ++ "/**", (dir.toList ++ ['/']).map Token.literal ++ [.recursive]⟩, ?_, rfl⟩
  rw [Pattern.ofString, if_neg hne, String.toList_append, compile_directory h]

/-- Strictly below a directory other than the root. -/
theorem isWithin_and_ne_iff {dir : String} (h : dir ≠ "") :
    Path.isWithin path dir = true ∧ path ≠ dir ↔ ∃ tail, path = dir ++ "/" ++ tail := by
  rw [Path.isWithin_cases]
  constructor
  · rintro ⟨hempty | heq | htail, hne⟩
    · exact absurd hempty h
    · exact absurd heq hne
    · exact htail
  · rintro ⟨tail, rfl⟩
    refine ⟨.inr (.inr ⟨tail, rfl⟩), fun heq => ?_⟩
    have hlength := congrArg String.length heq
    simp only [String.length_append] at hlength
    have hslash : "/".length = 1 := rfl
    omega

/-- **What a pattern matches.** A path is matched if it splits into pieces for the tokens of the pattern, for the search
loses none of these, or if the pattern claims it for the directory that it names. The claim adds nothing unless a slash
stands before the last one; and for a directory without wildcards the pattern `dir/**` is accepted and matches what lies
below the directory. The root has no name to stand before the slash, and `/**` matches what starts with one. -/
theorem Pattern.matches_meaning (source path : String) :
    (∀ pattern, Pattern.ofString source = .ok pattern →
      (run pattern.tokens path.toList = .matched ↔ Splits pattern.tokens path.toList) ∧
      (pattern.matches path = true ↔ Splits pattern.tokens path.toList ∨ Claims source.toList path.toList) ∧
      ∀ front, source = front ++ "/**" → front.toList.getLast? ≠ some '/' →
        (pattern.matches path = true ↔ Splits pattern.tokens path.toList)) ∧
    ∀ dir, source = dir ++ "/**" → IsPlain dir.toList → dir.toList.getLast? ≠ some '/' →
      ∃ pattern, Pattern.ofString source = .ok pattern ∧
        (pattern.matches path = true ↔ ∃ tail, path = dir ++ "/" ++ tail) ∧
        (dir ≠ "" → (pattern.matches path = true ↔ Path.isWithin path dir = true ∧ path ≠ dir)) := by
  have hmeaning : ∀ pattern, Pattern.ofString source = .ok pattern →
      (pattern.matches path = true ↔ Splits pattern.tokens path.toList ∨ Claims source.toList path.toList) := by
    intro pattern h
    rw [Pattern.matches_eq_true_iff, (Pattern.aligned h).run_eq_matched_iff, (Pattern.ofString_eq_ok h).1]
  have hfallback : ∀ pattern, Pattern.ofString source = .ok pattern → ∀ front, source = front ++ "/**" →
      front.toList.getLast? ≠ some '/' → (pattern.matches path = true ↔ Splits pattern.tokens path.toList) := by
    intro pattern h front hsource hlast
    have htext : source.toList = front.toList ++ "/**".toList := by rw [hsource, String.toList_append]
    rw [hmeaning pattern h, or_iff_left_iff_imp, htext]
    intro hclaims
    refine hclaims.splits hlast ?_
    rw [← htext]
    exact (Pattern.ofString_eq_ok h).2
  refine ⟨fun pattern h => ⟨(Pattern.aligned h).run_eq_matched_iff _, hmeaning pattern h, hfallback pattern h⟩, ?_⟩
  intro dir hsource hplain hlast
  obtain ⟨pattern, hpattern, htokens⟩ := exists_ofString_directory hplain
  rw [← hsource] at hpattern
  have hbelow : pattern.matches path = true ↔ ∃ tail, path = dir ++ "/" ++ tail := by
    rw [hfallback pattern hpattern dir hsource hlast, htokens, splits_literals_iff]
    constructor
    · rintro ⟨rest, hrest⟩
      exact ⟨String.ofList rest, String.toList_injective (by simpa using hrest)⟩
    · rintro ⟨tail, rfl⟩
      exact ⟨tail.toList, by simp⟩
  refine ⟨pattern, hpattern, hbelow, fun hne => ?_⟩
  rw [hbelow, isWithin_and_ne_iff hne]

theorem Pattern.matches_meaning_nested :
    Pattern.ofString "a/**/?.ts" = .ok ⟨"a/**/?.ts", [.literal 'a', .literal '/', .recursive, .anyChar, .literal '.',
      .literal 't', .literal 's']⟩ ∧
    Splits [.literal 'a', .literal '/', .recursive, .anyChar, .literal '.', .literal 't', .literal 's']
      "a/b/c.ts".toList ∧
    ∃ pattern, Pattern.ofString "a/**" = .ok pattern ∧
      (pattern.matches "ab/c" = true ↔ Path.isWithin "ab/c" "a" = true ∧ "ab/c" ≠ "a") := by
  have hcompiled : Pattern.ofString "a/**/?.ts" = .ok ⟨"a/**/?.ts", [.literal 'a', .literal '/', .recursive, .anyChar,
      .literal '.', .literal 't', .literal 's']⟩ := rfl
  refine ⟨hcompiled, ((Pattern.matches_meaning "a/**/?.ts" "a/b/c.ts").1 _ hcompiled).1.1 rfl, ?_⟩
  obtain ⟨pattern, hpattern, -, hwithin⟩ := (Pattern.matches_meaning "a/**" "ab/c").2 "a" rfl (by decide) (by decide)
  exact ⟨pattern, hpattern, hwithin (by decide)⟩

/-- Everything lies within the root, but `/**` does not match a path that starts with a name. -/
theorem Pattern.matches_not_within_root :
    IsPlain "".toList ∧ "".toList.getLast? ≠ some '/' ∧ Path.isWithin "a" "" = true ∧ "a" ≠ "" ∧
      (Pattern.ofString ("" ++ "/**")).toOption.map (·.matches "a") = some false := by
  decide

end Cartograph.Glob
