import Cartograph.Proofs.Analysis.Missing
import Cartograph.Proofs.Json.Members
import Cartograph.Proofs.Text.Bytes

/-!
# The lines of dependencies

A manifest is read as JSON, but the line of a dependency is found by looking through its text: behind the first
place where the name of the section stands in quotes, the first place where the quoted key stands before a colon.
Neither place need be the right one. A section's name may stand earlier as a value, and behind it the key may stand
in another object.

`keyPlaces` says where the key of a section stands, by the structure of the text. The key itself is such a place before
a colon (`isMention_of_mem_keyPlaces`), and the search takes the first of them (`findsFirst_keyOffset?`), so the line
that is reported never lies behind that of the key, and it is the line of the key exactly when no place of the kind
stands on an earlier line (`dependencyLines_package`).
-/

namespace Cartograph.Manifest

open Json List
open Text (dropUpTo? eq_append_of_dropStart? dropStart? contains lossy)

variable {needle later behind rest cs content : List Char}

/-! ### Places in a text -/

/-- The line of a place in a text, the place being the text from there on. -/
def lineAt (text place : List Char) : Nat := (text.take (text.length - place.length)).count '\n' + 1

theorem lineAt_append (before place : List Char) : lineAt (before ++ place) place = before.count '\n' + 1 := by
  rw [lineAt, length_append, Nat.add_sub_cancel, take_left]

theorem lineAt_le {text place : List Char} (hplace : place <:+ text) (hlater : later <:+ place) :
    lineAt text place ≤ lineAt text later := by
  obtain ⟨before, rfl⟩ := hplace
  obtain ⟨between, rfl⟩ := hlater
  rw [lineAt_append, ← append_assoc, lineAt_append, count_append]
  omega

theorem dropUpTo?_suffix {text : List Char} (h : dropUpTo? needle text = some behind) : behind <:+ text := by
  fun_induction dropUpTo? needle text with
  | case1 => exact ⟨needle, (eq_append_of_dropStart? h).symm⟩
  | case2 c text rest hrest =>
    cases h
    exact ⟨needle, (eq_append_of_dropStart? hrest).symm⟩
  | case3 c text _ ih => exact (ih h).trans (suffix_cons c text)

/-- The first occurrence of a text stands at or before any other. -/
theorem dropUpTo?_of_suffix {text place : List Char} (hplace : place <:+ text)
    (hrest : dropStart? needle place = some rest) :
    ∃ behind, dropUpTo? needle text = some behind ∧ rest <:+ behind := by
  fun_induction dropUpTo? needle text with
  | case1 =>
    rw [suffix_nil.1 hplace] at hrest
    exact ⟨rest, hrest, suffix_refl rest⟩
  | case2 c text behind hbehind =>
    have hrest' := eq_append_of_dropStart? hrest
    have hbehind' := eq_append_of_dropStart? hbehind
    have hlength := hplace.length_le
    rw [hrest', hbehind', length_append, length_append] at hlength
    have hsuffix : rest <:+ place := ⟨needle, hrest'.symm⟩
    exact ⟨behind, rfl, suffix_of_suffix_length_le (hsuffix.trans hplace) ⟨needle, hbehind'.symm⟩ (by omega)⟩
  | case3 c text hnone ih =>
    obtain rfl | hplace := suffix_cons_iff.1 hplace
    · rw [hnone] at hrest
      cases hrest
    · exact ih hplace

/-! ### The search -/

section Search

/-- Whether `needle` stands at a place, with a colon behind it. -/
def isMention (needle place : List Char) : Bool := (dropStart? needle place).any isBeforeColon

variable {needle text place body front back : List Char} {count skip : Nat} {c : Char}

theorem isMention_iff : isMention needle place = true ↔ ∃ rest, place = needle ++ rest ∧ isBeforeColon rest = true := by
  constructor
  · intro h
    cases hrest : dropStart? needle place with
    | none => simp [isMention, hrest] at h
    | some rest => exact ⟨rest, eq_append_of_dropStart? hrest, by simpa [isMention, hrest] using h⟩
  · rintro ⟨rest, rfl, hcolon⟩
    rw [isMention, Text.dropStart?_append]
    exact hcolon

/-- No occurrence of `needle` begins inside another one. -/
def Apart (needle text : List Char) : Prop :=
  ∀ place later rest, place <:+ text → dropStart? needle place = some rest → later <:+ place → later ≠ place →
    isMention needle later = true → later <:+ rest

/-- A mention in a text that does not begin with one. -/
theorem suffix_of_isMention (hc : isMention needle (c :: text) = false)
    (hplace : place <:+ c :: text) (hmention : isMention needle place = true) : place <:+ text := by
  obtain rfl | hplace := suffix_cons_iff.1 hplace
  · rw [hc] at hmention
    cases hmention
  · exact hplace

/-- A count of line feeds is the one up to the first mention. -/
def FindsFirst (needle text : List Char) (count : Nat) (found : Option Nat) : Prop :=
  ∃ before place, text = before ++ place ∧ isMention needle place = true ∧ found = some (count + before.count '\n') ∧
    ∀ other, other <:+ text → isMention needle other = true → other <:+ place

theorem FindsFirst.cons {found : Option Nat} (h : FindsFirst needle text (if c = '\n' then count + 1 else count) found)
    (hc : isMention needle (c :: text) = false) : FindsFirst needle (c :: text) count found := by
  obtain ⟨before, place, rfl, hplace, rfl, hfirst⟩ := h
  refine ⟨c :: before, place, rfl, hplace, ?_, fun other hother hmention => ?_⟩
  · split <;> simp_all [Nat.add_assoc, Nat.add_comm 1]
  · exact hfirst other (suffix_of_isMention hc hother hmention) hmention

theorem Apart.of_suffix (h : Apart needle text) (hplace : place <:+ text) : Apart needle place :=
  fun other later rest hother => h other later rest (hother.trans hplace)

/-- The search finds the first mention. It passes over an occurrence without a colon as a whole, which loses nothing
where occurrences are apart: every mention lies behind what is still to be skipped. -/
theorem findsFirst_keyOffset? (hapart : Apart needle text)
    (hskip : ∀ other, other <:+ text → isMention needle other = true → other <:+ text.drop skip)
    (hplace : place <:+ text) (hmention : isMention needle place = true) (hneedle : needle ≠ []) :
    FindsFirst needle text count (keyOffset? needle count skip text) := by
  induction text generalizing count skip place with
  | nil =>
    rw [suffix_nil.1 hplace] at hmention
    cases needle with
    | nil => exact absurd rfl hneedle
    | cons c needle => cases hmention
  | cons c text ih =>
    have hstep : ∀ skip, isMention needle (c :: text) = false →
        (∀ other, other <:+ text → isMention needle other = true → other <:+ text.drop skip) →
        FindsFirst needle (c :: text) count (keyOffset? needle (if c = '\n' then count + 1 else count) skip text) :=
      fun skip hc hskip => .cons (ih (hapart.of_suffix (suffix_cons c text)) hskip
        (suffix_of_isMention hc hplace hmention) hmention) hc
    cases skip with
    | succ skip =>
      refine hstep skip ?_ fun other hother => hskip other (hother.trans (suffix_cons c text))
      by_contra hc
      have hlength := (hskip _ (suffix_refl _) (by simpa using hc)).length_le
      rw [length_drop, length_cons] at hlength
      omega
    | zero =>
      rw [keyOffset?]
      cases hrest : dropStart? needle (c :: text) with
      | none => exact hstep 0 (by rw [isMention, hrest]; rfl) fun other hother _ => hother
      | some rest =>
        have hcolon : isMention needle (c :: text) = isBeforeColon rest := by rw [isMention, hrest]; rfl
        dsimp only
        split
        · rename_i h
          exact ⟨[], c :: text, rfl, hcolon.trans h, rfl, fun other hother _ => hother⟩
        · rename_i h
          have hc : isMention needle (c :: text) = false := hcolon.trans (by simpa using h)
          refine hstep _ hc fun other hother hother' => ?_
          -- the characters to skip are those of the occurrence
          have hdrop : text.drop (needle.length - 1) = rest := by
            have htext := eq_append_of_dropStart? hrest
            cases needle with
            | nil => exact absurd rfl hneedle
            | cons d needle => exact (cons.inj htext).2 ▸ drop_left
          rw [hdrop]
          refine hapart _ other rest (suffix_refl _) hrest (hother.trans (suffix_cons c text)) ?_ hother'
          rintro rfl
          exact absurd hother' (by rw [hc]; nofun)

/-- A quote that is not in a text is the last of the quoted text. -/
theorem eq_of_append_quote (hbody : '"' ∉ body)
    (h : body ++ ['"'] = front ++ '"' :: back) : front = body ∧ back = [] := by
  obtain ⟨gap, rfl, hgap⟩ | ⟨gap, rfl, hgap⟩ := append_eq_append_iff.1 h
  · cases gap with
    | nil => exact ⟨append_nil body, (cons.inj hgap).2.symm⟩
    | cons c gap => simp at hgap
  · cases gap with
    | nil => exact ⟨(append_nil front).symm, (cons.inj hgap).2⟩
    | cons c gap =>
      rw [(cons.inj hgap).1] at hbody
      simp at hbody

/-- Two occurrences of a quoted text share at most a quote, and then the text stands between three quotes. -/
theorem apart_quoted {key : String} (hkey : '"' ∉ key.toList)
    (hthree : contains (quoted key ++ key.toList ++ ['"']) text = false) : Apart (quoted key) text := by
  intro place later rest hplace hrest hlater hne hmention
  by_contra hnot
  have hsuffix : rest <:+ place := ⟨_, (eq_append_of_dropStart? hrest).symm⟩
  have hlonger : rest <:+ later := suffix_of_suffix_length_le hsuffix hlater <| by
    by_contra hlength
    exact hnot (suffix_of_suffix_length_le hlater hsuffix (by omega))
  obtain ⟨rest', hlater', -⟩ := isMention_iff.1 hmention
  obtain ⟨front, rfl⟩ := hlater
  obtain ⟨middle, rfl⟩ := hlonger
  have hquoted : quoted key = front ++ middle := by
    have h := eq_append_of_dropStart? hrest
    rw [← append_assoc] at h
    exact (append_cancel_right h).symm
  cases front with
  | nil => exact hne rfl
  | cons a front =>
    cases middle with
    | nil => exact hnot (suffix_refl rest)
    | cons b middle =>
      -- both begin with a quote, and the later one begins at the closing quote of the other
      obtain ⟨rfl, hrest'⟩ := cons.inj hlater'
      obtain ⟨rfl, rfl⟩ := eq_of_append_quote hkey (cons.inj hquoted).2
      have hrest' : rest = key.toList ++ ['"'] ++ rest' := hrest'
      have hstart : dropStart? (quoted key ++ key.toList ++ ['"']) (quoted key ++ rest) = some rest' := by
        rw [hrest', ← append_assoc, ← append_assoc]
        exact Text.dropStart?_append _ rest'
      rw [← append_assoc, ← hquoted] at hplace
      obtain ⟨behind, hbehind, -⟩ := dropUpTo?_of_suffix hplace hstart
      rw [Text.contains, hbehind] at hthree
      cases hthree

end Search

/-! ### The places of keys -/

/-- The places of a key of a section: the section is a member of the object that the text is, and the key is one of
the object that the section is. -/
def keyPlaces (text : List Char) (section' key : String) : List (List Char) :=
  ((membersAt depthLimit text).filter (·.key == section')).flatMap fun m =>
    ((membersAt (depthLimit - 1) m.content).filter (·.key == key)).map (·.place)

variable {text place : List Char} {section' key : String} {es : List (String × Json)}

theorem mem_keyPlaces : place ∈ keyPlaces text section' key ↔ ∃ m ∈ membersAt depthLimit text, m.key = section' ∧
    ∃ k ∈ membersAt (depthLimit - 1) m.content, k.key = key ∧ k.place = place := by
  simp only [keyPlaces, mem_flatMap, mem_filter, mem_map, beq_iff_eq, and_assoc]

/-- Whether the keys of a manifest and those of its sections are written without escapes. -/
def keysArePlain (text : List Char) : Bool :=
  (membersAt depthLimit text).all fun m => m.isPlain && (membersAt (depthLimit - 1) m.content).all Member.isPlain

/-- Whether a section of a manifest has a key. -/
def declares (entries : List (String × Json)) (section' key : String) : Bool :=
  match (Json.object entries).get? section' with
  | some (.object members) => members.any (·.1 == key)
  | _ => false

theorem exists_value_eq_ok (h : entries text = .ok es) :
    ∃ rest, value strict depthLimit text = .ok (.object es, rest) := by
  unfold entries readChars whole at h
  split at h
  · rename_i es' hread
    cases h
    split at hread
    · cases hread
    · rename_i v rest hvalue
      split at hread
      · cases hread
        exact ⟨rest, hvalue⟩
      · cases hread
  · cases h
  · cases h

/-- A key that is read stands somewhere. -/
theorem exists_mem_keyPlaces (h : entries text = .ok es) (hkey : declares es section' key = true) :
    ∃ place, place ∈ keyPlaces text section' key := by
  obtain ⟨rest, hread⟩ := exists_value_eq_ok h
  unfold declares at hkey
  split at hkey
  · rename_i members hget
    obtain ⟨e, hfind, he⟩ := Option.map_eq_some_iff.1 hget
    have hmem := mem_reverse.1 (mem_of_find?_eq_some hfind)
    rw [eq_members_of_value hread] at hmem
    obtain ⟨m, hm, rfl⟩ := mem_map.1 hmem
    obtain ⟨left, hvalue⟩ := (isIn_of_mem_membersAt hm).value
    obtain ⟨e', he', hkey⟩ := any_eq_true.1 hkey
    rw [show m.value = object members from he] at hvalue
    rw [eq_members_of_value hvalue] at he'
    obtain ⟨k, hk, rfl⟩ := mem_map.1 he'
    exact ⟨k.place, mem_keyPlaces.2 ⟨m, hm, by simpa using find?_some hfind, k, hk, by simpa using hkey, rfl⟩⟩
  · cases hkey

/-- A place behind the first one where the name of the section stands in quotes, where the quoted key stands before a
colon. -/
def IsMention (text : List Char) (section' key : String) (place : List Char) : Prop :=
  ∃ behind, dropUpTo? (quoted section') text = some behind ∧ place <:+ behind ∧ isMention (quoted key) place = true

theorem isBeforeColon_of_skipGap (h : skipGap cs = ':' :: content) : isBeforeColon cs = true := by
  induction cs with
  | nil => cases h
  | cons c cs ih =>
    unfold isBeforeColon Text.trimStart
    unfold skipGap at h
    by_cases hc : isGap c = true
    · have hblank : Text.isBlank c = true := by
        simp only [isGap, Bool.or_eq_true, beq_iff_eq] at hc
        rcases hc with ((rfl | rfl) | rfl) | rfl <;> rfl
      rw [dropWhile_cons_of_pos hblank]
      rw [dropWhile_cons_of_pos hc] at h
      exact ih h
    · rw [dropWhile_cons_of_neg hc] at h
      cases h
      rfl

/-- The key of a section is a mention of it. -/
theorem isMention_of_mem_keyPlaces (hplain : keysArePlain text = true) (h : place ∈ keyPlaces text section' key) :
    IsMention text section' key place ∧ '"' ∉ key.toList := by
  obtain ⟨m, hm, rfl, k, hk, rfl, rfl⟩ := mem_keyPlaces.1 h
  obtain ⟨hmplain, hkplain⟩ := Bool.and_eq_true_iff.1 (all_eq_true.1 hplain m hm)
  have hkplain := all_eq_true.1 hkplain k hk
  have hmin := isIn_of_mem_membersAt (show m ∈ membersAt (126 + 1) text from hm)
  have hkin := isIn_of_mem_membersAt (show k ∈ membersAt (125 + 1) m.content from hk)
  obtain ⟨mbehind, hmplace, hmcolon⟩ := hmin.place_eq hmplain
  obtain ⟨kbehind, hkplace, hkcolon⟩ := hkin.place_eq hkplain
  have hstart : dropStart? (quoted m.key) m.place = some mbehind := by
    rw [hmplace]
    exact Text.dropStart?_append _ mbehind
  obtain ⟨behind, hbehind, hsuffix⟩ := dropUpTo?_of_suffix hmin.suffix hstart
  refine ⟨⟨behind, hbehind, (hkin.suffix.trans (suffix_of_skipGap hmcolon)).trans hsuffix, ?_⟩, ?_⟩
  · exact isMention_iff.2 ⟨kbehind, hkplace, isBeforeColon_of_skipGap hkcolon⟩
  · intro hquote
    simpa using all_eq_true.1 (Bool.and_eq_true_iff.1 hkplain).2 _ hquote

/-- The line of a key is that of the first mention. -/
theorem exists_keyLine_eq (hplace : IsMention text section' key place) (hapart : Apart (quoted key) text) :
    ∃ found, IsMention text section' key found ∧ keyLine text section' key = lineAt text found ∧
      ∀ other, IsMention text section' key other → lineAt text found ≤ lineAt text other := by
  obtain ⟨behind, hbehind, hplace, hmention⟩ := hplace
  have hsuffix := dropUpTo?_suffix hbehind
  have hfinds : ∀ count, FindsFirst (quoted key) behind count (keyOffset? (quoted key) count 0 behind) := fun count =>
    findsFirst_keyOffset? (hapart.of_suffix hsuffix) (fun _ hother _ => hother) hplace hmention (by simp [quoted])
  obtain ⟨between, found, rfl, hfound, hoffset, hfirst⟩ := hfinds ((text.take (text.length - behind.length)).count '\n')
  refine ⟨found, ⟨_, hbehind, suffix_append between found, hfound⟩, ?_, ?_⟩
  · obtain ⟨front, rfl⟩ := hsuffix
    rw [length_append, Nat.add_sub_cancel, take_left] at hoffset
    rw [keyLine, hbehind, Option.getD_some, length_append, Nat.add_sub_cancel, take_left]
    simp only [hoffset]
    rw [← append_assoc, lineAt_append, count_append]
  · rintro other ⟨behind', hbehind', hother, hmention'⟩
    cases hbehind.symm.trans hbehind'
    exact lineAt_le ((suffix_append between found).trans hsuffix) (hfirst other hother hmention')

/-! ### The dependencies of a manifest -/

theorem mem_namesIn : key ∈ namesIn (.object es) section' ↔ declares es section' key = true := by
  unfold namesIn declares
  cases (Json.object es).get? section' with
  | none => simp
  | some v => cases v <;> simp [Json.entries?, Names.mem_ofList]

/-- A dependency is taken from the first section that has it. -/
theorem mem_dependencies :
    (key, section') ∈ dependencies (.object es) ↔ sections.find? (declares es · key) = some section' := by
  have hfold : ∀ (l : List String) (found : List (String × String)),
      (key, section') ∈ l.foldl (fun found section' =>
        found ++ ((namesIn (.object es) section').filter fun name =>
          found.all fun entry => entry.1 != name).map fun name => (name, section')) found ↔
      (key, section') ∈ found ∨ (∀ s, (key, s) ∉ found) ∧ l.find? (declares es · key) = some section' := by
    intro l
    induction l with
    | nil => simp
    | cons s l ih =>
      intro found
      rw [foldl_cons, ih, find?_cons]
      have hadded : ∀ t, (key, t) ∈ ((namesIn (.object es) s).filter fun name =>
          found.all fun entry => entry.1 != name).map (fun name => (name, s)) ↔
          (declares es s key = true ∧ ∀ s, (key, s) ∉ found) ∧ s = t := by
        intro t
        simp only [mem_map, mem_filter, mem_namesIn]
        grind
      simp only [mem_append, hadded]
      cases declares es s key <;> grind
  exact (hfold sections []).trans (by simp)

/-- The lines of a manifest are those of its dependencies, each looked for behind its section. -/
theorem dependencyLines_describe (package : Package) (text : List Char) (es : List (String × Json)) :
    ∃ names : Names, (describe package text (.object es)).declared = some names ∧
      (∀ key, key ∈ names.toList ↔ ∃ section' ∈ sections, declares es section' key = true) ∧
      (describe package text (.object es)).dependencyLines.map (·.1) = names.toList ∧
      ∀ key section', sections.find? (declares es · key) = some section' →
        (key, keyLine text section' key) ∈ (describe package text (.object es)).dependencyLines := by
  have hnames : ∀ key, key ∈ (Names.ofList ((dependencies (.object es)).map (·.1))).toList ↔
      ∃ section', sections.find? (declares es · key) = some section' := by
    intro key
    rw [Names.mem_ofList, mem_map]
    simp only [← mem_dependencies, Prod.exists, exists_and_right, exists_eq_right]
  -- the first entry of a name in the list of dependencies is the only one
  have hline : ∀ key section', sections.find? (declares es · key) = some section' →
      ((dependencies (.object es)).find? (·.1 == key)).map (fun entry => (key, keyLine text entry.2 key)) =
        some (key, keyLine text section' key) := by
    intro key section' hsection
    have hsome : ((dependencies (.object es)).find? (·.1 == key)).isSome = true :=
      find?_isSome.2 ⟨(key, section'), mem_dependencies.2 hsection, beq_self_eq_true key⟩
    obtain ⟨e, he⟩ := Option.isSome_iff_exists.1 hsome
    have hmem := mem_of_find?_eq_some he
    obtain rfl : e.1 = key := by simpa using find?_some he
    rw [he, Option.map_some, Option.some.inj ((mem_dependencies.1 hmem).symm.trans hsection)]
  refine ⟨_, rfl, fun key => ?_, ?_, fun key section' hsection => ?_⟩
  · rw [hnames, ← Option.isSome_iff_exists, find?_isSome]
  · refine (map_filterMap ..).trans (.trans (filterMap_congr fun key hkey => ?_) filterMap_some)
    obtain ⟨section', hsection⟩ := (hnames key).1 hkey
    rw [hline key section' hsection]
    rfl
  · exact mem_filterMap.2 ⟨key, (hnames key).2 ⟨section', hsection⟩, hline key section' hsection⟩

theorem lossy_toUTF8 (text : String) : lossy text.toUTF8 = text := by
  rw [lossy, show String.fromUTF8? text.toUTF8 = some text from Text.fromUTF8?_eq_some_iff.2 rfl]

/-- The lines of a manifest are given for the declared names and no others. Where a name stands in no three quotes, its
line never lies behind the key in the first section that has it, and it is the line of the key exactly if the quoted key
stands before a colon on no earlier line behind the first mention of the section. -/
theorem dependencyLines_package {text : String} (h : entries text.toList = .ok es)
    (hplain : keysArePlain text.toList = true)
    (root manifest fallback : String) :
    ∃ p names, package root manifest fallback (.ok text.toUTF8) = (p, none) ∧ p.declared = some names ∧
      (∀ key, key ∈ names.toList ↔ ∃ section' ∈ sections, declares es section' key = true) ∧
      p.dependencyLines.map (·.1) = names.toList ∧
      ∀ key section', sections.find? (declares es · key) = some section' →
        keyPlaces text.toList section' key ≠ [] ∧
        ∃ line, (key, line) ∈ p.dependencyLines ∧
          (Text.contains (quoted key ++ key.toList ++ ['"']) text.toList = false →
            ∀ place ∈ keyPlaces text.toList section' key,
              line ≤ lineAt text.toList place ∧
              (line = lineAt text.toList place ↔ ∀ mention, IsMention text.toList section' key mention →
                lineAt text.toList place ≤ lineAt text.toList mention)) := by
  obtain ⟨bare, hpackage⟩ : ∃ bare, package root manifest fallback (.ok text.toUTF8) =
      (describe bare text.toList (.object es), none) := ⟨_, by rw [package, lossy_toUTF8, h]⟩
  obtain ⟨names, hdeclared, hnames, hkeys, hlines⟩ := dependencyLines_describe bare text.toList es
  refine ⟨_, names, hpackage, hdeclared, hnames, hkeys, fun key section' hsection =>
    ⟨?_, _, hlines key section' hsection, ?_⟩⟩
  · have hdeclares := find?_some hsection
    obtain ⟨place, hplace⟩ := exists_mem_keyPlaces h hdeclares
    exact ne_nil_of_mem hplace
  · intro hthree place hplace
    obtain ⟨hmention, hquote⟩ := isMention_of_mem_keyPlaces hplain hplace
    obtain ⟨found, hfound, hline, hfirst⟩ := exists_keyLine_eq hmention (apart_quoted hquote hthree)
    rw [hline]
    have hle := hfirst place hmention
    refine ⟨hle, fun heq mention hmention => heq ▸ hfirst mention hmention, fun hall => ?_⟩
    exact Nat.le_antisymm hle (hall found hfound)

/-- A manifest with one key in two sections, the second of which comes first in the order of sections. -/
def twoSections : String :=
  "\x7b\"devDependencies\": \x7b\n\"a\": \"1\"\x7d,\n\"dependencies\": \x7b\n\"a\": \"2\"\x7d\x7d"

theorem twoSections_dependencyLines :
    (keyPlaces twoSections.toList "dependencies" "a").map (lineAt twoSections.toList) = [4] ∧
    ∃ p, package "" "package.json" "w" (.ok twoSections.toUTF8) = (p, none) ∧ ∃ line, ("a", line) ∈ p.dependencyLines ∧
      ∀ place ∈ keyPlaces twoSections.toList "dependencies" "a", line ≤ lineAt twoSections.toList place := by
  have hplaces : (keyPlaces twoSections.toList "dependencies" "a").map (lineAt twoSections.toList) = [4] := by
    decide +kernel
  obtain ⟨es, hes, hsection⟩ : ∃ es, entries twoSections.toList = .ok es ∧
      sections.find? (declares es · "a") = some "dependencies" := ⟨_, rfl, by decide +kernel⟩
  obtain ⟨p, -, hp, -, -, -, hlines⟩ := dependencyLines_package hes (by decide +kernel) "" "package.json" "w"
  obtain ⟨-, line, hline, hplace⟩ := hlines "a" "dependencies" hsection
  exact ⟨hplaces, p, hp, line, hline, fun place hmem => (hplace (by decide +kernel) place hmem).1⟩

/-- A manifest that names a section in another place, before a key that one of its sections has. -/
def strayName : String :=
  "\x7b\n  \"name\": \"w\",\n  \"keywords\": [\"dependencies\"],\n  \"scripts\": \x7b\n    \"lodash\": \"x\"\n  \x7d,\n" ++
    "  \"dependencies\": \x7b\n    \"lodash\": \"1\"\n  \x7d\n\x7d\n"

/-- The key stands on the eighth line, and the fifth is given, where a script has its name. -/
theorem strayName_dependencyLines : keysArePlain strayName.toList = true ∧
    (keyPlaces strayName.toList "dependencies" "lodash").map (lineAt strayName.toList) = [8] ∧
    (package "" "package.json" "" (.ok strayName.toUTF8)).1.dependencyLines = [("lodash", 5)] := by
  refine ⟨by decide +kernel, by decide +kernel, ?_⟩
  rw [package, lossy_toUTF8]
  decide +kernel

end Cartograph.Manifest
