import Cartograph.Proofs.Resolution.Rules

/-!
# Paths inside packages

A module of a package can be named from the root of the workspace or by the package. The first is normalised before it
is looked for, the second is joined to the root of the package as it is written. Main statement:
`resolve_subpath_agrees_iff`. Where the path from the root leads to a module, the path inside the package leads to the
same module exactly if it is written without empty segments, `.` and `..`.

If the joined path has such a segment, so has every name on its list, apart from those that hide it behind an extension:
`x/` is looked for as `x/.ts` (`detour_of_mem_candidates`). Such a name has one segment more than ordinary names in the
path, which the list of the normalised path gives to index modules only (`candidates_ofSegments`). So the two lists have
nothing in common (`disjoint_candidates`).
-/

namespace Cartograph

open Cartograph.Path List

/-! ### Joined paths -/

namespace Path

/-- The segments of a directory in front of a path below it. The root has none. -/
def baseSegments (dir : String) : List String := if dir = "" then [] else segments dir

variable {tail path ext : String}

theorem segments_join (dir : String) (h : tail ≠ "") :
    segments (join dir tail) = baseSegments dir ++ segments tail := by
  unfold join baseSegments
  by_cases hdir : dir = ""
  · rw [if_pos hdir, if_pos hdir, nil_append]
  · rw [if_neg hdir, if_neg hdir, if_neg h, segments_append]

theorem segments_join_sources (dir tail : String) :
    segments (join dir ("src/" ++ tail)) = baseSegments dir ++ "src" :: segments tail := by
  have hne : "src/" ++ tail ≠ "" := by simp
  have hsrc : segments ("src" ++ "/" ++ tail) = segments "src" ++ segments tail := segments_append "src" tail
  rw [segments_join dir hne]
  exact congrArg (baseSegments dir ++ ·) hsrc

theorem join_ne_empty (dir : String) (h : tail ≠ "") : join dir tail ≠ "" := by
  by_cases hdir : dir = ""
  · rw [join, if_pos hdir]
    exact h
  · rw [join, if_neg hdir, if_neg h]
    simp

theorem isCanonical_iff (h : path ≠ "") : IsCanonical path ↔ ∀ s ∈ segments path, isOrdinary s = true := or_iff_right h

theorem isCanonical_of_sources (dir : String) (h : tail ≠ "") (hsrc : IsCanonical (join dir ("src/" ++ tail))) :
    IsCanonical (join dir tail) := by
  rw [isCanonical_iff (join_ne_empty dir (by simp)), segments_join_sources, forall_mem_append,
    forall_mem_cons] at hsrc
  rw [isCanonical_iff (join_ne_empty dir h), segments_join dir h, forall_mem_append]
  exact ⟨hsrc.1, hsrc.2.2⟩

theorem countP_segments_sources (dir : String) (h : tail ≠ "") :
    (segments (join dir ("src/" ++ tail))).countP isOrdinary = (segments (join dir tail)).countP isOrdinary + 1 := by
  rw [segments_join_sources, segments_join dir h, countP_append, countP_append,
    countP_cons_of_pos (by decide), Nat.add_assoc]

/-- From the root it makes no difference whether a path is joined or written behind a slash. -/
theorem resolve?_append (dir : String) (h : tail ≠ "") :
    resolve? "" (dir ++ "/" ++ tail) = resolve? "" (join dir tail) := by
  by_cases hdir : dir = ""
  · subst hdir
    have hidle : ∀ stack, step stack "" = some stack := step_of_idle (.inl rfl)
    rw [join, if_pos rfl, resolve?, resolve?, segments_append, segments_empty, singleton_append, foldlM_cons, hidle]
    rfl
  · rw [join, if_neg hdir, if_neg h]

/-- A name with an extension is ordinary, also if there is nothing in front of it. -/
theorem isOrdinary_dotted (stem : String) (h : 2 ≤ ext.length) : isOrdinary (stem ++ "." ++ ext) = true := by
  have hlength : (stem ++ "." ++ ext).length = stem.length + 1 + ext.length := by
    rw [String.length_append, String.length_append]
    rfl
  have hne {other : String} (hother : other.length ≤ 2) : stem ++ "." ++ ext ≠ other := by
    intro heq
    rw [heq] at hlength
    omega
  simp [isOrdinary, hne (show "".length ≤ 2 by decide), hne (show ".".length ≤ 2 by decide),
    hne (show "..".length ≤ 2 by decide)]

end Path

/-! ### Names on the list of a path -/

namespace Resolution

open Cartograph.Path (segments ofSegments isOrdinary IsCanonical)

variable {ext path name last source target : String} {front place sources : List String}

theorem of_mem_extensions (h : ext ∈ extensions) : 2 ≤ ext.length ∧ '/' ∉ ext.toList := by
  revert ext
  decide

theorem of_mem_sources (h : (ext, sources) ∈ compiled)
    (hsource : source ∈ sources) : 2 ≤ ext.length ∧ 2 ≤ source.length ∧ '/' ∉ source.toList := by
  simp only [compiled, mem_cons, not_mem_nil, or_false] at h
  obtain ⟨rfl, rfl⟩ | ⟨rfl, rfl⟩ | ⟨rfl, rfl⟩ | ⟨rfl, rfl⟩ := h
  all_goals
    revert source
    decide

/-- The segments of a name on the list of a path, by the segments of the path. -/
inductive Variant (front : List String) (last : String) : List String → Prop where
  | itself : Variant front last (front ++ [last])
  | extended {ext : String} (long : 2 ≤ ext.length) : Variant front last (front ++ [last ++ "." ++ ext])
  | swapped {stem ext : String} (ordinary : isOrdinary last = true) (long : 2 ≤ ext.length) :
      Variant front last (front ++ [stem ++ "." ++ ext])
  | index (ext : String) : Variant front last (front ++ [last, "index." ++ ext])

theorem segments_dotted (hpath : segments path = front ++ [last])
    (h : '/' ∉ ext.toList) : segments (path ++ "." ++ ext) = front ++ [last ++ "." ++ ext] := by
  have hslash : '/' ∉ ("." ++ ext).toList := by simpa using h
  rw [String.append_assoc, segments_concat_append hpath hslash, String.append_assoc]

theorem segments_index (h : '/' ∉ ext.toList) : segments ("index." ++ ext) = ["index." ++ ext] := by
  apply segments_eq_singleton
  simpa using h

theorem variant_of_mem_candidates (hne : target ≠ "")
    (hsegments : segments target = front ++ [last]) (h : name ∈ candidates target) :
    Variant front last (segments name) := by
  have hrules : Candidates target (candidates target) := candidates_eq_iff.1 rfl
  generalize candidates target = l at h hrules
  cases hrules with
  | root => exact absurd rfl hne
  | path _ swapped =>
    rw [mem_append, mem_append, mem_cons, mem_map, mem_map] at h
    obtain ((rfl | hswapped) | ⟨ext, hext, rfl⟩) | ⟨ext, hext, rfl⟩ := h
    · rw [hsegments]
      exact .itself
    · cases swapped with
      | none => cases hswapped
      | @swap stem ext sources named row =>
        obtain ⟨source, hsource, rfl⟩ := mem_map.1 hswapped
        obtain ⟨hext, hlong, hslash⟩ := of_mem_sources row hsource
        obtain ⟨before, hstem⟩ := exists_segments_eq stem
        rw [segments_dotted hstem (of_mem_compiled row).2.2] at hsegments
        obtain ⟨rfl, hlast⟩ := append_inj' hsegments rfl
        rw [segments_dotted hstem hslash, ← singleton_inj.1 hlast]
        exact .swapped (isOrdinary_dotted _ hext) hlong
    · obtain ⟨hlong, hslash⟩ := of_mem_extensions hext
      rw [segments_dotted hsegments hslash]
      exact .extended hlong
    · have htext : target ++ "/index." ++ ext = target ++ "/" ++ ("index." ++ ext) := by
        rw [show "/index." = "/" ++ "index." from rfl]
        simp only [String.append_assoc]
      rw [htext, segments_append, hsegments, segments_index (of_mem_extensions hext).2, append_assoc]
      exact .index ext

/-- The names on the list of a normal path are normal. They are no longer than the path, apart from index modules. -/
theorem candidates_ofSegments (hplace : ∀ s ∈ place, isOrdinary s = true ∧ '/' ∉ s.toList)
    (h : name ∈ candidates (ofSegments place)) :
    (∀ s ∈ segments name, isOrdinary s = true) ∧
      ((segments name).length ≤ place.length ∨ ∃ ext, segments name = place ++ ["index." ++ ext]) := by
  have hindex (ext : String) : isOrdinary ("index." ++ ext) = true := by
    simp [isOrdinary, String.ext_iff]
  obtain rfl | ⟨front, last, rfl⟩ := eq_nil_or_concat' place
  -- the root is looked for by its index modules only
  · obtain ⟨ext, hext, rfl⟩ := mem_map.1 h
    have hsegments : segments (join (ofSegments []) ("index." ++ ext)) = ["index." ++ ext] :=
      segments_index (of_mem_extensions hext).2
    rw [hsegments, forall_mem_singleton]
    exact ⟨hindex ext, .inr ⟨ext, rfl⟩⟩
  · have hsegments : segments (ofSegments (front ++ [last])) = front ++ [last] :=
      segments_ofSegments (by simp) fun s hs => (hplace s hs).2
    have hne : ofSegments (front ++ [last]) ≠ "" := by
      intro hempty
      rw [hempty] at hsegments
      have hblank := (hplace "" (hsegments ▸ mem_cons_self)).1
      exact absurd hblank (by decide)
    have hextended (stem : String) {ext : String} (long : 2 ≤ ext.length) :
        ∀ s ∈ front ++ [stem ++ "." ++ ext], isOrdinary s = true := by
      rw [forall_mem_append, forall_mem_singleton]
      exact ⟨fun s hs => (hplace s (mem_append_left _ hs)).1, isOrdinary_dotted stem long⟩
    have hvariant := variant_of_mem_candidates hne hsegments h
    generalize segments name = l at hvariant
    cases hvariant with
    | itself => exact ⟨fun s hs => (hplace s hs).1, .inl (Nat.le_refl _)⟩
    | extended long => exact ⟨hextended _ long, .inl (by simp)⟩
    | swapped _ long => exact ⟨hextended _ long, .inl (by simp)⟩
    | index ext =>
      refine ⟨?_, .inr ⟨ext, by rw [append_assoc, singleton_append]⟩⟩
      rw [append_cons, forall_mem_append, forall_mem_singleton]
      exact ⟨fun s hs => (hplace s hs).1, hindex ext⟩

/-- A normal name on the list of a path that is not normal hides the last segment behind an extension. -/
theorem detour_of_mem_candidates (hpath : ¬IsCanonical path) (h : name ∈ candidates path)
    (hname : ∀ s ∈ segments name, isOrdinary s = true) :
    ∃ front last ext, segments path = front ++ [last] ∧ isOrdinary last = false ∧ (∀ s ∈ front, isOrdinary s = true) ∧
      segments name = front ++ [last ++ "." ++ ext] := by
  have hne : path ≠ "" := fun hempty => hpath (.inl hempty)
  rw [isCanonical_iff hne] at hpath
  obtain ⟨front, hsegments⟩ := exists_segments_eq path
  rw [hsegments, forall_mem_append, forall_mem_singleton] at hpath
  have hvariant := variant_of_mem_candidates hne hsegments h
  generalize segments name = l at hvariant hname
  cases hvariant with
  | itself =>
    rw [forall_mem_append, forall_mem_singleton] at hname
    exact absurd hname hpath
  | @extended ext long =>
    have hfront := (forall_mem_append.1 hname).1
    have hlast : isOrdinary (fileName path) = false := by
      rw [← Bool.not_eq_true]
      exact fun hordinary => hpath ⟨hfront, hordinary⟩
    exact ⟨front, fileName path, ext, hsegments, hlast, hfront, rfl⟩
  -- where a source takes the place of a compiled file, the last segment has an extension
  | swapped ordinary _ => exact absurd ⟨(forall_mem_append.1 hname).1, ordinary⟩ hpath
  | index ext =>
    rw [append_cons, forall_mem_append, forall_mem_append, forall_mem_singleton] at hname
    exact absurd hname.1 hpath

/-- The lists of a path that is not normal and of a normal one have nothing in common, if the second is not longer than
the names in the first. -/
theorem disjoint_candidates (hpath : ¬IsCanonical path) (hplace : ∀ s ∈ place, isOrdinary s = true ∧ '/' ∉ s.toList)
    (hlength : place.length ≤ (segments path).countP isOrdinary) (h : name ∈ candidates (ofSegments place)) :
    name ∉ candidates path := by
  intro hmem
  obtain ⟨hnormal, hshort⟩ := candidates_ofSegments hplace h
  obtain ⟨front, last, ext, hsegments, hlast, hfront, hname⟩ := detour_of_mem_candidates hpath hmem hnormal
  have hcount : (segments path).countP isOrdinary = front.length := by
    rw [hsegments, countP_append, countP_eq_length.2 hfront, countP_singleton, hlast]
    rfl
  obtain hshort | ⟨ext', hindex⟩ := hshort
  · rw [hname, length_append, length_singleton] at hshort
    omega
  · -- an index module does not start with a dot
    rw [hname] at hindex
    have heq : last ++ "." ++ ext = "index." ++ ext' := singleton_inj.1 (append_inj' hindex rfl).2
    have hhead : (last ++ "." ++ ext).toList.head? = some '.' := by
      simp only [isOrdinary, Bool.and_eq_false_iff, bne_eq_false_iff_eq] at hlast
      obtain (rfl | rfl) | rfl := hlast <;> simp
    rw [heq] at hhead
    simp at hhead

end Resolution

namespace Resolver

open Cartograph.Path (IsCanonical join)
open Resolution (candidates)

theorem resolve_rooted_eq_module_iff (r : Resolver) (importer rest path : String) :
    r.resolve importer ("/" ++ rest) = .module path ↔
      ∃ target, resolve? "" rest = some target ∧ path ∈ r.find? target := by
  rw [resolve_of_isPath r importer (.inr ⟨rest, rfl⟩), resolvePath_eq, target?_rooted]
  cases resolve? "" rest with
  | none => simp
  | some target => cases hfound : r.find? target <;> simp [hfound]

/-- A path inside a package is looked for on two lists. -/
theorem resolve_subpath_eq_module_iff (r : Resolver) {importer specifier name sub path : String} {p : Package}
    (howner : r.IsPackage name p) (hnames : Specifier.Names specifier name (some sub)) :
    r.resolve importer specifier = .module path ↔
      (candidates (join p.root sub) ++ candidates (join p.root ("src/" ++ sub))).find? r.modules = some path := by
  rw [resolve_of_names r importer hnames,
    resolveName_of_package (Specifier.split_eq_iff.2 hnames.split) (package?_eq_some_iff.2 howner)]
  change Option.elim ((candidates _ ++ (candidates _ ++ [])).find? r.modules) _ _ = _ ↔ _
  rw [append_nil]
  cases (candidates (join p.root sub) ++ candidates (join p.root ("src/" ++ sub))).find? r.modules <;> simp

/-- **A path inside a package and the same path from the root.** Where the second leads to a module, the first leads to
it exactly if it is written in its normal form. -/
theorem resolve_subpath_agrees_iff (r : Resolver) {importer importer' name sub path : String} {p : Package}
    (howner : r.IsPackage name p) (hsub : sub ≠ "") (hnames : Specifier.Names (name ++ "/" ++ sub) name (some sub))
    (h : r.resolve importer ("/" ++ p.root ++ "/" ++ sub) = .module path) :
    r.resolve importer' (name ++ "/" ++ sub) = .module path ↔ IsCanonical (join p.root sub) := by
  have hrooted : ("/" ++ p.root ++ "/" ++ sub) = "/" ++ (p.root ++ "/" ++ sub) := by
    simp only [String.append_assoc]
  rw [hrooted, resolve_rooted_eq_module_iff, Path.resolve?_append p.root hsub] at h
  obtain ⟨target, htarget, hfound⟩ := h
  have hne := Path.join_ne_empty p.root hsub
  rw [resolve_subpath_eq_module_iff r howner hnames]
  constructor
  · intro hbare
    by_contra hdetour
    -- the module is on the list of the normal form, which neither of the two lists shares a name with
    obtain ⟨place, rfl, hlength, hplace⟩ := Path.exists_place_of_resolve? htarget
    have hmem : path ∈ candidates (Path.ofSegments place) := List.mem_of_find?_eq_some hfound
    obtain hown | hsources := List.mem_append.1 (List.mem_of_find?_eq_some hbare)
    · exact Resolution.disjoint_candidates hdetour hplace hlength hmem hown
    · -- the path below the sources takes the same detour and has one name more
      refine Resolution.disjoint_candidates (fun hsrc => hdetour ?_) hplace ?_ hmem hsources
      · exact Path.isCanonical_of_sources p.root hsub hsrc
      · rw [Path.countP_segments_sources p.root hsub]
        exact Nat.le_succ_of_le hlength
  · intro hcanonical
    have hself := Path.resolve?_of_ordinary ((Path.isCanonical_iff hne).1 hcanonical)
    obtain rfl : join p.root sub = target := Option.some.inj (hself.symm.trans htarget)
    rw [List.find?_append, show (candidates _).find? r.modules = some path from hfound, Option.some_or]

/-- A workspace with a package of one module. -/
def oneModule : Resolver where
  modules := (· == "packages/core/model.ts")
  packages := [{ name := "core", root := "packages/core" }]

theorem isPackage_oneModule : oneModule.IsPackage "core" { name := "core", root := "packages/core" } :=
  package?_eq_some_iff.1 rfl

theorem names_core_model : Specifier.Names ("core" ++ "/" ++ "model.js") "core" (some "model.js") where
  bare := by
    obtain ⟨hne, hrelative, hrooted⟩ := Specifier.isBare_iff.1 (show Specifier.isBare "core/model.js" = true by decide)
    exact ⟨hne, hrelative, hrooted⟩
  plain := by
    refine ⟨by decide, ?_⟩
    intro rest hrest
    have hhead := congrArg (fun text => text.toList.head?) hrest
    simp at hhead
  split := Specifier.split_eq_iff.1 (by decide)

theorem resolve_subpath_agrees_oneModule :
    oneModule.resolve "a.ts" "/packages/core/model.js" = .module "packages/core/model.ts" ∧
      oneModule.resolve "b.ts" "core/model.js" = .module "packages/core/model.ts" := by
  have hrooted : oneModule.resolve "a.ts" ("/" ++ "packages/core" ++ "/" ++ "model.js") =
      .module "packages/core/model.ts" := by decide
  exact ⟨hrooted, (resolve_subpath_agrees_iff oneModule isPackage_oneModule (by decide) names_core_model hrooted).2
    (by decide)⟩

/-- Four ways to write the path of the module inside its package. -/
def detours : List String := ["/model", "./model", "model/", "lib/../model"]

/-- All of them name the package and a path inside it. From the root they lead to the module, and by the name of the
package out of the workspace. -/
theorem resolve_subpath_detours :
    detours.map (fun sub => Specifier.split ("core/" ++ sub)) = detours.map (fun sub => ("core", some sub)) ∧
      detours.all (fun sub => !("core/" ++ sub).toList.contains ':' &&
        (Path.resolve? "" ("packages/core/" ++ sub)).any (Path.isWithin · "packages/core")) = true ∧
      detours.map (fun sub => oneModule.resolve "a.ts" ("/packages/core/" ++ sub)) =
        List.replicate 4 (.module "packages/core/model.ts") ∧
      detours.map (fun sub => oneModule.resolve "a.ts" ("core/" ++ sub)) =
        List.replicate 4 (.external "core" .workspace) := by
  decide +kernel

end Resolver

end Cartograph
