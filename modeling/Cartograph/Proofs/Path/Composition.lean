import Cartograph.Proofs.Path.Containment

/-!
# Paths written one behind the other

A path can be walked in two stretches: inside a canonical directory, `a/b` names what `b` names inside the place that
`a` names there, and it names nothing if either stretch leaves the root (`resolve?_behind`). Between the stretches the
place is written down as a text and read again. Nothing is lost on the way, because a walk from a canonical directory
only passes through places that have a canonical spelling (`Arrives.isPlace`), and such a place is determined by it
(`dirNames_ofSegments`). `resolve?_laws` puts this together with the laws for the parts of a path.
-/

namespace Cartograph.Path

variable {segment target : String} {first second : List String}

/-! ### Places -/

/-- Names that can be written as a canonical path. -/
def IsPlace (names : List String) : Prop := ∀ name ∈ names, isOrdinary name = true ∧ '/' ∉ name.toList

theorem ne_empty_of_isOrdinary (h : isOrdinary segment = true) : segment ≠ "" := by
  rintro rfl
  exact absurd h (by decide)

variable {dir tail path : String} {names start place : List String}

theorem isPlace_dirNames (h : IsCanonical dir) : IsPlace (dirNames dir) := by
  intro name hname
  have hmem : name ∈ segments dir := (List.mem_filter.1 hname).1
  obtain rfl | hordinary := h
  · -- the only segment of the root is empty, and that is no name
    cases hname
  · exact ⟨hordinary name hmem, slash_not_mem_of_mem_segments hmem⟩

/-- **A place is read back from its spelling.** -/
theorem dirNames_ofSegments (h : IsPlace names) : dirNames (ofSegments names) = names := by
  by_cases hnil : names = []
  · subst hnil
    exact dirNames_empty
  · rw [dirNames, segments_ofSegments hnil fun name hname => (h name hname).2, List.filter_eq_self]
    intro name hname
    exact bne_iff_ne.2 (ne_empty_of_isOrdinary (h name hname).1)

theorem isCanonical_ofSegments (h : IsPlace names) : IsCanonical (ofSegments names) := by
  by_cases hnil : names = []
  · exact .inl (by rw [hnil]; rfl)
  · refine .inr ?_
    rw [segments_ofSegments hnil fun name hname => (h name hname).2]
    exact fun name hname => (h name hname).1

/-- **A walk stays among places.** -/
theorem Arrives.isPlace (h : Arrives start (segments tail) place) (hstart : IsPlace start) : IsPlace place := by
  intro name hname
  obtain hmem | ⟨hmem, hordinary⟩ := h.of_mem hname
  · exact hstart name hmem
  · exact ⟨hordinary, slash_not_mem_of_mem_segments hmem⟩

/-! ### Two stretches -/

/-- **A walk along two lists of segments** has a place in between. -/
theorem arrives_append :
    Arrives start (first ++ second) place ↔ ∃ between, Arrives start first between ∧ Arrives between second place := by
  constructor
  · -- the induction is on the first stretch: its steps are the first steps of the whole walk
    intro h
    induction first generalizing start with
    | nil => exact ⟨start, .done start, h⟩
    | cons segment first ih =>
      cases h with
      | stay idle rest =>
        obtain ⟨between, hfirst, hsecond⟩ := ih rest
        exact ⟨between, .stay idle hfirst, hsecond⟩
      | leave rest =>
        obtain ⟨between, hfirst, hsecond⟩ := ih rest
        exact ⟨between, .leave hfirst, hsecond⟩
      | enter ordinary rest =>
        obtain ⟨between, hfirst, hsecond⟩ := ih rest
        exact ⟨between, .enter ordinary hfirst, hsecond⟩
  · rintro ⟨between, hfirst, hsecond⟩
    induction hfirst with
    | done place => exact hsecond
    | stay idle _ ih => exact .stay idle (ih hsecond)
    | leave _ ih => exact .leave (ih hsecond)
    | enter ordinary _ ih => exact .enter ordinary (ih hsecond)

/-- **What a path names inside a canonical directory is canonical.** -/
theorem isCanonical_of_resolve? (hdir : IsCanonical dir) (h : resolve? dir tail = some target) :
    IsCanonical target := by
  obtain ⟨place, harrives, rfl⟩ := resolve?_eq_some_iff.1 h
  exact isCanonical_ofSegments (harrives.isPlace (isPlace_dirNames hdir))

/-- **Paths one behind the other** are resolved one after the other. -/
theorem resolve?_behind (hdir : IsCanonical dir) (a b : String) :
    resolve? dir (a ++ "/" ++ b) = (resolve? dir a).bind fun target => resolve? target b := by
  -- the place in between is written down, and the second stretch starts where it is read back
  have hread : ∀ between, Arrives (dirNames dir) (segments a) between → dirNames (ofSegments between) = between :=
    fun between hfirst => dirNames_ofSegments (hfirst.isPlace (isPlace_dirNames hdir))
  refine Option.ext fun target => ?_
  rw [resolve?_eq_some_iff, Option.bind_eq_some_iff, Normalizes, segments_append]
  constructor
  · rintro ⟨place, harrives, rfl⟩
    obtain ⟨between, hfirst, hsecond⟩ := arrives_append.1 harrives
    refine ⟨ofSegments between, resolve?_eq_some_iff.2 ⟨between, hfirst, rfl⟩, resolve?_eq_some_iff.2 ⟨place, ?_, rfl⟩⟩
    rw [hread between hfirst]
    exact hsecond
  · rintro ⟨middle, hmiddle, htarget⟩
    obtain ⟨between, hfirst, rfl⟩ := resolve?_eq_some_iff.1 hmiddle
    obtain ⟨place, hsecond, rfl⟩ := resolve?_eq_some_iff.1 htarget
    rw [hread between hfirst] at hsecond
    exact ⟨place, arrives_append.2 ⟨between, hfirst, hsecond⟩, rfl⟩

/-! ### The parts of a canonical path -/

/-- **A canonical path is its own normal form.** -/
theorem resolve?_of_isCanonical (h : IsCanonical path) : resolve? "" path = some path := by
  obtain rfl | hordinary := h
  · decide
  · exact resolve?_of_ordinary hordinary

/-- **From its own directory** a canonical path is named by its last segment. -/
theorem resolve?_parent (h : IsCanonical path) (hne : path ≠ "") :
    resolve? (parent path) (fileName path) = some path := by
  have hjoin : join (parent path) (fileName path) = path := join_parent (h.resolve_left hne)
  by_cases hparent : parent path = ""
  · rw [join, if_pos hparent] at hjoin
    rw [hparent, hjoin]
    exact resolve?_of_isCanonical h
  · -- the directory and the last segment are two stretches of the path, seen from the root
    have hlast : fileName path ≠ "" := by
      obtain ⟨front, hsegments⟩ := exists_segments_eq path
      refine ne_empty_of_isOrdinary (h.resolve_left hne _ ?_)
      rw [hsegments]
      exact List.mem_append_right front List.mem_cons_self
    rw [join, if_neg hparent, if_neg hlast] at hjoin
    calc resolve? (parent path) (fileName path)
      _ = (resolve? "" (parent path)).bind fun target => resolve? target (fileName path) := by
        rw [resolve?_of_isCanonical (isCanonical_parent h), Option.bind_some]
      _ = resolve? "" (parent path ++ "/" ++ fileName path) := (resolve?_behind (.inl rfl) _ _).symm
      _ = some path := by rw [hjoin, resolve?_of_isCanonical h]

/-! ### All laws together -/

/-- **Lexical normalization composes and is canonical.** Inside a canonical directory, a path behind another one is
resolved from what the first one gives; whatever is given is canonical; and nothing is given exactly if in some initial
part of the segments there are more `..` than the directory has segments and than there are names before. A canonical
path other than the root is made of its segments, and is its own normal form from the root and from its directory; and
one canonical path is within another exactly if it starts with its segments, of which the root has none. -/
theorem resolve?_laws :
    (∀ dir a b : String, IsCanonical dir →
      resolve? dir (a ++ "/" ++ b) = (resolve? dir a).bind (fun target => resolve? target b) ∧
      (∀ target, resolve? dir a = some target → IsCanonical target) ∧
      (resolve? dir a = none ↔
        ∃ front, front <+: segments a ∧ (dirNames dir).length + front.countP isOrdinary < front.count "..")) ∧
    (∀ path : String, IsCanonical path → path ≠ "" →
      dirNames path = segments path ∧ resolve? "" path = some path ∧
        resolve? (parent path) (fileName path) = some path) ∧
    dirNames "" = [] ∧
    ∀ path dir : String, IsCanonical path → IsCanonical dir →
      (isWithin path dir = true ↔ dirNames dir <+: dirNames path) := by
  refine ⟨fun dir a b hdir => ⟨?composes, ?canonical, ?escapes⟩, fun path hpath hne => ⟨?_, ?_, ?_⟩, dirNames_empty, ?_⟩
  case composes => exact resolve?_behind hdir a b
  case canonical => exact fun target htarget => isCanonical_of_resolve? hdir htarget
  case escapes => exact resolve?_eq_none_iff
  · exact dirNames_eq_segments hpath hne
  · exact resolve?_of_isCanonical hpath
  · exact resolve?_parent hpath hne
  · exact fun path dir hpath hdir => isWithin_iff hpath hdir

/-- Two stretches with empty segments, a dot and a way up, one that leaves the root and comes back, and a directory
whose name only starts like another one's. -/
theorem resolve?_laws_detour :
    resolve? "packages/core" "lib//./" = some "packages/core/lib" ∧
      resolve? "packages/core" ("lib//./" ++ "/" ++ "../../web/") = some "packages/web" ∧
      resolve? "packages" "../../packages/core" = none ∧
      resolve? (parent "packages/web") (fileName "packages/web") = some "packages/web" ∧
      isWithin "packages/core-utils" "packages/core" = false := by
  obtain ⟨hinside, hself, -, hwithin⟩ := resolve?_laws
  have hcore : IsCanonical "packages/core" := by decide
  have hfirst : resolve? "packages/core" "lib//./" = some "packages/core/lib" := by decide
  have hsecond : resolve? "packages/core/lib" "../../web/" = some "packages/web" := by decide
  have hweb : IsCanonical "packages/web" := (hinside "packages/core/lib" "../../web/" "" (by decide)).2.1 _ hsecond
  refine ⟨hfirst, ?_, ?_, ?_, ?_⟩
  · rw [(hinside "packages/core" "lib//./" "../../web/" hcore).1, hfirst, Option.bind_some, hsecond]
  · exact (hinside "packages" "../../packages/core" "" (by decide)).2.2.2 ⟨["..", ".."], by decide, by decide⟩
  · exact (hself "packages/web" hweb (by decide)).2.2
  · decide

end Cartograph.Path
