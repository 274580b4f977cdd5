import Cartograph.Proofs.Path.Extension
import Cartograph.Resolution

/-!
# The names under which a path is looked for

`Candidates` lists these names by the rules: the path itself, the sources that a compiled file is made from, the path
with each extension, and the index modules of the directory that it may be; for the root, only the last of these.
`Sources` reads a compiled file off the end of the path. There is one list for each path, and it is the one that is
searched (`candidates_eq_iff`).
-/

namespace Cartograph.Resolution

open Cartograph.Path (fileName extension?)

variable {ext stem dir : String} {sources l : List String}

/-- The extensions of compiled files, each with those of its sources. -/
def compiled : List (String × List String) :=
  [("js", ["ts", "tsx"]), ("jsx", ["tsx"]), ("mjs", ["mts"]), ("cjs", ["cts"])]

/-- The sources that a file may have been compiled from. -/
inductive Sources : String → List String → Prop where
  | swap {stem ext : String} {sources : List String} (named : fileName stem ≠ "") (row : (ext, sources) ∈ compiled) :
      Sources (stem ++ "." ++ ext) (sources.map fun source => stem ++ "." ++ source)
  | none {target : String} (other : ∀ stem ext sources, fileName stem ≠ "" → (ext, sources) ∈ compiled →
      target ≠ stem ++ "." ++ ext) : Sources target []

/-- The names under which a path is looked for, in order. -/
inductive Candidates : String → List String → Prop where
  | root : Candidates "" (extensions.map fun ext => "index." ++ ext)
  | path {target : String} {sources : List String} (nonempty : target ≠ "") (swapped : Sources target sources) :
      Candidates target (target :: sources ++ (extensions.map fun ext => target ++ "." ++ ext) ++
        extensions.map fun ext => target ++ "/index." ++ ext)

/-! ### Sources -/

theorem of_mem_compiled (h : (ext, sources) ∈ compiled) :
    siblings ext = sources ∧ '.' ∉ ext.toList ∧ '/' ∉ ext.toList := by
  simp only [compiled, List.mem_cons, Prod.mk.injEq, List.not_mem_nil, or_false] at h
  obtain ⟨rfl, rfl⟩ | ⟨rfl, rfl⟩ | ⟨rfl, rfl⟩ | ⟨rfl, rfl⟩ := h <;> decide

theorem mem_compiled_or (ext : String) : (ext, siblings ext) ∈ compiled ∨ siblings ext = [] := by
  unfold siblings
  split
  case h_5 => exact .inr rfl
  all_goals exact .inl (by simp [compiled])

/-- The sources of a path that ends in an extension. -/
theorem siblingCandidates_append (hstem : fileName stem ≠ "") (hdot : '.' ∉ ext.toList) (hslash : '/' ∉ ext.toList) :
    siblingCandidates (stem ++ "." ++ ext) = (siblings ext).map fun sibling => stem ++ "." ++ sibling := by
  have hext : extension? (stem ++ "." ++ ext) = some ext :=
    Path.extension?_eq_some_iff.2 ⟨stem, hstem, rfl, hdot, hslash⟩
  have hchars : (stem ++ "." ++ ext).toList = stem.toList ++ '.' :: ext.toList := by simp
  -- the stem is what is left when the extension and its dot are cut off
  have hlength : (stem ++ "." ++ ext).length - ext.length - 1 = stem.toList.length := by
    rw [← String.length_toList, ← String.length_toList, hchars, List.length_append, List.length_cons]
    omega
  rw [siblingCandidates, hext]
  dsimp only
  rw [hlength, hchars, List.take_left, String.ofList_toList]

variable {target : String}

theorem siblingCandidates_eq_nil (h : ∀ stem ext sources, fileName stem ≠ "" →
    (ext, sources) ∈ compiled → target ≠ stem ++ "." ++ ext) : siblingCandidates target = [] := by
  cases hext : extension? target with
  | none => rw [siblingCandidates, hext]
  | some ext =>
    obtain ⟨stem, hstem, rfl, hdot, hslash⟩ := Path.extension?_eq_some_iff.1 hext
    rw [siblingCandidates_append hstem hdot hslash]
    obtain hrow | hnil := mem_compiled_or ext
    · exact absurd rfl (h stem ext _ hstem hrow)
    · rw [hnil]
      rfl

theorem sources_siblingCandidates (target : String) : Sources target (siblingCandidates target) := by
  by_cases h : ∀ stem ext sources, fileName stem ≠ "" → (ext, sources) ∈ compiled → target ≠ stem ++ "." ++ ext
  · rw [siblingCandidates_eq_nil h]
    exact .none h
  · push Not at h
    obtain ⟨stem, ext, sources, hstem, hrow, rfl⟩ := h
    obtain ⟨rfl, hdot, hslash⟩ := of_mem_compiled hrow
    rw [siblingCandidates_append hstem hdot hslash]
    exact .swap hstem hrow

/-- **The sources that are looked for** are those of a compiled file. -/
theorem siblingCandidates_eq_iff : siblingCandidates target = sources ↔ Sources target sources := by
  constructor
  · rintro rfl
    exact sources_siblingCandidates target
  · rintro (⟨named, row⟩ | ⟨other⟩)
    · obtain ⟨rfl, hdot, hslash⟩ := of_mem_compiled row
      exact siblingCandidates_append named hdot hslash
    · exact siblingCandidates_eq_nil other

/-! ### Candidates -/

theorem indexCandidates_eq (h : dir ≠ "") :
    indexCandidates dir = extensions.map fun ext => dir ++ "/index." ++ ext := by
  refine List.map_congr_left fun ext hext => ?_
  have hne : "index." ++ ext ≠ "" := by simp
  rw [Path.join, if_neg h, if_neg hne, ← String.append_assoc, @String.append_assoc _ "/"]
  rfl

/-- **The list that is searched** is the one of the rules. -/
theorem candidates_eq_iff : candidates target = l ↔ Candidates target l := by
  constructor
  · rintro rfl
    unfold candidates
    split
    · next hempty =>
      rw [hempty]
      exact .root
    · next hne =>
      rw [indexCandidates_eq hne]
      exact .path hne (sources_siblingCandidates target)
  · rintro (_ | ⟨nonempty, swapped⟩)
    · rfl
    · rw [candidates, if_neg nonempty, indexCandidates_eq nonempty, siblingCandidates_eq_iff.2 swapped]

end Cartograph.Resolution
