import Mathlib.Data.List.Basic
import Mathlib.Data.List.Induction
import Cartograph.Proofs.FileSystem.Operations

/-!
# Proper file systems

In a proper file system every place stands once, in a directory, under names that can be written in a path. What
stands at a place is then found under the path that spells it, unless that path is too long (`resolve_spell`,
`read_under_spell`).
-/

namespace Cartograph.FileSystem

open Cartograph.Path List
open Path.Spelling (isAbsolute frontSegments under)

variable {fs : FileSystem} {place names here : Place} {node : Node} {path : String} {content : ByteArray}

/-- Whether a text can be the name of an entry of a directory. -/
def IsName (name : String) : Prop := isOrdinary name = true ∧ '/' ∉ name.toList ∧ '\x00' ∉ name.toList

instance (name : String) : Decidable (IsName name) := inferInstanceAs (Decidable (_ ∧ _))

/-- What holds of file systems: each place stands once, has names, and lies in a directory. -/
structure IsProper (fs : FileSystem) : Prop where
  once : ∀ e ∈ fs.nodes, fs.node? e.1 = some e.2
  named : ∀ e ∈ fs.nodes, ∀ name ∈ e.1, IsName name
  inside : ∀ e ∈ fs.nodes, fs.node? e.1.dropLast = some .dir

instance : DecidableEq Node
  | .dir, .dir => isTrue rfl
  | .file a, .file b => decidable_of_iff (a.data = b.data) (by rw [Node.file.injEq, ByteArray.ext_iff])
  | .link a, .link b => decidable_of_iff (a = b) (by rw [Node.link.injEq])
  | .dir, .file _ | .dir, .link _ | .file _, .dir | .file _, .link _ | .link _, .dir | .link _, .file _ => isFalse nofun

instance (fs : FileSystem) : Decidable fs.IsProper :=
  decidable_of_iff ((∀ e ∈ fs.nodes, fs.node? e.1 = some e.2) ∧ (∀ e ∈ fs.nodes, ∀ name ∈ e.1, IsName name) ∧
      ∀ e ∈ fs.nodes, fs.node? e.1.dropLast = some .dir)
    ⟨fun h => ⟨h.1, h.2.1, h.2.2⟩, fun h => ⟨h.once, h.named, h.inside⟩⟩

/-! ### What lies above a place -/

theorem mem_nodes_of_node? (h : fs.node? place = some node) (hplace : place ≠ []) : (place, node) ∈ fs.nodes := by
  rw [node?, if_neg hplace, Option.map_eq_some_iff] at h
  obtain ⟨e, he, rfl⟩ := h
  have hkey := find?_some he
  rw [beq_iff_eq] at hkey
  rw [← hkey]
  exact mem_of_find?_eq_some he

section

variable (h : fs.resolve path = .ok (place, node))
include h

/-- A resolved path leads to the place, where the node stands. -/
theorem of_resolve : fs.locate path true = .ok place ∧ fs.node? place = some node := by
  obtain ⟨there, hlocate, h⟩ := of_bind_eq_ok h
  split at h
  · next found hnode =>
    cases h
    exact ⟨hlocate, hnode⟩
  · cases h

theorem locate_of_resolve : fs.locate path true = .ok place := (of_resolve h).1

theorem node?_of_resolve : fs.node? place = some node := (of_resolve h).2

end

namespace IsProper

theorem isName_of_node? (hfs : fs.IsProper) (h : fs.node? place = some node) : ∀ name ∈ place, IsName name := by
  by_cases hplace : place = []
  · rw [hplace]
    exact fun name hname => absurd hname not_mem_nil
  · exact hfs.named (place, node) (mem_nodes_of_node? h hplace)

/-- All that lies above a place are directories. -/
theorem dir_of_append (hfs : fs.IsProper) {rest : Place} (h : fs.node? (place ++ rest) = some node)
    (hrest : rest ≠ []) : fs.node? place = some .dir := by
  induction rest using List.reverseRecOn generalizing node with
  | nil => exact absurd rfl hrest
  | append_singleton rest name ih =>
    rw [← append_assoc] at h
    have hparent := hfs.inside _ (mem_nodes_of_node? h (by simp))
    rw [dropLast_concat] at hparent
    by_cases hempty : rest = []
    · rwa [hempty, append_nil] at hparent
    · exact ih hparent hempty

theorem leads (hfs : fs.IsProper) (hnode : ∀ target, node ≠ .link target) :
    ∀ (rest place : Place), fs.node? (place ++ rest) = some node → (rest = [] → node = .dir) →
      (∀ name ∈ rest, isOrdinary name = true) → fs.Leads place rest node := by
  intro rest
  induction rest with
  | nil =>
    intro place h hdir _
    rw [append_nil] at h
    rw [hdir rfl] at h ⊢
    exact .here h
  | cons name rest ih =>
    intro place h _ hnames
    have hname := hnames name mem_cons_self
    have hplace : place ++ name :: rest = place ++ [name] ++ rest := by simp
    rw [hplace] at h
    cases rest with
    | nil =>
      rw [append_nil] at h
      cases node with
      | file content => exact .last hname h
      | dir => exact .step hname h (.here h)
      | link target => exact absurd rfl (hnode target)
    | cons next rest =>
      refine .step hname (hfs.dir_of_append h (by simp)) (ih _ h (by simp) ?_)
      exact (forall_mem_cons.1 hnames).2

/-- **Directories and files can be reached from the root.** -/
theorem leads_of_node? (hfs : fs.IsProper) (h : fs.node? place = some node) (hnode : ∀ target, node ≠ .link target) :
    fs.Leads [] place node := by
  refine hfs.leads hnode place [] h ?_ fun name hname => (hfs.isName_of_node? h name hname).1
  rintro rfl
  exact (Option.some.inj h).symm

end IsProper

/-! ### Spelled paths -/

theorem isAbsolute_spell (place : Place) : isAbsolute (spell place) = true := by
  simp [isAbsolute, spell]

theorem segments_spell (hne : place ≠ []) (h : ∀ name ∈ place, IsName name) : segments (spell place) = "" :: place := by
  have hspell : spell place = "" ++ "/" ++ ofSegments place := by simp [spell]
  rw [hspell, segments_append, segments_empty,
    segments_ofSegments hne fun name hname => (h name hname).2.1, singleton_append]

theorem frontSegments_spell (h : ∀ name ∈ place, IsName name) : frontSegments (spell place) = "" :: place := by
  by_cases hne : place = []
  · rw [hne]
    decide
  have hsegments := segments_spell hne h
  have hempty : spell place ≠ "" := by simp [spell]
  have hslash : (spell place).toList.getLast? ≠ some '/' := by
    intro hslash
    -- a slash at the end would make the last name empty
    obtain ⟨front, hfront⟩ := exists_eq_append_slash hslash
    rw [hfront, ← String.append_empty (s := front ++ "/"), segments_append] at hsegments
    obtain ⟨init, name, rfl⟩ := (eq_nil_or_concat' place).resolve_left hne
    rw [← cons_append] at hsegments
    have hname : "" = name := singleton_inj.1 (append_inj' hsegments rfl).2
    have hordinary := (h name (mem_append_right init mem_cons_self)).1
    rw [← hname] at hordinary
    exact absurd hordinary (by decide)
  rw [frontSegments, if_neg hempty, if_neg hslash, hsegments]

/-- A path below a place, from its names. -/
theorem segments_under_spell (hplace : ∀ name ∈ place, IsName name) (hnames : ∀ name ∈ names, IsName name)
    (hne : names ≠ []) :
    segments (under (spell place) (ofSegments names)) = "" :: (place ++ names) := by
  have hsegments := segments_ofSegments hne fun name hname => (hnames name hname).2.1
  have hrelative : isAbsolute (ofSegments names) = false := by
    obtain ⟨name, rest, rfl⟩ := exists_cons_of_ne_nil hne
    refine isAbsolute_eq_false hsegments ?_
    rintro rfl
    exact absurd (hnames "" mem_cons_self).1 (by decide)
  rw [segments_under _ hrelative, frontSegments_spell hplace, hsegments, cons_append]

theorem isAbsolute_under_spell (place : Place) (path : String) : isAbsolute (under (spell place) path) = true := by
  rw [under]
  split
  next h =>
    rw [Bool.or_eq_true] at h
    obtain h | h := h
    · exact h
    · simp [spell] at h
  next => split <;> simp [isAbsolute, spell]

/-- **A directory is found under the path that spells it**, unless that is too long. -/
theorem IsProper.resolve_spell (hfs : fs.IsProper) (h : fs.node? place = some .dir) :
    fs.resolve (spell place) =
      match checkPath (spell place) with
      | .error e => .error e
      | .ok () => if areShort place then .ok (place, .dir) else .error .nameTooLong := by
  by_cases hne : place = []
  · rw [hne]
    rfl
  · exact (hfs.leads_of_node? h (by simp)).resolve_eq (isAbsolute_spell place)
      (segments_spell hne (hfs.isName_of_node? h))

theorem IsProper.resolve_spell_cases (hfs : fs.IsProper) (h : fs.node? place = some .dir) :
    fs.resolve (spell place) = .ok (place, .dir) ∨ ∃ cause, fs.resolve (spell place) = .error cause := by
  rw [hfs.resolve_spell h]
  split
  · exact .inr ⟨_, rfl⟩
  · split
    · exact .inl rfl
    · exact .inr ⟨_, rfl⟩

/-- What is read under a path that spells a place, by the content that stands there. -/
def readSpelled (path : String) (names : Place) (content : ByteArray) : Except OsError ByteArray :=
  match checkPath path with
  | .error e => .error e
  | .ok () => if areShort names then .ok content else .error .nameTooLong

theorem Leads.read_eq (h : fs.Leads [] names (.file content)) (habsolute : isAbsolute path = true)
    (hpath : segments path = "" :: names) : fs.read path = readSpelled path names content := by
  rw [read, h.resolve_eq habsolute hpath, readSpelled]
  cases checkPath path with
  | error e => rfl
  | ok _ => cases areShort names <;> rfl

theorem Leads.read_under_spell (h : fs.Leads [] (place ++ names) (.file content))
    (hplace : ∀ name ∈ place, IsName name) (hnames : ∀ name ∈ names, IsName name) (hne : names ≠ []) :
    fs.read (under (spell place) (ofSegments names)) =
      readSpelled (under (spell place) (ofSegments names)) (place ++ names) content :=
  h.read_eq (isAbsolute_under_spell place _) (segments_under_spell hplace hnames hne)

/-- **A file is read under the path that spells its place**, unless that is too long. -/
theorem IsProper.read_spell (hfs : fs.IsProper) (h : fs.node? place = some (.file content)) :
    fs.read (spell place) = readSpelled (spell place) place content := by
  have hne : place ≠ [] := by
    rintro rfl
    cases h
  exact (hfs.leads_of_node? h nofun).read_eq (isAbsolute_spell place) (segments_spell hne (hfs.isName_of_node? h))

/-! ### Paths without links -/

theorem advance_of_plain {last : Bool} {segments : List String} {progress : Progress}
    (hordinary : ∀ segment ∈ segments, isOrdinary segment = true)
    (hplain : ∀ front, front <+: segments → ∀ target, fs.node? (here ++ front) ≠ some (.link target))
    (h : fs.advance last here segments = .ok progress) : progress = .arrived (here ++ segments) := by
  induction segments generalizing here with
  | nil =>
    cases h
    rw [append_nil]
  | cons segment rest ih =>
    have hfront : ∀ front, front <+: rest → ∀ target, fs.node? (here ++ [segment] ++ front) ≠ some (.link target) := by
      intro front hprefix target
      rw [append_assoc]
      exact hplain (segment :: front) (cons_prefix_cons.2 ⟨rfl, hprefix⟩) target
    rw [advance_cons (hordinary segment mem_cons_self)] at h
    split at h
    next => cases h
    next =>
    split at h
    next =>
      split at h
      next hrest =>
        cases h
        rw [hrest]
      next => cases h
    next =>
      split at h
      next hrest =>
        cases h
        rw [hrest]
      next => cases h
    next =>
      rw [ih (forall_mem_cons.1 hordinary).2 hfront h, append_assoc, singleton_append]
    next target hlink =>
      have hlink' := hfront [] List.nil_prefix target
      rw [append_nil] at hlink'
      exact absurd hlink hlink'

section

variable {last : Bool} {there : Place} (hne : place ≠ []) (hnames : ∀ name ∈ place, IsName name)
  (hplain : ∀ front, front <+: place → ∀ target, fs.node? front ≠ some (.link target))
include hne hnames hplain

/-- **The path that spells a place** leads there, if no link is on the way. -/
theorem eq_of_locate_spell (hlocate : fs.locate (spell place) last = .ok there) : there = place := by
  have hstart : start fs.current (spell place) = [] := if_pos (by simp [spell])
  rw [locate, hstart, segments_spell hne hnames] at hlocate
  obtain ⟨_, -, hlocate⟩ := of_bind_eq_ok hlocate
  rw [follow, advance] at hlocate
  cases hadvance : fs.advance last [] place with
  | error e => rw [hadvance] at hlocate; cases hlocate
  | ok progress =>
    obtain rfl := advance_of_plain (fun name hname => (hnames name hname).1) hplain hadvance
    rw [hadvance] at hlocate
    cases hlocate
    rfl

/-- What is read under that path stands there then. -/
theorem node?_of_read_spell (h : fs.read (spell place) = .ok content) : fs.node? place = some (.file content) := by
  obtain ⟨there, hlocate, hnode⟩ := read_eq_ok_iff.1 h
  rwa [eq_of_locate_spell hne hnames hplain hlocate] at hnode

end

end Cartograph.FileSystem
