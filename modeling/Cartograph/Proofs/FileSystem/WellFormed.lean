import Cartograph.Proofs.FileSystem.Spelled

/-!
# Well-formed file systems

A well-formed file system is a proper one in whose list each place stands once, whose links point at what can be a
path, and whose current directory is there. A path leads to a directory or to a name in one
(`IsWellFormed.isEnd_of_locate`), so what is put where a path leads stands in a directory. From that, every operation
leaves a well-formed file system and the current directory as it is (`Kept`).
-/

namespace Cartograph.FileSystem

open List

variable {fs fs' fs'' : FileSystem} {place : Place} {path segment source target : String}

/-- What holds of all file systems: they are proper, no place is listed twice, no link points at a text that cannot be
a path, and the current directory is there. -/
structure IsWellFormed (fs : FileSystem) : Prop extends IsProper fs where
  nodup : (fs.nodes.map (·.1)).Nodup
  target : ∀ {place target}, fs.node? place = some (.link target) → '\x00' ∉ target.toList
  current : fs.node? fs.current = some .dir

/-- Where a path can lead: to a directory, or to a name in one. -/
inductive IsEnd (fs : FileSystem) : Place → Prop where
  | dir {place : Place} (there : fs.node? place = some .dir) : IsEnd fs place
  | name {dir : Place} {name : String} (there : fs.node? dir = some .dir) (named : IsName name) :
      IsEnd fs (dir ++ [name])

/-- Whether a text can be a segment of a path. -/
def IsSegment (segment : String) : Prop := '/' ∉ segment.toList ∧ '\x00' ∉ segment.toList

theorem isSegment_of_mem (hpath : '\x00' ∉ path.toList) (h : segment ∈ Path.segments path) : IsSegment segment :=
  ⟨Path.slash_not_mem_of_mem_segments h, fun hnul => hpath (Path.mem_of_mem_segments h hnul)⟩

theorem dir_start (hdir : fs.node? place = some .dir) (path : String) : fs.node? (start place path) = some .dir := by
  rw [start]
  split
  · rfl
  · exact hdir

/-! ### Single changes -/

namespace IsWellFormed

section

variable (h : fs.IsWellFormed)
include h

/-- **Putting something where no directory stands** leaves a well-formed file system. -/
theorem put (hplace : fs.IsEnd place) (hfree : fs.node? place ≠ some .dir) {node : Node}
    (hnode : ∀ target, node = .link target → '\x00' ∉ target.toList) : (fs.put place node).IsWellFormed := by
  cases hplace with
  | dir hdir => exact absurd hdir hfree
  | @name dir name hdir hname =>
    have hne : dir ++ [name] ≠ [] := by simp
    -- no directory is replaced, so all of them are still there
    have hdirs : ∀ {other}, fs.node? other = some .dir → (fs.put (dir ++ [name]) node).node? other = some .dir := by
      intro other hother
      rw [fs.node?_put_of_ne node, hother]
      rintro rfl
      exact hfree hother
    have hcases : ∀ e ∈ (fs.put (dir ++ [name]) node).nodes,
        e = (dir ++ [name], node) ∨ e ∈ fs.nodes ∧ e.1 ≠ dir ++ [name] := by
      intro e he
      obtain rfl | he := mem_cons.1 he
      · exact .inl rfl
      · obtain ⟨hmem, hother⟩ := mem_filter.1 he
        exact .inr ⟨hmem, bne_iff_ne.1 hother⟩
    refine ⟨⟨fun e he => ?_, fun e he => ?_, fun e he => ?_⟩, ?_, fun {other target} hlink => ?_, hdirs h.current⟩
    · obtain rfl | ⟨hmem, hother⟩ := hcases e he
      · exact fs.node?_put_self node hne
      · rw [fs.node?_put_of_ne node hother]
        exact h.once e hmem
    · obtain rfl | ⟨hmem, -⟩ := hcases e he
      · intro other hother
        obtain hother | hother := mem_append.1 hother
        · exact h.isName_of_node? hdir other hother
        · rwa [mem_singleton.1 hother]
      · exact h.named e hmem
    · obtain rfl | ⟨hmem, -⟩ := hcases e he
      · rw [dropLast_concat]
        exact hdirs hdir
      · exact hdirs (h.inside e hmem)
    · rw [FileSystem.put, map_cons, nodup_cons]
      refine ⟨fun hmem => ?_, h.nodup.sublist (filter_sublist.map _)⟩
      obtain ⟨e, he, heq⟩ := mem_map.1 hmem
      exact bne_iff_ne.1 (mem_filter.1 he).2 heq
    · by_cases hother : other = dir ++ [name]
      · rw [hother, fs.node?_put_self node hne] at hlink
        exact hnode target (Option.some.inj hlink)
      · rw [fs.node?_put_of_ne node hother] at hlink
        exact h.target hlink

/-- **Taking away what is no directory** leaves a well-formed file system. -/
theorem drop (hfree : fs.node? place ≠ some .dir) : (fs.drop place).IsWellFormed := by
  have hne : place ≠ [] := by
    rintro rfl
    exact hfree rfl
  have hdirs : ∀ {other}, fs.node? other = some .dir → (fs.drop place).node? other = some .dir := by
    intro other hother
    rw [fs.node?_drop_of_ne, hother]
    rintro rfl
    exact hfree hother
  have hmem : ∀ e ∈ (fs.drop place).nodes, e ∈ fs.nodes ∧ e.1 ≠ place := by
    intro e he
    obtain ⟨hmem, hother⟩ := mem_filter.1 he
    exact ⟨hmem, bne_iff_ne.1 hother⟩
  refine ⟨⟨fun e he => ?_, fun e he => h.named e (hmem e he).1, fun e he => hdirs (h.inside e (hmem e he).1)⟩,
    h.nodup.sublist (filter_sublist.map _), fun {other target} hlink => ?_, hdirs h.current⟩
  · rw [fs.node?_drop_of_ne (hmem e he).2]
    exact h.once e (hmem e he).1
  · by_cases hother : other = place
    · rw [hother, fs.node?_drop_self hne] at hlink
      cases hlink
    · rw [fs.node?_drop_of_ne hother] at hlink
      exact h.target hlink

/-! ### Where paths lead -/

theorem dir_dropLast (hdir : fs.node? place = some .dir) : fs.node? place.dropLast = some .dir := by
  by_cases hplace : place = []
  · rw [hplace]
    rfl
  · exact h.inside _ (mem_nodes_of_node? hdir hplace)

/-- Following segments from a directory ends in a directory or at a name in one, or comes to a link in one. -/
theorem advance {last : Bool} {segments : List String} {here : Place} {progress : Progress}
    (hhere : fs.node? here = some .dir) (hsegments : ∀ segment ∈ segments, IsSegment segment)
    (hprogress : fs.advance last here segments = .ok progress) :
    (∃ place, progress = .arrived place ∧ fs.IsEnd place) ∨
      ∃ dir target rest, progress = .linked dir target rest ∧ fs.node? dir = some .dir ∧ '\x00' ∉ target.toList ∧
        ∀ segment ∈ rest, IsSegment segment := by
  induction segments generalizing here with
  | nil =>
    cases hprogress
    exact .inl ⟨here, rfl, .dir hhere⟩
  | cons segment rest ih =>
    have hrest : ∀ segment ∈ rest, IsSegment segment := (forall_mem_cons.1 hsegments).2
    rw [FileSystem.advance] at hprogress
    split at hprogress
    next => exact ih hhere hrest hprogress
    next hidle =>
    split at hprogress
    next => exact ih (h.dir_dropLast hhere) hrest hprogress
    next hup =>
    split at hprogress
    next => cases hprogress
    next =>
    have hname : IsName segment := by
      refine ⟨?_, hsegments segment mem_cons_self⟩
      rw [not_or] at hidle
      simp [Path.isOrdinary, hidle, hup]
    have hend : .ok (.arrived (here ++ [segment])) = Except.ok (ε := OsError) progress →
        ∃ place, progress = .arrived place ∧ fs.IsEnd place := by
      intro heq
      cases heq
      exact ⟨_, rfl, .name hhere hname⟩
    split at hprogress
    next =>
      split at hprogress
      · exact .inl (hend hprogress)
      · cases hprogress
    next =>
      split at hprogress
      · exact .inl (hend hprogress)
      · cases hprogress
    next hdir => exact ih hdir hrest hprogress
    next target hlink =>
      split at hprogress
      · exact .inl (hend hprogress)
      · cases hprogress
        exact .inr ⟨here, target, rest, rfl, hhere, h.target hlink, hrest⟩

/-- **A path leads** to a directory or to a name in one. -/
theorem isEnd_of_locate {last : Bool} (hplace : fs.locate path last = .ok place) : fs.IsEnd place := by
  have hfollow : ∀ (links : Nat) {here : Place} {segments : List String}, fs.node? here = some .dir →
      (∀ segment ∈ segments, IsSegment segment) → fs.follow last links here segments = .ok place →
        fs.IsEnd place := by
    intro links
    induction links using Nat.strongRecOn with
    | _ links ih =>
      intro here segments hhere hsegments hfollow
      rw [follow] at hfollow
      cases hadvance : fs.advance last here segments with
      | error e => rw [hadvance] at hfollow; cases hfollow
      | ok progress =>
        rw [hadvance] at hfollow
        obtain ⟨there, rfl, hend⟩ | ⟨dir, target, rest, rfl, hdir, htarget, hrest⟩ := h.advance hhere hsegments hadvance
        · cases hfollow
          exact hend
        · cases links with
          | zero => cases hfollow
          | succ links =>
            refine ih links (Nat.lt_succ_self links) (dir_start hdir target) (fun segment hsegment => ?_) hfollow
            obtain hsegment | hsegment := mem_append.1 hsegment
            · exact isSegment_of_mem htarget hsegment
            · exact hrest segment hsegment
  rw [locate] at hplace
  cases hcheck : checkPath path with
  | error e => rw [hcheck] at hplace; cases hplace
  | ok _ =>
    rw [hcheck] at hplace
    have hnul : '\x00' ∉ path.toList := by
      intro hnul
      rw [checkPath, if_pos (contains_iff_mem.2 hnul)] at hcheck
      cases hcheck
    exact hfollow linkLimit (dir_start h.current path) (fun _ => isSegment_of_mem hnul) hplace

end

end IsWellFormed

/-! ### Operations -/

/-- What every operation does: it leaves the current directory, and a well-formed file system if there was one. -/
structure Kept (fs fs' : FileSystem) : Prop where
  current : fs'.current = fs.current
  wellFormed : fs.IsWellFormed → fs'.IsWellFormed

theorem Kept.refl (fs : FileSystem) : Kept fs fs := ⟨rfl, id⟩

theorem Kept.trans (h : Kept fs fs') (h' : Kept fs' fs'') : Kept fs fs'' :=
  ⟨h'.current.trans h.current, fun hfs => h'.wellFormed (h.wellFormed hfs)⟩

theorem kept_put {last : Bool} (hplace : fs.locate path last = .ok place) (hfree : fs.node? place ≠ some .dir)
    {node : Node} (hnode : ∀ target, node ≠ .link target) : Kept fs (fs.put place node) :=
  ⟨rfl, fun h => h.put (h.isEnd_of_locate hplace) hfree fun target heq => absurd heq (hnode target)⟩

theorem kept_write {content : ByteArray} (h : fs.write path content = .ok fs') : Kept fs fs' := by
  obtain ⟨place, hplace, hfree, rfl⟩ := of_write_eq_ok h
  exact kept_put hplace hfree nofun

theorem kept_removeFile (h : fs.removeFile path = .ok fs') : Kept fs fs' := by
  obtain ⟨place, -, hfree, rfl⟩ := of_removeFile_eq_ok h
  exact ⟨rfl, fun h => h.drop hfree⟩

theorem kept_makeDirs (fs : FileSystem) (path : String) : Kept fs (fs.makeDirs path).2 := by
  refine makeDirs_induction .refl (fun h h' => h.trans h') (fun hmake => ?_) fs path
  obtain ⟨place, hplace, hfree, rfl⟩ := of_makeDir_eq_ok hmake
  exact kept_put hplace (by simp [hfree]) nofun

/-- **Moving what is no directory** to where a path leads. -/
theorem kept_rename (h : fs.rename source target = .ok fs')
    (hfile : ∀ place, fs.locate source false = .ok place → fs.node? place ≠ some .dir) : Kept fs fs' := by
  obtain ⟨here, node, there, hhere, hnode, hthere, hfree, rfl⟩ := of_rename_eq_ok h
  refine ⟨rfl, fun h => ?_⟩
  have hother := hfile here hhere
  have hne : here ≠ [] := by
    rintro rfl
    exact hother rfl
  -- the directory of the target is still there
  have hend : (fs.drop here).IsEnd there := by
    cases h.isEnd_of_locate hthere with
    | dir hdir => exact absurd hdir hfree
    | name hdir hname =>
      refine .name ?_ hname
      rw [fs.node?_drop_of_ne, hdir]
      rintro rfl
      exact hother hdir
  refine (h.drop hother).put hend ?_ fun target heq => h.target (heq ▸ hnode)
  by_cases hsame : there = here
  · rw [hsame, fs.node?_drop_self hne]
    simp
  · rwa [fs.node?_drop_of_ne hsame]

end Cartograph.FileSystem
