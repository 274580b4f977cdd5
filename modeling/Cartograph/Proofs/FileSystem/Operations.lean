import Mathlib.Tactic.Common
import Cartograph.Proofs.FileSystem.Following

/-!
# What an operation on the files does

Of each operation it is said once what it has done when it succeeds: where its path leads, what stood there, and the
single change that was made (`of_write_eq_ok`, `of_makeDir_eq_ok`, `of_removeFile_eq_ok`, `of_rename_eq_ok`); and, for
those that are to succeed, when they do. What holds of every directory that is made holds of several in a row
(`makeDirs_induction`).
-/

namespace Cartograph.FileSystem

open List

variable {fs fs' : FileSystem} {path name source target : String} {node : Node} {content : ByteArray}
  {place dir here there : Place}

/-! ### Looking and changing -/

/-- A path that ends in a name has no slash at its end. -/
theorem withoutSlashes_eq {front : List String} (hpath : Path.segments path = front ++ [name])
    (hname : name ≠ "") : withoutSlashes path = path := by
  have hlast : path.toList.getLast? ≠ some '/' := by
    intro hslash
    obtain ⟨start, rfl⟩ := Path.exists_eq_append_slash hslash
    rw [← String.append_empty (s := start ++ "/"), Path.segments_append] at hpath
    exact hname (singleton_inj.1 (append_inj' hpath rfl).2).symm
  have hreverse : path.toList.reverse.dropWhile (· == '/') = path.toList.reverse := by
    rw [getLast?_eq_head?_reverse] at hlast
    cases hchars : path.toList.reverse with
    | nil => rfl
    | cons c cs =>
      rw [hchars] at hlast
      exact dropWhile_cons_of_neg (by simpa using hlast)
  rw [withoutSlashes, hreverse, reverse_reverse]
  split
  · rfl
  · exact String.ofList_toList

theorem read_eq_ok_iff :
    fs.read path = .ok content ↔ ∃ place, fs.locate path true = .ok place ∧ fs.node? place = some (.file content) := by
  rw [read, resolve]
  cases hlocate : fs.locate path true with
  | error e => simp [bind, Except.bind]
  | ok place =>
    simp only [bind, Except.bind, Except.ok.injEq, exists_eq_left']
    cases fs.node? place with
    | none => simp [throw]
    | some node => cases node <;> simp [pure, Except.pure]

theorem of_write_eq_ok (h : fs.write path content = .ok fs') :
    ∃ place, fs.locate path true = .ok place ∧ fs.node? place ≠ some .dir ∧ fs' = fs.put place (.file content) := by
  obtain ⟨place, hlocate, h⟩ := of_bind_eq_ok h
  split at h
  · cases h
  · next hnode =>
    split at h
    · next hpath =>
      rw [hpath, beq_iff_eq.1 hpath] at hlocate
      exact ⟨place, hlocate, hnode, (Except.ok.inj h).symm⟩
    · cases h

theorem write_eq_ok (hpath : withoutSlashes path = path) (hplace : fs.locate path true = .ok place)
    (hnode : fs.node? place ≠ some .dir) (content : ByteArray) :
    fs.write path content = .ok (fs.put place (.file content)) := by
  rw [write, hpath]
  simp only [beq_self_eq_true, hplace, bind, Except.bind]
  rfl

theorem of_removeFile_eq_ok (h : fs.removeFile path = .ok fs') :
    ∃ place, fs.locate path false = .ok place ∧ fs.node? place ≠ some .dir ∧ fs' = fs.drop place := by
  obtain ⟨place, hlocate, h⟩ := of_bind_eq_ok h
  split at h
  · cases h
  · cases h
  · next hnode hdir => exact ⟨place, hlocate, by simp_all, (Except.ok.inj h).symm⟩

theorem removeFile_eq_ok (hplace : fs.locate path false = .ok place)
    (hnode : fs.node? place = some node) (hdir : node ≠ .dir) : fs.removeFile path = .ok (fs.drop place) := by
  rw [removeFile, hplace]
  simp only [bind, Except.bind, hnode]
  cases node with
  | dir => exact absurd rfl hdir
  | file content => rfl
  | link target => rfl

theorem of_rename_eq_ok (h : fs.rename source target = .ok fs') :
    ∃ here node there, fs.locate source false = .ok here ∧ fs.node? here = some node ∧
      fs.locate target false = .ok there ∧ fs.node? there ≠ some .dir ∧
      fs' = (fs.drop here).put there node := by
  obtain ⟨here, hsource, h⟩ := of_bind_eq_ok h
  split at h
  · cases h
  · next node hnode =>
    obtain ⟨there, htarget, h⟩ := of_bind_eq_ok h
    split at h
    · cases h
    · next hdir => exact ⟨here, node, there, hsource, hnode, htarget, hdir, (Except.ok.inj h).symm⟩

theorem rename_eq_ok (hhere : fs.locate source false = .ok here)
    (hnode : fs.node? here = some node) (hthere : fs.locate target false = .ok there)
    (hdir : fs.node? there ≠ some .dir) : fs.rename source target = .ok ((fs.drop here).put there node) := by
  rw [rename, hhere]
  simp only [bind, Except.bind, hnode, hthere]
  rfl

theorem list_eq_ok_iff {names : List String} :
    fs.list path = .ok names ↔
      ∃ place, fs.locate path true = .ok place ∧ fs.node? place = some .dir ∧ names = fs.childNames place := by
  rw [list, resolve]
  cases hlocate : fs.locate path true with
  | error e => simp [bind, Except.bind]
  | ok place =>
    simp only [bind, Except.bind, Except.ok.injEq, exists_eq_left']
    cases fs.node? place with
    | none => simp [throw]
    | some node =>
      cases node <;> simp [pure, Except.pure, eq_comm]

/-- The names in a directory are those that stand there. -/
theorem mem_childNames (h : fs.node? (dir ++ [name]) = some node) : name ∈ fs.childNames dir := by
  have hmem : (dir ++ [name], node) ∈ fs.nodes := by
    simp only [node?, append_eq_nil_iff, cons_ne_self, and_false, if_false, Option.map_eq_some_iff] at h
    obtain ⟨e, he, rfl⟩ := h
    have hplace := find?_some he
    rw [beq_iff_eq] at hplace
    rw [← hplace]
    exact mem_of_find?_eq_some he
  rw [childNames, mem_mergeSort, mem_filterMap]
  exact ⟨_, hmem, by simp [childName?]⟩

theorem node?_eq_none (h : name ∉ fs.childNames dir) : fs.node? (dir ++ [name]) = none := by
  cases hnode : fs.node? (dir ++ [name]) with
  | none => rfl
  | some node => exact absurd (mem_childNames hnode) h

/-! ### Taking away -/

/-- Whether a file system is what is left of another one when files and links are taken away. -/
structure Fewer (fs left : FileSystem) : Prop where
  current : left.current = fs.current
  node : ∀ place, left.node? place = fs.node? place ∨ left.node? place = none ∧ fs.node? place ≠ some .dir

/-- Whether nothing but a directory stands where a path leads, so that there is no file to remove. -/
def IsGone (fs : FileSystem) (path : String) : Prop :=
  ∀ place, fs.locate path false = .ok place → fs.node? place = none ∨ fs.node? place = some .dir

namespace Fewer

variable {left : FileSystem} {place : Place}

theorem refl (fs : FileSystem) : Fewer fs fs := ⟨rfl, fun _ => .inl rfl⟩

section

variable (h : Fewer fs left)
include h

theorem node_ne_dir (hnode : left.node? place ≠ some .dir) : fs.node? place ≠ some .dir := by
  obtain hsame | hgone := h.node place
  · rwa [← hsame]
  · exact hgone.2

/-- **A path leads nowhere else** when files and links are taken away. -/
theorem locate (hplace : left.locate path false = .ok place) : fs.locate path false = .ok place := by
  refine Follows.locate ⟨h.current.symm, fun place => (h.node place).imp Eq.symm fun hgone => ?_⟩ hplace
  exact ⟨by simp [IsBlind, hgone.1], nofun⟩

theorem drop (hnode : left.node? place ≠ some .dir) : Fewer fs (left.drop place) := by
  refine ⟨h.current, fun other => ?_⟩
  by_cases hother : other = place
  · have hne : place ≠ [] := fun hnil => hnode (by rw [hnil]; rfl)
    rw [hother, left.node?_drop_self hne]
    exact .inr ⟨rfl, h.node_ne_dir hnode⟩
  · rw [left.node?_drop_of_ne hother]
    exact h.node other

theorem isGone (hgone : fs.IsGone path) : left.IsGone path := by
  intro place hplace
  obtain hsame | hnone := h.node place
  · rw [hsame]
    exact hgone place (h.locate hplace)
  · exact .inl hnone.1

end

end Fewer

/-- **A file that was removed is gone.** -/
theorem isGone_of_removeFile (h : fs.removeFile path = .ok fs') : fs'.IsGone path := by
  obtain ⟨gone, hgone, hnode, rfl⟩ := of_removeFile_eq_ok h
  intro place hplace
  obtain rfl := Except.ok.inj (hgone.symm.trans (((Fewer.refl fs).drop hnode).locate hplace))
  refine .inl (fs.node?_drop_self ?_)
  rintro rfl
  exact hnode rfl

/-- A file that cannot be removed is not there. -/
theorem isGone_of_error {e : OsError} (h : fs.removeFile path = .error e) : fs.IsGone path := by
  intro place hplace
  cases hnode : fs.node? place with
  | none => exact .inl rfl
  | some node =>
    by_cases hdir : node = .dir
    · exact .inr (by rw [hdir])
    · rw [removeFile_eq_ok hplace hnode hdir] at h
      cases h

/-! ### Making directories -/

theorem of_makeDir_eq_ok (h : fs.makeDir path = .ok fs') :
    ∃ place, fs.locate (withoutSlashes path) false = .ok place ∧ fs.node? place = none ∧ fs' = fs.put place .dir := by
  obtain ⟨place, hlocate, h⟩ := of_bind_eq_ok h
  split at h
  · cases h
  · next hnode => exact ⟨place, hlocate, hnode, (Except.ok.inj h).symm⟩

/-- **Making directories** one in another does what making one of them does, several times. -/
theorem makeDirs_induction {R : FileSystem → FileSystem → Prop} (hrefl : ∀ fs, R fs fs)
    (htrans : ∀ {fs fs' fs''}, R fs fs' → R fs' fs'' → R fs fs'')
    (hmake : ∀ {fs fs' path}, fs.makeDir path = .ok fs' → R fs fs') (fs : FileSystem) (path : String) :
    R fs (fs.makeDirs path).2 := by
  have hensure : ∀ (fs : FileSystem) (path : String), R fs (fs.ensureDir path).2 := by
    intro fs path
    unfold ensureDir
    cases hmade : fs.makeDir path with
    | error e =>
      dsimp only
      split <;> exact hrefl fs
    | ok made => exact hmake hmade
  have halong : ∀ (paths : List String) (fs : FileSystem), R fs (fs.makeDirsAlong paths).2 := by
    intro paths
    induction paths with
    | nil => exact hrefl
    | cons path above ih =>
      intro fs
      unfold makeDirsAlong
      split
      · exact hrefl fs
      · split
        · have habove := ih fs
          split
          next hmade => rw [hmade] at habove; exact habove
          next hmade =>
            rw [hmade] at habove
            exact htrans habove (hensure _ path)
        · exact hensure fs path
  exact halong _ fs

end Cartograph.FileSystem
