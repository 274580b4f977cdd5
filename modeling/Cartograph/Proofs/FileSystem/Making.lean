import Cartograph.Proofs.FileSystem.Spelled

/-!
# Making directories that are there

Making a directory where there is one does nothing (`makeDirs_of_resolve`), however its path is written: with slashes
at its end, through links, or with a link at its end. The path without the slashes is the one at which the directory
would be made, and it leads where the whole path leads (`locate_withoutSlashes`), so something stands there.
-/

namespace Cartograph.FileSystem

open List

variable {fs : FileSystem} {place there here : Place} {path : String}

/-! ### Empty segments at the end -/

/-- Empty segments at the end of a path change its way at most by refusing it. -/
theorem follow_append_idle {idle : List String} (hidle : ∀ segment ∈ idle, segment = "") {links : Nat}
    {segments : List String} (h : fs.follow true links here segments = .ok place)
    (hthere : fs.follow true links here (segments ++ idle) = .ok there) : there = place := by
  obtain ⟨dir, left, hon⟩ | ⟨⟨e, hrefused⟩, -⟩ := fs.follow_append links here segments
  · have hdir := hon true [] (.inr rfl)
    rw [append_nil, h, follow_idle (by simp)] at hdir
    rw [hon true idle (.inr rfl), follow_idle hidle] at hthere
    exact Except.ok.inj (hthere.symm.trans hdir.symm)
  · cases idle with
    | nil =>
      rw [append_nil] at hthere
      exact Except.ok.inj (hthere.symm.trans h)
    | cons segment idle => cases (hrefused true _ (cons_ne_nil _ _)).symm.trans hthere

/-! ### Slashes at the end -/

/-- A path is its part without slashes at the end, and slashes. -/
theorem exists_slashes (path : String) :
    ∃ count, path.toList = (withoutSlashes path).toList ++ replicate count '/' := by
  have hparts : path.toList.reverse.takeWhile (· == '/') ++ path.toList.reverse.dropWhile (· == '/') =
      path.toList.reverse := takeWhile_append_dropWhile
  have hslashes : path.toList.reverse.takeWhile (· == '/') =
      replicate (path.toList.reverse.takeWhile (· == '/')).length '/' := by
    refine eq_replicate_of_mem fun c hc => ?_
    simpa using all_eq_true.1 all_takeWhile c hc
  unfold withoutSlashes
  split
  · exact ⟨0, by simp⟩
  · refine ⟨(path.toList.reverse.takeWhile (· == '/')).length, ?_⟩
    rw [String.toList_ofList, ← reverse_inj, reverse_append, reverse_replicate, ← hslashes, reverse_reverse, hparts]

/-- Slashes at the end of a path are empty segments. -/
theorem exists_idle (path : String) :
    ∃ idle : List String, (∀ segment ∈ idle, segment = "") ∧
      Path.segments path = Path.segments (withoutSlashes path) ++ idle := by
  have hslashes : ∀ (count : Nat) (piece : List Char), piece ∈ (replicate count '/').splitOn '/' → piece = [] := by
    intro count
    induction count with
    | zero => simp
    | succ count ih =>
      intro piece hpiece
      rw [replicate_succ, ← nil_append ('/' :: _), splitOn_append_cons_self, mem_append] at hpiece
      obtain hpiece | hpiece := hpiece
      · simpa using hpiece
      · exact ih piece hpiece
  obtain ⟨count, hpath⟩ := exists_slashes path
  unfold Path.segments
  rw [hpath]
  cases count with
  | zero => exact ⟨[], nofun, by simp⟩
  | succ count =>
    refine ⟨((replicate count '/').splitOn '/').map String.ofList, fun segment hsegment => ?_, ?_⟩
    · obtain ⟨piece, hpiece, rfl⟩ := mem_map.1 hsegment
      rw [hslashes count piece hpiece]
    · rw [replicate_succ, splitOn_append_cons_self, map_append]

/-- **A path without the slashes at its end** leads where the path leads, if both lead somewhere. -/
theorem locate_withoutSlashes (h : fs.locate (withoutSlashes path) true = .ok place)
    (hthere : fs.locate path true = .ok there) : there = place := by
  obtain ⟨idle, hidle, hsegments⟩ := exists_idle path
  obtain ⟨_, -, hfollow⟩ := of_bind_eq_ok hthere
  obtain ⟨_, hcheck, h⟩ := of_bind_eq_ok h
  have hstart : start fs.current path = start fs.current (withoutSlashes path) := by
    obtain ⟨count, hpath⟩ := exists_slashes path
    have hne : (withoutSlashes path).toList ≠ [] := by
      intro hempty
      rw [String.toList_eq_nil_iff] at hempty
      rw [hempty] at hcheck
      cases hcheck
    rw [start, start, hpath, head?_append, head?_eq_some_head hne, Option.some_or]
  rw [hsegments, hstart] at hfollow
  exact follow_append_idle hidle h hfollow

/-! ### Directories -/

/-- **Making a directory that is there does nothing.** -/
theorem makeDirs_of_resolve (h : fs.resolve path = .ok (place, .dir)) : fs.makeDirs path = (.ok (), fs) := by
  have hnode := node?_of_resolve h
  have hlocate := locate_of_resolve h
  have hempty : path ≠ "" := by
    rintro rfl
    cases hlocate
  have hmake : ∃ e, fs.makeDir path = .error e := by
    unfold makeDir
    cases hnamed : fs.locate (withoutSlashes path) false with
    | error e => exact ⟨e, rfl⟩
    | ok there =>
      dsimp only [bind, Except.bind]
      cases hthere : fs.node? there with
      | some node => exact ⟨_, rfl⟩
      | none =>
        -- nothing stands there, not even a link, so the whole path would lead there
        obtain hsame | ⟨_, target, hsame, hlink⟩ := fs.locate_last (withoutSlashes path)
        · obtain rfl := locate_withoutSlashes (hsame.trans hnamed) hlocate
          rw [hthere] at hnode
          cases hnode
        · obtain rfl := Except.ok.inj (hnamed.symm.trans hsame)
          rw [hthere] at hlink
          cases hlink
  have hensure : fs.ensureDir path = (.ok (), fs) := by
    obtain ⟨e, hmake⟩ := hmake
    have hdir : fs.isDir path = true := by
      unfold isDir
      rw [h]
    rw [ensureDir, hmake]
    exact if_pos hdir
  obtain ⟨above, habove⟩ : ∃ above, upward (Path.segments path).length path = path :: above := by
    cases (Path.segments path).length with
    | zero => exact ⟨[], rfl⟩
    | succ n =>
      rw [upward]
      split
      · exact ⟨_, rfl⟩
      · exact ⟨[], rfl⟩
  rw [makeDirs, habove, makeDirsAlong, if_neg hempty, hensure]

end Cartograph.FileSystem
