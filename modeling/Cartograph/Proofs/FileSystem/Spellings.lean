import Cartograph.Proofs.FileSystem.Spelled

/-!
# Spellings of one directory

A directory has many spellings, with dots and through links. From each of them a name leads to the same file
(`resolve_under_eq`), unless one of the two paths is too long or leads through too many links. Up to the directory
the ways differ, in the segments and in the links that they use up; from there on they are one way, which ends alike
whatever number of links is left (`follow_of_le`).
-/

namespace Cartograph.FileSystem

open Path.Spelling (under)

variable {fs : FileSystem} {place here dir : Place} {name path base a b : String} {links more : Nat}

/-! ### Going on from a directory -/

/-- A path that leads to a directory goes on from there, with the links that are left. -/
theorem follow_on {idle : List String} (hidle : ∀ segment ∈ idle, segment = "") {front : List String}
    (h : fs.follow true links here (front ++ idle) = .ok dir) (hdir : fs.node? dir = some .dir) :
    ∃ left, ∀ more, fs.follow true links here (front ++ more) = fs.follow true left dir more := by
  obtain ⟨place, left, hon⟩ | ⟨⟨e, hrefused⟩, hend⟩ := fs.follow_append links here front
  · rw [hon true idle (.inr rfl), follow_idle hidle] at h
    obtain rfl := Except.ok.inj h
    exact ⟨left, fun more => hon true more (.inr rfl)⟩
  · cases idle with
    | nil =>
      rw [List.append_nil] at h
      exact absurd hdir (hend dir h)
    | cons segment idle => cases (hrefused true _ (List.cons_ne_nil _ _)).symm.trans h

/-- More links that may be followed make no difference to a way that did not need them. -/
theorem follow_of_le {last : Bool} (hle : links ≤ more) {segments : List String}
    (h : fs.follow last links here segments ≠ .error .tooManyLinks) :
    fs.follow last more here segments = fs.follow last links here segments := by
  induction links using Nat.strongRecOn generalizing more here segments with
  | _ links ih =>
    rw [follow] at h
    rw [follow, follow]
    cases hadvance : fs.advance last here segments with
    | error e => rfl
    | ok progress =>
      cases progress with
      | arrived place => rfl
      | linked dir target rest =>
        rw [hadvance] at h
        cases links with
        | zero => exact absurd rfl h
        | succ links =>
          obtain ⟨more, rfl⟩ : ∃ k, more = k + 1 := ⟨more - 1, by omega⟩
          exact ih links (Nat.lt_succ_self links) (Nat.le_of_succ_le_succ hle) h

/-! ### A name in the directory -/

/-- Whether a path stays within the limits of the system: it is not too long and leads through few enough links. -/
structure InLimits (fs : FileSystem) (path : String) : Prop where
  length : fs.locate path true ≠ .error .nameTooLong
  links : fs.locate path true ≠ .error .tooManyLinks

theorem InLimits.of_locate (h : fs.locate path true = .ok place) : fs.InLimits path := by
  constructor <;> rw [h] <;> nofun

theorem ne_empty_of_resolve {found : Place × Node} (h : fs.resolve path = .ok found) : path ≠ "" := by
  rintro rfl
  cases h

theorem IsName.isAbsolute (h : IsName name) : Path.Spelling.isAbsolute name = false :=
  Path.isAbsolute_eq_false (Path.segments_eq_singleton h.2.1) fun hempty => absurd h.1 (by rw [hempty]; decide)

/-- A name below a directory cannot be refused for how it is written, but for its length. -/
theorem checkPath_under (hbase : checkPath base = .ok ()) (hname : IsName name) : checkPath (under base name) = .ok () ∨
      checkPath (under base name) = .error .nameTooLong := by
  have hne : base ≠ "" := by
    rintro rfl
    cases hbase
  have hclean : '\x00' ∉ base.toList := by
    intro hmem
    rw [checkPath, if_pos (by simpa using hmem)] at hbase
    cases hbase
  obtain ⟨slash, hslash, hunder⟩ := exists_under_eq hne hname.isAbsolute
  have hnul : '\x00' ∉ (base ++ (slash ++ name)).toList := by
    obtain rfl | rfl := hslash <;> simp [hclean, hname.2.2]
  rw [hunder, checkPath, if_neg (by simpa using hnul), if_neg (by simp [hne])]
  split
  · exact .inr rfl
  · exact .inl rfl

/-- From a directory a name is followed as it is from the place of the directory. -/
theorem exists_locate_under_eq (hbase : fs.resolve base = .ok (place, .dir)) (hname : IsName name)
    (hlength : fs.locate (under base name) true ≠ .error .nameTooLong) :
    ∃ left, fs.locate (under base name) true = fs.follow true left place [name] := by
  have hne := ne_empty_of_resolve hbase
  have hdir := node?_of_resolve hbase
  have hlocate := locate_of_resolve hbase
  have hsegments := Path.segments_eq_singleton hname.2.1
  obtain ⟨idle, hidle, hfront⟩ := Path.segments_eq_frontSegments hne
  obtain ⟨_, hcheck, hfollow⟩ := of_bind_eq_ok hlocate
  rw [hfront] at hfollow
  obtain ⟨left, hleft⟩ := follow_on hidle hfollow hdir
  refine ⟨left, ?_⟩
  obtain hunder | hunder := checkPath_under hcheck hname
  · rw [locate, hunder, start_under hne hname.isAbsolute, Path.segments_under base hname.isAbsolute, hsegments]
    exact hleft [name]
  · rw [locate, hunder] at hlength
    exact absurd rfl hlength

/-- **A name leads to the same place from all spellings of a directory**, within the limits of the system. -/
theorem locate_under_eq (ha : fs.resolve a = .ok (place, .dir)) (hb : fs.resolve b = .ok (place, .dir))
    (hname : IsName name) (hina : fs.InLimits (under a name))
    (hinb : fs.InLimits (under b name)) :
    fs.locate (under b name) true = fs.locate (under a name) true := by
  obtain ⟨left, hleft⟩ := exists_locate_under_eq ha hname hina.length
  obtain ⟨right, hright⟩ := exists_locate_under_eq hb hname hinb.length
  have hlinks := hina.links
  have hlinks' := hinb.links
  rw [hleft] at hlinks
  rw [hright] at hlinks'
  rw [hleft, hright]
  -- the two ways may have used up different numbers of links, and neither ran out of them
  obtain hle | hle := Nat.le_total left right
  · exact follow_of_le hle hlinks
  · exact (follow_of_le hle hlinks').symm

theorem resolve_under_eq (ha : fs.resolve a = .ok (place, .dir))
    (hb : fs.resolve b = .ok (place, .dir)) (hname : IsName name) (hina : fs.InLimits (under a name))
    (hinb : fs.InLimits (under b name)) :
    fs.resolve (under b name) = fs.resolve (under a name) := by
  rw [resolve, resolve, locate_under_eq ha hb hname hina hinb]

end Cartograph.FileSystem
