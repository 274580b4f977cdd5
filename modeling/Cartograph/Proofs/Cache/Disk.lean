import Cartograph.Cache.Disk
import Cartograph.Proofs.Cache.Entry
import Cartograph.Proofs.Cache.FileName
import Cartograph.Proofs.FileSystem.WellFormed

/-!
# What a store in a directory does to the files

Using a store touches nothing but files with names of a store in its directory, apart from directories that it
makes (`FileSystem.Touched`). So directories stay, other files keep their contents, and what stands under the
name of an entry was put there by the store: `Disk.get?` finds nothing but entries that were put
(`Disk.IsOpen.good_of_get?`), as long as others leave the files of the store alone.
-/

namespace Cartograph.FileSystem

open Cache (IsStoreName IsForeign entryName)

variable {good : ByteArray → Prop} {home : Place} {fs fs' fs'' : FileSystem} {place : Place} {name : String}

/-! ### Changes -/

/-- What may happen to a place: nothing, a directory is made there, or, if it has a name of a store and lies in
the store's directory, a file comes, changes or goes. The bytes of an entry are good. -/
inductive Change (good : ByteArray → Prop) (home place : Place) (before after : Option Node) : Prop where
  | same (eq : after = before)
  | made (nothing : before = none) (dir : after = some .dir)
  | stored (name : String) (eq : place = home ++ [name]) (own : IsStoreName name)
      (blind : before ≠ some .dir ∧ ∀ target, before ≠ some (.link target))
      (noLink : ∀ target, after ≠ some (.link target))
      (entry : ∀ key content, name = entryName key → after = some (.file content) → good content)

/-- What using a store may do to a file system. -/
def Touched (good : ByteArray → Prop) (home : Place) (fs fs' : FileSystem) : Prop :=
  ∀ place, Change good home place (fs.node? place) (fs'.node? place)

theorem Touched.refl (good : ByteArray → Prop) (home : Place) (fs : FileSystem) : Touched good home fs fs :=
  fun _ => .same rfl

theorem Touched.trans (h : Touched good home fs fs') (h' : Touched good home fs' fs'') : Touched good home fs fs'' := by
  intro place
  cases h' place with
  | same eq =>
    rw [eq]
    exact h place
  | made nothing dir =>
    cases h place with
    | same eq => exact .made (eq.symm.trans nothing) dir
    | made _ dir' =>
      rw [nothing] at dir'
      cases dir'
    | stored name eq own blind _ _ =>
      refine .stored name eq own blind (by simp [dir]) fun key content _ hfile => ?_
      rw [dir] at hfile
      cases hfile
  | stored name eq own blind noLink entry =>
    cases h place with
    | same eq' =>
      rw [eq'] at blind
      exact .stored name eq own blind noLink entry
    | made _ dir => exact absurd dir blind.1
    | stored _ _ _ blind' _ _ => exact .stored name eq own blind' noLink entry

theorem Touched.dir (h : Touched good home fs fs') (hdir : fs.node? place = some .dir) :
    fs'.node? place = some .dir := by
  cases h place with
  | same eq => rw [eq, hdir]
  | made nothing => rw [hdir] at nothing; cases nothing
  | stored _ _ _ blind => exact absurd hdir blind.1

/-- What stays as it is: directories, links, and files with foreign names; of the last two none comes new. -/
structure Spared (fs fs' : FileSystem) : Prop where
  dir : ∀ {place : Place}, fs.node? place = some .dir → fs'.node? place = some .dir
  file : ∀ {dir : Place} {name : String} {content : ByteArray}, IsForeign name →
    (fs'.node? (dir ++ [name]) = some (.file content) ↔ fs.node? (dir ++ [name]) = some (.file content))
  link : ∀ {place : Place} {target : String},
    fs'.node? place = some (.link target) ↔ fs.node? place = some (.link target)

theorem Spared.refl (fs : FileSystem) : Spared fs fs := ⟨id, fun _ => Iff.rfl, Iff.rfl⟩

theorem Spared.trans (h : Spared fs fs') (h' : Spared fs' fs'') : Spared fs fs'' :=
  ⟨fun hdir => h'.dir (h.dir hdir), fun hname => (h'.file hname).trans (h.file hname), h'.link.trans h.link⟩

/-- A path leads where it led, as long as directories and links are spared. -/
theorem Spared.follows (h : Spared fs fs') (hcurrent : fs'.current = fs.current) {last : Bool} :
    Follows last fs fs' := by
  refine ⟨hcurrent, fun place => ?_⟩
  by_cases hdir : fs.node? place = some .dir
  · exact .inl (by rw [hdir, h.dir hdir])
  by_cases hlink : ∃ target, fs.node? place = some (.link target)
  · obtain ⟨target, hlink⟩ := hlink
    exact .inl (by rw [hlink, h.link.2 hlink])
  · rw [not_exists] at hlink
    exact .inr ⟨⟨hdir, hlink⟩, fun _ target => mt h.link.1 (hlink target)⟩

/-- **Using a store** spares directories, links and foreign files. -/
theorem Touched.spared (h : Touched good home fs fs') : Spared fs fs' := by
  refine ⟨h.dir, fun {dir name content} hname => ?_, fun {place target} => ?_⟩
  · cases h (dir ++ [name]) with
    | same eq => rw [eq]
    | made nothing dir => simp [nothing, dir]
    | stored n eq own =>
      obtain rfl : name = n := List.singleton_inj.1 (List.append_inj' eq rfl).2
      exact absurd own hname.notGiven
  · cases h place with
    | same eq => rw [eq]
    | made nothing dir => simp [nothing, dir]
    | stored _ _ _ blind noLink => exact iff_of_false (noLink target) (blind.2 target)

theorem Leads.spared {names : List String} {node : Node} (h : fs.Leads place names node) (hspared : Spared fs fs')
    (hlast : ∀ name ∈ names.getLast?, IsForeign name) : fs'.Leads place names node := by
  induction h with
  | here dir => exact .here (hspared.dir dir)
  | last ordinary file => exact .last ordinary ((hspared.file (hlast _ rfl)).2 file)
  | @step place name rest node ordinary dir behind ih =>
    refine .step ordinary (hspared.dir dir) (ih fun n hn => hlast n ?_)
    cases rest with
    | nil => cases hn
    | cons next rest => rwa [List.getLast?_cons_cons]

/-! ### File systems with a store -/

/-- In a directory no link has a name of a store, and the files of entries hold good bytes. -/
structure IsStore (good : ByteArray → Prop) (home : Place) (fs : FileSystem) : Prop where
  unlinked : ∀ {name}, IsStoreName name → ∀ target, fs.node? (home ++ [name]) ≠ some (.link target)
  entry : ∀ {key content}, IsStoreName (entryName key) →
    fs.node? (home ++ [entryName key]) = some (.file content) → good content

theorem IsStore.touched (h : IsStore good home fs) (htouched : Touched good home fs fs') :
    IsStore good home fs' where
  unlinked {name} hname target := by
    cases htouched (home ++ [name]) with
    | same eq => rw [eq]; exact h.unlinked hname target
    | made _ dir => simp [dir]
    | stored _ _ _ _ noLink => exact noLink target
  entry {key content} hname hfile := by
    cases htouched (home ++ [entryName key]) with
    | same eq => rw [eq] at hfile; exact h.entry hname hfile
    | made _ dir => rw [dir] at hfile; cases hfile
    | stored name eq _ _ _ entry =>
      exact entry key content (List.singleton_inj.1 (List.append_cancel_left eq)).symm hfile

/-- Taking files away leaves a store. -/
theorem IsStore.of_removed (h : IsStore good home fs)
    (hremoved : ∀ place, fs'.node? place = fs.node? place ∨ fs'.node? place = none) :
    IsStore good home fs' where
  unlinked {name} hname target := by
    obtain hsame | hnone := hremoved (home ++ [name])
    · rw [hsame]; exact h.unlinked hname target
    · simp [hnone]
  entry {key content} hname hfile := by
    obtain hsame | hnone := hremoved (home ++ [entryName key])
    · rw [hsame] at hfile; exact h.entry hname hfile
    · rw [hnone] at hfile; cases hfile

/-! ### Single operations -/

theorem touched_put_file (hname : IsStoreName name) (hblind : fs.IsBlind (home ++ [name]))
    {content : ByteArray} (hgood : ∀ key, name = entryName key → good content) :
    Touched good home fs (fs.put (home ++ [name]) (.file content)) := by
  intro other
  by_cases hother : other = home ++ [name]
  · rw [hother, fs.node?_put_self _ (by simp)]
    refine .stored name rfl hname hblind (by simp) fun key c hkey hc => ?_
    cases hc
    exact hgood key hkey
  · exact .same (fs.node?_put_of_ne _ hother)

theorem touched_drop (hname : IsStoreName name) (hblind : fs.IsBlind (home ++ [name])) :
    Touched good home fs (fs.drop (home ++ [name])) := by
  intro other
  by_cases hother : other = home ++ [name]
  · rw [hother, fs.node?_drop_self (by simp)]
    exact .stored name rfl hname hblind (by simp) fun key c _ hc => by cases hc
  · exact .same (fs.node?_drop_of_ne hother)

theorem touched_put_dir (hnode : fs.node? place = none) : Touched good home fs (fs.put place .dir) := by
  intro other
  by_cases hother : other = place
  · have hplace : place ≠ [] := by
      rintro rfl
      cases hnode
    rw [hother]
    exact .made hnode (fs.node?_put_self _ hplace)
  · exact .same (fs.node?_put_of_ne _ hother)

/-- **Making directories touches nothing that is there.** -/
theorem touched_makeDirs (path : String) : Touched good home fs (fs.makeDirs path).2 := by
  refine makeDirs_induction (.refl good home) (fun h h' => h.trans h') (fun hmake => ?_) fs path
  obtain ⟨place, -, hnode, rfl⟩ := of_makeDir_eq_ok hmake
  exact touched_put_dir hnode

end Cartograph.FileSystem

namespace Cartograph.Disk

open Cache FileSystem

variable {good : ByteArray → Prop} {home : Place} {fs fs' : FileSystem} {d : Disk} {name key dir : String}
  {e : CacheEntry} {live : List String} {count : Nat}

/-! ### The directory of a store -/

theorem withoutSlashes_path (d : Disk) (hname : IsStoreName name) : withoutSlashes (d.path name) = d.path name := by
  have hsegments := Path.segments_eq_singleton hname.isName.2.1
  have hne : name ≠ "" := by
    rintro rfl
    exact absurd hname.isName.1 (by decide)
  have hpath : Path.segments (d.path name) = Path.Spelling.frontSegments d.dir ++ [name] := by
    rw [path, Path.segments_under _ (Path.isAbsolute_eq_false hsegments hne), hsegments]
  exact withoutSlashes_eq hpath hne

/-- What is found under a key was read from its file, and has that key. -/
theorem of_get?_eq_some (h : d.get? fs key = some e) :
    ∃ bytes, fs.read (d.entryPath key) = .ok bytes ∧ CacheEntry.decode? bytes = some e ∧ e.key = key := by
  unfold get? at h
  cases hread : fs.read (d.entryPath key) with
  | error cause => rw [hread] at h; cases h
  | ok bytes =>
    rw [hread] at h
    simp only [Except.toOption, Option.bind_some] at h
    cases hdecode : CacheEntry.decode? bytes with
    | none => rw [hdecode] at h; cases h
    | some found =>
      simp only [hdecode] at h
      split at h
      · cases h
        exact ⟨bytes, rfl, hdecode, ‹_›⟩
      · cases h

theorem ne_empty_of_locate (h : fs.locate dir true = .ok home) : dir ≠ "" := by
  rintro rfl
  cases h

/-- The directory of a store is there, and what stands in it under names of a store was put there. -/
structure IsOpen (good : ByteArray → Prop) (home : Place) (d : Disk) (fs : FileSystem) : Prop where
  dir : fs.locate d.dir true = .ok home
  store : IsStore good home fs

namespace IsOpen

variable {key : String}

section

variable (h : IsOpen good home d fs) (hname : IsStoreName name)
include h hname

/-- The paths of a store lead to its files. -/
theorem locate_path {last : Bool} {place : Place} (hplace : fs.locate (d.path name) last = .ok place) :
    place = home ++ [name] := by
  obtain ⟨dir, hdir, hlast⟩ := locate_under (ne_empty_of_locate h.dir) hname.isName.1 hname.isName.2.1 hplace
  obtain rfl : home = dir := Except.ok.inj (h.dir.symm.trans hdir)
  exact hlast fun _ => h.store.unlinked hname

theorem put_file (hnode : fs.node? (home ++ [name]) ≠ some .dir) {content : ByteArray}
    (hgood : ∀ key, name = entryName key → good content) :
    IsOpen good home d (fs.put (home ++ [name]) (.file content)) ∧
      Touched good home fs (fs.put (home ++ [name]) (.file content)) := by
  have hblind : fs.IsBlind (home ++ [name]) := ⟨hnode, h.store.unlinked hname⟩
  have htouched : Touched good home fs _ := touched_put_file hname hblind hgood
  exact ⟨⟨(sameWays_put_file hblind content).locate h.dir, h.store.touched htouched⟩, htouched⟩

theorem drop (hnode : fs.node? (home ++ [name]) ≠ some .dir) :
    IsOpen good home d (fs.drop (home ++ [name])) ∧ Touched good home fs (fs.drop (home ++ [name])) := by
  have hblind : fs.IsBlind (home ++ [name]) := ⟨hnode, h.store.unlinked hname⟩
  have htouched : Touched good home fs _ := touched_drop hname hblind
  exact ⟨⟨(sameWays_drop hblind).locate h.dir, h.store.touched htouched⟩, htouched⟩

end

/-! ### Reading and writing -/

/-- What is read under a key is what stands at the place of its entry. -/
theorem read_entryPath (h : IsOpen good home d fs) (hkey : isDigest key.toList = true)
    {content : ByteArray} (hread : fs.read (d.entryPath key) = .ok content) :
    fs.node? (home ++ [entryName key]) = some (.file content) := by
  obtain ⟨place, hplace, hnode⟩ := read_eq_ok_iff.1 hread
  rwa [h.locate_path (.entry hkey) hplace] at hnode

/-- **What is found under a key was put there.** -/
theorem good_of_get? {Good : CacheEntry → Prop} (h : IsOpen (fun content => ∃ e, Good e ∧ content = e.encode) home d fs)
    (hkey : isDigest key.toList = true) (hget : d.get? fs key = some e) :
    Good e ∧ e.key = key := by
  obtain ⟨bytes, hread, hdecode, heq⟩ := of_get?_eq_some hget
  obtain ⟨f, hgood, rfl⟩ := h.store.entry (.entry hkey) (h.read_entryPath hkey hread)
  rw [CacheEntry.eq_of_decode?_encode hdecode] at heq ⊢
  exact ⟨hgood, heq⟩

/-- Removing a file of a store, if that can be done. -/
theorem removeFile (h : IsOpen good home d fs) (hname : IsStoreName name) :
    let left := (fs.removeFile (d.path name)).toOption.getD fs
    IsOpen good home d left ∧ Touched good home fs left := by
  cases hremove : fs.removeFile (d.path name) with
  | error e => exact ⟨h, .refl good home fs⟩
  | ok left =>
    obtain ⟨place, hplace, hnode, rfl⟩ := of_removeFile_eq_ok hremove
    rw [h.locate_path hname hplace] at hnode ⊢
    exact h.drop hname hnode

end IsOpen

/-- What can become of the files when an entry is stored: nothing, the staged file stays behind or is removed again,
or it takes the name of the entry. -/
inductive Stored (home : Place) (temp entry : String) (content : ByteArray) (fs : FileSystem) : FileSystem → Prop where
  | refused : Stored home temp entry content fs fs
  | staged (free : fs.node? (home ++ [temp]) ≠ some .dir) :
      Stored home temp entry content fs (fs.put (home ++ [temp]) (.file content))
  | dropped (free : fs.node? (home ++ [temp]) ≠ some .dir) :
      Stored home temp entry content fs ((fs.put (home ++ [temp]) (.file content)).drop (home ++ [temp]))
  | published (free : fs.node? (home ++ [temp]) ≠ some .dir) (noDir : fs.node? (home ++ [entry]) ≠ some .dir) :
      Stored home temp entry content fs
        (((fs.put (home ++ [temp]) (.file content)).drop (home ++ [temp])).put (home ++ [entry]) (.file content))

/-- **Storing an entry** does one of these. -/
theorem IsOpen.stored (h : IsOpen good home d fs) (ticket : Nat) (hkey : isDigest e.key.toList = true)
    (hgood : good e.encode) :
    Stored home (tempName e.key d.process ticket) (entryName e.key) e.encode fs (d.put ticket fs e).2 := by
  have htemp : IsStoreName (tempName e.key d.process ticket) := .staged d.process ticket hkey
  have hentry : IsStoreName (entryName e.key) := .entry hkey
  have hne : entryName e.key ≠ tempName e.key d.process ticket := fun heq => tempName_ne_entryName _ _ _ _ heq.symm
  unfold Disk.put stage Disk.publish tempPath entryPath
  generalize tempName e.key d.process ticket = temp at htemp hne ⊢
  generalize entryName e.key = entry at hentry hne ⊢
  generalize e.encode = content at hgood ⊢
  dsimp only
  cases hwrite : fs.write (d.path temp) content with
  | error cause => exact .refused
  | ok staged =>
    obtain ⟨place, hplace, hfree, rfl⟩ := of_write_eq_ok hwrite
    rw [h.locate_path htemp hplace] at hfree ⊢
    obtain ⟨hstaged, -⟩ := h.put_file htemp hfree fun _ _ => hgood
    dsimp only [located]
    cases hrename : (fs.put (home ++ [temp]) (.file content)).rename (d.path temp) (d.path entry) with
    | error cause =>
      cases hremove : (fs.put (home ++ [temp]) (.file content)).removeFile (d.path temp) with
      | error e => exact .staged hfree
      | ok left =>
        obtain ⟨gone, hgone, -, rfl⟩ := of_removeFile_eq_ok hremove
        rw [hstaged.locate_path htemp hgone]
        exact .dropped hfree
    | ok done =>
      obtain ⟨here, node, there, hhere, hnode, hthere, hdir, rfl⟩ := of_rename_eq_ok hrename
      rw [hstaged.locate_path htemp hhere] at hnode ⊢
      rw [hstaged.locate_path hentry hthere] at hdir ⊢
      rw [fs.node?_put_self _ (by simp), Option.some.injEq] at hnode
      rw [← hnode]
      refine .published hfree ?_
      rwa [fs.node?_put_of_ne _ (by simpa using hne)] at hdir

namespace IsOpen

/-- **Storing an entry** keeps the store open and touches nothing but its files. -/
theorem put (h : IsOpen good home d fs) (ticket : Nat) (hkey : isDigest e.key.toList = true)
    (hgood : good e.encode) :
    IsOpen good home d (d.put ticket fs e).2 ∧ Touched good home fs (d.put ticket fs e).2 := by
  have htemp : IsStoreName (tempName e.key d.process ticket) := .staged d.process ticket hkey
  have hentry : IsStoreName (entryName e.key) := .entry hkey
  have hstored := h.stored ticket hkey hgood
  generalize (d.put ticket fs e).2 = left at hstored ⊢
  generalize tempName e.key d.process ticket = temp at htemp hstored
  generalize entryName e.key = entry at hentry hstored
  generalize e.encode = content at hgood hstored
  have hstaged : fs.node? (home ++ [temp]) ≠ some .dir →
      IsOpen good home d (fs.put (home ++ [temp]) (.file content)) ∧
        Touched good home fs (fs.put (home ++ [temp]) (.file content)) := fun hfree =>
    h.put_file htemp hfree fun _ _ => hgood
  have hfile : (fs.put (home ++ [temp]) (.file content)).node? (home ++ [temp]) ≠ some .dir := by
    simp
  cases hstored with
  | refused => exact ⟨h, .refl good home fs⟩
  | staged hfree => exact hstaged hfree
  | dropped hfree =>
    obtain ⟨hopen, htouched⟩ := (hstaged hfree).1.drop htemp hfile
    exact ⟨hopen, (hstaged hfree).2.trans htouched⟩
  | published hfree hdir =>
    -- the entry's name holds no directory, before and after the staged file is gone
    have hdropped : ((fs.put (home ++ [temp]) (.file content)).drop (home ++ [temp])).node? (home ++ [entry]) ≠
        some .dir := by
      by_cases heq : home ++ [entry] = home ++ [temp]
      · rw [heq, node?_drop_self _ (by simp)]
        simp
      · rwa [node?_drop_of_ne _ heq, fs.node?_put_of_ne _ heq]
    obtain ⟨hopen, htouched⟩ := (hstaged hfree).1.drop htemp hfile
    obtain ⟨hopen, htouched'⟩ := hopen.put_file hentry hdropped fun _ _ => hgood
    exact ⟨hopen, ((hstaged hfree).2.trans htouched).trans htouched'⟩

end IsOpen

/-! ### What storing leaves alone -/

namespace Stored

variable {temp entry : String} {content : ByteArray}

section

variable (h : Stored home temp entry content fs fs')
include h

/-- Storing an entry does not change the way of a path. -/
theorem sameWays (hstore : IsStore good home fs) (htemp : IsStoreName temp) (hentry : IsStoreName entry) :
    SameWays fs fs' := by
  have hstaged : fs.node? (home ++ [temp]) ≠ some .dir →
      SameWays fs (fs.put (home ++ [temp]) (.file content)) := fun hfree =>
    sameWays_put_file ⟨hfree, hstore.unlinked htemp⟩ content
  have hdropped : fs.node? (home ++ [temp]) ≠ some .dir →
      SameWays fs ((fs.put (home ++ [temp]) (.file content)).drop (home ++ [temp])) := by
    intro hfree
    refine (hstaged hfree).trans (sameWays_drop ?_)
    rw [IsBlind]
    simp
  cases h with
  | refused => exact .refl fs
  | staged hfree => exact hstaged hfree
  | dropped hfree => exact hdropped hfree
  | published hfree hdir =>
    refine (hdropped hfree).trans (sameWays_put_file ?_ content)
    -- what stood at the entry's place before still stands there, unless it was the staged file that went
    by_cases heq : home ++ [entry] = home ++ [temp]
    · rw [IsBlind, heq, node?_drop_self _ (by simp)]
      simp
    · rw [IsBlind, node?_drop_of_ne _ heq, fs.node?_put_of_ne _ heq]
      exact ⟨hdir, hstore.unlinked hentry⟩

theorem node?_of_ne {place : Place} (htemp : place ≠ home ++ [temp]) (hentry : place ≠ home ++ [entry]) :
    fs'.node? place = fs.node? place := by
  cases h with
  | refused => rfl
  | staged => exact fs.node?_put_of_ne _ htemp
  | dropped => rw [node?_drop_of_ne _ htemp, fs.node?_put_of_ne _ htemp]
  | published =>
    rw [node?_put_of_ne _ _ hentry, node?_drop_of_ne _ htemp, fs.node?_put_of_ne _ htemp]

theorem node?_entry (hne : entry ≠ temp) :
    fs'.node? (home ++ [entry]) = fs.node? (home ++ [entry]) ∨
      fs'.node? (home ++ [entry]) = some (.file content) := by
  have hplace : home ++ [entry] ≠ home ++ [temp] := by simpa using hne
  cases h with
  | refused => exact .inl rfl
  | staged => exact .inl (fs.node?_put_of_ne _ hplace)
  | dropped => exact .inl (by rw [node?_drop_of_ne _ hplace, fs.node?_put_of_ne _ hplace])
  | published => exact .inr (node?_put_self _ _ (by simp))

end

end Stored

namespace IsOpen

variable {key : String}

/-- The entry under a key depends on what stands at its place. -/
theorem get?_eq_of_node (h : IsOpen good home d fs) (hways : SameWays fs fs')
    (hkey : isDigest key.toList = true)
    (hnode : fs'.node? (home ++ [entryName key]) = fs.node? (home ++ [entryName key])) :
    d.get? fs' key = d.get? fs key := by
  have hread : ∀ content, fs'.read (d.entryPath key) = .ok content ↔ fs.read (d.entryPath key) = .ok content := by
    intro content
    rw [read_eq_ok_iff, read_eq_ok_iff]
    refine exists_congr fun place => ?_
    constructor
    · rintro ⟨hplace, hfile⟩
      have hback := hways.symm.locate hplace
      refine ⟨hback, ?_⟩
      obtain rfl := h.locate_path (.entry hkey) hback
      rwa [← hnode]
    · rintro ⟨hplace, hfile⟩
      refine ⟨hways.locate hplace, ?_⟩
      obtain rfl := h.locate_path (.entry hkey) hplace
      rwa [hnode]
  have hoption : (fs'.read (d.entryPath key)).toOption = (fs.read (d.entryPath key)).toOption := by
    generalize fs'.read (d.entryPath key) = after at hread
    generalize fs.read (d.entryPath key) = before at hread
    cases after with
    | ok content => rw [(hread content).1 rfl]
    | error e =>
      cases before with
      | ok content => exact nomatch (hread content).2 rfl
      | error e => rfl
  unfold get?
  rw [hoption]

/-- **Storing an entry** changes what is found under its own key alone: there it is found, unless it could not be
stored. -/
theorem get?_put (h : IsOpen good home d fs) (ticket : Nat) (hkey : isDigest e.key.toList = true)
    (hgood : good e.encode) (hother : isDigest key.toList = true) :
    d.get? (d.put ticket fs e).2 key = d.get? fs key ∨
      key = e.key ∧ ∀ found, d.get? (d.put ticket fs e).2 key = some found → found = e := by
  have hstored := h.stored ticket hkey hgood
  have hopen := (h.put ticket hkey hgood).1
  generalize (d.put ticket fs e).2 = left at hstored hopen ⊢
  have hways := hstored.sameWays h.store (.staged d.process ticket hkey) (.entry hkey)
  have hne : ∀ key, entryName key ≠ tempName e.key d.process ticket :=
    fun key heq => tempName_ne_entryName _ _ _ _ heq.symm
  by_cases heq : entryName key = entryName e.key
  · obtain hsame | hnew := hstored.node?_entry (hne e.key)
    · exact .inl (h.get?_eq_of_node hways hother (by rwa [heq]))
    · refine .inr ⟨entryName_injective heq, fun found hfound => ?_⟩
      obtain ⟨bytes, hread, hdecode, -⟩ := of_get?_eq_some hfound
      have hfile := hopen.read_entryPath hother hread
      rw [heq, hnew] at hfile
      cases hfile
      exact CacheEntry.eq_of_decode?_encode hdecode
  · refine .inl (h.get?_eq_of_node hways hother (hstored.node?_of_ne ?_ ?_))
    · simpa using hne key
    · simpa using heq

end IsOpen

/-! ### Opening and removing -/

/-- **Opening a store** touches nothing but its files, and gives the store in its directory. -/
theorem prepare_spec (d : Disk) (hdir : d.dir ≠ "") (hfs : IsStore good home fs)
    (hhome : ∀ place, (fs.makeDirs d.dir).2.locate d.dir true = .ok place → place = home) (ticket : Nat) :
    Touched good home fs (d.prepare ticket fs).2 ∧
      ((d.prepare ticket fs).1 = .ok () → IsOpen good home d (d.prepare ticket fs).2) := by
  have hprobe : IsStoreName (tempName probeStem d.process ticket) := .probe d.process ticket
  have hnoEntry : ∀ key, tempName probeStem d.process ticket = entryName key → good .empty :=
    fun key heq => absurd heq (tempName_ne_entryName _ _ _ key)
  have hmade : Touched good home fs (fs.makeDirs d.dir).2 := touched_makeDirs d.dir
  unfold prepare tempPath
  generalize tempName probeStem d.process ticket = probe at hprobe hnoEntry ⊢
  generalize fs.makeDirs d.dir = made at hhome hmade ⊢
  obtain ⟨result, made⟩ := made
  cases result with
  | error cause => exact ⟨hmade, fun h => by cases h⟩
  | ok _ =>
    dsimp only at hhome hmade ⊢
    cases hwrite : made.write (d.path probe) .empty with
    | error cause => exact ⟨hmade, fun h => by cases h⟩
    | ok written =>
      obtain ⟨place, hplace, hnode, rfl⟩ := of_write_eq_ok hwrite
      -- the path of the probe leads through the directory, so that is there
      obtain ⟨dir, hlocate, -⟩ := locate_under hdir hprobe.isName.1 hprobe.isName.2.1 hplace
      obtain rfl := hhome dir hlocate
      have hopen : IsOpen good dir d made := ⟨hlocate, hfs.touched hmade⟩
      rw [hopen.locate_path hprobe hplace] at hnode ⊢
      obtain ⟨hopen, hput⟩ := hopen.put_file hprobe hnode hnoEntry
      obtain ⟨hleft, htouched⟩ := hopen.removeFile hprobe
      exact ⟨hmade.trans (hput.trans htouched), fun _ => hleft⟩

/-- Only names that are taken for those of a store are stale. -/
theorem isOwnName_of_isStale (h : d.isStale live name = true) : isOwnName name = true := by
  unfold isStale at h
  unfold isOwnName
  split at h
  · next hkey => rw [hkey]; rfl
  · rw [beq_iff_eq] at h
    simp [h]

/-- Files with names of a kind are removed from a directory, one after the other. -/
inductive Cleared (dir : String) (kind : String → Prop) (fs : FileSystem) : FileSystem → Prop where
  | none : Cleared dir kind fs fs
  | next {mid left : FileSystem} {name : String} (before : Cleared dir kind fs mid) (named : kind name)
      (removed : mid.removeFile (Path.Spelling.under dir name) = .ok left) : Cleared dir kind fs left

namespace Cleared

variable {dir : String} {kind : String → Prop} {left : FileSystem}

section

variable (h : Cleared dir kind fs left)
include h

theorem fewer : Fewer fs left := by
  induction h with
  | none => exact .refl fs
  | next _ _ removed ih =>
    obtain ⟨gone, -, hnode, rfl⟩ := of_removeFile_eq_ok removed
    exact ih.drop hnode

/-- What is removed next stands under its name in the directory. -/
theorem removed (hdir : fs.locate dir true = .ok home) (hname : IsName name)
    (hremove : left.removeFile (Path.Spelling.under dir name) = .ok fs') :
    left.node? (home ++ [name]) ≠ some .dir ∧ fs' = left.drop (home ++ [name]) := by
  obtain ⟨gone, hgone, hnode, rfl⟩ := of_removeFile_eq_ok hremove
  obtain ⟨there, hthere, hlast⟩ := locate_under (ne_empty_of_locate hdir) hname.1 hname.2.1 (h.fewer.locate hgone)
  obtain rfl : home = there := Except.ok.inj (hdir.symm.trans hthere)
  obtain rfl := hlast nofun
  exact ⟨hnode, rfl⟩

/-- **Nothing goes but files and links with such names in the directory.** -/
theorem node (hdir : fs.locate dir true = .ok home) (hkind : ∀ name, kind name → IsName name)
    (place : Place) :
    left.node? place = fs.node? place ∨
      left.node? place = .none ∧ fs.node? place ≠ some .dir ∧ ∃ name, kind name ∧ place = home ++ [name] := by
  induction h with
  | none => exact .inl rfl
  | @next mid left name before named hremove ih =>
    obtain ⟨hnode, rfl⟩ := before.removed hdir (hkind name named) hremove
    by_cases hplace : place = home ++ [name]
    · rw [hplace]
      exact .inr ⟨mid.node?_drop_self (by simp), before.fewer.node_ne_dir hnode, name, named, rfl⟩
    · rwa [mid.node?_drop_of_ne hplace]

theorem kept : Kept fs left := by
  induction h with
  | none => exact .refl fs
  | next _ _ removed ih => exact ih.trans (kept_removeFile removed)

end

/-- **Sweeping files** removes them, as far as they can be removed. -/
theorem foldl_sweep {names : List String} {state : Nat × FileSystem} (h : Cleared d.dir kind fs state.2)
    (hnames : ∀ name ∈ names, kind name) :
    Cleared d.dir kind fs (names.foldl d.sweep state).2 ∧
      ∀ name ∈ names, (names.foldl d.sweep state).2.IsGone (d.path name) := by
  induction names generalizing fs state with
  | nil => exact ⟨h, nofun⟩
  | cons name names ih =>
    have hrest : ∀ name ∈ names, kind name := (List.forall_mem_cons.1 hnames).2
    have hstep : Cleared d.dir kind fs (d.sweep state name).2 ∧ (d.sweep state name).2.IsGone (d.path name) := by
      unfold sweep
      cases hremove : state.2.removeFile (d.path name) with
      | error e => exact ⟨h, isGone_of_error hremove⟩
      | ok left => exact ⟨h.next (hnames name List.mem_cons_self) hremove, isGone_of_removeFile hremove⟩
    have hlater : Cleared d.dir kind (d.sweep state name).2 (names.foldl d.sweep (d.sweep state name)).2 :=
      (ih .none hrest).1
    exact ⟨(ih hstep.1 hrest).1, List.forall_mem_cons.2 ⟨hlater.fewer.isGone hstep.2, (ih hstep.1 hrest).2⟩⟩

end Cleared

/-- **Sweeping a file** takes it away or leaves all as it is. -/
theorem sweep_spec (hdir : fs.locate d.dir true = .ok home) (hname : IsName name) (count : Nat) :
    (d.sweep (count, fs) name).2 = fs ∨
      fs.node? (home ++ [name]) ≠ some .dir ∧ (d.sweep (count, fs) name).2 = fs.drop (home ++ [name]) := by
  unfold sweep
  cases hremove : fs.removeFile (d.path name) with
  | error e => exact .inl rfl
  | ok left =>
    have hstart : Cleared d.dir IsName fs fs := .none
    exact .inr (hstart.removed hdir hname hremove)

/-- **Removing what is stale** removes files with stale names from the directory, as far as they can be removed. -/
theorem cleared_prune (h : d.prune fs live = .ok (count, fs')) :
    ∃ home, fs.locate d.dir true = .ok home ∧ Cleared d.dir (d.isStale live · = true) fs fs' ∧
      ∀ name ∈ fs.childNames home, d.isStale live name = true → fs'.IsGone (d.path name) := by
  unfold prune at h
  cases hlist : fs.list d.dir with
  | error e => rw [hlist] at h; cases h
  | ok names =>
    obtain ⟨home, hhome, -, rfl⟩ := list_eq_ok_iff.1 hlist
    rw [hlist] at h
    obtain rfl : _ = fs' := congrArg Prod.snd (Except.ok.inj h)
    have hstart : Cleared d.dir (d.isStale live · = true) fs (0, fs).2 := .none
    have hstale : ∀ name ∈ (fs.childNames home).filter (d.isStale live), d.isStale live name = true :=
      fun name hname => (List.mem_filter.1 hname).2
    obtain ⟨hcleared, hgone⟩ := hstart.foldl_sweep hstale
    exact ⟨home, hhome, hcleared, fun name hname hstale => hgone name (List.mem_filter.2 ⟨hname, hstale⟩)⟩

/-- Removing what is stale takes files away, and does nothing else. -/
theorem prune_removes (h : d.prune fs live = .ok (count, fs')) (place : Place) :
    fs'.node? place = fs.node? place ∨ fs'.node? place = none := by
  obtain ⟨-, -, hcleared, -⟩ := cleared_prune h
  exact (hcleared.fewer.node place).imp_right And.left

/-! ### Well-formed file systems -/

theorem kept_removed (fs : FileSystem) (path : String) : Kept fs ((fs.removeFile path).toOption.getD fs) := by
  cases hremove : fs.removeFile path with
  | error e => exact .refl fs
  | ok left => exact kept_removeFile hremove

/-- **Opening a store** keeps the file system well-formed. -/
theorem kept_prepare (d : Disk) (ticket : Nat) (fs : FileSystem) : Kept fs (d.prepare ticket fs).2 := by
  have hmade := kept_makeDirs fs d.dir
  unfold prepare
  generalize fs.makeDirs d.dir = made at hmade ⊢
  obtain ⟨result, made⟩ := made
  cases result with
  | error cause => exact hmade
  | ok _ =>
    dsimp only at hmade ⊢
    generalize d.tempPath probeStem ticket = probe
    cases hwrite : made.write probe .empty with
    | error cause => exact hmade
    | ok written => exact (hmade.trans (kept_write hwrite)).trans (kept_removed written probe)

/-- **Storing an entry** keeps the file system well-formed. -/
theorem IsOpen.kept_put (h : IsOpen good home d fs) (ticket : Nat) (hkey : isDigest e.key.toList = true)
    (hgood : good e.encode) : Kept fs (d.put ticket fs e).2 := by
  have htemp : IsStoreName (tempName e.key d.process ticket) := .staged d.process ticket hkey
  unfold Disk.put stage Disk.publish tempPath
  generalize tempName e.key d.process ticket = temp at htemp ⊢
  dsimp only
  cases hwrite : fs.write (d.path temp) e.encode with
  | error cause => exact .refl fs
  | ok staged =>
    have hstaged := kept_write hwrite
    -- the staged file stands where its path leads, so what takes the entry's name is no directory
    have hfile : ∀ place, staged.locate (d.path temp) false = .ok place → staged.node? place ≠ some .dir := by
      obtain ⟨place, hplace, hfree, rfl⟩ := of_write_eq_ok hwrite
      rw [h.locate_path htemp hplace] at hfree ⊢
      intro there hthere
      rw [(h.put_file htemp hfree fun _ _ => hgood).1.locate_path htemp hthere]
      simp
    dsimp only [located]
    cases hrename : staged.rename (d.path temp) (d.entryPath e.key) with
    | error cause => exact hstaged.trans (kept_removed staged _)
    | ok done => exact hstaged.trans (kept_rename hrename hfile)

/-- **Removing what is stale** keeps the file system well-formed. -/
theorem kept_prune (h : d.prune fs live = .ok (count, fs')) : Kept fs fs' := by
  obtain ⟨-, -, hcleared, -⟩ := cleared_prune h
  exact hcleared.kept

end Cartograph.Disk
