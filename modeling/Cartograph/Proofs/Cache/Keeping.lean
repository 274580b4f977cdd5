import Cartograph.Proofs.Cache.Store
import Cartograph.Proofs.FileSystem.Making

/-!
# What a store keeps

A store that nothing fails for has what was put into it (`Store.IsReady.put`), and after pruning it has what is in use
and nothing else (`Store.get?_prune`), also once it is opened again (`Disk.IsOpen.get?_prepare`). For a store in a
directory this says that the paths of its files lead to that directory and that no other use was made of their names
(`Disk.IsReady`); a store in memory has no way to fail.
-/

namespace Cartograph.Disk

open Cache FileSystem List

variable {good : ByteArray → Prop} {home : Place} {fs fs' : FileSystem} {d : Disk} {name key : String}
  {names : List String}

/-! ### Storing without a failure -/

/-- A file can be put under a name: its path leads to the directory of the store, and no directory stands there. -/
structure Admits (d : Disk) (home : Place) (fs : FileSystem) (name : String) : Prop where
  reached : fs.locate (d.path name) true = .ok (home ++ [name])
  free : fs.node? (home ++ [name]) ≠ some .dir

theorem Admits.of_sameWays (h : d.Admits home fs name) (hways : SameWays fs fs') :
    d.Admits home fs' name :=
  ⟨hways.locate h.reached, hways.node_ne_dir h.free⟩

/-- Nothing with a name of a store is a link, so none is followed at the end of its path. -/
theorem IsOpen.locate_path_last (h : IsOpen good home d fs) (hname : IsStoreName name) :
    fs.locate (d.path name) true = fs.locate (d.path name) false := by
  obtain hsame | ⟨place, target, hplace, hnode⟩ := fs.locate_last (d.path name)
  · exact hsame
  · rw [h.locate_path hname hplace] at hnode
    exact absurd hnode (h.store.unlinked hname target)

/-- The files after an entry was stored. -/
def stored (d : Disk) (home : Place) (ticket : Nat) (fs : FileSystem) (e : CacheEntry) : FileSystem :=
  ((fs.put (home ++ [tempName e.key d.process ticket]) (.file e.encode)).drop
    (home ++ [tempName e.key d.process ticket])).put (home ++ [entryName e.key]) (.file e.encode)

section Put

variable {e : CacheEntry} {ticket : Nat}

section

variable (h : IsOpen good home d fs) (hkey : isDigest e.key.toList = true) (hgood : good e.encode)
include h hkey hgood

/-- **An entry is stored** if its two names can be given to files. -/
theorem IsOpen.put_eq (htemp : d.Admits home fs (tempName e.key d.process ticket))
    (hentry : d.Admits home fs (entryName e.key)) : d.put ticket fs e = (.ok (), d.stored home ticket fs e) := by
  have hname : IsStoreName (tempName e.key d.process ticket) := .staged d.process ticket hkey
  have hwrite := write_eq_ok (d.withoutSlashes_path hname) htemp.reached htemp.free e.encode
  obtain ⟨hstaged, -⟩ := h.put_file hname htemp.free fun _ _ => hgood
  have hways := sameWays_put_file ⟨htemp.free, h.store.unlinked hname⟩ e.encode
  have hnode := fs.node?_put_self (.file e.encode) (show home ++ [tempName e.key d.process ticket] ≠ [] by simp)
  have hrename := rename_eq_ok
    ((hstaged.locate_path_last hname).symm.trans (htemp.of_sameWays hways).reached) hnode
    ((hstaged.locate_path_last (.entry hkey)).symm.trans (hentry.of_sameWays hways).reached)
    (hentry.of_sameWays hways).free
  unfold Disk.put stage tempPath
  dsimp only
  rw [hwrite]
  dsimp only [located]
  unfold Disk.publish tempPath entryPath
  dsimp only
  rw [hrename]
  rfl

/-- **An entry that was stored** had two names that could be given to files. -/
theorem IsOpen.admits_of_put (hput : (d.put ticket fs e).1 = .ok ()) :
    d.Admits home fs (tempName e.key d.process ticket) ∧ d.Admits home fs (entryName e.key) := by
  have hname : IsStoreName (tempName e.key d.process ticket) := .staged d.process ticket hkey
  unfold Disk.put stage tempPath at hput
  dsimp only at hput
  cases hwrite : fs.write (d.path (tempName e.key d.process ticket)) e.encode with
  | error cause => rw [hwrite] at hput; cases hput
  | ok staged =>
    obtain ⟨place, hplace, hfree, rfl⟩ := of_write_eq_ok hwrite
    obtain rfl := h.locate_path hname hplace
    refine ⟨⟨hplace, hfree⟩, ?_⟩
    obtain ⟨hstaged, -⟩ := h.put_file hname hfree fun _ _ => hgood
    have hways := sameWays_put_file ⟨hfree, h.store.unlinked hname⟩ e.encode
    rw [hwrite] at hput
    dsimp only [located] at hput
    unfold Disk.publish tempPath entryPath at hput
    dsimp only at hput
    split at hput
    · next hrename =>
      obtain ⟨-, -, there, -, -, hthere, hdir, -⟩ := of_rename_eq_ok hrename
      obtain rfl := hstaged.locate_path (.entry hkey) hthere
      rw [← hstaged.locate_path_last (.entry hkey)] at hthere
      exact Admits.of_sameWays ⟨hthere, hdir⟩ hways.symm
    · cases hput

end

/-- What is found under a key is what stands under the name of its entry. -/
theorem get?_of_node (hreached : fs.locate (d.entryPath key) true = .ok (home ++ [entryName key]))
    (hnode : fs.node? (home ++ [entryName key]) = some (.file e.encode)) (hkey : e.key = key) (hfits : e.value.Fits) :
    d.get? fs key = some e := by
  have hread : fs.read (d.entryPath key) = .ok e.encode := read_eq_ok_iff.2 ⟨_, hreached, hnode⟩
  unfold Disk.get?
  rw [hread, Except.toOption, Option.bind_some, CacheEntry.decode?_encode hfits]
  exact if_pos hkey

/-- **An entry that was stored is found.** -/
theorem IsOpen.get?_put_self (h : IsOpen good home d fs) (hkey : isDigest e.key.toList = true)
    (hgood : good e.encode) (hfits : e.value.Fits) (htemp : d.Admits home fs (tempName e.key d.process ticket))
    (hentry : d.Admits home fs (entryName e.key)) : d.get? (d.put ticket fs e).2 e.key = some e := by
  have hways := (h.stored ticket hkey hgood).sameWays h.store (.staged _ _ hkey) (.entry hkey)
  have hnode : (d.put ticket fs e).2.node? (home ++ [entryName e.key]) = some (.file e.encode) := by
    rw [h.put_eq hkey hgood htemp hentry]
    exact node?_put_self _ _ (by simp)
  exact get?_of_node (hways.locate hentry.reached) hnode rfl hfits

end Put

/-! ### Removing what is not in use -/

/-- No link has a name that is taken for one of a store's. -/
def IsUnlinked (home : Place) (fs : FileSystem) : Prop :=
  ∀ name, isOwnName name = true → ∀ target, fs.node? (home ++ [name]) ≠ some (.link target)

theorem IsUnlinked.of_sameWays (h : IsUnlinked home fs) (hways : SameWays fs fs') : IsUnlinked home fs' := by
  intro name hname target
  obtain hsame | ⟨-, hblind⟩ := hways.node (home ++ [name])
  · rw [hsame]
    exact h name hname target
  · exact hblind.2 target

/-- What has become of files that were to be removed: those whose paths lead to them are gone, all else is left
alone. -/
structure Swept (d : Disk) (home : Place) (names : List String) (fs left : FileSystem) : Prop where
  ways : SameWays fs left
  kept : ∀ place, (∀ name ∈ names, place ≠ home ++ [name]) → left.node? place = fs.node? place
  removed : ∀ name ∈ names, fs.locate (d.path name) false = .ok (home ++ [name]) →
    fs.node? (home ++ [name]) ≠ some .dir → left.node? (home ++ [name]) = none

/-- **Sweeping files** one after the other. -/
theorem swept_foldl (hdir : fs.locate d.dir true = .ok home) (hlinks : IsUnlinked home fs)
    (hnames : ∀ name ∈ names, isOwnName name = true) (count : Nat) :
    Swept d home names fs (names.foldl d.sweep (count, fs)).2 := by
  have hstart : Cleared d.dir (· ∈ names) fs (count, fs).2 := .none
  obtain ⟨hcleared, hgone⟩ := hstart.foldl_sweep fun _ hname => hname
  generalize (names.foldl d.sweep (count, fs)).2 = left at hcleared hgone ⊢
  have hnode := hcleared.node hdir fun name hname => (hasForm_of_isOwnName (hnames name hname)).isName
  have hways : SameWays fs left := by
    refine ⟨hcleared.fewer.current, fun place => (hnode place).imp_right ?_⟩
    rintro ⟨hnone, hfree, name, hname, rfl⟩
    exact ⟨⟨hfree, hlinks name (hnames name hname)⟩, by simp [IsBlind, hnone]⟩
  refine ⟨hways, fun place hne => (hnode place).resolve_right ?_, fun name hname hreached hfree => ?_⟩
  · rintro ⟨-, -, name, hname, heq⟩
    exact hne name hname heq
  · exact (hgone name hname _ (hways.locate hreached)).resolve_right (hways.node_ne_dir hfree)

/-- Removing files with names that are taken for a store's spares all others. -/
theorem Swept.spared (h : Swept d home names fs fs') (hnames : ∀ name ∈ names, isOwnName name = true) :
    Spared fs fs' := by
  refine ⟨h.ways.dir, fun {dir name content} hforeign => ?_, fun {place target} => ?_⟩
  · rw [h.kept]
    intro other hother heq
    obtain rfl : name = other := singleton_inj.1 (append_inj' heq rfl).2
    exact absurd (hnames name hother) (by simp [hforeign.notTaken])
  · obtain hsame | ⟨hblind, hblind'⟩ := h.ways.node place
    · rw [hsame]
    · exact iff_of_false (hblind'.2 target) (hblind.2 target)

theorem isStale_entryName (hkey : isDigest key.toList = true) (live : List String) :
    d.isStale live (entryName key) = !live.contains key := by
  rw [isStale, entryKey?_eq_some_iff.2 ⟨hkey, rfl⟩]

section

variable (h : IsOpen good home d fs) {ticket : Nat}
include h

/-- **Pruning** sweeps what is stale. -/
theorem IsOpen.prune_eq (hlinks : IsUnlinked home fs) (hlist : fs.list d.dir = .ok names) (live : List String) :
    ∃ count left, d.prune fs live = .ok (count, left) ∧
      Swept d home ((fs.childNames home).filter (d.isStale live)) fs left := by
  obtain ⟨place, hplace, -, rfl⟩ := list_eq_ok_iff.1 hlist
  obtain rfl : home = place := Except.ok.inj (h.dir.symm.trans hplace)
  have hown : ∀ name ∈ (fs.childNames home).filter (d.isStale live), isOwnName name = true := fun name hname =>
    isOwnName_of_isStale (List.mem_filter.1 hname).2
  refine ⟨(((fs.childNames home).filter (d.isStale live)).foldl d.sweep (0, fs)).1, _, ?_,
    swept_foldl h.dir hlinks hown 0⟩
  unfold prune
  rw [hlist]
  rfl

/-- What is in use is left as it is, and all else is removed. -/
theorem IsOpen.get?_of_swept {live : List String}
    (hswept : Swept d home ((fs.childNames home).filter (d.isStale live)) fs fs')
    (hkey : isDigest key.toList = true) : d.get? fs' key = if key ∈ live then d.get? fs key else none := by
  have hstale : entryName key ∈ (fs.childNames home).filter (d.isStale live) → key ∉ live := fun hmem => by
    have hstale := (List.mem_filter.1 hmem).2
    rw [isStale_entryName hkey] at hstale
    simpa using hstale
  have hkept : entryName key ∉ (fs.childNames home).filter (d.isStale live) →
      fs'.node? (home ++ [entryName key]) = fs.node? (home ++ [entryName key]) := fun hmem =>
    hswept.kept _ fun name hname heq => hmem (singleton_inj.1 (append_cancel_left heq) ▸ hname)
  split
  · next hlive => exact h.get?_eq_of_node hswept.ways hkey (hkept fun hmem => hstale hmem hlive)
  · next hdead =>
    -- what would be found afterwards was there before, where its path led to it
    cases hget : d.get? fs' key with
    | none => rfl
    | some e =>
      obtain ⟨bytes, hread, -, -⟩ := of_get?_eq_some hget
      obtain ⟨place, hplace, hfile⟩ := read_eq_ok_iff.1 hread
      have hback := hswept.ways.symm.locate hplace
      obtain rfl := h.locate_path (.entry hkey) hback
      have hback := (h.locate_path_last (.entry hkey)).symm.trans hback
      have hfree := hswept.ways.symm.node_ne_dir (by rw [hfile]; simp : fs'.node? (home ++ [entryName key]) ≠ some .dir)
      by_cases hmem : entryName key ∈ (fs.childNames home).filter (d.isStale live)
      · rw [hswept.removed _ hmem hback hfree] at hfile
        cases hfile
      · rw [hkept hmem] at hfile
        refine absurd (mem_filter.2 ⟨mem_childNames hfile, ?_⟩) hmem
        rw [isStale_entryName hkey]
        simpa using hdead

/-! ### Opening a store again -/

theorem IsOpen.resolve_dir (hdir : fs.node? home = some .dir) : fs.resolve d.dir = .ok (home, .dir) := by
  rw [resolve, h.dir]
  dsimp only [bind, Except.bind]
  rw [hdir]
  rfl

/-- **Opening a store whose directory is there** makes nothing and leaves all but the file that is tried out. -/
theorem IsOpen.prepare_eq (hdir : fs.node? home = some .dir) (hprepare : d.prepare ticket fs = (.ok (), fs')) :
    SameWays fs fs' ∧ ∀ place, place ≠ home ++ [tempName probeStem d.process ticket] →
      fs'.node? place = fs.node? place := by
  have hprobe : IsStoreName (tempName probeStem d.process ticket) := .probe d.process ticket
  have hnoEntry : ∀ key, tempName probeStem d.process ticket = entryName key → good .empty :=
    fun key heq => absurd heq (tempName_ne_entryName _ _ _ key)
  unfold prepare tempPath at hprepare
  generalize tempName probeStem d.process ticket = probe at hprobe hnoEntry hprepare ⊢
  rw [makeDirs_of_resolve (h.resolve_dir hdir)] at hprepare
  dsimp only at hprepare
  cases hwrite : fs.write (d.path probe) .empty with
  | error cause => rw [hwrite] at hprepare; cases hprepare
  | ok written =>
    rw [hwrite] at hprepare
    obtain rfl := (Prod.mk.inj hprepare).2
    obtain ⟨place, hplace, hfree, rfl⟩ := of_write_eq_ok hwrite
    obtain rfl := h.locate_path hprobe hplace
    have hways := sameWays_put_file ⟨hfree, h.store.unlinked hprobe⟩ .empty
    have hother : ∀ place, place ≠ home ++ [probe] →
        (fs.put (home ++ [probe]) (.file .empty)).node? place = fs.node? place :=
      fun place hne => fs.node?_put_of_ne _ hne
    obtain ⟨hput, -⟩ := h.put_file hprobe hfree hnoEntry
    generalize fs.put (home ++ [probe]) (.file .empty) = written at hways hother hput ⊢
    cases hremove : written.removeFile (d.path probe) with
    | error cause => exact ⟨hways, hother⟩
    | ok left =>
      obtain ⟨place, hplace, hfree, rfl⟩ := of_removeFile_eq_ok hremove
      obtain rfl := hput.locate_path hprobe hplace
      refine ⟨hways.trans (sameWays_drop ⟨hfree, hput.store.unlinked hprobe⟩), fun place hne => ?_⟩
      exact (written.node?_drop_of_ne hne).trans (hother place hne)

/-- **A store that is opened again** has what it had. -/
theorem IsOpen.get?_prepare (hdir : fs.node? home = some .dir)
    (hprepare : d.prepare ticket fs = (.ok (), fs')) (hkey : isDigest key.toList = true) :
    d.get? fs' key = d.get? fs key := by
  obtain ⟨hways, hother⟩ := h.prepare_eq hdir hprepare
  refine h.get?_eq_of_node hways hkey (hother _ fun heq => ?_)
  exact tempName_ne_entryName _ _ _ key (singleton_inj.1 (append_cancel_left heq)).symm

end

/-! ### Stores that nothing fails for -/

/-- Nothing fails for a store in a directory: the directory can be listed, no link has a name that is taken for one of
the store's, and entries can be stored under the keys with the running numbers below a bound. -/
structure IsReady (home : Place) (keys : List String) (bound : Nat) (d : Disk) (fs : FileSystem) (tickets : Nat) :
    Prop where
  listed : ∃ names, fs.list d.dir = .ok names
  unlinked : IsUnlinked home fs
  accepts : ∀ {ticket}, tickets ≤ ticket → ticket < bound → ∀ {e : CacheEntry}, e.key ∈ keys →
    (d.put ticket fs e).1 = .ok ()

namespace IsReady

variable {keys : List String} {bound tickets : Nat} {e : CacheEntry}

section

variable (h : IsReady home keys bound d fs tickets) (hopen : IsOpen good home d fs)
include h hopen

/-- The directory of a store that nothing fails for is there. -/
theorem node?_home : fs.node? home = some .dir := by
  obtain ⟨names, hlist⟩ := h.listed
  obtain ⟨place, hplace, hdir, -⟩ := list_eq_ok_iff.1 hlist
  obtain rfl : home = place := Except.ok.inj (hopen.dir.symm.trans hplace)
  exact hdir

/-- **Files that come and go** leave a store that nothing fails for. -/
theorem of_sameWays (hopen' : IsOpen good home d fs') (hways : SameWays fs fs') (hgood : ∀ bytes, good bytes)
    (hkeys : ∀ key ∈ keys, isDigest key.toList = true) {later : Nat} (hle : tickets ≤ later) :
    IsReady home keys bound d fs' later := by
  refine ⟨?_, h.unlinked.of_sameWays hways, fun {ticket} hticket hlt {e} he => ?_⟩
  · obtain ⟨names, hlist⟩ := h.listed
    obtain ⟨place, hplace, hdir, -⟩ := list_eq_ok_iff.1 hlist
    exact ⟨_, list_eq_ok_iff.2 ⟨place, hways.locate hplace, hways.dir hdir, rfl⟩⟩
  · obtain ⟨htemp, hentry⟩ :=
      hopen.admits_of_put (hkeys e.key he) (hgood e.encode) (h.accepts (Nat.le_trans hle hticket) hlt he)
    rw [hopen'.put_eq (hkeys e.key he) (hgood e.encode) (htemp.of_sameWays hways) (hentry.of_sameWays hways)]

/-- **Storing an entry** leaves a store that nothing fails for. -/
theorem put (hgood : ∀ bytes, good bytes) (hkeys : ∀ key ∈ keys, isDigest key.toList = true)
    (hkey : e.key ∈ keys) : IsReady home keys bound d (d.put tickets fs e).2 (tickets + 1) := by
  have hdigest := hkeys e.key hkey
  have hways := (hopen.stored tickets hdigest (hgood e.encode)).sameWays hopen.store (.staged _ _ hdigest)
    (.entry hdigest)
  exact h.of_sameWays hopen (hopen.put tickets hdigest (hgood e.encode)).1 hways hgood hkeys (Nat.le_succ tickets)

/-- **What was stored is found.** -/
theorem get?_put (hgood : ∀ bytes, good bytes) (hdigest : isDigest e.key.toList = true) (hkey : e.key ∈ keys)
    (hlt : tickets < bound) (hfits : e.value.Fits) : d.get? (d.put tickets fs e).2 e.key = some e := by
  obtain ⟨htemp, hentry⟩ := hopen.admits_of_put hdigest (hgood e.encode) (h.accepts (Nat.le_refl tickets) hlt hkey)
  exact hopen.get?_put_self hdigest (hgood e.encode) hfits htemp hentry

end

end IsReady

end Cartograph.Disk

namespace Cartograph

open FileSystem (Place IsStore)

namespace Memory

/-- Pruning leaves what is in use, and nothing else. -/
theorem get?_prune (m : Memory) (live : List String) (key : String) :
    (m.prune live).2.get? key = if key ∈ live then m.get? key else none := by
  rw [prune, get?, List.find?_filter]
  split
  · next hlive =>
    congr 1
    funext e
    by_cases hkey : e.key = key <;> simp [hkey, hlive]
  · next hdead =>
    rw [List.find?_eq_none]
    intro e _
    by_cases hkey : e.key = key <;> simp [hkey, hdead]

end Memory

namespace Store

variable {good : ByteArray → Prop} {home : Place} {own : Store} {s : Session} {keys : List String} {bound : Nat}
  {key : String} {value : CachedValue}

/-- Nothing fails for a store, as long as the running numbers stay below a bound. -/
def IsReady (home : Place) (keys : List String) (bound : Nat) (s : Session) : Store → Prop
  | memory => True
  | disk d => d.IsReady home keys bound s.files s.tickets

/-- Whether a result can be kept: a store in a directory keeps numbers of sixty-four bits. -/
def Holds (value : CachedValue) : Store → Prop
  | memory => True
  | disk _ => value.Fits

/-- A store has a result under a key. -/
def Has (own : Store) (s : Session) (key : String) (value : CachedValue) : Prop :=
  ∃ e, own.get? s key = some e ∧ e.value = value

theorem has_parse_iff {outcome : Outcome} : own.Has s key (.parse outcome) ↔ own.outcome? s key = some outcome := by
  refine ⟨?_, outcome?_eq_some⟩
  rintro ⟨⟨_, _, value⟩, hget, hvalue⟩
  obtain rfl : value = .parse outcome := hvalue
  rw [Store.outcome?, hget]

theorem has_analysis_iff {found : List Diagnostic} :
    own.Has s key (.analysis found) ↔ own.findings? s key = some found := by
  refine ⟨?_, findings?_eq_some⟩
  rintro ⟨⟨_, _, value⟩, hget, hvalue⟩
  obtain rfl : value = .analysis found := hvalue
  rw [Store.findings?, hget]

/-- **Putting a result** into a store that nothing fails for leaves such a store, and it has the result. -/
theorem IsReady.put (h : own.IsReady home keys bound s) (hopen : own.IsUsable good home s)
    (hgood : ∀ bytes, good bytes) (hkeys : ∀ key ∈ keys, Cache.isDigest key.toList = true) (hkey : key ∈ keys)
    (hholds : own.Holds value) :
    own.IsReady home keys bound (own.put s key value) ∧
      ((own.put s key value).tickets ≤ bound → own.Has (own.put s key value) key value) := by
  cases own with
  | memory => exact ⟨trivial, fun _ => ⟨_, s.memory.get?_put_self ⟨key, s.stamp, value⟩, rfl⟩⟩
  | disk d =>
    have hready : d.IsReady home keys bound s.files s.tickets := h
    have hput := hready.put (e := ⟨key, s.stamp, value⟩) hopen hgood hkeys hkey
    have hfound := hready.get?_put (e := ⟨key, s.stamp, value⟩) hopen hgood (hkeys key hkey) hkey
    unfold Has Store.put IsReady Store.get?
    dsimp only
    generalize (d.put s.tickets s.files ⟨key, s.stamp, value⟩).2 = left at hput hfound ⊢
    exact ⟨hput, fun hlt => ⟨_, hfound hlt hholds, rfl⟩⟩

/-- **Putting a result** leaves what a store has under other keys. -/
theorem Has.put (h : own.Has s key value) (hopen : own.IsUsable good home s) (hgood : ∀ bytes, good bytes)
    (hkey : Cache.isDigest key.toList = true) {other : String} (hother : Cache.isDigest other.toList = true)
    (hne : key ≠ other) (value' : CachedValue) : own.Has (own.put s other value') key value := by
  obtain hsame | ⟨heq, -⟩ := get?_put hopen hother (hgood (CacheEntry.encode ⟨other, s.stamp, value'⟩)) hkey
  · unfold Has
    rwa [hsame]
  · exact absurd heq hne

/-- **Pruning** leaves what is in use, and nothing else. -/
theorem get?_prune (h : own.IsReady home keys bound s) (hopen : own.IsUsable good home s) (live : List String)
    (hkey : Cache.isDigest key.toList = true) :
    own.get? (own.prune s live) key = if key ∈ live then own.get? s key else none := by
  cases own with
  | memory => exact s.memory.get?_prune live key
  | disk d =>
    have hready : d.IsReady home keys bound s.files s.tickets := h
    obtain ⟨names, hlist⟩ := hready.listed
    obtain ⟨count, left, hprune, hswept⟩ := Disk.IsOpen.prune_eq hopen hready.unlinked hlist live
    unfold Store.prune
    dsimp only
    rw [hprune]
    exact Disk.IsOpen.get?_of_swept hopen hswept hkey

theorem kept_prune (own : Store) (s : Session) (live : List String) :
    FileSystem.Kept s.files (own.prune s live).files := by
  cases own with
  | memory => exact .refl s.files
  | disk d =>
    unfold Store.prune
    dsimp only
    split
    · next hprune => exact Disk.kept_prune hprune
    · exact .refl s.files

/-- **Pruning** leaves a store that nothing fails for, and spares directories and foreign files. -/
theorem IsReady.prune (h : own.IsReady home keys bound s) (hopen : own.IsUsable good home s)
    (hgood : ∀ bytes, good bytes) (hkeys : ∀ key ∈ keys, Cache.isDigest key.toList = true) (live : List String) :
    own.IsReady home keys bound (own.prune s live) ∧ own.IsUsable good home (own.prune s live) ∧
      FileSystem.Spared s.files (own.prune s live).files ∧
      (IsStore good home s.files → IsStore good home (own.prune s live).files) := by
  cases own with
  | memory => exact ⟨trivial, trivial, .refl s.files, id⟩
  | disk d =>
    have hready : d.IsReady home keys bound s.files s.tickets := h
    obtain ⟨names, hlist⟩ := hready.listed
    obtain ⟨count, left, hprune, hswept⟩ := hopen.prune_eq hready.unlinked hlist live
    have hopen' : d.IsOpen good home left :=
      ⟨hswept.ways.locate hopen.dir, hopen.store.of_removed (Disk.prune_removes hprune)⟩
    unfold Store.prune
    dsimp only
    rw [hprune]
    refine ⟨hready.of_sameWays hopen hopen' hswept.ways hgood hkeys (Nat.le_refl _), hopen',
      hswept.spared fun name hname => ?_, fun _ => hopen'.store⟩
    exact Disk.isOwnName_of_isStale (List.mem_filter.1 hname).2

end Store

end Cartograph
