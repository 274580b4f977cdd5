import Cartograph.Proofs.Cache.Disk
import Cartograph.Proofs.FileSystem.Making

/-!
# What maintenance removes

Pruning a store and emptying its directory remove files by their names. They take the names of entries for what they
are, and of temporary files all names that a store can give them (`IsTempName`). But they take others for such names as
well, with a plus sign or zeros in front of a number or with a running number that does not fit in sixty-four bits
(`IsMistaken`). All other files are spared, whatever else is in the directory (`Disk.maintenance_spares`).
-/

namespace Cartograph.Cache

variable {name : String} {process : Nat}

/-! ### Names of temporary files -/

/-- Whether the store of a process can give a temporary file a name. -/
def IsTempName (process : Nat) (name : String) : Prop :=
  process < processLimit ∧ ∃ stem ticket, IsStem stem.toList ∧ ticket < 2 ^ 64 ∧ name = tempName stem process ticket

/-- Whether a name is that of a temporary file but for what leads its numbers or for the size of its running number. -/
def IsMistaken (process : Nat) (name : String) : Prop :=
  process < processLimit ∧ ∃ lead stem ticket, IsStem stem.toList ∧ ¬ (lead = {} ∧ ticket < 2 ^ 64) ∧
    name = ledName lead stem process ticket

/-- **What is taken for the name of a temporary file** is one, or is mistaken for one. -/
theorem tempProcess?_eq_some_iff_or :
    tempProcess? name = some process ↔ IsTempName process name ∨ IsMistaken process name := by
  rw [tempProcess?_eq_some_iff]
  constructor
  · rintro ⟨hlt, lead, stem, ticket, hstem, rfl⟩
    by_cases hplain : lead = {} ∧ ticket < 2 ^ 64
    · exact .inl ⟨hlt, stem, ticket, hstem, hplain.2, by rw [hplain.1, tempName_eq]⟩
    · exact .inr ⟨hlt, lead, stem, ticket, hstem, hplain, rfl⟩
  · rintro (⟨hlt, stem, ticket, hstem, -, rfl⟩ | ⟨hlt, lead, stem, ticket, hstem, -, rfl⟩)
    · exact ⟨hlt, {}, stem, ticket, hstem, tempName_eq stem process ticket⟩
    · exact ⟨hlt, lead, stem, ticket, hstem, rfl⟩

theorem not_isTempName_of_isMistaken (h : IsMistaken process name) : ¬ IsTempName process name := by
  obtain ⟨-, lead, stem, ticket, hstem, hplain, rfl⟩ := h
  rintro ⟨-, stem', ticket', hstem', hlt, heq⟩
  rw [tempName_eq] at heq
  obtain ⟨rfl, -, -, rfl⟩ := ledName_injective hstem.dot_not_mem hstem'.dot_not_mem heq
  exact hplain ⟨rfl, hlt⟩

/-! ### Names that are removed -/

/-- Whether a store of some process can give a name to a file, or is mistaken in it. -/
def IsTaken (name : String) : Prop :=
  (∃ key, isDigest key.toList = true ∧ name = entryName key) ∨
    ∃ process, IsTempName process name ∨ IsMistaken process name

theorem isOwnName_iff : isOwnName name = true ↔ IsTaken name := by
  simp only [isOwnName, Bool.or_eq_true, Option.isSome_iff_exists, entryKey?_eq_some_iff,
    tempProcess?_eq_some_iff_or, IsTaken]

end Cartograph.Cache

namespace Cartograph.Disk

open Cache FileSystem

variable {d : Disk} {fs left mid done : FileSystem} {home : Place} {live names : List String} {dir name : String}

/-- Whether a name is that of an entry that is not in use, or of a temporary file of this process up to mistakes. -/
def IsStaleName (d : Disk) (live : List String) (name : String) : Prop :=
  (∃ key, isDigest key.toList = true ∧ key ∉ live ∧ name = entryName key) ∨
    IsTempName d.process name ∨ IsMistaken d.process name

theorem isStale_iff : d.isStale live name = true ↔ d.IsStaleName live name := by
  unfold isStale IsStaleName
  rw [← tempProcess?_eq_some_iff_or]
  split
  · next key hkey =>
    obtain ⟨hdigest, rfl⟩ := entryKey?_eq_some_iff.1 hkey
    rw [Bool.not_eq_true', List.contains_eq_mem, decide_eq_false_iff_not]
    constructor
    · exact fun hlive => .inl ⟨key, hdigest, hlive, rfl⟩
    · rintro (⟨other, -, hlive, heq⟩ | htemp)
      · rwa [entryName_injective heq]
      · -- the name of an entry does not end like that of a temporary file
        obtain ⟨-, lead, stem, ticket, -, heq⟩ := tempProcess?_eq_some_iff.1 htemp
        exact absurd heq.symm (ledName_ne_entryName lead stem d.process ticket key)
  · next hnone =>
    rw [beq_iff_eq]
    refine ⟨.inr, fun h => h.resolve_left ?_⟩
    rintro ⟨key, hdigest, -, heq⟩
    rw [entryKey?_eq_some_iff.2 ⟨hdigest, heq⟩] at hnone
    cases hnone

/-! ### Pruning -/

/-- What pruning makes of the files: only files and links with stale names go from the directory, and none that could
be removed is left. -/
structure Pruned (d : Disk) (live : List String) (fs left : FileSystem) : Prop where
  spared : ∀ place, left.node? place = fs.node? place ∨
    left.node? place = none ∧ fs.node? place ≠ some .dir ∧
      ∃ home name, fs.locate d.dir true = .ok home ∧ place = home ++ [name] ∧ d.IsStaleName live name
  removed : ∀ name, d.IsStaleName live name → left.IsGone (d.path name)

theorem pruned {count : Nat} (h : d.prune fs live = .ok (count, left)) : d.Pruned live fs left := by
  obtain ⟨home, hhome, hcleared, hgone⟩ := cleared_prune h
  have hname {name : String} (hstale : d.isStale live name = true) : IsName name :=
    (hasForm_of_isOwnName (isOwnName_of_isStale hstale)).isName
  have hnode := hcleared.node hhome fun _ => hname
  refine ⟨fun place => (hnode place).imp_right ?_, fun name hstale => ?_⟩
  · rintro ⟨hnone, hfree, name, hstale, rfl⟩
    exact ⟨hnone, hfree, home, name, hhome, rfl, isStale_iff.1 hstale⟩
  · have hstale := isStale_iff.2 hstale
    by_cases hlisted : name ∈ fs.childNames home
    · exact hgone name hlisted hstale
    · -- nothing stood under the name
      intro place hplace
      obtain ⟨there, hthere, hlast⟩ := locate_under (ne_empty_of_locate hhome) (hname hstale).1
        (hname hstale).2.1 (hcleared.fewer.locate hplace)
      obtain rfl : home = there := Except.ok.inj (hhome.symm.trans hthere)
      obtain rfl := hlast nofun
      refine .inl ?_
      obtain hsame | hnone := hnode (home ++ [name])
      · exact hsame.trans (node?_eq_none hlisted)
      · exact hnone.1

/-! ### Emptying a directory -/

theorem cleared_removeAll {kind : String → Prop} (h : Cleared dir kind fs mid)
    (hnames : ∀ name ∈ names, kind name) : Cleared dir kind fs (removeAll dir mid names).2 := by
  induction names generalizing mid with
  | nil => exact h
  | cons name names ih =>
    obtain ⟨hname, hnames⟩ := List.forall_mem_cons.1 hnames
    unfold removeAll
    dsimp only
    cases hremove : mid.removeFile (Path.Spelling.under dir name) with
    | error cause => exact h
    | ok without => exact ih (h.next hname hremove) hnames

/-- Files that are removed without a failure are gone. -/
theorem removed_removeAll (h : Cleared dir IsName fs mid)
    (hdir : fs.locate dir true = .ok home) (hnames : ∀ name ∈ names, IsName name)
    (hok : (removeAll dir mid names).1 = .ok ()) :
    ∀ name ∈ names, (removeAll dir mid names).2.node? (home ++ [name]) = none := by
  induction names generalizing mid with
  | nil => exact nofun
  | cons name names ih =>
    obtain ⟨hname, hnames⟩ := List.forall_mem_cons.1 hnames
    unfold removeAll at hok ⊢
    dsimp only at hok ⊢
    cases hremove : mid.removeFile (Path.Spelling.under dir name) with
    | error cause => rw [hremove] at hok; cases hok
    | ok without =>
      rw [hremove] at hok
      refine List.forall_mem_cons.2 ⟨?_, ih (h.next hname hremove) hnames hok⟩
      have hlater : Cleared dir IsName without (removeAll dir without names).2 := cleared_removeAll .none hnames
      have hgone : without.node? (home ++ [name]) = none := by
        obtain ⟨-, rfl⟩ := h.removed hdir hname hremove
        exact mid.node?_drop_self (by simp)
      obtain hsame | hnone := hlater.fewer.node (home ++ [name])
      · exact hsame.trans hgone
      · exact hnone.1

/-- The directory that is removed at last is the one that was listed. -/
theorem removeDir_eq (h : Fewer fs left) (hdir : fs.locate dir true = .ok home)
    (hremove : left.removeDir dir = .ok done) : done = left.drop home := by
  obtain ⟨place, hplace, hremove⟩ := of_bind_eq_ok hremove
  have hnode : left.node? place = some .dir ∧ done = left.drop place := by
    dsimp only at hremove
    split at hremove
    · cases hremove
    · cases hremove
    · split at hremove
      · cases hremove
      · next hnode =>
        split at hremove
        · exact ⟨hnode, (Except.ok.inj hremove).symm⟩
        · cases hremove
      · cases hremove
  obtain ⟨hnode, rfl⟩ := hnode
  have hsame := (h.node place).resolve_right fun hgone => by simp [hgone.1] at hnode
  rw [hnode] at hsame
  obtain hlast | ⟨_, target, hother, hlink⟩ := fs.locate_last (withoutSlashes dir)
  · rw [locate_withoutSlashes (hlast.trans (h.locate hplace)) hdir]
  · obtain rfl := Except.ok.inj ((h.locate hplace).symm.trans hother)
    rw [hlink] at hsame
    cases hsame

/-- What emptying a directory makes of the files: only files and links with names that are taken for a store's go from
it, all of them if that is the result, and the directory itself goes if nothing else was in it. -/
structure Emptied (dir : String) (fs : FileSystem) (result : Except CacheError Bool) (left : FileSystem) : Prop where
  spared : ∀ place, left.node? place = fs.node? place ∨
    left.node? place = none ∧ ∃ home, fs.locate dir true = .ok home ∧
      ((fs.node? place ≠ some .dir ∧ ∃ name, place = home ++ [name] ∧ IsTaken name) ∨
        place = home ∧ ∀ name, fs.node? (home ++ [name]) ≠ none → IsTaken name)
  removed : result = .ok true → ∃ home, fs.locate dir true = .ok home ∧
    ∀ name, IsTaken name → left.node? (home ++ [name]) = none

/-- Removing files with such names, all of them where that is the result, empties the directory of them. -/
theorem emptied_of_cleared {result : Except CacheError Bool} (h : Cleared dir (isOwnName · = true) fs left)
    (hdir : fs.locate dir true = .ok home)
    (hgone : result = .ok true → ∀ name ∈ (fs.childNames home).filter isOwnName, left.node? (home ++ [name]) = none) :
    Emptied dir fs result left := by
  have hnode := h.node hdir fun name hown => (hasForm_of_isOwnName hown).isName
  refine ⟨fun place => (hnode place).imp_right ?_, fun hresult => ⟨home, hdir, fun name htaken => ?_⟩⟩
  · rintro ⟨hnone, hfree, name, hown, rfl⟩
    exact ⟨hnone, home, hdir, .inl ⟨hfree, name, rfl, isOwnName_iff.1 hown⟩⟩
  · by_cases hlisted : name ∈ fs.childNames home
    · exact hgone hresult name (List.mem_filter.2 ⟨hlisted, isOwnName_iff.2 htaken⟩)
    · obtain hsame | hnone := hnode (home ++ [name])
      · exact hsame.trans (node?_eq_none hlisted)
      · exact hnone.1

/-- The directory goes as well, if it held nothing else. -/
theorem Emptied.drop {result : Except CacheError Bool} (h : Emptied dir fs result left)
    (hdir : fs.locate dir true = .ok home) (hall : (fs.childNames home).all isOwnName = true) :
    Emptied dir fs result (left.drop home) := by
  refine ⟨fun place => ?_, fun hresult => ⟨home, hdir, fun name htaken => ?_⟩⟩
  · by_cases hplace : place = home
    · by_cases hroot : place = []
      · exact .inl (by rw [hroot]; rfl)
      · subst hplace
        refine .inr ⟨left.node?_drop_self hroot, place, hdir, .inr ⟨rfl, fun name hthere => ?_⟩⟩
        have hlisted : name ∈ fs.childNames place := not_not.1 fun hlisted => hthere (node?_eq_none hlisted)
        exact isOwnName_iff.1 (List.all_eq_true.1 hall name hlisted)
    · rw [left.node?_drop_of_ne hplace]
      exact h.spared place
  · rw [left.node?_drop_of_ne (by simp)]
    obtain ⟨there, hthere, hgone⟩ := h.removed hresult
    obtain rfl := Except.ok.inj (hdir.symm.trans hthere)
    exact hgone name htaken

/-- **Emptying a directory** removes what is taken for a store's, and nothing else. -/
theorem emptied_clear (dir : String) (fs : FileSystem) : Emptied dir fs (clear dir fs).1 (clear dir fs).2 := by
  have hrefused (result : Except CacheError Bool) (hresult : result ≠ .ok true) : Emptied dir fs result fs :=
    ⟨fun _ => .inl rfl, fun h => absurd h hresult⟩
  unfold clear
  split
  · exact hrefused _ (by simp)
  · exact hrefused _ (by simp)
  next names hlist =>
  obtain ⟨home, hdir, -, rfl⟩ := list_eq_ok_iff.1 hlist
  have hnames : ∀ name ∈ (fs.childNames home).filter isOwnName, isOwnName name = true :=
    fun name hmem => (List.mem_filter.1 hmem).2
  have hcleared : Cleared dir (isOwnName · = true) fs (removeAll dir fs ((fs.childNames home).filter isOwnName)).2 :=
    cleared_removeAll .none hnames
  have hgone := removed_removeAll .none hdir fun name hmem => (hasForm_of_isOwnName (hnames name hmem)).isName
  generalize removeAll dir fs ((fs.childNames home).filter isOwnName) = state at hcleared hgone ⊢
  obtain ⟨result, left⟩ := state
  cases result with
  | error error => exact emptied_of_cleared hcleared hdir nofun
  | ok _ =>
    have hleft : Emptied dir fs (.ok true) left := emptied_of_cleared hcleared hdir fun _ => hgone rfl
    dsimp only
    split
    · next hall =>
      cases hremove : left.removeDir dir with
      | error cause => exact emptied_of_cleared hcleared hdir nofun
      | ok done =>
        obtain rfl := removeDir_eq hcleared.fewer hdir hremove
        exact hleft.drop hdir hall
    · exact hleft

/-! ### Both -/

/-- **Maintenance of a store spares what is not its own, up to names that it mistakes.** The name of an entry is taken
for what it is and no other name is. For the name of a temporary file this holds exactly of those that are not mistaken.
Only files with names that are taken for a store's go, and all others are spared. -/
theorem maintenance_spares (d : Disk) (fs : FileSystem) (live : List String) (dir name : String) :
    (∀ key, Cache.entryKey? name = some key ↔ Cache.isDigest key.toList = true ∧ name = entryName key) ∧
      (∀ process, (Cache.tempProcess? name = some process ↔ IsTempName process name ∨ IsMistaken process name) ∧
        ((Cache.tempProcess? name = some process ↔ IsTempName process name) ↔ ¬ IsMistaken process name)) ∧
      (∀ count left, d.prune fs live = .ok (count, left) → d.Pruned live fs left) ∧
      Emptied dir fs (clear dir fs).1 (clear dir fs).2 := by
  refine ⟨fun key => Cache.entryKey?_eq_some_iff, fun process => ⟨Cache.tempProcess?_eq_some_iff_or, ?_⟩,
    fun count left => pruned, emptied_clear dir fs⟩
  rw [Cache.tempProcess?_eq_some_iff_or]
  constructor
  · exact fun h hmistaken => Cache.not_isTempName_of_isMistaken hmistaken (h.1 (.inr hmistaken))
  · exact fun h => or_iff_left h

/-- A name that no store gives: the number of the process has a plus sign. -/
def plusName : String := ".writable.+7.0.tmp"

/-- A directory that holds a file with this name alone. -/
def plusFiles : FileSystem := { nodes := [(["c"], .dir), (["c", plusName], .file .empty)] }

/-- It is removed all the same, and its directory with it. -/
theorem maintenance_mistakes :
    ¬ IsTempName 7 plusName ∧ Cache.tempProcess? plusName = some 7 ∧
      ((⟨"/c", 7⟩ : Disk).prune plusFiles []).map (·.1) = .ok 1 ∧
      (clear "/c" plusFiles).1 = .ok true ∧ (clear "/c" plusFiles).2.list "/" = .ok [] := by
  have hmistaken : IsMistaken 7 plusName :=
    ⟨by decide, ⟨true, 0, 0⟩, Cache.probeStem, 0, .inl rfl, by decide, by decide⟩
  exact ⟨Cache.not_isTempName_of_isMistaken hmistaken, Cache.tempProcess?_eq_some_iff_or.2 (.inr hmistaken),
    by decide +kernel, by decide +kernel, by decide +kernel⟩

end Cartograph.Disk
