import Mathlib.Data.List.Perm.Basic
import Cartograph.Proofs.Cache.Keeping

/-!
# A store in a directory is a store in memory

Asked the same calls one after the other, a store in a directory that was empty and a store in memory give the same
replies, and after each of them the directory holds one file for every entry in memory and nothing else
(`Disk.trace_refines`). Nothing else may use the directory, keys are digests, and no call reports a failure.

What ties the two together is `Disk.Reflects`, which every call keeps (`Reflects.answer`). Reading and removing may fail
without a report, as a miss or as a file that stays. `Reflects.reached` rules that out: the path of every entry leads to
it, since storing it went that way.
-/

namespace Cartograph.FileSystem

open List

/-! ### The names in a directory -/

theorem childName?_eq_some_iff {dir place : Place} {name : String} :
    childName? dir place = some name ↔ place = dir ++ [name] := by
  unfold childName?
  constructor
  · intro h
    split at h
    · next hdir =>
      obtain ⟨front, rfl⟩ := getLast?_eq_some_iff.1 h
      rw [← hdir, dropLast_concat]
    · cases h
  · rintro rfl
    simp

theorem childNames_perm (fs : FileSystem) (dir : Place) :
    (fs.childNames dir).Perm (fs.nodes.filterMap (childName? dir ·.1)) :=
  mergeSort_perm _ _

/-- What is taken away from a directory is no longer among its names. -/
theorem childNames_drop (fs : FileSystem) (dir : Place) (name : String) :
    ((fs.drop (dir ++ [name])).childNames dir).Perm ((fs.childNames dir).filter (· != name)) := by
  refine ((fs.drop (dir ++ [name])).childNames_perm dir).trans ?_
  refine Perm.trans ?_ ((fs.childNames_perm dir).filter _).symm
  rw [drop, filterMap_filter, filter_filterMap]
  refine .of_eq (congrArg (filterMap · fs.nodes) (funext fun e => ?_))
  by_cases hplace : e.1 = dir ++ [name]
  · simp [hplace, childName?_eq_some_iff.2 rfl, Option.filter]
  · cases hname : childName? dir e.1 with
    | none => simp
    | some other =>
      have hother : other ≠ name := by
        rintro rfl
        exact hplace (childName?_eq_some_iff.1 hname)
      simp [hplace, hother, Option.filter]

/-- What is put into a directory is among its names, once. -/
theorem childNames_put (fs : FileSystem) (dir : Place) (name : String) (node : Node) :
    ((fs.put (dir ++ [name]) node).childNames dir).Perm (name :: (fs.childNames dir).filter (· != name)) := by
  have hchild : childName? dir (dir ++ [name]) = some name := childName?_eq_some_iff.2 rfl
  refine ((fs.put (dir ++ [name]) node).childNames_perm dir).trans ?_
  simp only [put, filterMap_cons, hchild]
  exact .cons name (((fs.drop (dir ++ [name])).childNames_perm dir).symm.trans (fs.childNames_drop dir name))

theorem childNames_foldl_drop (names : List String) (fs : FileSystem) (dir : Place) :
    ((names.foldl (fun fs name => fs.drop (dir ++ [name])) fs).childNames dir).Perm
      ((fs.childNames dir).filter (· ∉ names)) := by
  induction names generalizing fs with
  | nil => simp
  | cons name names ih =>
    refine (ih (fs.drop (dir ++ [name]))).trans (((fs.childNames_drop dir name).filter _).trans (.of_eq ?_))
    rw [filter_filter]
    refine filter_congr fun other _ => ?_
    by_cases hother : other = name <;> simp [hother]

end Cartograph.FileSystem

namespace Cartograph

open Cache FileSystem List

/-! ### Calls -/

namespace Cache

/-- What is asked of a store. -/
inductive Call where
  | put (e : CacheEntry)
  | get (key : String)
  | prune (live : List String)

/-- What a store replies. -/
inductive Reply where
  | stored
  | found (e : Option CacheEntry)
  | pruned (count : Nat)

/-- Whether what is stored or looked up has a digest for a key, and the numbers of what is stored fit in sixty-four
bits. -/
def Call.IsKeyed : Call → Prop
  | put e => isDigest e.key.toList = true ∧ e.value.Fits
  | get key => isDigest key.toList = true
  | prune _ => True

end Cache

open Cache (Call Reply)

/-- The reply of a store in memory to a call, and what is in it then. -/
def Memory.answer (m : Memory) : Call → Reply × Memory
  | .put e => (.stored, m.put e)
  | .get key => (.found (m.get? key), m)
  | .prune live => (.pruned (m.prune live).1, (m.prune live).2)

/-- The replies of a store in memory to calls, each with what is in it then. -/
def Memory.trace : Memory → List Call → List (Reply × Memory)
  | _, [] => []
  | m, call :: calls => m.answer call :: trace (m.answer call).2 calls

namespace Disk

/-- The reply of a store in a directory to a call, and the files then. The ticket is the running number for a temporary
file. -/
def answer (d : Disk) (ticket : Nat) (fs : FileSystem) : Call → Except CacheError Reply × FileSystem
  | .put e => ((d.put ticket fs e).1.map fun _ => .stored, (d.put ticket fs e).2)
  | .get key => (.ok (.found (d.get? fs key)), fs)
  | .prune live =>
    match d.prune fs live with
    | .ok (count, left) => (.ok (.pruned count), left)
    | .error error => (.error error, fs)

/-- The replies of a store in a directory to calls with their tickets, each with the files then. -/
def trace (d : Disk) : FileSystem → List (Nat × Call) → List (Except CacheError Reply × FileSystem)
  | _, [] => []
  | fs, (ticket, call) :: calls => d.answer ticket fs call :: d.trace (d.answer ticket fs call).2 calls

/-- The directory holds one file for every entry in memory, with the bytes of the entry, and no temporary file. -/
structure Mirrors (d : Disk) (fs : FileSystem) (m : Memory) : Prop where
  names : ∃ names, fs.list d.dir = .ok names ∧ names.Nodup ∧ names.Perm (m.entries.map (entryName ·.key)) ∧
    ∀ stem process ticket, tempName stem process ticket ∉ names
  file : ∀ e ∈ m.entries, fs.read (d.entryPath e.key) = .ok e.encode

/-! ### The invariant -/

/-- What ties a directory to a store in memory, as long as nothing else uses the directory. -/
structure Reflects (d : Disk) (home : Place) (fs : FileSystem) (m : Memory) : Prop where
  dir : fs.locate d.dir true = .ok home
  there : fs.node? home = some .dir
  names : (fs.childNames home).Perm (m.entries.map (entryName ·.key))
  distinct : (m.entries.map (·.key)).Nodup
  keyed : ∀ e ∈ m.entries, isDigest e.key.toList = true ∧ e.value.Fits
  file : ∀ e ∈ m.entries, fs.node? (home ++ [entryName e.key]) = some (.file e.encode)
  reached : ∀ e ∈ m.entries, fs.locate (d.entryPath e.key) true = .ok (home ++ [entryName e.key])

namespace Reflects

variable {d : Disk} {home : Place} {fs : FileSystem} {m : Memory}

section

variable (h : d.Reflects home fs m)
include h

/-- Whatever stands in the directory is the file of an entry. -/
theorem exists_entry {name : String} {node : FileSystem.Node} (hnode : fs.node? (home ++ [name]) = some node) :
    ∃ e ∈ m.entries, name = entryName e.key ∧ node = .file e.encode := by
  have hmem := h.names.mem_iff.1 (mem_childNames hnode)
  obtain ⟨e, he, rfl⟩ := mem_map.1 hmem
  rw [h.file e he] at hnode
  exact ⟨e, he, rfl, (Option.some.inj hnode).symm⟩

theorem not_link (name target : String) : fs.node? (home ++ [name]) ≠ some (.link target) := by
  intro hnode
  obtain ⟨e, -, -, hfile⟩ := h.exists_entry hnode
  cases hfile

theorem isOpen : d.IsOpen (fun _ => True) home fs := ⟨h.dir, fun _ => h.not_link _, fun _ _ => trivial⟩

theorem list_eq : fs.list d.dir = .ok (fs.childNames home) := list_eq_ok_iff.2 ⟨home, h.dir, h.there, rfl⟩

theorem nodup_names : (fs.childNames home).Nodup := by
  have hdistinct := h.distinct.map (f := entryName) fun _ _ => entryName_injective
  rw [map_map] at hdistinct
  exact h.names.nodup_iff.2 hdistinct

theorem tempName_not_mem (stem : String) (process ticket : Nat) :
    tempName stem process ticket ∉ fs.childNames home := by
  intro hmem
  obtain ⟨e, -, heq⟩ := mem_map.1 (h.names.mem_iff.1 hmem)
  exact tempName_ne_entryName stem process ticket e.key heq.symm

theorem mirrors : d.Mirrors fs m where
  names := ⟨_, h.list_eq, h.nodup_names, h.names, h.tempName_not_mem⟩
  file e he := read_eq_ok_iff.2 ⟨_, h.reached e he, h.file e he⟩

end

/-! ### Storing -/

theorem mem_put {e other : CacheEntry} :
    other ∈ (m.put e).entries ↔ other = e ∨ other ∈ m.entries ∧ other.key ≠ e.key := by
  simp [Memory.put]

/-- The names in the directory after an entry was stored. -/
theorem childNames_stored (h : d.Reflects home fs m) (ticket : Nat) (e : CacheEntry) :
    ((d.stored home ticket fs e).childNames home).Perm ((m.put e).entries.map (entryName ·.key)) := by
  generalize htemp : tempName e.key d.process ticket = temp
  have habsent : temp ∉ fs.childNames home := htemp ▸ h.tempName_not_mem _ _ _
  have hkeep : (fs.childNames home).filter (· != temp) = fs.childNames home :=
    filter_eq_self.2 fun name hname => bne_iff_ne.2 fun heq => habsent (heq ▸ hname)
  -- the temporary file comes and goes
  have hstaged : (((fs.put (home ++ [temp]) (.file e.encode)).drop (home ++ [temp])).childNames home).Perm
      (fs.childNames home) := by
    refine (childNames_drop _ home temp).trans (((fs.childNames_put home temp _).filter _).trans ?_)
    rw [filter_cons_of_neg (by simp), hkeep, hkeep]
  have hentries : (m.put e).entries.map (entryName ·.key) =
      entryName e.key :: (m.entries.map (entryName ·.key)).filter (· != entryName e.key) := by
    rw [Memory.put, map_cons, filter_map]
    congr 2
    refine filter_congr fun other _ => ?_
    by_cases hkey : other.key = e.key
    · simp [hkey]
    · have hname : entryName other.key ≠ entryName e.key := fun heq => hkey (entryName_injective heq)
      rw [Function.comp_apply, bne_iff_ne.2 hkey, bne_iff_ne.2 hname]
  rw [stored, htemp, hentries]
  exact (childNames_put _ home _ _).trans (.cons _ ((hstaged.trans h.names).filter _))

/-- **Storing an entry** keeps the directory and the memory alike, if no failure is reported. -/
theorem put (h : d.Reflects home fs m) {ticket : Nat} {e : CacheEntry} (hkey : isDigest e.key.toList = true)
    (hfits : e.value.Fits) (hput : (d.put ticket fs e).1 = .ok ()) :
    d.Reflects home (d.put ticket fs e).2 (m.put e) := by
  obtain ⟨htemp, hentry⟩ := h.isOpen.admits_of_put hkey trivial hput
  have hstored := h.isOpen.stored ticket hkey trivial
  have hways := hstored.sameWays h.isOpen.store (.staged _ _ hkey) (.entry hkey)
  have heq := h.isOpen.put_eq hkey trivial htemp hentry
  refine ⟨hways.locate h.dir, hways.dir h.there, ?_, ?_, ?_, ?_, ?_⟩
  · rw [heq]
    exact h.childNames_stored ticket e
  · -- an entry that had the key was left out before
    rw [Memory.put, map_cons, nodup_cons]
    refine ⟨fun hmem => ?_, h.distinct.sublist (filter_sublist.map _)⟩
    obtain ⟨other, hother, hsame⟩ := mem_map.1 hmem
    exact bne_iff_ne.1 (mem_filter.1 hother).2 hsame
  · intro other hother
    obtain rfl | ⟨hother, -⟩ := mem_put.1 hother
    · exact ⟨hkey, hfits⟩
    · exact h.keyed other hother
  · intro other hother
    obtain rfl | ⟨hother, hne⟩ := mem_put.1 hother
    · rw [heq]
      exact node?_put_self _ _ (by simp)
    · -- storing touches no more than the temporary file and the file of the entry
      rw [hstored.node?_of_ne ?_ ?_]
      · exact h.file other hother
      · simpa using fun hsame => tempName_ne_entryName _ _ _ _ (Eq.symm hsame)
      · simpa using fun hsame => hne (entryName_injective hsame)
  · intro other hother
    obtain rfl | ⟨hother, -⟩ := mem_put.1 hother
    · exact hways.locate hentry.reached
    · exact hways.locate (h.reached other hother)

/-! ### Finding -/

/-- **Both stores find the same.** -/
theorem get?_eq (h : d.Reflects home fs m) {key : String} (hkey : isDigest key.toList = true) :
    d.get? fs key = m.get? key := by
  cases hfind : m.get? key with
  | some e =>
    have he : e ∈ m.entries := mem_of_find?_eq_some hfind
    have hsame : e.key = key := by simpa using find?_some hfind
    subst hsame
    exact get?_of_node (h.reached e he) (h.file e he) rfl (h.keyed e he).2
  | none =>
    cases hget : d.get? fs key with
    | none => rfl
    | some found =>
      -- what is found stands in the directory, so it has an entry in memory
      obtain ⟨bytes, hread, -, -⟩ := of_get?_eq_some hget
      obtain ⟨e, he, hname, -⟩ := h.exists_entry (h.isOpen.read_entryPath hkey hread)
      have hsame : e.key = key := entryName_injective hname.symm
      exact absurd (beq_iff_eq.2 hsame) (find?_eq_none.1 hfind e he)

/-! ### Removing -/

/-- Files whose paths lead to them are all removed, and counted. -/
theorem foldl_sweep {names : List String} (hnodup : names.Nodup)
    (hnames : ∀ name ∈ names, fs.locate (d.path name) false = .ok (home ++ [name]) ∧
      ∃ content, fs.node? (home ++ [name]) = some (.file content)) (count : Nat) :
    names.foldl d.sweep (count, fs) =
      (count + names.length, names.foldl (fun fs name => fs.drop (home ++ [name])) fs) := by
  induction names generalizing fs count with
  | nil => rfl
  | cons name names ih =>
    obtain ⟨hreached, content, hnode⟩ := hnames name mem_cons_self
    obtain ⟨habsent, hnodup⟩ := nodup_cons.1 hnodup
    have hsweep : d.sweep (count, fs) name = (count + 1, fs.drop (home ++ [name])) := by
      unfold sweep
      rw [removeFile_eq_ok hreached hnode (by simp)]
    have hways : SameWays fs (fs.drop (home ++ [name])) :=
      sameWays_drop ⟨by rw [hnode]; simp, fun target => by rw [hnode]; simp⟩
    rw [foldl_cons, foldl_cons, hsweep, ih hnodup ?_ (count + 1), length_cons]
    · rw [Nat.add_assoc, Nat.add_comm 1]
    · -- no path leads through a file, so the others are reached as before
      intro other hother
      obtain ⟨hreached, content, hnode⟩ := hnames other (mem_cons_of_mem name hother)
      have hne : home ++ [other] ≠ home ++ [name] := fun heq =>
        habsent (singleton_inj.1 (append_cancel_left heq) ▸ hother)
      exact ⟨hways.locate hreached, content, (fs.node?_drop_of_ne hne).trans hnode⟩

section

variable (h : d.Reflects home fs m)
include h

/-- A file is stale if the key of its entry is not in use. -/
theorem filter_isStale (live : List String) :
    ((fs.childNames home).filter (d.isStale live)).Perm
      ((m.entries.filter fun e => !live.contains e.key).map (entryName ·.key)) := by
  refine (h.names.filter _).trans (.of_eq ?_)
  rw [filter_map]
  exact congrArg (map _) (filter_congr fun e he => isStale_entryName (h.keyed e he).1 live)

/-- The names that are left are those of the entries in use. -/
theorem filter_not_mem_isStale (live : List String) :
    ((fs.childNames home).filter (· ∉ (fs.childNames home).filter (d.isStale live))).Perm
      ((m.entries.filter fun e => live.contains e.key).map (entryName ·.key)) := by
  have hstale : ∀ name ∈ fs.childNames home,
      decide (name ∉ (fs.childNames home).filter (d.isStale live)) = !d.isStale live name := by
    intro name hname
    cases hcase : d.isStale live name <;> simp [hname, hcase]
  rw [filter_congr hstale]
  refine (h.names.filter _).trans (.of_eq ?_)
  rw [filter_map]
  refine congrArg (map _) (filter_congr fun e he => ?_)
  simp [isStale_entryName (h.keyed e he).1 live]

/-- **Removing what is not in use** removes as many from both stores and keeps them alike. -/
theorem prune (live : List String) :
    ∃ left, d.prune fs live = .ok ((m.prune live).1, left) ∧ d.Reflects home left (m.prune live).2 := by
  generalize hstale : (fs.childNames home).filter (d.isStale live) = stale
  have hperm := hstale ▸ h.filter_isStale live
  have hnames : ∀ name ∈ stale, fs.locate (d.path name) false = .ok (home ++ [name]) ∧
      ∃ content, fs.node? (home ++ [name]) = some (.file content) := by
    intro name hname
    obtain ⟨e, he, rfl⟩ := mem_map.1 (hperm.mem_iff.1 hname)
    have he := (mem_filter.1 he).1
    have hlast := h.isOpen.locate_path_last (.entry (h.keyed e he).1)
    exact ⟨hlast.symm.trans (h.reached e he), _, h.file e he⟩
  have hswept : Swept d home stale fs (stale.foldl d.sweep (0, fs)).2 :=
    swept_foldl h.dir (fun name _ => h.not_link name)
      (fun name hname => isOwnName_of_isStale (mem_filter.1 (hstale ▸ hname)).2) 0
  have hfold := foldl_sweep (hstale ▸ h.nodup_names.filter _) hnames 0
  rw [hfold] at hswept
  have hcount : 0 + stale.length = (m.prune live).1 := by
    have hparts := length_eq_length_filter_add (l := m.entries) fun e => live.contains e.key
    rw [hperm.length_eq, length_map, Memory.prune]
    omega
  refine ⟨_, ?_, hswept.ways.locate h.dir, hswept.ways.dir h.there, ?_, ?_, ?_, ?_, ?_⟩
  · unfold Disk.prune
    rw [h.list_eq]
    dsimp only [located, bind, Except.bind]
    rw [hstale, hfold, hcount]
    rfl
  · exact (childNames_foldl_drop stale fs home).trans (hstale ▸ h.filter_not_mem_isStale live)
  · exact h.distinct.sublist (filter_sublist.map _)
  · exact fun e he => h.keyed e (mem_filter.1 he).1
  · intro e he
    obtain ⟨he, hlive⟩ := mem_filter.1 he
    rw [hswept.kept _ ?_]
    · exact h.file e he
    · intro name hname heq
      obtain rfl : entryName e.key = name := singleton_inj.1 (append_cancel_left heq)
      have hdead := (mem_filter.1 (hstale ▸ hname)).2
      rw [isStale_entryName (h.keyed e he).1] at hdead
      simp_all
  · exact fun e he => hswept.ways.locate (h.reached e (mem_filter.1 he).1)

/-! ### Calls -/

/-- **A call** gets the same reply from both stores and keeps them alike, if no failure is reported. -/
theorem answer {ticket : Nat} {call : Call} (hcall : call.IsKeyed)
    (hok : ∃ reply, (d.answer ticket fs call).1 = .ok reply) :
    (d.answer ticket fs call).1 = .ok (m.answer call).1 ∧
      d.Reflects home (d.answer ticket fs call).2 (m.answer call).2 := by
  unfold Disk.answer at hok ⊢
  cases call with
  | put e =>
    obtain ⟨hkey, hfits⟩ : isDigest e.key.toList = true ∧ e.value.Fits := hcall
    dsimp only at hok ⊢
    have hput : (d.put ticket fs e).1 = .ok () := by
      generalize (d.put ticket fs e).1 = result at hok
      cases result with
      | ok _ => rfl
      | error error => obtain ⟨reply, hreply⟩ := hok; cases hreply
    rw [hput]
    exact ⟨rfl, h.put hkey hfits hput⟩
  | get key =>
    dsimp only
    rw [h.get?_eq hcall]
    exact ⟨rfl, h⟩
  | prune live =>
    obtain ⟨left, hprune, hleft⟩ := h.prune live
    dsimp only
    rw [hprune]
    exact ⟨rfl, hleft⟩

/-- **Calls one after the other** get the same replies, and the directory mirrors the memory after each of them. -/
theorem trace {calls : List (Nat × Call)} (hcalls : ∀ call ∈ calls, call.2.IsKeyed)
    (hok : ∀ step ∈ d.trace fs calls, ∃ reply, step.1 = .ok reply) :
    Forall₂ (fun step own => step.1 = .ok own.1 ∧ d.Mirrors step.2 own.2) (d.trace fs calls)
      (m.trace (calls.map (·.2))) := by
  induction calls generalizing fs m with
  | nil => exact .nil
  | cons call calls ih =>
    obtain ⟨hreply, hnext⟩ := h.answer (hcalls _ mem_cons_self) (hok _ mem_cons_self)
    exact .cons ⟨hreply, hnext.mirrors⟩ (ih hnext (forall_mem_cons.1 hcalls).2 (forall_mem_cons.1 hok).2)

end

end Reflects

/-! ### Opening -/

variable {d : Disk} {fs : FileSystem} {ticket : Nat}

/-- **A store that is opened in an empty directory** leaves it empty. -/
theorem exists_reflects_prepare (hempty : (fs.makeDirs d.dir).2.list d.dir = .ok [])
    (hopen : (d.prepare ticket fs).1 = .ok ()) :
    ∃ home, d.Reflects home (d.prepare ticket fs).2 {} := by
  have hprobe : IsStoreName (tempName probeStem d.process ticket) := .probe d.process ticket
  obtain ⟨home, hdir, hthere, hnone⟩ := list_eq_ok_iff.1 hempty
  unfold prepare tempPath at hopen ⊢
  generalize tempName probeStem d.process ticket = probe at hprobe hopen ⊢
  generalize fs.makeDirs d.dir = made at hdir hthere hnone hopen ⊢
  obtain ⟨result, made⟩ := made
  cases result with
  | error cause => cases hopen
  | ok _ =>
    dsimp only at hdir hthere hnone hopen ⊢
    have hmade : d.Reflects home made {} := ⟨hdir, hthere, .of_eq hnone.symm, .nil, nofun, nofun, nofun⟩
    cases hwrite : made.write (d.path probe) .empty with
    | error cause => rw [hwrite] at hopen; cases hopen
    | ok written =>
      obtain ⟨place, hplace, hfree, rfl⟩ := of_write_eq_ok hwrite
      obtain rfl := hmade.isOpen.locate_path hprobe hplace
      have hblind := sameWays_put_file ⟨hfree, hmade.not_link probe⟩ .empty
      have hput : d.IsOpen (fun _ => True) home (made.put (home ++ [probe]) (.file .empty)) :=
        (hmade.isOpen.put_file hprobe hfree fun _ _ => trivial).1
      have hnode := made.node?_put_self (.file .empty) (show home ++ [probe] ≠ [] by simp)
      -- the file that is tried out can be removed, since its path led to it
      have hreached := (hput.locate_path_last hprobe).symm.trans (hblind.locate hplace)
      have hways := hblind.trans (sameWays_drop ⟨by rw [hnode]; simp, fun target => by rw [hnode]; simp⟩)
      dsimp only
      rw [removeFile_eq_ok hreached hnode (by simp)]
      refine ⟨home, hways.locate hdir, hways.dir hthere, ?_, .nil, nofun, nofun, nofun⟩
      refine (childNames_drop _ home probe).trans (((made.childNames_put home probe _).filter _).trans ?_)
      rw [← hnone]
      simp

/-- **A store in a directory refines a store in memory.** Opened in an empty directory, it replies to calls as a new
store in memory does, and after each of them the directory holds the files of the entries in memory and no others. -/
theorem trace_refines {calls : List (Nat × Call)} (hempty : (fs.makeDirs d.dir).2.list d.dir = .ok [])
    (hopen : (d.prepare ticket fs).1 = .ok ()) (hcalls : ∀ call ∈ calls, call.2.IsKeyed)
    (hok : ∀ step ∈ d.trace (d.prepare ticket fs).2 calls, ∃ reply, step.1 = .ok reply) :
    d.Mirrors (d.prepare ticket fs).2 {} ∧
      Forall₂ (fun step own => step.1 = .ok own.1 ∧ d.Mirrors step.2 own.2)
        (d.trace (d.prepare ticket fs).2 calls) (Memory.trace {} (calls.map (·.2))) := by
  obtain ⟨home, hstart⟩ := exists_reflects_prepare hempty hopen
  exact ⟨hstart.mirrors, hstart.trace hcalls hok⟩

/-- A key of one digit, repeated. -/
def plainKey (digit : Char) : String := String.ofList (replicate 64 digit)

/-- Two entries are stored, and then only the second is in use. -/
def busyCalls : List (Nat × Call) :=
  [(1, .put ⟨plainKey 'a', "now", .analysis []⟩), (2, .put ⟨plainKey 'b', "now", .parse (.failed .encoding)⟩),
    (3, .get (plainKey 'a')), (3, .prune [plainKey 'b']), (3, .get (plainKey 'a')), (3, .get (plainKey 'b'))]

/-- A store in a directory that has to be made. -/
def busyDisk : Disk := ⟨"/c", 7⟩

theorem isKeyed_busyCalls : ∀ call ∈ busyCalls, call.2.IsKeyed := by
  have hfirst : isDigest (plainKey 'a').toList = true := by decide
  have hsecond : isDigest (plainKey 'b').toList = true := by decide
  simp only [busyCalls, forall_mem_cons]
  exact ⟨⟨hfirst, nofun⟩, ⟨hsecond, trivial⟩, hfirst, trivial, hfirst, hsecond, nofun⟩

theorem ok_busyCalls : ∀ step ∈ busyDisk.trace (busyDisk.prepare 0 {}).2 busyCalls, ∃ reply, step.1 = .ok reply := by
  have hall : (busyDisk.trace (busyDisk.prepare 0 {}).2 busyCalls).all (·.1.isOk) = true := by decide +kernel
  intro step hstep
  have hstep := all_eq_true.1 hall step hstep
  obtain ⟨result, files⟩ := step
  cases result with
  | ok reply => exact ⟨reply, rfl⟩
  | error error => cases hstep

/-- These calls in that directory. -/
theorem trace_refines_busy :
    (FileSystem.makeDirs {} busyDisk.dir).2.list busyDisk.dir = .ok [] ∧ (busyDisk.prepare 0 {}).1 = .ok () ∧
      Forall₂ (fun step own => step.1 = .ok own.1 ∧ busyDisk.Mirrors step.2 own.2)
        (busyDisk.trace (busyDisk.prepare 0 {}).2 busyCalls) (Memory.trace {} (busyCalls.map (·.2))) := by
  have hempty : (FileSystem.makeDirs {} busyDisk.dir).2.list busyDisk.dir = .ok [] := by decide +kernel
  have hopen : (busyDisk.prepare 0 {}).1 = .ok () := by decide +kernel
  exact ⟨hempty, hopen, (trace_refines hempty hopen isKeyed_busyCalls ok_busyCalls).2⟩

end Disk

end Cartograph
