import Mathlib.Data.List.Infix
import Mathlib.Logic.Function.Basic
import Cartograph.Proofs.Cache.Keeping

/-!
# Several processes share a directory

Processes, each with any number of threads, use stores in one directory at the same time. `Step` takes the operations of
a store apart: an entry is written to a temporary file piece by piece, the file takes the entry's name in one step, and
stale files are first listed and then removed one after the other. Steps of all threads follow each other in any order,
any operation can fail at any of its steps, and a process can be killed between two of them. Done without interruption
the steps are `Disk.put` and `Disk.prune` (`Run.of_put`, `Run.of_prune`).

What is found under a key is always a whole entry that was put before under that key (`Run.got_whole`). By the invariant
`Inv` no two threads hold the same temporary name: threads of a process draw different numbers, as long as there are
numbers of 64 bits left, and processes have different numbers themselves. So what stands under a temporary name is what
its thread has written, and it takes the name of an entry only when all of it has been written.
-/

namespace Cartograph.Sharing

open Cache FileSystem List

/-! ### Steps -/

/-- What a thread is doing. -/
inductive Task where
  | idle
  /-- It has drawn a number for a temporary file, which it has not made yet. -/
  | staging (e : CacheEntry) (ticket : Nat)
  /-- It has written so many bytes of an entry to its temporary file. -/
  | writing (e : CacheEntry) (ticket length : Nat)
  /-- Its temporary file could not take the name of the entry and is to be removed. -/
  | leaving (e : CacheEntry) (ticket : Nat)
  /-- It removes the files that are left of a list of stale ones. -/
  | sweeping (names : List String)
  /-- Its process was killed. -/
  | dead

/-- The entry that a thread is storing and the number that it has drawn for it. -/
def Task.drawn? : Task → Option (CacheEntry × Nat)
  | staging e ticket => some (e, ticket)
  | writing e ticket _ => some (e, ticket)
  | leaving e ticket => some (e, ticket)
  | _ => none

/-- What can be seen of a step: the entry that is to be stored, or what was found under a key. -/
inductive Event where
  | put (e : CacheEntry)
  | got (key : String) (found : Option CacheEntry)
  | silent

/-- The files, the next running number of each process, which is one of 64 bits, and what each thread is doing. -/
structure World (Thread : Type) where
  files : FileSystem
  tickets : Nat → Nat
  tasks : Thread → Task

/-- The first bytes of a content. -/
def front (content : ByteArray) (length : Nat) : ByteArray := content.extract 0 length

variable {Thread : Type}

namespace World

/-- The files change. -/
def withFiles (w : World Thread) (files : FileSystem) : World Thread := { w with files }

section

variable [DecidableEq Thread]

/-- A thread goes on with a task. -/
def turn (w : World Thread) (i : Thread) (task : Task) : World Thread :=
  { w with tasks := Function.update w.tasks i task }

/-- A thread draws a number for an entry. -/
def draw (w : World Thread) (process : Nat) (i : Thread) (e : CacheEntry) : World Thread :=
  { w with
    tickets := Function.update w.tickets process (w.tickets process + 1)
    tasks := Function.update w.tasks i (.staging e (w.tickets process)) }

section

variable (w : World Thread) {i j : Thread}
include w

@[simp] theorem turn_files (i : Thread) (task : Task) : (w.turn i task).files = w.files := rfl

@[simp] theorem turn_tasks_self (i : Thread) (task : Task) : (w.turn i task).tasks i = task := Function.update_self ..

theorem turn_tasks_of_ne (h : j ≠ i) (task : Task) : (w.turn i task).tasks j = w.tasks j := Function.update_of_ne h ..

theorem draw_tickets_self (process : Nat) (i : Thread) (e : CacheEntry) :
    (w.draw process i e).tickets process = w.tickets process + 1 := Function.update_self ..

theorem draw_tickets_of_ne {process other : Nat} (h : other ≠ process) (i : Thread) (e : CacheEntry) :
    (w.draw process i e).tickets other = w.tickets other := Function.update_of_ne h ..

@[simp] theorem draw_tasks_self (process : Nat) (i : Thread) (e : CacheEntry) :
    (w.draw process i e).tasks i = .staging e (w.tickets process) := Function.update_self ..

theorem draw_tasks_of_ne (process : Nat) (h : j ≠ i) (e : CacheEntry) :
    (w.draw process i e).tasks j = w.tasks j := Function.update_of_ne h ..

end

end

/-- All threads of a process end where they are. -/
def kill (disk : Thread → Disk) (w : World Thread) (process : Nat) : World Thread :=
  { w with tasks := fun i => if (disk i).process = process then .dead else w.tasks i }

@[simp] theorem withFiles_files (w : World Thread) (fs : FileSystem) : (w.withFiles fs).files = fs := rfl

@[simp] theorem withFiles_tasks (w : World Thread) (fs : FileSystem) : (w.withFiles fs).tasks = w.tasks := rfl

end World

/-- One step of one thread, each of which has a store in the directory and belongs to the process of that store. -/
inductive Step [DecidableEq Thread] (disk : Thread → Disk) (w : World Thread) : Event → World Thread → Prop where
  /-- An entry is to be stored, by a process whose numbers are not used up. -/
  | put (i : Thread) (e : CacheEntry) (idle : w.tasks i = .idle) (digest : isDigest e.key.toList = true)
      (fresh : w.tickets (disk i).process < 2 ^ 64) :
      Step disk w (.put e) (w.draw (disk i).process i e)
  /-- The temporary file is made, with the first bytes of the entry. -/
  | create (i : Thread) {e : CacheEntry} {ticket : Nat} {files : FileSystem} (length : Nat)
      (task : w.tasks i = .staging e ticket)
      (written : w.files.write ((disk i).tempPath e.key ticket) (front e.encode length) = .ok files) :
      Step disk w .silent ((w.withFiles files).turn i (.writing e ticket length))
  /-- More bytes are written to the temporary file. -/
  | extend (i : Thread) {e : CacheEntry} {ticket before : Nat} {files : FileSystem} (length : Nat)
      (task : w.tasks i = .writing e ticket before) (there : w.files.isFile ((disk i).tempPath e.key ticket) = true)
      (written : w.files.write ((disk i).tempPath e.key ticket) (front e.encode length) = .ok files) :
      Step disk w .silent ((w.withFiles files).turn i (.writing e ticket length))
  /-- More bytes are written to a temporary file that has been removed meanwhile. -/
  | lose (i : Thread) {e : CacheEntry} {ticket before : Nat} (length : Nat)
      (task : w.tasks i = .writing e ticket before) (gone : w.files.isFile ((disk i).tempPath e.key ticket) = false) :
      Step disk w .silent (w.turn i (.writing e ticket length))
  /-- The temporary file, when it is whole, takes the name of the entry. -/
  | publish (i : Thread) {e : CacheEntry} {ticket : Nat} {files : FileSystem}
      (task : w.tasks i = .writing e ticket e.encode.size)
      (renamed : w.files.rename ((disk i).tempPath e.key ticket) ((disk i).entryPath e.key) = .ok files) :
      Step disk w .silent ((w.withFiles files).turn i .idle)
  /-- The temporary file could not take the name. -/
  | refuse (i : Thread) {e : CacheEntry} {ticket : Nat} (task : w.tasks i = .writing e ticket e.encode.size) :
      Step disk w .silent (w.turn i (.leaving e ticket))
  /-- It is removed, if that can be done. -/
  | leave (i : Thread) {e : CacheEntry} {ticket : Nat} (task : w.tasks i = .leaving e ticket) :
      Step disk w .silent
        ((w.withFiles ((w.files.removeFile ((disk i).tempPath e.key ticket)).toOption.getD w.files)).turn i .idle)
  /-- An operation fails and is given up, with the files as they are. -/
  | fail (i : Thread) (alive : w.tasks i ≠ .dead) : Step disk w .silent (w.turn i .idle)
  /-- A key is looked up. -/
  | get (i : Thread) (key : String) (idle : w.tasks i = .idle) :
      Step disk w (.got key ((disk i).get? w.files key)) w
  /-- The stale files of the directory are listed. -/
  | list (i : Thread) {names : List String} (live : List String) (idle : w.tasks i = .idle)
      (listed : w.files.list (disk i).dir = .ok names) :
      Step disk w .silent (w.turn i (.sweeping (names.filter ((disk i).isStale live))))
  /-- One of them is removed, if that can be done. -/
  | sweep (i : Thread) {name : String} {names : List String} (task : w.tasks i = .sweeping (name :: names)) :
      Step disk w .silent ((w.withFiles ((disk i).sweep (0, w.files) name).2).turn i (.sweeping names))
  /-- A process is killed. -/
  | kill (process : Nat) : Step disk w .silent (w.kill disk process)

/-- Steps in a row, with what can be seen of them. -/
inductive Run [DecidableEq Thread] (disk : Thread → Disk) (w : World Thread) : List Event → World Thread → Prop where
  | start : Run disk w [] w
  | step {events : List Event} {event : Event} {v u : World Thread} (run : Run disk w events v)
      (step : Step disk v event u) : Run disk w (events ++ [event]) u

variable {disk : Thread → Disk} {w v u : World Thread} {home : Place}

/-! ### The files -/

/-- What all threads can rely on: their paths lead to the directory, no link has a name of a store, and the files of
entries hold entries that were given. -/
structure FilesInv (disk : Thread → Disk) (home : Place) (given : CacheEntry → Prop) (fs : FileSystem) : Prop where
  dirs : ∀ i, fs.locate (disk i).dir true = .ok home
  store : IsStore (fun content => ∃ e, given e ∧ content = e.encode) home fs
  unlinked : ∀ {name}, isOwnName name = true → ∀ target, fs.node? (home ++ [name]) ≠ some (.link target)

/-- Under a name stands a file with a content, if anything stands there. -/
def Shows (home : Place) (name : String) (content : ByteArray) (fs : FileSystem) : Prop :=
  ∀ node, fs.node? (home ++ [name]) = some node → node = .file content

section Files

variable {given given' : CacheEntry → Prop} {fs fs' : FileSystem} {name other : String} {content : ByteArray}

section

variable (h : FilesInv disk home given fs)
include h

theorem FilesInv.isOpen (i : Thread) :
    (disk i).IsOpen (fun content => ∃ e, given e ∧ content = e.encode) home fs := ⟨h.dirs i, h.store⟩

theorem FilesInv.mono (hgiven : ∀ e, given e → given' e) :
    FilesInv disk home given' fs where
  dirs := h.dirs
  store := ⟨h.store.unlinked, fun hname hfile =>
    let ⟨e, he, hcontent⟩ := h.store.entry hname hfile
    ⟨e, hgiven e he, hcontent⟩⟩
  unlinked := h.unlinked

theorem FilesInv.put (hname : IsStoreName name) (hnode : fs.node? (home ++ [name]) ≠ some .dir)
    (hgood : ∀ key, name = entryName key → ∃ e, given e ∧ content = e.encode) :
    FilesInv disk home given (fs.put (home ++ [name]) (.file content)) where
  dirs i := ((h.isOpen i).put_file hname hnode hgood).1.dir
  store := h.store.touched (touched_put_file hname ⟨hnode, h.store.unlinked hname⟩ hgood)
  unlinked {other} hother target := by
    by_cases heq : home ++ [other] = home ++ [name]
    · rw [heq, fs.node?_put_self _ (by simp)]
      simp
    · rw [fs.node?_put_of_ne _ heq]
      exact h.unlinked hother target

theorem FilesInv.drop (hlink : ∀ target, fs.node? (home ++ [name]) ≠ some (.link target))
    (hnode : fs.node? (home ++ [name]) ≠ some .dir) : FilesInv disk home given (fs.drop (home ++ [name])) := by
  have hremoved : ∀ place, (fs.drop (home ++ [name])).node? place = fs.node? place ∨
      (fs.drop (home ++ [name])).node? place = none := by
    intro place
    by_cases heq : place = home ++ [name]
    · rw [heq]
      exact .inr (fs.node?_drop_self (by simp))
    · exact .inl (fs.node?_drop_of_ne heq)
  refine ⟨fun i => (sameWays_drop ⟨hnode, hlink⟩).locate (h.dirs i), h.store.of_removed hremoved, ?_⟩
  intro other hother target
  obtain hsame | hnone := hremoved (home ++ [other])
  · rw [hsame]
    exact h.unlinked hother target
  · simp [hnone]

end

theorem shows_put_self : Shows home name content (fs.put (home ++ [name]) (.file content)) := by
  intro node hnode
  rw [fs.node?_put_self _ (by simp)] at hnode
  exact (Option.some.inj hnode).symm

theorem Shows.put (h : Shows home name content fs) (hne : name ≠ other) {node : FileSystem.Node} :
    Shows home name content (fs.put (home ++ [other]) node) := by
  intro found hfound
  rw [fs.node?_put_of_ne _ (by simpa using hne)] at hfound
  exact h found hfound

theorem Shows.drop (h : Shows home name content fs) : Shows home name content (fs.drop (home ++ [other])) := by
  intro found hfound
  by_cases heq : home ++ [name] = home ++ [other]
  · rw [heq, fs.node?_drop_self (by simp)] at hfound
    cases hfound
  · rw [fs.node?_drop_of_ne heq] at hfound
    exact h found hfound

section

variable (h : FilesInv disk home given fs) (i : Thread) (hname : IsStoreName name)
include h i hname

/-- Writing a temporary file puts its bytes under its name. -/
theorem FilesInv.of_write (hwrite : fs.write ((disk i).path name) content = .ok fs') :
    fs.locate ((disk i).path name) true = .ok (home ++ [name]) ∧ fs.node? (home ++ [name]) ≠ some .dir ∧
      fs' = fs.put (home ++ [name]) (.file content) := by
  obtain ⟨place, hplace, hnode, rfl⟩ := of_write_eq_ok hwrite
  obtain rfl := (h.isOpen i).locate_path hname hplace
  exact ⟨hplace, hnode, rfl⟩

/-- Removing a file of a store takes it away or leaves all as it is. -/
theorem FilesInv.of_removeFile :
    (fs.removeFile ((disk i).path name)).toOption.getD fs = fs ∨
      fs.node? (home ++ [name]) ≠ some .dir ∧
        (fs.removeFile ((disk i).path name)).toOption.getD fs = fs.drop (home ++ [name]) := by
  cases hremove : fs.removeFile ((disk i).path name) with
  | error e => exact .inl rfl
  | ok left =>
    obtain ⟨place, hplace, hnode, rfl⟩ := of_removeFile_eq_ok hremove
    obtain rfl := (h.isOpen i).locate_path hname hplace
    exact .inr ⟨hnode, rfl⟩

/-- A temporary file that takes the name of an entry was there, and stands under that name then. -/
theorem FilesInv.of_rename (hother : IsStoreName other) (hshows : Shows home name content fs)
    (hrename : fs.rename ((disk i).path name) ((disk i).path other) = .ok fs') :
    fs.node? (home ++ [other]) ≠ some .dir ∧ fs.node? (home ++ [name]) ≠ some .dir ∧
      fs' = (fs.drop (home ++ [name])).put (home ++ [other]) (.file content) := by
  obtain ⟨here, node, there, hhere, hnode, hthere, hdir, rfl⟩ := of_rename_eq_ok hrename
  obtain rfl := (h.isOpen i).locate_path hname hhere
  obtain rfl := (h.isOpen i).locate_path hother hthere
  obtain rfl := hshows node hnode
  exact ⟨hdir, by simp [hnode], rfl⟩

end

end Files

/-! ### The invariant -/

/-- What holds between any two steps, by the entries that were given so far. -/
structure Inv (disk : Thread → Disk) (home : Place) (given : CacheEntry → Prop) (w : World Thread) : Prop where
  files : FilesInv disk home given w.files
  drawn : ∀ {i e ticket}, (w.tasks i).drawn? = some (e, ticket) →
    given e ∧ isDigest e.key.toList = true ∧ ticket < w.tickets (disk i).process
  apart : ∀ {i j e f ticket other}, i ≠ j → (disk i).process = (disk j).process →
    (w.tasks i).drawn? = some (e, ticket) → (w.tasks j).drawn? = some (f, other) → ticket ≠ other
  written : ∀ {i e ticket length}, w.tasks i = .writing e ticket length →
    Shows home (tempName e.key (disk i).process ticket) (front e.encode length) w.files
  reached : ∀ {i e ticket length}, w.tasks i = .writing e ticket length →
    w.files.locate ((disk i).tempPath e.key ticket) true = .ok (home ++ [tempName e.key (disk i).process ticket])
  stale : ∀ {i names}, w.tasks i = .sweeping names → ∀ name ∈ names, isOwnName name = true

namespace Inv

variable {given : CacheEntry → Prop} {i j : Thread} {e f : CacheEntry} {ticket other : Nat}

theorem isStoreName (h : Inv disk home given w) (htask : (w.tasks i).drawn? = some (e, ticket)) :
    IsStoreName (tempName e.key (disk i).process ticket) :=
  .staged _ _ (h.drawn htask).2.1

/-- **No two threads hold the same temporary name.** -/
theorem tempName_ne (h : Inv disk home given w) (hne : i ≠ j)
    (hi : (w.tasks i).drawn? = some (e, ticket)) (hj : (w.tasks j).drawn? = some (f, other)) :
    tempName e.key (disk i).process ticket ≠ tempName f.key (disk j).process other := by
  intro heq
  obtain ⟨-, hprocess, hticket⟩ := tempName_injective (dot_not_mem_of_isDigest (h.drawn hi).2.1)
    (dot_not_mem_of_isDigest (h.drawn hj).2.1) heq
  exact h.apart hne hprocess hi hj hticket

theorem mono {given' : CacheEntry → Prop} (h : Inv disk home given w) (hgiven : ∀ e, given e → given' e) :
    Inv disk home given' w where
  files := h.files.mono hgiven
  drawn hi := (h.drawn hi).imp_left (hgiven _)
  apart := h.apart
  written := h.written
  reached := h.reached
  stale := h.stale

/-- At the start all threads are idle. -/
theorem of_idle (hfiles : FilesInv disk home given w.files) (hidle : ∀ i, w.tasks i = .idle) :
    Inv disk home given w where
  files := hfiles
  drawn {i e ticket} htask := by rw [hidle i] at htask; cases htask
  apart {i j e f ticket other} _ _ htask := by rw [hidle i] at htask; cases htask
  written {i e ticket length} htask := by rw [hidle i] at htask; cases htask
  reached {i e ticket length} htask := by rw [hidle i] at htask; cases htask
  stale {i names} htask := by rw [hidle i] at htask; cases htask

section

variable (h : Inv disk home given w)
include h

/-- A thread that goes on with the name that it holds, or without one. -/
theorem turn [DecidableEq Thread] {fs : FileSystem} (hfiles : FilesInv disk home given fs)
    (hways : SameWays w.files fs) {task : Task}
    (hdrawn : ∀ held, task.drawn? = some held → (w.tasks i).drawn? = some held)
    (hself : ∀ e ticket length, task = .writing e ticket length →
      Shows home (tempName e.key (disk i).process ticket) (front e.encode length) fs ∧
        fs.locate ((disk i).tempPath e.key ticket) true = .ok (home ++ [tempName e.key (disk i).process ticket]))
    (hothers : ∀ j e ticket length, j ≠ i → w.tasks j = .writing e ticket length →
      Shows home (tempName e.key (disk j).process ticket) (front e.encode length) fs)
    (hstale : ∀ names, task = .sweeping names → ∀ name ∈ names, isOwnName name = true) :
    Inv disk home given ((w.withFiles fs).turn i task) := by
  have hheld : ∀ {j held}, (((w.withFiles fs).turn i task).tasks j).drawn? = some held →
      (w.tasks j).drawn? = some held := by
    intro j held hj
    by_cases hji : j = i
    · subst hji
      rw [World.turn_tasks_self] at hj
      exact hdrawn held hj
    · rwa [World.turn_tasks_of_ne _ hji] at hj
  refine ⟨hfiles, fun hi => h.drawn (hheld hi), fun hne hprocess hi hj => h.apart hne hprocess (hheld hi) (hheld hj),
    fun {j e ticket length} hj => ?_, fun {j e ticket length} hj => ?_, fun {j names} hj => ?_⟩
  all_goals by_cases hji : j = i
  · subst hji
    rw [World.turn_tasks_self] at hj
    exact (hself e ticket length hj).1
  · rw [World.turn_tasks_of_ne _ hji] at hj
    exact hothers j e ticket length hji hj
  · subst hji
    rw [World.turn_tasks_self] at hj
    exact (hself e ticket length hj).2
  · rw [World.turn_tasks_of_ne _ hji] at hj
    exact hways.locate (h.reached hj)
  · subst hji
    rw [World.turn_tasks_self] at hj
    exact hstale names hj
  · rw [World.turn_tasks_of_ne _ hji] at hj
    exact h.stale hj

/-- A thread that goes on without a look at the files, and without a file that it has written. -/
theorem turn_idle [DecidableEq Thread] {task : Task}
    (hdrawn : ∀ held, task.drawn? = some held → (w.tasks i).drawn? = some held)
    (hwriting : ∀ e ticket length, task ≠ .writing e ticket length)
    (hstale : ∀ names, task = .sweeping names → ∀ name ∈ names, isOwnName name = true) :
    Inv disk home given (w.turn i task) :=
  h.turn h.files (.refl w.files) hdrawn (fun e ticket length heq => absurd heq (hwriting e ticket length))
    (fun _ _ _ _ _ hj => h.written hj) hstale

/-- A thread that draws a number. -/
theorem draw [DecidableEq Thread] (hdigest : isDigest e.key.toList = true) :
    Inv disk home (fun f => given f ∨ f = e) (w.draw (disk i).process i e) := by
  have htickets : ∀ process, w.tickets process ≤ (w.draw (disk i).process i e).tickets process := by
    intro process
    by_cases hprocess : process = (disk i).process
    · rw [hprocess, World.draw_tickets_self]
      exact Nat.le_succ _
    · rw [World.draw_tickets_of_ne _ hprocess]
  -- the new number is above all that threads of the process hold
  have habove : ∀ {j f ticket}, (disk j).process = (disk i).process →
      (w.tasks j).drawn? = some (f, ticket) → ticket < w.tickets (disk i).process := by
    intro j f ticket hprocess hj
    have hlt := (h.drawn hj).2.2
    rwa [hprocess] at hlt
  refine ⟨h.files.mono fun _ => .inl, fun {j f ticket} hj => ?_, fun {j k f g ticket other} hne hprocess hj hk => ?_,
    fun {j f ticket length} hj => ?_, fun {j f ticket length} hj => ?_, fun {j names} hj => ?_⟩
  · by_cases hji : j = i
    · subst hji
      rw [World.draw_tasks_self] at hj
      cases hj
      refine ⟨.inr rfl, hdigest, ?_⟩
      rw [World.draw_tickets_self]
      exact Nat.lt_succ_self _
    · rw [World.draw_tasks_of_ne _ _ hji] at hj
      obtain ⟨hgiven, hkey, hlt⟩ := h.drawn hj
      exact ⟨.inl hgiven, hkey, hlt.trans_le (htickets _)⟩
  · by_cases hji : j = i
    · subst hji
      rw [World.draw_tasks_self] at hj
      rw [World.draw_tasks_of_ne _ _ hne.symm] at hk
      cases hj
      exact (habove hprocess.symm hk).ne'
    · rw [World.draw_tasks_of_ne _ _ hji] at hj
      by_cases hki : k = i
      · subst hki
        rw [World.draw_tasks_self] at hk
        cases hk
        exact (habove hprocess hj).ne
      · rw [World.draw_tasks_of_ne _ _ hki] at hk
        exact h.apart hne hprocess hj hk
  all_goals
    have hji : j ≠ i := by
      rintro rfl
      rw [World.draw_tasks_self] at hj
      cases hj
    rw [World.draw_tasks_of_ne _ _ hji] at hj
  · exact h.written hj
  · exact h.reached hj
  · exact h.stale hj

/-- Killing a process leaves its files behind, and no thread of it holds a name any more. -/
theorem kill (process : Nat) : Inv disk home given (w.kill disk process) := by
  have halive : ∀ {j task}, (w.kill disk process).tasks j = task → task ≠ .dead → w.tasks j = task := by
    intro j task hj hdead
    change (if (disk j).process = process then Task.dead else w.tasks j) = task at hj
    split at hj
    · exact absurd hj.symm hdead
    · exact hj
  have hheld : ∀ {j held}, ((w.kill disk process).tasks j).drawn? = some held → (w.tasks j).drawn? = some held := by
    intro j held hj
    rw [halive rfl ?_]
    · exact hj
    · intro hdead
      rw [hdead] at hj
      cases hj
  exact ⟨h.files, fun hi => h.drawn (hheld hi), fun hne hprocess hi hj => h.apart hne hprocess (hheld hi) (hheld hj),
    fun hi => h.written (halive hi nofun), fun hi => h.reached (halive hi nofun),
    fun hi => h.stale (halive hi nofun)⟩

end

section Step

variable [DecidableEq Thread] {i : Thread} {e : CacheEntry} {ticket length : Nat} {fs : FileSystem}

section

variable (h : Inv disk home given w)
include h

/-- A thread that writes to the temporary file whose name it holds. -/
theorem write (hi : (w.tasks i).drawn? = some (e, ticket))
    (hwrite : w.files.write ((disk i).tempPath e.key ticket) (front e.encode length) = .ok fs) :
    Inv disk home given ((w.withFiles fs).turn i (.writing e ticket length)) := by
  have hname := h.isStoreName hi
  obtain ⟨hreached, hdir, rfl⟩ := h.files.of_write i hname hwrite
  have hways := sameWays_put_file ⟨hdir, h.files.store.unlinked hname⟩ (front e.encode length)
  refine h.turn (h.files.put hname hdir fun key heq => ?_) hways ?_ ?_ ?_ nofun
  · exact absurd heq (tempName_ne_entryName _ _ _ key)
  · rintro held ⟨⟩
    exact hi
  · rintro _ _ _ ⟨⟩
    exact ⟨shows_put_self, hways.locate hreached⟩
  · -- the names that others hold are different ones
    intro j f other length' hji hj
    refine (h.written hj).put (h.tempName_ne hji ?_ hi)
    rw [hj]
    rfl

/-- A thread that goes on writing to a file that is no longer there. -/
theorem lose {before : Nat} (hi : w.tasks i = .writing e ticket before)
    (hgone : w.files.isFile ((disk i).tempPath e.key ticket) = false) :
    Inv disk home given (w.turn i (.writing e ticket length)) := by
  refine h.turn h.files (.refl w.files) ?_ ?_ (fun _ _ _ _ _ hj => h.written hj) nofun
  · rintro held ⟨⟩
    rw [hi]
    rfl
  · rintro _ _ _ ⟨⟩
    refine ⟨fun node hnode => ?_, h.reached hi⟩
    -- what its path leads to would be a file if anything stood there
    have hresolve : w.files.resolve ((disk i).tempPath e.key ticket) =
        .ok (home ++ [tempName e.key (disk i).process ticket], .file (front e.encode before)) := by
      rw [resolve, h.reached hi]
      simp only [bind, Except.bind, hnode, h.written hi node hnode]
      rfl
    rw [isFile, hresolve] at hgone
    cases hgone

/-- A thread that takes a file of the store away, or fails to. -/
theorem remove {name : String} {task : Task} (hdrawn : task.drawn? = none)
    (hstale : ∀ names, task = .sweeping names → ∀ name ∈ names, isOwnName name = true)
    (hlink : ∀ target, w.files.node? (home ++ [name]) ≠ some (.link target))
    (hfs : fs = w.files ∨ w.files.node? (home ++ [name]) ≠ some .dir ∧ fs = w.files.drop (home ++ [name])) :
    Inv disk home given ((w.withFiles fs).turn i task) := by
  have hnone : ∀ held, task.drawn? = some held → (w.tasks i).drawn? = some held := by
    intro held hheld
    rw [hdrawn] at hheld
    cases hheld
  have hwriting : ∀ e ticket length, task ≠ .writing e ticket length := by
    rintro e ticket length rfl
    cases hdrawn
  obtain rfl | ⟨hdir, rfl⟩ := hfs
  · exact h.turn_idle hnone hwriting hstale
  · exact h.turn (h.files.drop hlink hdir) (sameWays_drop ⟨hdir, hlink⟩) hnone
      (fun e ticket length heq => absurd heq (hwriting e ticket length))
      (fun j e ticket length _ hj => (h.written hj).drop) hstale

/-- A thread whose temporary file, with all bytes of the entry, takes the name of the entry. -/
theorem publish (hi : w.tasks i = .writing e ticket e.encode.size)
    (hrename : w.files.rename ((disk i).tempPath e.key ticket) ((disk i).entryPath e.key) = .ok fs) :
    Inv disk home given ((w.withFiles fs).turn i .idle) := by
  have hheld : (w.tasks i).drawn? = some (e, ticket) := by
    rw [hi]
    rfl
  obtain ⟨hgiven, hdigest, -⟩ := h.drawn hheld
  have hname := h.isStoreName hheld
  have hentry : IsStoreName (entryName e.key) := .entry hdigest
  have hne : home ++ [entryName e.key] ≠ home ++ [tempName e.key (disk i).process ticket] := by
    simpa using (tempName_ne_entryName e.key (disk i).process ticket e.key).symm
  have hwhole : Shows home (tempName e.key (disk i).process ticket) e.encode w.files := by
    have hwritten := h.written hi
    rwa [front, ByteArray.extract_zero_size] at hwritten
  obtain ⟨hfree, hfile, rfl⟩ := h.files.of_rename i hname hentry hwhole hrename
  have hdropped := h.files.drop (h.files.store.unlinked hname) hfile
  have hfree : (w.files.drop (home ++ [tempName e.key (disk i).process ticket])).node? (home ++ [entryName e.key]) ≠
      some .dir := by rwa [w.files.node?_drop_of_ne hne]
  have hways := (sameWays_drop ⟨hfile, h.files.store.unlinked hname⟩).trans
    (sameWays_put_file ⟨hfree, hdropped.store.unlinked hentry⟩ e.encode)
  refine h.turn (hdropped.put hentry hfree fun _ _ => ⟨e, hgiven, rfl⟩) hways nofun nofun ?_ nofun
  intro j f other length hji hj
  exact (h.written hj).drop.put (tempName_ne_entryName _ _ _ _)

/-- **One step keeps the invariant.** -/
theorem step {event : Event} (hstep : Step disk w event v) : Inv disk home (fun f => given f ∨ event = .put f) v := by
  have hkeep : Inv disk home given v → Inv disk home (fun f => given f ∨ event = .put f) v := fun hv =>
    hv.mono fun _ => .inl
  cases hstep with
  | put i e idle digest fresh =>
    refine (h.draw digest).mono ?_
    rintro f (hf | rfl)
    · exact .inl hf
    · exact .inr rfl
  | create i length task written => exact hkeep (h.write (by rw [task]; rfl) written)
  | extend i length task there written => exact hkeep (h.write (by rw [task]; rfl) written)
  | lose i length task gone => exact hkeep (h.lose task gone)
  | publish i task renamed => exact hkeep (h.publish task renamed)
  | refuse i task =>
    refine hkeep (h.turn_idle ?_ nofun nofun)
    rintro held ⟨⟩
    rw [task]
    rfl
  | leave i task =>
    have hname := h.isStoreName (by rw [task]; rfl)
    exact hkeep (h.remove rfl nofun (h.files.store.unlinked hname) (h.files.of_removeFile i hname))
  | fail i alive => exact hkeep (h.turn_idle nofun nofun nofun)
  | get i key idle => exact hkeep h
  | list i live idle listed =>
    refine hkeep (h.turn_idle nofun nofun ?_)
    rintro _ ⟨⟩ name hname
    exact Disk.isOwnName_of_isStale (mem_filter.1 hname).2
  | sweep i task =>
    have hstale := h.stale task
    have hown := hstale _ mem_cons_self
    refine hkeep (h.remove rfl ?_ (h.files.unlinked hown)
      (Disk.sweep_spec (h.files.dirs i) (hasForm_of_isOwnName hown).isName 0))
    rintro _ ⟨⟩ name hname
    exact hstale name (mem_cons_of_mem _ hname)
  | kill process => exact hkeep (h.kill process)

end

end Step

end Inv

/-! ### Runs -/

namespace Run

variable [DecidableEq Thread] {known : CacheEntry → Prop} {events later : List Event} {i : Thread}

/-- **All steps keep the invariant.** -/
theorem inv (hrun : Run disk w events v) (h : Inv disk home known w) :
    Inv disk home (fun e => known e ∨ .put e ∈ events) v := by
  induction hrun with
  | start => exact h.mono fun _ => .inl
  | @step events event v u _ hstep ih =>
    refine (ih.step hstep).mono ?_
    rintro e ((he | he) | rfl)
    · exact .inl he
    · exact .inr (mem_append_left _ he)
    · exact .inr (mem_append_right _ mem_cons_self)

/-! ### Without interruption -/

/-- Runs one after the other. -/
theorem append (h : Run disk w events v) (hlater : Run disk v later u) : Run disk w (events ++ later) u := by
  induction hlater with
  | start => rwa [append_nil]
  | step _ hstep ih =>
    rw [← append_assoc]
    exact ih.step hstep

/-- A thread that has come back to being idle leaves the tasks of all as they were. -/
theorem turn_idle_tasks (hidle : w.tasks i = .idle) (hothers : ∀ j, j ≠ i → u.tasks j = w.tasks j) :
    (u.turn i .idle).tasks = w.tasks := by
  funext j
  by_cases hji : j = i
  · rw [hji, World.turn_tasks_self, hidle]
  · rw [World.turn_tasks_of_ne _ hji, hothers j hji]

/-- **The steps of storing an entry**, one after the other, are `Disk.put`. -/
theorem of_put (e : CacheEntry) (hidle : w.tasks i = .idle) (hdigest : isDigest e.key.toList = true)
    (hfresh : w.tickets (disk i).process < 2 ^ 64) :
    ∃ events v, Run disk w (.put e :: events) v ∧ v.tasks = w.tasks ∧
      v.files = ((disk i).put (w.tickets (disk i).process) w.files e).2 := by
  have hput : Run disk w [.put e] (w.draw (disk i).process i e) := Run.start.step (.put i e hidle hdigest hfresh)
  have htask := w.draw_tasks_self (disk i).process i e
  have hdrawn : ∀ j, j ≠ i → (w.draw (disk i).process i e).tasks j = w.tasks j := fun j hji =>
    w.draw_tasks_of_ne _ hji e
  unfold Disk.put Disk.stage
  dsimp only
  cases hwrite : w.files.write ((disk i).tempPath e.key (w.tickets (disk i).process)) e.encode with
  | error cause =>
    refine ⟨[.silent], _, hput.step (.fail i ?_), turn_idle_tasks hidle hdrawn, rfl⟩
    rw [htask]
    nofun
  | ok staged =>
    have hcreate : Run disk w [.put e, .silent]
        (((w.draw (disk i).process i e).withFiles staged).turn i (.writing e (w.tickets (disk i).process) e.encode.size)) := by
      refine hput.step (.create i e.encode.size htask ?_)
      rw [front, ByteArray.extract_zero_size]
      exact hwrite
    have hwriting := World.turn_tasks_self ((w.draw (disk i).process i e).withFiles staged) i
      (.writing e (w.tickets (disk i).process) e.encode.size)
    have hcreated : ∀ j, j ≠ i → (((w.draw (disk i).process i e).withFiles staged).turn i
        (.writing e (w.tickets (disk i).process) e.encode.size)).tasks j = w.tasks j := fun j hji => by
      rw [World.turn_tasks_of_ne _ hji, World.withFiles_tasks, hdrawn j hji]
    dsimp only [Disk.located, Disk.publish]
    cases hrename : staged.rename ((disk i).tempPath e.key (w.tickets (disk i).process)) ((disk i).entryPath e.key) with
    | ok done =>
      exact ⟨[.silent, .silent], _, hcreate.step (.publish i hwriting hrename), turn_idle_tasks hidle hcreated, rfl⟩
    | error cause =>
      have hrefuse := hcreate.step (.refuse i hwriting)
      refine ⟨[.silent, .silent, .silent], _, hrefuse.step (.leave i (World.turn_tasks_self ..)),
        turn_idle_tasks hidle fun j hji => ?_, ?_⟩
      · rw [World.withFiles_tasks, World.turn_tasks_of_ne _ hji, hcreated j hji]
      · simp only [World.turn_files, World.withFiles_files]

/-- The list of stale files is worked off from the front. -/
theorem of_sweeping {names : List String} (hrun : Run disk w events v) (htask : v.tasks i = .sweeping names)
    (count : Nat) :
    ∃ events u, Run disk w events u ∧ u.tasks i = .sweeping [] ∧ (∀ j, j ≠ i → u.tasks j = v.tasks j) ∧
      u.files = (names.foldl (disk i).sweep (count, v.files)).2 := by
  induction names generalizing v events count with
  | nil => exact ⟨events, v, hrun, htask, fun _ _ => rfl, rfl⟩
  | cons name names ih =>
    have hcount : (disk i).sweep (count, v.files) name =
        (((disk i).sweep (count, v.files) name).1, ((disk i).sweep (0, v.files) name).2) := by
      unfold Disk.sweep
      dsimp only
      split <;> rfl
    obtain ⟨events, u, hrun, hdone, hothers, hfiles⟩ :=
      ih (hrun.step (.sweep i htask)) (World.turn_tasks_self ..) ((disk i).sweep (count, v.files) name).1
    refine ⟨events, u, hrun, hdone, fun j hji => ?_, ?_⟩
    · rw [hothers j hji, World.turn_tasks_of_ne _ hji, World.withFiles_tasks]
    · rw [hfiles, foldl_cons, hcount]
      rfl

/-- **The steps of pruning**, one after the other, are `Disk.prune`. -/
theorem of_prune {live : List String} {count : Nat} {fs : FileSystem} (hidle : w.tasks i = .idle)
    (hprune : (disk i).prune w.files live = .ok (count, fs)) :
    ∃ events v, Run disk w events v ∧ v.tasks = w.tasks ∧ v.files = fs := by
  unfold Disk.prune at hprune
  cases hlist : w.files.list (disk i).dir with
  | error cause =>
    rw [hlist] at hprune
    cases hprune
  | ok names =>
    rw [hlist] at hprune
    have hswept : (names.filter ((disk i).isStale live)).foldl (disk i).sweep (0, w.files) = (count, fs) :=
      Except.ok.inj hprune
    have hlisted : Run disk w [.silent] _ := Run.start.step (.list i live hidle hlist)
    obtain ⟨events, u, hrun, hdone, hothers, hfiles⟩ := hlisted.of_sweeping (World.turn_tasks_self ..) 0
    refine ⟨_, _, hrun.step (.fail i (by rw [hdone]; nofun)), turn_idle_tasks hidle fun j hji => ?_, ?_⟩
    · rw [hothers j hji, World.turn_tasks_of_ne _ hji]
    · rw [World.turn_files, hfiles, World.turn_files, hswept]

/-! ### What is found -/

/-- **What is found is a whole entry that was put.** However the steps of all threads are mixed, whichever of them fail
and whichever processes are killed: what a thread finds under a key has that key, and is one of the entries that were
there from the start or that some thread was given to store before. -/
theorem got_whole (hfiles : FilesInv disk home known w.files) (hidle : ∀ i, w.tasks i = .idle)
    (hrun : Run disk w events v) {before : List Event} {key : String} (hkey : Cache.isDigest key.toList = true)
    {found : Option CacheEntry} (hgot : before ++ [.got key found] <+: events) :
    found = none ∨ ∃ e, found = some e ∧ e.key = key ∧ (known e ∨ .put e ∈ before) := by
  have hstart := Inv.of_idle hfiles hidle
  induction hrun with
  | start =>
    simp at hgot
  | @step events event v u hrun hstep ih =>
    obtain hlast | hgot := prefix_concat_iff.1 hgot
    · -- the look-up is the last step: it reads the files as the steps before have left them
      obtain ⟨rfl, hevent⟩ := append_inj' hlast rfl
      obtain rfl : .got key found = event := singleton_inj.1 hevent
      cases hstep with
      | get i key idle =>
        cases hget : (disk i).get? v.files key with
        | none => exact .inl rfl
        | some e =>
          obtain ⟨hgiven, hkey⟩ := ((hrun.inv hstart).files.isOpen i).good_of_get? hkey hget
          exact .inr ⟨e, rfl, hkey, hgiven⟩
    · exact ih hgot

end Run

/-- A key for two processes. -/
def sharedKey : String := String.ofList (replicate 64 'a')

/-- The stores of two processes with one thread each. -/
def sharedDisk (second : Bool) : Disk := { dir := "/c", process := if second then 2 else 1 }

/-- An entry under that key. -/
def sharedEntry (stamp : String) : CacheEntry := ⟨sharedKey, stamp, .analysis []⟩

/-- An empty directory, and no one at work. -/
def sharedWorld : World Bool where
  files := { nodes := [(["c"], .dir)] }
  tickets _ := 0
  tasks _ := .idle

theorem sharedKey_isDigest : isDigest sharedKey.toList = true := by decide

theorem node?_sharedWorld (name : String) : sharedWorld.files.node? (["c"] ++ [name]) = none := by
  simp [sharedWorld, node?]

theorem filesInv_sharedWorld : FilesInv sharedDisk ["c"] (fun _ => False) sharedWorld.files where
  dirs i := by cases i <;> decide +kernel
  store := ⟨fun {name} _ target => by rw [node?_sharedWorld]; simp, fun {key content} _ hfile => by
    rw [node?_sharedWorld] at hfile
    cases hfile⟩
  unlinked {name} _ target := by rw [node?_sharedWorld]; simp

theorem admits_sharedWorld (second : Bool) (name : String)
    (h : sharedWorld.files.locate ((sharedDisk second).path name) true = .ok (["c"] ++ [name])) :
    (sharedDisk second).Admits ["c"] sharedWorld.files name :=
  ⟨h, by rw [node?_sharedWorld]; simp⟩

/-- A process is killed when it has written one byte, and another stores an entry under the same key then: what is
found is that entry, whole. -/
theorem Run.got_whole_after_kill :
    FilesInv sharedDisk ["c"] (fun _ => False) sharedWorld.files ∧ Cache.isDigest sharedKey.toList = true ∧
      ∃ events v, Run sharedDisk sharedWorld (events ++ [.got sharedKey (some (sharedEntry "now"))]) v ∧
        .put (sharedEntry "then") ∈ events ∧
        (some (sharedEntry "now") = none ∨ ∃ e, some (sharedEntry "now") = some e ∧ e.key = sharedKey ∧
          (False ∨ .put e ∈ events)) := by
  refine ⟨filesInv_sharedWorld, sharedKey_isDigest, ?_⟩
  have hfirst : (sharedDisk false).Admits ["c"] sharedWorld.files (tempName sharedKey 1 0) :=
    admits_sharedWorld false _ (by decide +kernel)
  have hsecond : (sharedDisk true).Admits ["c"] sharedWorld.files (tempName sharedKey 2 0) :=
    admits_sharedWorld true _ (by decide +kernel)
  have hentry : (sharedDisk true).Admits ["c"] sharedWorld.files (entryName sharedKey) :=
    admits_sharedWorld true _ (by decide +kernel)
  have hname : IsStoreName (tempName sharedKey 1 0) := .staged 1 0 sharedKey_isDigest
  have hways := FileSystem.sameWays_put_file ⟨hfirst.free, filesInv_sharedWorld.store.unlinked hname⟩
    (front (sharedEntry "then").encode 1)
  -- the first process gets as far as its temporary file
  obtain ⟨w, hkilled, hidle, htickets, hfiles⟩ : ∃ w,
      Run sharedDisk sharedWorld [.put (sharedEntry "then"), .silent, .silent] w ∧
        w.tasks true = .idle ∧ w.tickets 2 = 0 ∧ SameWays sharedWorld.files w.files := by
    have hwrite := FileSystem.write_eq_ok ((sharedDisk false).withoutSlashes_path hname) hfirst.reached hfirst.free
      (front (sharedEntry "then").encode 1)
    have hput : Run sharedDisk sharedWorld [.put (sharedEntry "then")]
        (sharedWorld.draw 1 false (sharedEntry "then")) := Run.start.step (.put false _ rfl sharedKey_isDigest (by decide))
    have hcreate := hput.step (.create false 1 (sharedWorld.draw_tasks_self 1 false _) hwrite)
    exact ⟨_, hcreate.step (.kill 1), rfl, rfl, hways⟩
  have hopen := (hkilled.inv (Inv.of_idle filesInv_sharedWorld fun _ => rfl)).files.isOpen true
  -- the second one stores its entry
  have hnumber : w.tickets (sharedDisk true).process = 0 := htickets
  obtain ⟨events, v, hstored, htasks, hleft⟩ :=
    of_put (sharedEntry "now") hidle sharedKey_isDigest (by rw [hnumber]; decide)
  have hget : (sharedDisk true).get? v.files sharedKey = some (sharedEntry "now") := by
    have hopen : (sharedDisk true).IsOpen (fun _ => True) ["c"] w.files :=
      ⟨hopen.dir, hopen.store.unlinked, fun _ _ => trivial⟩
    rw [hleft, hnumber]
    exact hopen.get?_put_self (e := sharedEntry "now") sharedKey_isDigest trivial nofun (hsecond.of_sameWays hfiles)
      (hentry.of_sameWays hfiles)
  have hrun := (hkilled.append hstored).step (.get true sharedKey (by rw [htasks, hidle]))
  rw [hget] at hrun
  refine ⟨_, _, hrun, mem_cons_self, ?_⟩
  exact got_whole filesInv_sharedWorld (fun _ => rfl) hrun sharedKey_isDigest (prefix_refl _)

end Cartograph.Sharing
