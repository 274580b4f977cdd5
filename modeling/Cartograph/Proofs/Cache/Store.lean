import Cartograph.Session
import Cartograph.Proofs.Cache.Disk

/-!
# What using a store changes

Two laws for the stores of a run, wherever they keep their entries. Putting a result changes what is found under
its own key alone (`Store.get?_put`), and it changes nothing in the file system but files of the store
(`Session.Continues.put`).

A run looks a result up before it computes it, and puts it only if the store had none. So after any number of
such steps, in any order, the store has under each key what it had before, or it had nothing of use there and may
now have a result that was due (`Store.Filled`).
-/

namespace Cartograph

open FileSystem (Place Touched)

variable {good : ByteArray → Prop} {home : Place} {own : Store} {store : Option Store} {s t : Session}

namespace Store

/-- A store can be used: one in a directory has that directory. -/
def IsUsable (good : ByteArray → Prop) (home : Place) (s : Session) : Store → Prop
  | memory => True
  | disk d => d.IsOpen good home s.files

variable {key : String}

/-- **Putting a result** changes what is found under its own key alone: there it is found, unless it could not be
stored. -/
theorem get?_put (h : own.IsUsable good home t) (hkey : Cache.isDigest key.toList = true) {value : CachedValue}
    (hgood : good (CacheEntry.encode ⟨key, t.stamp, value⟩)) {other : String}
    (hother : Cache.isDigest other.toList = true) :
    own.get? (own.put t key value) other = own.get? t other ∨
      other = key ∧ ∀ e, own.get? (own.put t key value) other = some e → e.value = value := by
  cases own with
  | memory =>
    by_cases heq : other = key
    · subst heq
      refine .inr ⟨rfl, fun e he => ?_⟩
      have hself := t.memory.get?_put_self ⟨other, t.stamp, value⟩
      obtain rfl := Option.some.inj (hself.symm.trans he)
      rfl
    · exact .inl (t.memory.get?_put_of_ne heq)
  | disk d =>
    -- a store in a directory may fail to store, and then has what it had
    have hput := Disk.IsOpen.get?_put h t.tickets (e := ⟨key, t.stamp, value⟩) hkey hgood hother
    unfold Store.put Store.get?
    dsimp only
    generalize (d.put t.tickets t.files ⟨key, t.stamp, value⟩).2 = left at hput ⊢
    obtain hsame | ⟨heq, hfound⟩ := hput
    · exact .inl hsame
    · exact .inr ⟨heq, fun e he => by rw [hfound e he]⟩

theorem outcome?_eq_some {outcome : Outcome} (h : own.outcome? s key = some outcome) :
    ∃ e, own.get? s key = some e ∧ e.value = .parse outcome := by
  unfold outcome? at h
  split at h
  · next hget =>
    cases h
    exact ⟨_, hget, rfl⟩
  · cases h

theorem findings?_eq_some {found : List Diagnostic} (h : own.findings? s key = some found) :
    ∃ e, own.get? s key = some e ∧ e.value = .analysis found := by
  unfold findings? at h
  split at h
  · next hget =>
    cases h
    exact ⟨_, hget, rfl⟩
  · cases h

end Store

/-! ### The session -/

/-- A session that a run with a store has come to from another: the store can be used, nothing was touched but files
of the store, and the file system is well-formed if it was. -/
structure Session.Continues (good : ByteArray → Prop) (home : Place) (store : Option Store) (s t : Session) :
    Prop where
  isOpen : ∀ own, store = some own → own.IsUsable good home t
  touched : Touched good home s.files t.files
  kept : FileSystem.Kept s.files t.files
  cancelled : t.cancelled = s.cancelled
  interrupted : t.interrupted = s.interrupted

/-- **Putting a result** touches nothing but files of the store. -/
theorem Session.Continues.put (h : s.Continues good home store t) (hown : store = some own) {key : String}
    (hkey : Cache.isDigest key.toList = true) {value : CachedValue}
    (hgood : good (CacheEntry.encode ⟨key, t.stamp, value⟩)) :
    s.Continues good home store (own.put t key value) := by
  cases own with
  | memory =>
    refine ⟨fun own' hown' => ?_, h.touched, h.kept, h.cancelled, h.interrupted⟩
    obtain rfl := Option.some.inj (hown.symm.trans hown')
    trivial
  | disk d =>
    have hdisk : d.IsOpen good home t.files := h.isOpen _ hown
    have hput := hdisk.put t.tickets (e := ⟨key, t.stamp, value⟩) hkey hgood
    have hkept := hdisk.kept_put t.tickets (e := ⟨key, t.stamp, value⟩) hkey hgood
    unfold Store.put
    dsimp only
    generalize (d.put t.tickets t.files ⟨key, t.stamp, value⟩).2 = left at hput hkept ⊢
    refine ⟨fun own' hown' => ?_, h.touched.trans hput.2, h.kept.trans hkept, h.cancelled, h.interrupted⟩
    obtain rfl := Option.some.inj (hown.symm.trans hown')
    exact hput.1

/-! ### Filling a store -/

namespace Store

/-- A store has no result of the kind of a value under a key. -/
def Lacks (own : Store) (s : Session) (key : String) : CachedValue → Prop
  | .parse _ => own.outcome? s key = none
  | .analysis _ => own.findings? s key = none

/-- Under each key a store has what it had, or it lacked a result there that was due and has no other. -/
def Filled (own : Store) (due : String → CachedValue → Prop) (s t : Session) : Prop :=
  ∀ key, Cache.isDigest key.toList = true → own.get? t key = own.get? s key ∨
    ∃ value, due key value ∧ own.Lacks s key value ∧ ∀ e, own.get? t key = some e → e.value = value

namespace Filled

variable {due due' : String → CachedValue → Prop} {key : String}

theorem refl (own : Store) (due : String → CachedValue → Prop) (s : Session) : own.Filled due s s := fun _ _ => .inl rfl

theorem mono (h : own.Filled due s t) (hdue : ∀ key value, due key value → due' key value) : own.Filled due' s t := by
  intro key hkey
  obtain hsame | ⟨value, hvalue, hlacks, hfound⟩ := h key hkey
  · exact .inl hsame
  · exact .inr ⟨value, hdue key value hvalue, hlacks, hfound⟩

/-- **Putting a result that was due and lacking** fills the store. -/
theorem put (h : own.Filled due s t) (hopen : own.IsUsable good home t) (hkey : Cache.isDigest key.toList = true)
    {value : CachedValue} (hgood : good (CacheEntry.encode ⟨key, t.stamp, value⟩)) (hdue : due key value)
    (hlacks : own.Lacks s key value) : own.Filled due s (own.put t key value) := by
  intro other hother
  obtain hsame | ⟨rfl, hfound⟩ := get?_put hopen hkey hgood hother
  · rw [hsame]
    exact h other hother
  · -- whatever was under the key before, it is now what was due from the start
    exact .inr ⟨value, hdue, hlacks, hfound⟩

/-- **What is found in a filled store**: what was there, or the result that was due. -/
theorem outcome? (h : own.Filled due s t) (hkey : Cache.isDigest key.toList = true) {outcome : Outcome}
    (hdue : ∀ value, due key value → value = .parse outcome) :
    own.outcome? t key = own.outcome? s key ∨
      own.outcome? s key = none ∧ own.outcome? t key = some outcome ∧ due key (.parse outcome) := by
  obtain hsame | ⟨value, hvalue, hlacks, hfound⟩ := h key hkey
  · exact .inl (by rw [Store.outcome?, Store.outcome?, hsame])
  · obtain rfl := hdue value hvalue
    cases hget : own.outcome? t key with
    | none => exact .inl hlacks.symm
    | some found =>
      obtain ⟨e, he, hvalue'⟩ := outcome?_eq_some hget
      obtain rfl := CachedValue.parse.inj (hvalue'.symm.trans (hfound e he))
      exact .inr ⟨hlacks, rfl, hvalue⟩

theorem findings? (h : own.Filled due s t) (hkey : Cache.isDigest key.toList = true) {found : List Diagnostic}
    (hdue : ∀ value, due key value → value = .analysis found) :
    own.findings? t key = own.findings? s key ∨ own.findings? s key = none ∧ own.findings? t key = some found := by
  obtain hsame | ⟨value, hvalue, hlacks, hfound⟩ := h key hkey
  · exact .inl (by rw [Store.findings?, Store.findings?, hsame])
  · obtain rfl := hdue value hvalue
    cases hget : own.findings? t key with
    | none => exact .inl hlacks.symm
    | some other =>
      obtain ⟨e, he, hvalue'⟩ := findings?_eq_some hget
      obtain rfl := CachedValue.analysis.inj (hvalue'.symm.trans (hfound e he))
      exact .inr ⟨hlacks, rfl⟩

end Filled

end Store

end Cartograph
