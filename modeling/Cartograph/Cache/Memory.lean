import Cartograph.Cache.Entry

/-!
# Stores in memory

The plainest store: a finite map from keys to entries. `get?` after `put` gives the entry that was put,
and `prune` keeps the entries whose keys are still in use.
-/

namespace Cartograph

structure Memory where
  entries : List CacheEntry := []
  deriving DecidableEq

namespace Memory

def get? (m : Memory) (key : String) : Option CacheEntry := m.entries.find? (·.key == key)

def put (m : Memory) (e : CacheEntry) : Memory :=
  ⟨e :: m.entries.filter (·.key != e.key)⟩

@[simp] theorem get?_put_self (m : Memory) (e : CacheEntry) : (m.put e).get? e.key = some e := by
  simp [get?, put]

theorem get?_put_of_ne (m : Memory) {e : CacheEntry} {key : String} (h : key ≠ e.key) :
    (m.put e).get? key = m.get? key := by
  simp only [get?, put, List.find?_cons, beq_eq_false_iff_ne.2 h.symm, List.find?_filter]
  congr 1
  funext x
  by_cases hx : x.key = key <;> simp [hx, h]

def prune (m : Memory) (live : List String) : Nat × Memory :=
  let kept := m.entries.filter fun e => live.contains e.key
  (m.entries.length - kept.length, ⟨kept⟩)

def size (m : Memory) : Nat := m.entries.length

end Memory

end Cartograph
