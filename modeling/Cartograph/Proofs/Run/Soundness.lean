import Cartograph.Proofs.Cache.Store
import Cartograph.Proofs.Run.Fresh
import Cartograph.Proofs.Run.Keys
import Cartograph.Proofs.Workspace.Scan

/-!
# Sound stores

A store is sound when each of its entries is genuine: it holds what reading or analyzing gives for everything
that has its key (`CacheEntry.IsGenuine`). What was read from a file or found in a graph is genuine, because keys
determine both; what a sound store gives is genuine (`Store.isGenuine_of_get?`); and putting genuine entries
keeps a store sound (`Session.Follows.put`).
-/

namespace Cartograph

open Digest (Collisionless)
open FileSystem (Place IsStore)

variable {streams : Set (List UInt8)} {home : Place}

/-! ### Genuine entries -/

/-- An entry holds what reading or analyzing gives, for everything that has its key. -/
structure CacheEntry.IsGenuine (streams : Set (List UInt8)) (e : CacheEntry) : Prop where
  parse : ∀ {path : String} {raw : ByteArray}, TypeScript.IsSource path → (parseFrame path raw).stream ∈ streams →
    e.key = (parseFrame path raw).digest → e.value = .parse (Content.outcome raw path)
  analysis : ∀ {context : AnalysisContext} {analyzer : Analyzer}, context.IsRead streams →
    analyzer ∈ Check.analyzers → (analysisFrame context analyzer).stream ∈ streams →
    e.key = (analysisFrame context analyzer).digest → e.value = .analysis (analyzer.analyze context).diagnostics

/-- A key of reading is none of analyzing. -/
theorem parseFrame_ne_analysisFrame (path : String) (raw : ByteArray) (context : AnalysisContext)
    (analyzer : Analyzer) : parseFrame path raw ≠ analysisFrame context analyzer := by
  intro h
  have hdomain : "parse" = "analysis" := congrArg Digest.Fingerprint.domain h
  exact absurd hdomain (by decide)

/-- **What was read is genuine.** -/
theorem CacheEntry.isGenuine_parse (hstreams : Collisionless streams) {path : String} {raw : ByteArray}
    (hpath : TypeScript.IsSource path) (hstream : (parseFrame path raw).stream ∈ streams) (stamp : String) :
    IsGenuine streams ⟨(parseFrame path raw).digest, stamp, .parse (Content.outcome raw path)⟩ where
  parse hother hstream' hkey := by
    rw [outcome_eq_of_parseKey hstreams hpath hother hstream hstream' hkey]
  analysis _ _ hstream' hkey :=
    absurd (hstreams.eq_of_digest_eq hstream hstream' hkey) (parseFrame_ne_analysisFrame _ _ _ _)

/-- **What was found is genuine.** -/
theorem CacheEntry.isGenuine_analysis (hstreams : Collisionless streams) {context : AnalysisContext}
    {analyzer : Analyzer} (hcontext : context.IsRead streams) (hanalyzer : analyzer ∈ Check.analyzers)
    (hstream : (analysisFrame context analyzer).stream ∈ streams) (stamp : String) :
    IsGenuine streams
      ⟨(analysisFrame context analyzer).digest, stamp, .analysis (analyzer.analyze context).diagnostics⟩ where
  parse _ hstream' hkey :=
    absurd (hstreams.eq_of_digest_eq hstream' hstream hkey.symm) (parseFrame_ne_analysisFrame _ _ _ _)
  analysis hcontext' hanalyzer' hstream' hkey := by
    rw [analyze_eq_of_analysisFrame hstreams hcontext hcontext' hanalyzer hanalyzer' hstream hstream' hkey]

/-! ### Sound sessions -/

/-- The bytes of a genuine entry. -/
def HoldsGenuine (streams : Set (List UInt8)) (content : ByteArray) : Prop :=
  ∃ e : CacheEntry, e.IsGenuine streams ∧ content = e.encode

/-- The entries in memory and those in a directory are genuine. -/
structure Session.IsSound (streams : Set (List UInt8)) (home : Place) (s : Session) : Prop where
  memory : ∀ e ∈ s.memory.entries, e.IsGenuine streams
  disk : IsStore (HoldsGenuine streams) home s.files

namespace Store

/-- A store of genuine entries can be used. -/
def IsOpen (streams : Set (List UInt8)) (home : Place) (s : Session) (own : Store) : Prop :=
  own.IsUsable (HoldsGenuine streams) home s

/-- **What a sound store gives is genuine.** -/
theorem isGenuine_of_get? {s : Session} (hs : s.IsSound streams home) {own : Store}
    (hopen : own.IsOpen streams home s) {key : String} (hkey : Cache.isDigest key.toList = true)
    {e : CacheEntry} (h : own.get? s key = some e) : e.IsGenuine streams ∧ e.key = key := by
  cases own with
  | memory =>
    refine ⟨hs.memory e (List.mem_of_find?_eq_some h), ?_⟩
    simpa using List.find?_some h
  | disk d => exact hopen.good_of_get? hkey h

end Store

/-! ### What a run keeps -/

theorem Session.Continues.stops {good : ByteArray → Prop} {store : Option Store} {s t : Session}
    (h : s.Continues good home store t) : t.stops = s.stops := by
  funext phase
  rw [Session.stops, Session.stops, h.cancelled, h.interrupted]

/-- A session that a run with a sound store has come to from another. -/
structure Session.Follows (streams : Set (List UInt8)) (home : Place) (store : Option Store) (s t : Session) : Prop
    extends Session.Continues (HoldsGenuine streams) home store s t where
  sound : t.IsSound streams home

namespace Session.Follows

variable {store : Option Store} {s t : Session}

theorem of_continues (hs : s.IsSound streams home) (h : s.Continues (HoldsGenuine streams) home store t)
    (hmemory : t.memory = s.memory) : Follows streams home store s t :=
  ⟨h, hmemory ▸ hs.memory, hs.disk.touched h.touched⟩

/-- **Putting a genuine entry** keeps everything. -/
theorem put (h : Follows streams home store s t) {own : Store} (hown : store = some own) {key : String}
    (hkey : Cache.isDigest key.toList = true) {value : CachedValue}
    (hgenuine : CacheEntry.IsGenuine streams ⟨key, t.stamp, value⟩) :
    Follows streams home store s (own.put t key value) := by
  have hcontinues := h.toContinues.put hown hkey ⟨_, hgenuine, rfl⟩
  refine ⟨hcontinues, ?_, ?_⟩
  · cases own with
    | memory =>
      intro e he
      obtain rfl | he := List.mem_cons.1 he
      · exact hgenuine
      · exact h.sound.memory e (List.mem_filter.1 he).1
    | disk d => exact h.sound.memory
  · cases own with
    | memory => exact h.sound.disk
    | disk d => exact Disk.IsOpen.store (hcontinues.isOpen _ hown)

end Session.Follows

/-- **Removing what is not in use** leaves a sound store. -/
theorem Session.IsSound.prune {s : Session} (h : s.IsSound streams home) (own : Store) (live : List String) :
    (own.prune s live).IsSound streams home := by
  cases own with
  | memory => exact ⟨fun e he => h.memory e (List.mem_filter.1 he).1, h.disk⟩
  | disk d =>
    unfold Store.prune
    dsimp only
    split
    · next hprune => exact ⟨h.memory, h.disk.of_removed (Disk.prune_removes hprune)⟩
    · exact h

end Cartograph
