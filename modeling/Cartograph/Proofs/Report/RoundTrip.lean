import Cartograph.Cache.Disk
import Cartograph.Proofs.Cache.Entry
import Cartograph.Proofs.FileSystem.Operations
import Cartograph.Proofs.Json.Pretty
import Cartograph.Report.Render

/-!
# Reports and entries are read back

Two forms leave the program and come back to it: the JSON text of a report and the bytes of a stored entry. Both
decode to what they were made of (`decode_serialized`), whatever texts stand in them. Numbers have to fit in
sixty-four bits, as the reader takes no larger ones.

For a report this splits in two. `Report.ofJson?_toJson` says that the decoder inverts the encoder on values, which
for the numbers of findings is a statement about maps: they are written as a list with one entry for each category
that has any, and looked up in it again. `Json.read?_pretty` says that the text of a value is read as that value.
-/

namespace Cartograph

open Json List

/-! ### Decoding what was encoded -/

theorem Tally.ofJson?_toJson (t : Tally) : ofJson? t.toJson = some t := by
  simp [toJson, ofJson?, fields?, valuesOf, ofNat, natural?]

theorem Category.mem_all (c : Category) : c ∈ all := by cases c <;> decide

namespace Summary

theorem mem_countList {s : Summary} {c : Category} {t : Tally} : (c, t) ∈ s.countList ↔ s.counts c = some t := by
  simp only [countList, mem_filterMap, Option.map_eq_some_iff, Prod.mk.injEq]
  constructor
  · rintro ⟨_, -, _, ht, rfl, rfl⟩
    exact ht
  · intro ht
    exact ⟨c, c.mem_all, t, ht, rfl, rfl⟩

/-- Looking a category up in the list gives its numbers. -/
theorem find?_countList (s : Summary) (c : Category) :
    (s.countList.reverse.find? (·.1 == c)).map (·.2) = s.counts c := by
  cases hfind : s.countList.reverse.find? (·.1 == c) with
  | none =>
    cases hcounts : s.counts c with
    | none => rfl
    | some t =>
      have hmem : (c, t) ∈ s.countList.reverse := mem_reverse.2 (mem_countList.2 hcounts)
      exact absurd (beq_self_eq_true c) (find?_eq_none.1 hfind (c, t) hmem)
  | some p =>
    have hkey : p.1 = c := by simpa using find?_some hfind
    have hmem : p ∈ s.countList := mem_reverse.1 (mem_of_find?_eq_some hfind)
    rw [← hkey]
    exact (mem_countList.1 hmem).symm

theorem countsOfJson?_countsToJson (s : Summary) : countsOfJson? s.countsToJson = some s.counts := by
  rw [countsToJson, countsOfJson?, mapM_map_eq_some (h := id), map_id]
  · exact congrArg some (funext s.find?_countList)
  · intro entry
    simp [Tally.ofJson?_toJson]

theorem ofJson?_toJson (s : Summary) : ofJson? s.toJson = some s := by
  simp [toJson, ofJson?, fields?, valuesOf, ofNat, natural?, countsOfJson?_countsToJson]

end Summary

theorem Report.ofJson?_toJson (r : Report) : ofJson? r.toJson = some r := by
  simp [toJson, ofJson?, fields?, valuesOf, list?_ofList Diagnostic.ofJson?_toJson, Summary.ofJson?_toJson]

/-! ### Reports are plain -/

/-- Whether numbers by severity fit in sixty-four bits. -/
def Tally.Fits (t : Tally) : Prop := t.error < 2 ^ 64 ∧ t.warning < 2 ^ 64 ∧ t.info < 2 ^ 64

/-- Whether the numbers of a summary fit in sixty-four bits. -/
structure Summary.Fits (s : Summary) : Prop where
  filesScanned : s.filesScanned < 2 ^ 64
  packages : s.packages < 2 ^ 64
  edges : s.edges < 2 ^ 64
  counts : ∀ c t, s.counts c = some t → t.Fits
  elapsedMs : s.elapsedMs < 2 ^ 64
  cacheHits : s.cacheHits < 2 ^ 64
  cacheMisses : s.cacheMisses < 2 ^ 64

/-- Whether the numbers of a report fit in sixty-four bits. -/
structure Report.Fits (r : Report) : Prop where
  diagnostics : ∀ d ∈ r.diagnostics, d.Fits
  summary : r.summary.Fits

section Plain

open Json (isPlain)

variable {s : Summary}

theorem Tally.isPlain_toJson {t : Tally} (h : t.Fits) : isPlain false 1 t.toJson = true := by
  have herror := isPlain_ofNat 0 (.inr h.1 : false = true ∨ _)
  have hwarning := isPlain_ofNat 0 (.inr h.2.1 : false = true ∨ _)
  have hinfo := isPlain_ofNat 0 (.inr h.2.2 : false = true ∨ _)
  simp [toJson, isPlain, entriesArePlain, herror, hwarning, hinfo]

theorem Summary.isPlain_countsToJson (h : s.Fits) : isPlain false 2 s.countsToJson = true := by
  simp only [countsToJson, isPlain, entriesArePlain_iff, Bool.and_eq_true, mem_map]
  refine ⟨by decide, ?_⟩
  rintro _ ⟨⟨c, t⟩, hmem, rfl⟩
  exact Tally.isPlain_toJson (h.counts c t (mem_countList.1 hmem))

theorem Summary.isPlain_toJson (h : s.Fits) : isPlain false 3 s.toJson = true := by
  have hnumber : ∀ n, n < 2 ^ 64 → isPlain false 2 (.ofNat n) = true := fun n hn => isPlain_ofNat 2 (.inr hn)
  simp [toJson, isPlain, entriesArePlain, hnumber _ h.filesScanned, hnumber _ h.packages,
    hnumber _ h.edges, isPlain_countsToJson h, hnumber _ h.elapsedMs, hnumber _ h.cacheHits,
    hnumber _ h.cacheMisses]

theorem Report.isPlain_toJson {r : Report} (h : r.Fits) : isPlain false 6 r.toJson = true := by
  have hdiagnostics : isPlain false 5 (.ofList Diagnostic.toJson r.diagnostics) = true :=
    isPlain_ofList 4 r.diagnostics fun d hd => Diagnostic.isPlain_toJson (.inr (h.diagnostics d hd))
  have hsummary := isPlain_mono (show 3 ≤ 5 by decide) (Summary.isPlain_toJson h.summary)
  simp [toJson, isPlain, entriesArePlain, hdiagnostics, hsummary]

end Plain

/-! ### Texts and bytes -/

/-- The JSON text of a report is read as its JSON form. -/
theorem Report.read?_renderJson {r : Report} (h : r.Fits) : read? r.renderJson = some r.toJson := by
  have hplain : isPlain false depthLimit r.toJson = true :=
    isPlain_mono (show 6 ≤ depthLimit by decide) (isPlain_toJson h)
  refine read?_pretty hplain fun c hc => ?_
  obtain rfl : c = '\n' := by simpa using hc
  decide

/-- Staging an entry puts one file, with the bytes of the entry, where its temporary path leads. -/
theorem Disk.of_stage_eq_ok {d : Disk} {ticket : Nat} {fs staged : FileSystem} {e : CacheEntry}
    (h : d.stage ticket fs e = .ok staged) :
    ∃ place, fs.locate (d.tempPath e.key ticket) true = .ok place ∧ staged = fs.put place (.file e.encode) := by
  have hwrite : fs.write (d.tempPath e.key ticket) e.encode = .ok staged := by
    cases hwrite : fs.write (d.tempPath e.key ticket) e.encode with
    | error cause => simp [stage, hwrite, located] at h
    | ok written => simpa [stage, hwrite, located] using h
  obtain ⟨place, hplace, -, rfl⟩ := FileSystem.of_write_eq_ok hwrite
  exact ⟨place, hplace, rfl⟩

/-- **What is written is read back.** The JSON text of every report decodes to that report, and the bytes of every
entry decode to that entry; they are the bytes that storing it writes. -/
theorem decode_serialized (colours : Bool) :
    (∀ r : Report, r.Fits → (Json.read? (r.render .json colours)).bind Report.ofJson? = some r) ∧
    ∀ e : CacheEntry, e.value.Fits →
      CacheEntry.decode? e.encode = some e ∧
      ∀ (d : Disk) (ticket : Nat) (fs staged : FileSystem), d.stage ticket fs e = .ok staged →
        ∃ place bytes, fs.locate (d.tempPath e.key ticket) true = .ok place ∧
          staged = fs.put place (.file bytes) ∧ CacheEntry.decode? bytes = some e := by
  constructor
  · intro r hr
    rw [Report.render, Report.read?_renderJson hr]
    exact r.ofJson?_toJson
  · intro e he
    have hdecode := CacheEntry.decode?_encode he
    refine ⟨hdecode, fun d ticket fs staged hstage => ?_⟩
    obtain ⟨place, hplace, hstaged⟩ := Disk.of_stage_eq_ok hstage
    exact ⟨place, e.encode, hplace, hstaged, hdecode⟩

/-- A text with a quote, a backslash, control characters and characters outside ASCII. -/
def awkwardText : String := "say \"é漢😀\" \\ \n\t\x01\x7f"

/-- A finding with a floor, help and evidence. -/
def awkwardFinding : Diagnostic where
  code := "AG201"
  rule := awkwardText
  category := .dependency
  severity := .error
  floor := some .warning
  location := ⟨"päckages/\"a\".json", 5, 1⟩
  message := awkwardText
  help := some awkwardText
  evidence := [⟨⟨awkwardText, 2 ^ 64 - 1, 0⟩, awkwardText⟩]

/-- A report of that finding. -/
def awkwardReport : Report where
  diagnostics := [awkwardFinding]
  summary := { ( {} : Summary).count [awkwardFinding] with filesScanned := 3, elapsedMs := 2 ^ 64 - 1 }

/-- An entry that holds that finding. -/
def awkwardEntry : CacheEntry := ⟨awkwardText, "2026-01-01T00:00:00+00:00", .analysis [awkwardFinding]⟩

/-- They are read back, the entry from the only file that is written for it. -/
theorem decode_serialized_awkward :
    awkwardReport.Fits ∧ awkwardEntry.value.Fits ∧
    (Json.read? (awkwardReport.render .json true)).bind Report.ofJson? = some awkwardReport ∧
    ∃ staged place bytes, Disk.stage ⟨"/", 7⟩ 0 ⟨[], []⟩ awkwardEntry = .ok staged ∧
      staged = FileSystem.put ⟨[], []⟩ place (.file bytes) ∧
      CacheEntry.decode? bytes = some awkwardEntry := by
  have hfinding : awkwardFinding.Fits := by
    refine ⟨⟨by decide, by decide⟩, fun l hl => ?_⟩
    rw [mem_singleton.1 hl]
    exact ⟨by decide, by decide⟩
  have hmember : ∀ d ∈ [awkwardFinding], d.Fits := fun d hd => mem_singleton.1 hd ▸ hfinding
  have hcounts : ∀ c t, awkwardReport.summary.counts c = some t → t.Fits := by
    intro c t ht
    cases c with
    | dependency =>
      obtain rfl : ({ error := 1 } : Tally) = t := Option.some.inj ht
      exact ⟨by decide, by decide, by decide⟩
    | _ => cases ht
  have hreport : awkwardReport.Fits :=
    ⟨hmember, ⟨by decide, by decide, by decide, hcounts, by decide, by decide, by decide⟩⟩
  obtain ⟨staged, hstaged⟩ : ∃ staged, Disk.stage ⟨"/", 7⟩ 0 ⟨[], []⟩ awkwardEntry = .ok staged := ⟨_, rfl⟩
  obtain ⟨hread, hentry⟩ := decode_serialized true
  obtain ⟨place, bytes, -, hput, hdecode⟩ := (hentry awkwardEntry hmember).2 _ _ _ staged hstaged
  exact ⟨hreport, hmember, hread awkwardReport hreport, staged, place, bytes, hstaged, hput, hdecode⟩

end Cartograph
