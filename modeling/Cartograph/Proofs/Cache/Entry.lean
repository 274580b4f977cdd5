import Cartograph.Cache.Entry
import Cartograph.Proofs.Json.Lenient

/-!
# Stored entries are what was stored

The bytes of an entry decode to that entry or to nothing (`eq_of_decode?_encode`). A number in it that does not
fit in sixty-four bits makes them decode to nothing; no bytes of an entry decode to another one. If all
numbers fit, they do decode to the entry (`decode?_encode`).

Each decoder is looked at on what its encoder echoes: the same JSON value, but for the numbers.
-/

namespace Cartograph

open Json

/-! ### Sets of names -/

namespace Names

/-- A set is the set of its list. -/
theorem ofList_toList (n : Names) : ofList n.toList = n := ext_mem fun _ => mem_ofList

end Names

/-! ### Decoders on echoed values -/

open Json (echoed)
open Json (ofList fields? valuesOf ofNat text? name? bool? variant? orDefault nullable? natural? entriesArePlain isPlain_mono)

theorem eq_of_mapM_map {α : Type} {encode : α → Json} {decode : Json → Option α}
    (h : ∀ a b, decode (encode a) = some b → b = a) {l bs : List α} (hmap : (l.map encode).mapM decode = some bs) :
    bs = l := by
  induction l generalizing bs with
  | nil => exact (Option.some.inj hmap).symm
  | cons a l ih =>
    simp only [List.map_cons, List.mapM_cons, Option.bind_eq_bind, Option.bind_eq_some_iff] at hmap
    obtain ⟨b, hb, bs', hbs, hcons⟩ := hmap
    cases hcons
    rw [h a b hb, ih hbs]

/-- A list is decoded to itself when its items are. -/
theorem eq_of_list?_echoed {α : Type} {encode : α → Json} {decode : Json → Option α}
    (h : ∀ a b, decode (echoed (encode a)) = some b → b = a) {l bs : List α}
    (hlist : (echoed (.ofList encode l)).list? decode = some bs) : bs = l := by
  rw [ofList, echoed, echoedItems_eq_map, List.map_map] at hlist
  exact eq_of_mapM_map h hlist

theorem Import.eq_of_ofJson?_echoed {i j : Import} (h : ofJson? (echoed i.toJson) = some j) : j = i := by
  simp [toJson, ofJson?, fields?, valuesOf, ofNat, text?, ImportKind.ofJson?, name?, Option.bind_eq_some_iff] at h
  obtain ⟨line, hline, column, hcolumn, rfl⟩ := h
  rw [eq_of_natural?_echo hline, eq_of_natural?_echo hcolumn]

theorem Exports.eq_of_ofJson?_echoed {e f : Exports} (h : ofJson? (echoed e.toJson) = some f) : f = e := by
  cases e with
  | unknown =>
    simp [toJson, ofJson?, fields?, valuesOf, name?, ofKind?] at h
    exact h.symm
  | known names =>
    simp [toJson, ofJson?, fields?, valuesOf, name?, ofKind?] at h
    obtain ⟨l, hl, rfl⟩ := h
    have htext : ∀ a b, (echoed (.text a)).text? = some b → b = a := fun a b hab => (Option.some.inj hab).symm
    rw [eq_of_list?_echoed htext hl, Names.ofList_toList]

theorem Module.eq_of_ofJson?_echoed {m n : Module} (h : ofJson? (echoed m.toJson) = some n) : n = m := by
  simp [toJson, ofJson?, fields?, valuesOf, bool?, Option.bind_eq_some_iff] at h
  obtain ⟨imports, himports, exports, hexports, rfl⟩ := h
  rw [eq_of_list?_echoed (fun _ _ => Import.eq_of_ofJson?_echoed) himports, Exports.eq_of_ofJson?_echoed hexports]

theorem ReadFailure.eq_of_ofJson?_echoed {f g : ReadFailure} (h : ofJson? (echoed f.toJson) = some g) : g = f := by
  cases f with
  | malformed line column =>
    simp [toJson, ofJson?, fields?, valuesOf, ofNat, ofKind?, Option.bind_eq_some_iff] at h
    obtain ⟨-, line', hline, column', hcolumn, rfl⟩ := h
    rw [eq_of_natural?_echo hline, eq_of_natural?_echo hcolumn]
  | encoding =>
    simp [toJson, ofJson?, fields?, valuesOf, ofKind?] at h
    exact h.2.symm
  | unreadable message =>
    simp [toJson, ofJson?, fields?, valuesOf, ofKind?, text?] at h
    exact h.2.symm
  | internal message =>
    simp [toJson, ofJson?, fields?, valuesOf, ofKind?, text?] at h
    exact h.2.symm

theorem Outcome.eq_of_ofJson?_echoed {o p : Outcome} (h : ofJson? (echoed o.toJson) = some p) : p = o := by
  cases o with
  | parsed m =>
    simp [toJson, ofJson?, variant?] at h
    obtain ⟨n, hn, rfl⟩ := h
    rw [Module.eq_of_ofJson?_echoed hn]
  | failed f =>
    simp [toJson, ofJson?, variant?] at h
    obtain ⟨g, hg, rfl⟩ := h
    rw [ReadFailure.eq_of_ofJson?_echoed hg]

theorem Location.eq_of_ofJson?_echoed {l k : Location} (h : ofJson? (echoed l.toJson) = some k) : k = l := by
  simp [toJson, ofJson?, fields?, valuesOf, ofNat, text?, Option.bind_eq_some_iff] at h
  obtain ⟨line, hline, column, hcolumn, rfl⟩ := h
  rw [eq_of_natural?_echo hline, eq_of_natural?_echo hcolumn]

theorem Label.eq_of_ofJson?_echoed {l k : Label} (h : ofJson? (echoed l.toJson) = some k) : k = l := by
  simp [toJson, ofJson?, fields?, valuesOf, text?, Option.bind_eq_some_iff] at h
  obtain ⟨location, hlocation, rfl⟩ := h
  rw [Location.eq_of_ofJson?_echoed hlocation]

theorem Diagnostic.eq_of_ofJson?_echoed {d e : Diagnostic} (h : ofJson? (echoed d.toJson) = some e) : e = d := by
  obtain ⟨code, rule, category, severity, floor, location, message, help, evidence⟩ := d
  cases evidence with
  | nil =>
    cases floor <;> cases help
    all_goals
      simp [toJson, ofJson?, fields?, valuesOf, text?, Category.ofJson?, Severity.ofJson?,
        name?, orDefault, nullable?, Option.bind_eq_some_iff] at h
      obtain ⟨location', hlocation, rfl⟩ := h
      rw [Location.eq_of_ofJson?_echoed hlocation]
  | cons label evidence =>
    cases floor <;> cases help
    all_goals
      simp [toJson, ofJson?, fields?, valuesOf, text?, Category.ofJson?, Severity.ofJson?,
        name?, orDefault, nullable?, Option.bind_eq_some_iff] at h
      obtain ⟨location', hlocation, labels, hlabels, rfl⟩ := h
      rw [Location.eq_of_ofJson?_echoed hlocation, eq_of_list?_echoed (fun _ _ => Label.eq_of_ofJson?_echoed) hlabels]

theorem CachedValue.eq_of_ofJson?_echoed {v w : CachedValue} (h : ofJson? (echoed v.toJson) = some w) : w = v := by
  cases v with
  | parse outcome =>
    simp [toJson, ofJson?, variant?] at h
    obtain ⟨o, ho, rfl⟩ := h
    rw [Outcome.eq_of_ofJson?_echoed ho]
  | analysis found =>
    simp [toJson, ofJson?, variant?] at h
    obtain ⟨l, hl, rfl⟩ := h
    rw [eq_of_list?_echoed (fun _ _ => Diagnostic.eq_of_ofJson?_echoed) hl]

variable {e : CacheEntry}

theorem CacheEntry.eq_of_ofJson?_echoed {f : CacheEntry} (h : ofJson? (echoed e.toJson) = some f) : f = e := by
  simp [toJson, ofJson?, fields?, valuesOf, text?, Option.bind_eq_some_iff] at h
  obtain ⟨v, hv, rfl⟩ := h
  rw [CachedValue.eq_of_ofJson?_echoed hv]

/-! ### Decoders on values that fit -/

/-- A list is decoded to itself when its items are. -/
theorem list?_ofList {α : Type} {encode : α → Json} {decode : Json → Option α} (h : ∀ a, decode (encode a) = some a)
    (l : List α) : (ofList encode l).list? decode = some l := by
  rw [ofList, list?]
  induction l with
  | nil => rfl
  | cons a l ih => rw [List.map_cons, List.mapM_cons, h a, ih]; rfl

theorem Import.ofJson?_toJson (i : Import) : ofJson? i.toJson = some i := by
  simp [toJson, ofJson?, fields?, valuesOf, ofNat, text?, natural?, ImportKind.ofJson?, name?]

theorem Exports.ofJson?_toJson (e : Exports) : ofJson? e.toJson = some e := by
  cases e with
  | unknown => simp [toJson, ofJson?, fields?, valuesOf, name?, ofKind?]
  | known names =>
    have hnames : (ofList .text names.toList).list? text? = some names.toList :=
      list?_ofList (fun _ => rfl : ∀ name, (text name).text? = some name) names.toList
    simp [toJson, ofJson?, fields?, valuesOf, name?, ofKind?, hnames, Names.ofList_toList]

theorem Module.ofJson?_toJson (m : Module) : ofJson? m.toJson = some m := by
  simp [toJson, ofJson?, fields?, valuesOf, bool?, list?_ofList Import.ofJson?_toJson, Exports.ofJson?_toJson]

theorem ReadFailure.ofJson?_toJson (f : ReadFailure) : ofJson? f.toJson = some f := by
  cases f <;>
    simp [toJson, ofJson?, fields?, valuesOf, ofNat, natural?, ofKind?, text?, entriesAreSound, isSound]

theorem Outcome.ofJson?_toJson (o : Outcome) : ofJson? o.toJson = some o := by
  cases o <;> simp [toJson, ofJson?, variant?, Module.ofJson?_toJson, ReadFailure.ofJson?_toJson]

theorem Location.ofJson?_toJson (l : Location) : ofJson? l.toJson = some l := by
  simp [toJson, ofJson?, fields?, valuesOf, ofNat, text?, natural?]

theorem Label.ofJson?_toJson (l : Label) : ofJson? l.toJson = some l := by
  simp [toJson, ofJson?, fields?, valuesOf, text?, Location.ofJson?_toJson]

theorem Diagnostic.ofJson?_toJson (d : Diagnostic) : ofJson? d.toJson = some d := by
  obtain ⟨code, rule, category, severity, floor, location, message, help, evidence⟩ := d
  cases floor <;> cases help <;> cases evidence <;>
    simp [toJson, ofJson?, fields?, valuesOf, text?, Category.ofJson?, Severity.ofJson?,
      name?, orDefault, nullable?, Location.ofJson?_toJson,
      list?_ofList Label.ofJson?_toJson]

theorem CacheEntry.ofJson?_toJson (e : CacheEntry) : ofJson? e.toJson = some e := by
  obtain ⟨key, cachedAt, value⟩ := e
  have hvalue : CachedValue.ofJson? value.toJson = some value := by
    cases value <;>
      simp [CachedValue.toJson, CachedValue.ofJson?, variant?, Outcome.ofJson?_toJson,
        list?_ofList Diagnostic.ofJson?_toJson]
  simp [toJson, ofJson?, fields?, valuesOf, text?, hvalue]

/-! ### Entries are plain -/

/-- Whether the numbers of a module fit in sixty-four bits. -/
def Module.Fits (m : Module) : Prop := ∀ i ∈ m.imports, i.line < 2 ^ 64 ∧ i.column < 2 ^ 64

/-- Whether the numbers of an outcome fit in sixty-four bits. -/
def Outcome.Fits : Outcome → Prop
  | parsed m => m.Fits
  | failed (.malformed line column) => line < 2 ^ 64 ∧ column < 2 ^ 64
  | failed _ => True

/-- Whether the numbers of a location fit in sixty-four bits. -/
def Location.Fits (l : Location) : Prop := l.line < 2 ^ 64 ∧ l.column < 2 ^ 64

/-- Whether the numbers of a finding fit in sixty-four bits. -/
def Diagnostic.Fits (d : Diagnostic) : Prop := d.location.Fits ∧ ∀ l ∈ d.evidence, l.location.Fits

/-- Whether the numbers of a result fit in sixty-four bits. -/
def CachedValue.Fits : CachedValue → Prop
  | parse outcome => outcome.Fits
  | analysis found => ∀ d ∈ found, d.Fits

section Plain

open Json (isPlain isPlain_ofList)

variable {lax : Bool}

theorem isPlain_ofNat {n : Nat} (depth : Nat) (h : lax = true ∨ n < 2 ^ 64) : isPlain lax depth (.ofNat n) = true := by
  simpa [ofNat, isPlain] using h

theorem Exports.isPlain_toJson (e : Exports) : isPlain lax 2 e.toJson = true := by
  cases e with
  | known names =>
    have hnames : isPlain lax 1 (.ofList .text names.toList) = true := isPlain_ofList 0 names.toList fun _ _ => rfl
    simp [toJson, isPlain, entriesArePlain, hnames]
  | unknown => simp [toJson, isPlain, entriesArePlain]

theorem Module.isPlain_toJson {m : Module} (h : lax = true ∨ m.Fits) : isPlain lax 3 m.toJson = true := by
  have himports : isPlain lax 2 (.ofList Import.toJson m.imports) = true :=
    isPlain_ofList 1 m.imports fun i hi => by
      have hline := isPlain_ofNat 0 (h.imp_right fun hfits => (hfits i hi).1)
      have hcolumn := isPlain_ofNat 0 (h.imp_right fun hfits => (hfits i hi).2)
      simp [Import.toJson, isPlain, entriesArePlain, hline, hcolumn]
  simp [toJson, isPlain, entriesArePlain, himports, m.exports.isPlain_toJson]

theorem Outcome.isPlain_toJson {o : Outcome} (h : lax = true ∨ o.Fits) : isPlain lax 4 o.toJson = true := by
  cases o with
  | parsed m => simp [toJson, isPlain, entriesArePlain, Module.isPlain_toJson h]
  | failed f =>
    cases f with
    | malformed line column =>
      have hline := isPlain_ofNat 2 (h.imp_right And.left)
      have hcolumn := isPlain_ofNat 2 (h.imp_right And.right)
      simp [toJson, ReadFailure.toJson, isPlain, entriesArePlain, hline, hcolumn]
    | _ => simp [toJson, ReadFailure.toJson, isPlain, entriesArePlain]

theorem Location.isPlain_toJson {l : Location} (h : lax = true ∨ l.Fits) : isPlain lax 1 l.toJson = true := by
  have hline := isPlain_ofNat 0 (h.imp_right And.left)
  have hcolumn := isPlain_ofNat 0 (h.imp_right And.right)
  simp [toJson, isPlain, entriesArePlain, hline, hcolumn]

theorem Diagnostic.isPlain_toJson {d : Diagnostic} (h : lax = true ∨ d.Fits) : isPlain lax 4 d.toJson = true := by
  have hlocation := isPlain_mono (show 1 ≤ 3 by decide)
    (Location.isPlain_toJson (h.imp_right And.left))
  have hevidence : isPlain lax 3 (.ofList Label.toJson d.evidence) = true :=
    isPlain_ofList 2 d.evidence fun l hl => by
      have hplace := Location.isPlain_toJson (h.imp_right fun hfits => hfits.2 l hl)
      simp [Label.toJson, isPlain, entriesArePlain, hplace]
  obtain ⟨code, rule, category, severity, floor, location, message, help, evidence⟩ := d
  cases floor <;> cases help <;> cases evidence <;>
    simp [toJson, isPlain, entriesArePlain, hlocation, hevidence]

theorem CacheEntry.isPlain_toJson (h : lax = true ∨ e.value.Fits) : isPlain lax 7 e.toJson = true := by
  obtain ⟨key, cachedAt, value⟩ := e
  cases value with
  | parse o =>
    have ho := isPlain_mono (show 4 ≤ 5 by decide) (Outcome.isPlain_toJson h)
    simp [toJson, CachedValue.toJson, isPlain, entriesArePlain, ho]
  | analysis found =>
    have hfound : isPlain lax 5 (.ofList Diagnostic.toJson found) = true :=
      isPlain_ofList 4 found fun d hd => Diagnostic.isPlain_toJson (h.imp_right fun hfits => hfits d hd)
    simp [toJson, CachedValue.toJson, isPlain, entriesArePlain, hfound]

end Plain

/-- **The bytes of an entry decode to it or to nothing.** -/
theorem CacheEntry.eq_of_decode?_encode {f : CacheEntry} (h : decode? (encode e) = some f) : f = e := by
  rw [decode?, encode, Option.bind_eq_some_iff] at h
  obtain ⟨w, hw, hf⟩ := h
  have hlength : 7 ≤ (compactChars e.toJson).length := by
    simp [toJson, compactChars, compactEntries, commaSeparated, quote]
    omega
  rw [echoed_of_ofBytes? (isPlain_toJson (.inl rfl)) (by decide) hlength hw] at hf
  exact eq_of_ofJson?_echoed hf

/-- **The bytes of an entry decode to it if its numbers fit.** -/
theorem CacheEntry.decode?_encode (h : e.value.Fits) : decode? (encode e) = some e := by
  have hplain : isPlain false depthLimit e.toJson = true :=
    isPlain_mono (show 7 ≤ depthLimit by decide) (isPlain_toJson (.inr h))
  have htext : String.fromUTF8? e.encode = some e.toJson.compact := Text.fromUTF8?_eq_some_iff.2 rfl
  rw [decode?, ofBytes?, htext, Option.bind_some, read?_compact hplain]
  exact e.ofJson?_toJson

end Cartograph
