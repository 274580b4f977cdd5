import Mathlib.Algebra.GroupWithZero.Nat
import Mathlib.Data.Set.Function
import Cartograph.Cache.FileName
import Cartograph.Digest.Fingerprint

/-!
# Digests and what they stand for

The stream of a fingerprint determines its domain and its fields, because each field is preceded by its length
(`stream_injective`). It does not tell in which ways the fields were added (`Fingerprint.after_eq`). So on a set of
streams on which the hash is injective (`Collisionless`), a digest determines the fingerprint too:
`Collisionless.eq_of_digest_eq`. No assumption on the hash outside that set is made, and none could be met: there are
more streams than hashes.

A digest is written in sixty-four hexadecimal digits (`isDigest_digest`).
-/

namespace Cartograph.Digest

open List

variable {n m : Nat} {r s : List UInt8} {g : Fingerprint} {others : List (List UInt8)}

/-! ### Lengths in eight bytes -/

@[simp] theorem length_eightBytes (n : Nat) : (eightBytes n).length = 8 := by simp [eightBytes]

theorem eightBytes_eq (n : Nat) :
    (eightBytes n).map UInt8.toNat =
      [n % 256, n / 256 % 256, n / 65536 % 256, n / 16777216 % 256, n / 4294967296 % 256,
        n / 1099511627776 % 256, n / 281474976710656 % 256, n / 72057594037927936 % 256] := by
  simp [eightBytes, range_succ, Nat.shiftRight_eq_div_pow]

theorem eightBytes_injective (hn : n < 2 ^ 64) (hm : m < 2 ^ 64) (h : eightBytes n = eightBytes m) : n = m := by
  have hbytes := congrArg (List.map UInt8.toNat) h
  rw [eightBytes_eq, eightBytes_eq] at hbytes
  simp only [List.cons.injEq] at hbytes
  omega

/-- A number that uses every one of its eight bytes is large. -/
theorem zero_mem_eightBytes (hn : n < 0x0101010101010101) : 0 ∈ eightBytes n := by
  by_contra hzero
  have hbytes : 0 ∉ (eightBytes n).map UInt8.toNat := by
    intro hmem
    obtain ⟨b, hb, hb0⟩ := mem_map.1 hmem
    obtain rfl : b = 0 := UInt8.toNat_inj.1 (by simpa using hb0)
    exact hzero hb
  rw [eightBytes_eq] at hbytes
  simp only [mem_cons] at hbytes
  omega

/-! ### Frames -/

variable {a b : List UInt8} {f : Fingerprint} {fields : List (List UInt8)}

theorem frame_append_injective (ha : a.length < 2 ^ 64) (hb : b.length < 2 ^ 64)
    (h : frame a ++ r = frame b ++ s) : a = b ∧ r = s := by
  simp only [frame, append_assoc] at h
  obtain ⟨hlength, hrest⟩ := append_inj h (by simp)
  exact append_inj hrest (eightBytes_injective ha hb hlength)

/-- Fields with their lengths in front do not run together. -/
theorem flatMap_frame_injective : ∀ {fields others : List (List UInt8)},
    (∀ f ∈ fields, f.length < 2 ^ 64) → (∀ f ∈ others, f.length < 2 ^ 64) →
    fields.flatMap frame = others.flatMap frame → fields = others := by
  intro fields
  induction fields with
  | nil =>
    intro others _ _ h
    cases others with
    | nil => rfl
    | cons g others => simp [frame, eightBytes] at h
  | cons f fields ih =>
    intro others hf hg h
    cases others with
    | nil => simp [frame, eightBytes] at h
    | cons g others =>
      obtain ⟨rfl, hrest⟩ := frame_append_injective (hf f mem_cons_self) (hg g mem_cons_self) h
      rw [ih (forall_mem_cons.1 hf).2 (forall_mem_cons.1 hg).2 hrest]

/-- Fields with their lengths in front, as many on either side, do not run into what follows them. -/
theorem flatMap_frame_append_injective
    (hlength : fields.length = others.length) (hfields : ∀ f ∈ fields, f.length < 2 ^ 64)
    (hothers : ∀ f ∈ others, f.length < 2 ^ 64) (h : fields.flatMap frame ++ r = others.flatMap frame ++ s) :
    fields = others ∧ r = s := by
  induction fields generalizing others with
  | nil =>
    obtain rfl := eq_nil_of_length_eq_zero hlength.symm
    exact ⟨rfl, h⟩
  | cons f fields ih =>
    cases others with
    | nil => cases hlength
    | cons g others =>
      rw [flatMap_cons, flatMap_cons, append_assoc, append_assoc] at h
      obtain ⟨rfl, hrest⟩ := frame_append_injective (hfields f mem_cons_self) (hothers g mem_cons_self) h
      obtain ⟨rfl, rfl⟩ := ih (Nat.succ.inj hlength) (forall_mem_cons.1 hfields).2 (forall_mem_cons.1 hothers).2 hrest
      exact ⟨rfl, rfl⟩

theorem length_le_of_mem_flatMap {f : List UInt8} (hf : f ∈ fields) : f.length + 8 ≤ (fields.flatMap frame).length := by
  induction fields with
  | nil => exact absurd hf not_mem_nil
  | cons g fields ih =>
    rw [flatMap_cons, length_append]
    obtain rfl | hf := mem_cons.1 hf
    · simp [frame]
      omega
    · have := ih hf
      omega

theorem eight_mul_length_le (fields : List (List UInt8)) : 8 * fields.length ≤ (fields.flatMap frame).length := by
  induction fields with
  | nil => exact Nat.le_refl 0
  | cons g fields ih =>
    rw [flatMap_cons, length_append, length_cons, frame, length_append, length_eightBytes]
    omega

theorem utf8_injective {s t : String} (h : utf8 s = utf8 t) : s = t := by
  apply String.toByteArray_inj.1
  exact ByteArray.ext (Array.toList_inj.1 h)

/-- Whether the lengths of the domain and of the fields can be written in the eight bytes in front of them. -/
def Fingerprint.IsShort (f : Fingerprint) : Prop := ∀ field ∈ utf8 f.domain :: f.fields, field.length < 2 ^ 64

instance (f : Fingerprint) : Decidable f.IsShort := inferInstanceAs (Decidable (∀ _ ∈ _, _))

theorem Fingerprint.isShort_of_stream (h : f.stream.length < 2 ^ 64) : f.IsShort := by
  intro field hfield
  have := length_le_of_mem_flatMap (mem_cons_of_mem (utf8 schema) hfield)
  unfold stream at h
  omega

/-- **The stream of a fingerprint determines it.** -/
theorem Fingerprint.stream_injective (hf : f.IsShort) (hg : g.IsShort) (h : f.stream = g.stream) : f = g := by
  have hschema : (utf8 schema).length < 2 ^ 64 := by decide
  have hfields := flatMap_frame_injective (forall_mem_cons.2 ⟨hschema, hf⟩) (forall_mem_cons.2 ⟨hschema, hg⟩) h
  simp only [List.cons.injEq, true_and] at hfields
  obtain ⟨hdomain, hfields⟩ := hfields
  obtain ⟨domain, fields⟩ := f
  obtain rfl : domain = g.domain := utf8_injective hdomain
  obtain rfl : fields = g.fields := hfields
  rfl

/-- The last field is what stands behind the others, whatever its length. -/
theorem Fingerprint.bytes_injective (h : (f.bytes a).stream = (f.bytes b).stream) : a = b := by
  simp only [stream, domain_bytes, fields_bytes, flatMap_cons, flatMap_append, flatMap_nil,
    append_nil, append_cancel_left_eq] at h
  exact (append_inj h (by simp)).2

/-- **The last field** is determined by the stream, whatever its length, if the ones in front of it are short. -/
theorem Fingerprint.eq_of_stream_bytes (hdomain : f.domain = g.domain)
    (hlength : f.fields.length = g.fields.length) (hf : ∀ field ∈ f.fields, field.length < 2 ^ 64)
    (hg : ∀ field ∈ g.fields, field.length < 2 ^ 64) (h : (f.bytes a).stream = (g.bytes b).stream) : a = b := by
  simp only [stream, domain_bytes, fields_bytes, hdomain, flatMap_cons, flatMap_append, flatMap_nil,
    append_nil, append_cancel_left_eq] at h
  obtain ⟨-, hlast⟩ := flatMap_frame_append_injective hlength hf hg h
  exact (append_inj hlast (by simp)).2

/-! ### Adding fields -/

/-- What is added to a fingerprint at a time: a field of bytes, one of text, or several of text. -/
inductive Addition where
  | bytes (field : List UInt8)
  | text (field : String)
  | texts (fields : List String)

def Addition.parts : Addition → List (List UInt8)
  | bytes field => [field]
  | text field => [utf8 field]
  | texts fields => fields.map utf8

namespace Fingerprint

def add (f : Fingerprint) : Addition → Fingerprint
  | .bytes field => f.bytes field
  | .text field => f.text field
  | .texts fields => f.texts fields

/-- A fingerprint that was started in a domain, after additions to it. -/
def after (domain : String) (additions : List Addition) : Fingerprint := additions.foldl add { domain }

theorem add_eq (f : Fingerprint) (a : Addition) : f.add a = { f with fields := f.fields ++ a.parts } := by
  cases a <;> rfl

/-- What was added in which way is not seen in the end. -/
theorem after_eq (domain : String) (additions : List Addition) :
    after domain additions = ⟨domain, additions.flatMap Addition.parts⟩ := by
  have hadd : ∀ f : Fingerprint,
      additions.foldl add f = { f with fields := f.fields ++ additions.flatMap Addition.parts } := by
    induction additions with
    | nil => simp
    | cons a additions ih =>
      intro f
      rw [foldl_cons, ih, add_eq, flatMap_cons, append_assoc]
  exact hadd { domain }

/-- **What is fed to the hash** is the schema, the domain and all fields with their lengths in front, in whatever
mixture they were added, and it determines the domain and the fields. -/
theorem stream_after_eq_iff {domain domain' : String} {additions others : List Addition}
    (hshort : (after domain additions).IsShort) (hshort' : (after domain' others).IsShort) :
    (after domain additions).stream =
        (utf8 schema :: utf8 domain :: additions.flatMap Addition.parts).flatMap frame ∧
      ((after domain additions).stream = (after domain' others).stream ↔
        domain = domain' ∧ additions.flatMap Addition.parts = others.flatMap Addition.parts) := by
  refine ⟨by rw [after_eq]; rfl, fun h => ?_, fun h => ?_⟩
  · have heq := stream_injective hshort hshort' h
    rw [after_eq, after_eq] at heq
    exact Fingerprint.mk.inj heq
  · rw [after_eq, after_eq, h.1, h.2]

/-- A field that holds what stands for two fields is not taken for them, and the way to add them does not count. -/
theorem stream_after_eq_iff_nested :
    (after "t" [.bytes (frame [7] ++ frame [])]).stream ≠ (after "t" [.bytes [7], .text ""]).stream ∧
      (after "t" [.texts ["ab", "c"]]).stream = (after "t" [.text "ab", .bytes [99]]).stream := by
  refine ⟨fun h => ?_, ?_⟩
  · exact absurd ((stream_after_eq_iff (by decide) (by decide)).2.1 h).2 (by decide)
  · exact (stream_after_eq_iff (by decide) (by decide)).2.2 ⟨rfl, by decide⟩

end Fingerprint

/-! ### Hexadecimal digits -/

theorem hexDigit_injective {a b : Nat} (ha : a < 16) (hb : b < 16) (h : hexDigit a = hexDigit b) : a = b := by
  have hall : ∀ a b : Fin 16, hexDigit a = hexDigit b → a = b := by decide
  exact congrArg Fin.val (hall ⟨a, ha⟩ ⟨b, hb⟩ h)

theorem isDigestDigit_hexDigit {a : Nat} (ha : a < 16) : Cache.isDigestDigit (hexDigit a) = true := by
  have hall : ∀ a : Fin 16, Cache.isDigestDigit (hexDigit a) = true := by decide
  exact hall ⟨a, ha⟩

theorem hex_injective (h : hex a = hex b) : a = b := by
  unfold hex at h
  rw [String.ofList_inj] at h
  induction a generalizing b with
  | nil =>
    cases b with
    | nil => rfl
    | cons y b => simp at h
  | cons x a ih =>
    cases b with
    | nil => simp at h
    | cons y b =>
      simp only [flatMap_cons, cons_append, List.cons.injEq] at h
      obtain ⟨hhigh, hlow, hrest⟩ := h
      have hx := UInt8.toNat_lt x
      have hy := UInt8.toNat_lt y
      have hhigh := hexDigit_injective (by omega) (by omega) hhigh
      have hlow := hexDigit_injective (by omega) (by omega) hlow
      rw [ih hrest, UInt8.toNat_inj.1 (by omega : x.toNat = y.toNat)]

/-- **A digest is sixty-four hexadecimal digits.** -/
theorem isDigest_digest (f : Fingerprint) : Cache.isDigest f.digest.toList = true := by
  have hlength : ∀ bytes : List UInt8, (hex bytes).toList.length = 2 * bytes.length := by
    intro bytes
    induction bytes with
    | nil => rfl
    | cons b bytes ih =>
      simp only [hex, String.toList_ofList, flatMap_cons, length_append, length_cons, length_nil] at ih ⊢
      omega
  have hdigits : ∀ bytes : List UInt8, (hex bytes).toList.all Cache.isDigestDigit = true := by
    intro bytes
    rw [all_eq_true]
    intro c hc
    simp only [hex, String.toList_ofList, mem_flatMap, mem_cons, not_mem_nil, or_false] at hc
    obtain ⟨b, -, rfl | rfl⟩ := hc
    · have := UInt8.toNat_lt b
      exact isDigestDigit_hexDigit (by omega)
    · exact isDigestDigit_hexDigit (Nat.mod_lt _ (by decide))
  unfold Cache.isDigest Fingerprint.digest
  rw [hlength, hdigits]
  rfl

/-! ### Sets of streams without collisions -/

/-- Streams of which no two have the same hash, and each of which is short enough for the hash. -/
structure Collisionless (streams : Set (List UInt8)) : Prop where
  injective : Set.InjOn Sha256.hash streams
  short : ∀ stream ∈ streams, stream.length < 2 ^ 60

namespace Collisionless

variable {streams : Set (List UInt8)} {f g : Fingerprint}

/-- **A digest determines what it is a digest of.** -/
theorem eq_of_digest_eq (h : Collisionless streams) (hf : f.stream ∈ streams) (hg : g.stream ∈ streams)
    (heq : f.digest = g.digest) : f = g := by
  have hstream : f.stream = g.stream := h.injective hf hg (hex_injective heq)
  have hfshort := h.short _ hf
  have hgshort := h.short _ hg
  exact Fingerprint.stream_injective (Fingerprint.isShort_of_stream (by omega))
    (Fingerprint.isShort_of_stream (by omega)) hstream

/-- Finitely many streams do not collide if their hashes begin differently. -/
theorem of_all {l : List (List UInt8)} (h : l.all (fun a => decide (a.length < 2 ^ 60) &&
    l.all fun b => (Sha256.hash a).head? != (Sha256.hash b).head? || a == b) = true) : Collisionless {a | a ∈ l} := by
  simp only [all_eq_true, Bool.and_eq_true, decide_eq_true_eq, Bool.or_eq_true, bne_iff_ne, beq_iff_eq] at h
  refine ⟨fun a ha b hb heq => ?_, fun a ha => (h a ha).1⟩
  exact ((h a ha).2 b hb).resolve_left (not_not_intro (by rw [heq]))

end Collisionless

end Cartograph.Digest
