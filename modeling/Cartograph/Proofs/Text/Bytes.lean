import Mathlib.Algebra.GroupWithZero.Nat
import Cartograph.Digest.Fingerprint
import Cartograph.Text.Decode

/-!
# The bytes of texts

A text is the bytes of its characters one after the other (`utf8_eq`), so it has at least as many bytes as
characters, and bytes that are text are the bytes of exactly one (`fromUTF8?_eq_some_iff`).
-/

namespace Cartograph.Text

open List

variable {c : Char} {s : String}

/-- The number of bytes of a list of characters. -/
def byteLength (cs : List Char) : Nat := (cs.map Char.utf8Size).sum

@[simp] theorem byteLength_cons (c : Char) (cs : List Char) : byteLength (c :: cs) = c.utf8Size + byteLength cs := by
  simp [byteLength]

theorem length_le_byteLength (cs : List Char) : cs.length ≤ byteLength cs := by
  induction cs with
  | nil => exact Nat.le_refl 0
  | cons c cs ih =>
    have := c.utf8Size_pos
    rw [length_cons, byteLength_cons]
    omega

theorem utf8_eq (s : String) : Digest.utf8 s = s.toList.flatMap String.utf8EncodeChar := by
  unfold Digest.utf8
  rw [← String.utf8Encode_toList]
  simp [utf8Encode]

theorem length_flatMap_utf8EncodeChar (cs : List Char) : (cs.flatMap String.utf8EncodeChar).length = byteLength cs := by
  simp [length_flatMap, byteLength]

theorem length_utf8 (s : String) : (Digest.utf8 s).length = byteLength s.toList := by
  rw [utf8_eq, length_flatMap_utf8EncodeChar]

theorem utf8ByteSize_eq (s : String) : s.utf8ByteSize = byteLength s.toList := by
  rw [← length_utf8]
  simp [Digest.utf8]

/-! ### Bytes of a character -/

theorem utf8EncodeChar_of_lt (hc : c.toNat < 0x80) : String.utf8EncodeChar c = [c.toNat.toUInt8] := by
  rw [String.utf8EncodeChar]
  exact if_pos (Nat.le_of_lt_succ hc)

/-- Outside ASCII no byte of a character is one of ASCII. -/
theorem le_of_mem_utf8EncodeChar (hc : 0x80 ≤ c.toNat) {b : UInt8}
    (hb : b ∈ String.utf8EncodeChar c) : 0x80 ≤ b.toNat := by
  have hlarge : ∀ n, 0x80 ≤ n → n < 0x100 → 0x80 ≤ (UInt8.ofNat n).toNat := by
    intro n hlow hhigh
    rw [UInt8.toNat_ofNat_of_lt' hhigh]
    exact hlow
  have hv : ¬ c.val.toNat ≤ 0x7f := Nat.not_le.2 hc
  simp only [String.utf8EncodeChar, if_neg hv] at hb
  split at hb
  · simp only [mem_cons, not_mem_nil, or_false] at hb
    obtain rfl | rfl := hb <;> exact hlarge _ (by omega) (by omega)
  · split at hb
    · simp only [mem_cons, not_mem_nil, or_false] at hb
      obtain rfl | rfl | rfl := hb <;> exact hlarge _ (by omega) (by omega)
    · simp only [mem_cons, not_mem_nil, or_false] at hb
      obtain rfl | rfl | rfl | rfl := hb <;> exact hlarge _ (by omega) (by omega)

/-- A text without the character zero has no byte that is zero. -/
theorem zero_not_mem_utf8 (hs : '\x00' ∉ s.toList) : (0 : UInt8) ∉ Digest.utf8 s := by
  intro hzero
  rw [utf8_eq, mem_flatMap] at hzero
  obtain ⟨c, hc, hbyte⟩ := hzero
  by_cases hlow : c.toNat < 0x80
  · rw [utf8EncodeChar_of_lt hlow, mem_singleton] at hbyte
    have hnat : c.toNat = ('\x00' : Char).toNat := by
      have hbyte := congrArg UInt8.toNat hbyte
      have hmod : c.toNat.toUInt8.toNat = c.toNat := Nat.mod_eq_of_lt (by omega)
      rw [hmod] at hbyte
      exact hbyte.symm
    exact hs (Char.toNat_inj.1 hnat ▸ hc)
  · exact absurd (le_of_mem_utf8EncodeChar (Nat.not_lt.1 hlow) hbyte) (by decide)

/-! ### Decoding -/

theorem fromUTF8?_eq_some_iff {bytes : ByteArray} : String.fromUTF8? bytes = some s ↔ s.toByteArray = bytes := by
  unfold String.fromUTF8?
  split
  · next h =>
    constructor
    · intro hs
      rw [← Option.some.inj hs]
      rfl
    · rintro rfl
      congr 1
  · next h =>
    constructor
    · intro hs
      cases hs
    · rintro rfl
      exact absurd s.isValidUTF8 h

end Cartograph.Text
