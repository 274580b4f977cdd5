import Mathlib.Data.String.Basic
import Cartograph.Proofs.Text.Bytes

/-!
# The order of bytes

Texts compare by their characters, and the bytes of texts compare the same way (`utf8_lt_utf8_iff`). The bytes of a
character are its number in digits of six bits behind a leading byte. Digits compare as their numbers do
(`Ascends.digit`), and a leading byte is the greater the more bytes follow it (`Ascends.ite`). So the first byte in which
two characters differ decides as the characters do, whatever comes after it (`utf8EncodeChar_append_lt`).
-/

namespace Cartograph.Text

open List

/-- Bytes of the numbers below a bound that compare as the numbers do, whatever comes after them. -/
def Ascends (bytes : Nat → List UInt8) (bound : Nat) : Prop :=
  ∀ m n, m < n → n < bound → ∀ cs ds : List UInt8, bytes m ++ cs < bytes n ++ ds

theorem ofNat_lt_ofNat {m n : Nat} (h : m < n) (hn : n < 256) : UInt8.ofNat m < UInt8.ofNat n := by
  rw [UInt8.lt_iff_toNat_lt, UInt8.toNat_ofNat_of_lt' hn, UInt8.toNat_ofNat_of_lt' (Nat.lt_trans h hn)]
  exact h

variable {bound : Nat}

theorem ascends_lead {lead : Nat → Nat} (h : ∀ m n, m < n → n < bound → lead m < lead n ∧ lead n < 256) :
    Ascends (fun n => [UInt8.ofNat (lead n)]) bound := by
  intro m n hlt hn cs ds
  obtain ⟨hlead, hmost⟩ := h m n hlt hn
  exact cons_lt_cons_iff.2 (.inl (ofNat_lt_ofNat hlead hmost))

/-- **One more digit** of six bits. -/
theorem Ascends.digit {bytes : Nat → List UInt8} (h : Ascends bytes bound) :
    Ascends (fun n => bytes (n / 64) ++ [UInt8.ofNat (n % 64 + 128)]) (bound * 64) := by
  intro m n hlt hn cs ds
  simp only [append_assoc]
  by_cases hfront : m / 64 < n / 64
  · exact h _ _ hfront (by omega) _ _
  · -- the numbers differ in the last digit
    have heq : m / 64 = n / 64 := by omega
    rw [heq]
    refine append_left_lt ?_
    exact cons_lt_cons_iff.2 (.inl (ofNat_lt_ofNat (by omega) (by omega)))

/-- **Two kinds of bytes**, of which those of the greater numbers start with a greater byte. -/
theorem Ascends.ite {f g : Nat → List UInt8} {last : Nat} (hf : Ascends f (last + 1)) (hg : Ascends g bound)
    (hlead : ∀ m n, m ≤ last → last < n → n < bound → ∃ b ∈ (f m).head?, ∃ c ∈ (g n).head?, b < c) :
    Ascends (fun n => if n ≤ last then f n else g n) bound := by
  intro m n hlt hn cs ds
  by_cases hlow : n ≤ last
  · simp only [if_pos hlow, if_pos (Nat.le_trans (Nat.le_of_lt hlt) hlow)]
    exact hf m n hlt (Nat.lt_succ_of_le hlow) cs ds
  by_cases hm : m ≤ last
  · simp only [if_pos hm, if_neg hlow]
    obtain ⟨b, hb, c, hc, hbc⟩ := hlead m n hm (Nat.lt_of_not_le hlow) hn
    obtain ⟨bs, hbs⟩ := head?_eq_some_iff.1 hb
    obtain ⟨cs', hcs'⟩ := head?_eq_some_iff.1 hc
    rw [hbs, hcs']
    exact cons_lt_cons_iff.2 (.inl hbc)
  · simp only [if_neg hm, if_neg hlow]
    exact hg m n hlt hn cs ds

/-- **The bytes of a smaller character are smaller**, whatever comes after them. -/
theorem utf8EncodeChar_append_lt {c d : Char} (h : c < d) (cs ds : List UInt8) :
    String.utf8EncodeChar c ++ cs < String.utf8EncodeChar d ++ ds := by
  have hone : Ascends (fun n => [UInt8.ofNat n]) 0x80 := ascends_lead fun m n _ _ => by omega
  have htwo : Ascends (fun n => [UInt8.ofNat (n / 64 % 32 + 192), UInt8.ofNat (n % 64 + 128)]) 0x800 := by
    have hlead : Ascends (fun n => [UInt8.ofNat (n % 32 + 192)]) 32 := ascends_lead fun m n _ _ => by omega
    exact hlead.digit
  have hthree : Ascends (fun n => [UInt8.ofNat (n / 4096 % 16 + 224), UInt8.ofNat (n / 64 % 64 + 128),
      UInt8.ofNat (n % 64 + 128)]) 0x10000 := by
    have hlead : Ascends (fun n => [UInt8.ofNat (n % 16 + 224)]) 16 := ascends_lead fun m n _ _ => by omega
    have hdigits := hlead.digit.digit
    simp only [Nat.div_div_eq_div_mul] at hdigits
    exact hdigits
  have hfour : Ascends (fun n => [UInt8.ofNat (n / 262144 % 8 + 240), UInt8.ofNat (n / 4096 % 64 + 128),
      UInt8.ofNat (n / 64 % 64 + 128), UInt8.ofNat (n % 64 + 128)]) 0x200000 := by
    have hlead : Ascends (fun n => [UInt8.ofNat (n % 8 + 240)]) 8 := ascends_lead fun m n _ _ => by omega
    have hdigits := hlead.digit.digit.digit
    simp only [Nat.div_div_eq_div_mul] at hdigits
    exact hdigits
  have hmost : d.val.toNat < 0x200000 := d.valid.elim (fun h => by omega) (fun h => by omega)
  refine hone.ite (htwo.ite (hthree.ite hfour ?_) ?_) ?_ c.val.toNat d.val.toNat h hmost cs ds
  · intro m n hm hn hbound
    exact ⟨_, rfl, _, rfl, ofNat_lt_ofNat (by omega) (by omega)⟩
  · intro m n hm hn hbound
    refine ⟨_, rfl, ?_⟩
    split_ifs <;> exact ⟨_, rfl, ofNat_lt_ofNat (by omega) (by omega)⟩
  · intro m n hm hn hbound
    refine ⟨_, rfl, ?_⟩
    split_ifs <;> exact ⟨_, rfl, ofNat_lt_ofNat (by omega) (by omega)⟩

theorem flatMap_utf8EncodeChar_lt {cs ds : List Char} (h : cs < ds) :
    cs.flatMap String.utf8EncodeChar < ds.flatMap String.utf8EncodeChar := by
  induction h with
  | @nil d ds =>
    obtain ⟨b, bs, hbytes⟩ := exists_cons_of_ne_nil (String.utf8EncodeChar_ne_nil (c := d))
    rw [flatMap_cons, hbytes]
    exact nil_lt_cons _ _
  | rel h => exact utf8EncodeChar_append_lt h _ _
  | cons _ ih => exact append_left_lt ih

/-- **Texts compare as their bytes do.** -/
theorem utf8_lt_utf8_iff {s t : String} : Digest.utf8 s < Digest.utf8 t ↔ s < t := by
  have hmono : ∀ {s t : String}, s < t → Digest.utf8 s < Digest.utf8 t := by
    intro s t h
    rw [utf8_eq, utf8_eq]
    exact flatMap_utf8EncodeChar_lt h
  refine ⟨fun h => ?_, hmono⟩
  rcases lt_trichotomy s t with hlt | rfl | hgt
  · exact hlt
  · exact absurd h (List.lt_irrefl _)
  · exact absurd h (List.lt_asymm (hmono hgt))

/-- What is sorted by its texts, no two of them the same, is strictly ascending by their bytes. -/
theorem pairwise_utf8_lt {α : Type} (key : α → String) {l : List α} (h : l.Pairwise fun a b => key a ≤ key b)
    (hnodup : (l.map key).Nodup) : l.Pairwise fun a b => Digest.utf8 (key a) < Digest.utf8 (key b) := by
  refine (h.and (pairwise_map.1 hnodup)).imp ?_
  rintro a b ⟨hle, hne⟩
  exact utf8_lt_utf8_iff.2 (lt_of_le_of_ne hle hne)

end Cartograph.Text
