import Cartograph.Json.Lenient
import Cartograph.Proofs.Json.RoundTrip

/-!
# Reading leniently what was written

Bytes of the compact text of a plain value are read as what the value echoes, strictly or leniently
(`echoed_of_ofBytes?`). The lenient reader sees a text byte by byte: the bytes of a character outside ASCII
are none of those that mean something to it, so it skips them one by one up to the closing quote, and what it
skipped is the text again.
-/

namespace Cartograph.Json

open List

variable {c d e a b : Char}

/-- A byte as the character that the lenient reader takes it for. -/
def byteChar (b : UInt8) : Char := Char.ofNat b.toNat

/-- The bytes of a character as the lenient reader sees them. -/
def byteChars (c : Char) : List Char := (String.utf8EncodeChar c).map byteChar

theorem toNat_byteChar (b : UInt8) : (byteChar b).toNat = b.toNat := by
  have hb := b.toNat_lt
  rw [byteChar, Char.ofNat, dif_pos (Or.inl (by omega))]
  rfl

theorem bytesOf_map_byteChar (bytes : List UInt8) : bytesOf (bytes.map byteChar) = ⟨bytes.toArray⟩ := by
  have hbyte : ∀ b ∈ bytes, (byteChar b).toNat.toUInt8 = b := by
    intro b _
    rw [toNat_byteChar]
    exact UInt8.ofNat_toNat
  rw [bytesOf, map_map]
  change (⟨(bytes.map fun b => (byteChar b).toNat.toUInt8).toArray⟩ : ByteArray) = _
  rw [map_congr_left hbyte, map_id']

theorem flatMap_byteChars (cs : List Char) :
    cs.flatMap byteChars = (cs.flatMap String.utf8EncodeChar).map byteChar := by
  rw [map_flatMap]
  rfl

/-- The lenient reader puts the bytes of a text together again. -/
theorem fromUTF8?_bytesOf (cs : List Char) :
    String.fromUTF8? (bytesOf (cs.flatMap byteChars)) = some (String.ofList cs) := by
  rw [flatMap_byteChars, bytesOf_map_byteChar, Text.fromUTF8?_eq_some_iff, ← String.utf8Encode_toList,
    String.toList_ofList]
  exact ByteArray.ext (by simp [utf8Encode])

theorem keepsAscii_byteChars : KeepsAscii byteChars := by
  intro c hc
  have hbyte : c.toNat.toUInt8.toNat = c.toNat := Nat.mod_eq_of_lt (by omega)
  rw [byteChars, Text.utf8EncodeChar_of_lt hc, map_singleton, byteChar, hbyte, Char.ofNat_toNat]

theorem le_of_mem_byteChars (hc : 0x80 ≤ c.toNat) (hd : d ∈ byteChars c) : 0x80 ≤ d.toNat := by
  obtain ⟨b, hb, rfl⟩ := mem_map.1 hd
  rw [toNat_byteChar]
  exact Text.le_of_mem_utf8EncodeChar hc hb

/-! ### Skipping a text -/

/-- Characters are skipped as they are, if the text is skipped at all. -/
def IsSkipped (cs : List Char) : Prop :=
  ∀ n tail quoted rest, skipText n (cs ++ tail) = .ok (quoted, rest) →
    ∃ m quoted', quoted = cs ++ quoted' ∧ skipText m tail = .ok (quoted', rest)

theorem isSkipped_nil : IsSkipped [] := fun n _ quoted _ h => ⟨n, quoted, rfl, h⟩

theorem IsSkipped.append {cs ds : List Char} (hcs : IsSkipped cs) (hds : IsSkipped ds) : IsSkipped (cs ++ ds) := by
  intro n tail quoted rest h
  rw [append_assoc] at h
  obtain ⟨m, quoted', rfl, hrest⟩ := hcs n (ds ++ tail) quoted rest h
  obtain ⟨k, quoted'', rfl, hend⟩ := hds m tail quoted' rest hrest
  exact ⟨k, quoted'', by rw [append_assoc], hend⟩

theorem isSkipped_flatMap {α : Type} (f : α → List Char) {l : List α} (h : ∀ a ∈ l, IsSkipped (f a)) :
    IsSkipped (l.flatMap f) := by
  induction l with
  | nil => exact isSkipped_nil
  | cons a l ih =>
    exact (h a mem_cons_self).append (ih (forall_mem_cons.1 h).2)

/-- What follows from a reading that goes on behind some characters. -/
theorem of_map_eq_ok {r : Reading (List Char)} (cs : List Char) {quoted rest : List Char}
    (h : (r.map fun (l, rest) => (cs ++ l, rest)) = .ok (quoted, rest)) :
    ∃ quoted', quoted = cs ++ quoted' ∧ r = .ok (quoted', rest) := by
  cases r with
  | error f => cases h
  | ok p =>
    obtain ⟨l, rest'⟩ := p
    cases h
    exact ⟨l, rfl, rfl⟩

theorem isSkipped_singleton (hlow : 0x20 ≤ c.toNat) (hquote : c ≠ '"') (hslash : c ≠ '\\') : IsSkipped [c] := by
  intro n tail quoted rest h
  cases n with
  | zero => cases h
  | succ n =>
    rw [singleton_append, skipText] at h
    · rw [if_neg (by simp [hslash, Nat.not_lt.2 hlow])] at h
      obtain ⟨quoted', hquoted, hrest⟩ := of_map_eq_ok [c] h
      exact ⟨n, quoted', hquoted, hrest⟩
    · exact hquote
    all_goals simp [hslash]

theorem isSkipped_escape (he : ['"', '\\', '/', 'b', 'f', 'n', 'r', 't'].contains e = true) : IsSkipped ['\\', e] := by
  intro n tail quoted rest h
  cases n with
  | zero => cases h
  | succ n =>
    have hu : e ≠ 'u' := by
      rintro rfl
      exact absurd he (by decide)
    rw [cons_append, singleton_append, skipText] at h
    · rw [if_pos he] at h
      obtain ⟨quoted', hquoted, hrest⟩ := of_map_eq_ok ['\\', e] h
      exact ⟨n, quoted', hquoted, hrest⟩
    · exact fun _ _ _ _ _ h => absurd h hu

theorem isSkipped_code {n : Nat} (h : fourHex? a b c d = some n) : IsSkipped ['\\', 'u', a, b, c, d] := by
  intro k tail quoted rest hskip
  cases k with
  | zero => cases hskip
  | succ k =>
    simp only [cons_append] at hskip
    rw [skipText] at hskip
    simp only [h] at hskip
    obtain ⟨quoted', hquoted, hrest⟩ := of_map_eq_ok ['\\', 'u', a, b, c, d] hskip
    exact ⟨k, quoted', hquoted, hrest⟩

/-- Every character of a text is skipped the way it is written. -/
theorem isSkipped_byteChars_escape (c : Char) : IsSkipped ((escape c).flatMap byteChars) := by
  have hascii : ∀ cs : List Char, cs.all (·.toNat < 0x80) = true → cs.flatMap byteChars = cs := fun cs hcs => by
    rw [flatMap_congr fun d hd => keepsAscii_byteChars d (ascii_of_all hcs d hd), flatMap_singleton']
  unfold escape
  split
  next => exact hascii ['\\', '"'] (by decide) ▸ isSkipped_escape (by decide)
  split
  next => exact hascii ['\\', '\\'] (by decide) ▸ isSkipped_escape (by decide)
  split
  next => exact hascii ['\\', 'b'] (by decide) ▸ isSkipped_escape (by decide)
  split
  next => exact hascii ['\\', 'f'] (by decide) ▸ isSkipped_escape (by decide)
  split
  next => exact hascii ['\\', 'n'] (by decide) ▸ isSkipped_escape (by decide)
  split
  next => exact hascii ['\\', 'r'] (by decide) ▸ isSkipped_escape (by decide)
  split
  next => exact hascii ['\\', 't'] (by decide) ▸ isSkipped_escape (by decide)
  split
  next hc =>
    have hcode : ∀ n, n < 32 →
        ['\\', 'u', '0', '0', hexDigit (n / 16), hexDigit n].all (·.toNat < 0x80) = true := by
      decide
    rw [hascii _ (hcode c.toNat hc)]
    exact isSkipped_code (fourHex?_escape c.toNat hc)
  next hquote hslash _ _ _ _ _ hlow =>
    rw [flatMap_singleton]
    by_cases hc : c.toNat < 0x80
    · rw [keepsAscii_byteChars c hc]
      exact isSkipped_singleton (Nat.not_lt.1 hlow) hquote hslash
    · -- none of the bytes is a quote, a backslash or a control character
      have hbytes : IsSkipped ((byteChars c).flatMap fun d => [d]) := by
        refine isSkipped_flatMap _ fun d hd => ?_
        have hd := le_of_mem_byteChars (Nat.not_lt.1 hc) hd
        refine isSkipped_singleton (by omega) ?_ ?_
        all_goals
          rintro rfl
          exact absurd hd (by decide)
      rwa [flatMap_singleton'] at hbytes

/-- **A text is taken leniently for what it is.** -/
theorem lenientText_gives (s : String) (rest : List Char) :
    Gives true (lenientText ((s.toList.flatMap escape).flatMap byteChars ++ '"' :: rest)) (text s) rest := by
  rw [lenientText]
  cases hskip : skipText (_ + 1) ((s.toList.flatMap escape).flatMap byteChars ++ '"' :: rest) with
  | error f => exact .inr ⟨rfl, f, rfl⟩
  | ok r =>
    obtain ⟨quoted, left⟩ := r
    have hskipped : IsSkipped ((s.toList.flatMap escape).flatMap byteChars) := by
      rw [flatMap_assoc]
      exact isSkipped_flatMap _ fun c _ => isSkipped_byteChars_escape c
    obtain ⟨m, quoted', rfl, hrest⟩ := hskipped _ _ _ _ hskip
    cases m with
    | zero => cases hrest
    | succ m =>
      cases hrest
      have hquote : ['"'] = ['"'].flatMap byteChars := by decide
      have htext : textOf? ((s.toList.flatMap escape).flatMap byteChars ++ ['"']) = some s := by
        rw [hquote, ← flatMap_append, textOf?, fromUTF8?_bytesOf]
        simp only [Option.bind_eq_bind, Option.bind_some, String.toList_ofList, readText_escape]
        rfl
      left
      simp only [Except.map, htext]

theorem reads_lenient : lenient.Reads true byteChars where
  ascii := keepsAscii_byteChars
  text := lenientText_gives
  number n _ rest hrest := by
    left
    have hread := readNumber_toDigits n hrest
    have hbehind : rest.dropWhile isDigit = rest := by
      cases rest with
      | nil => rfl
      | cons c rest => rw [dropWhile_cons_of_neg (by simp [hrest.not_isDigit c rfl])]
    simp only [lenient, lenientNumber, hread, echo]
    cases isTooLarge n with
    | false => rfl
    | true => simp [fail, hbehind]

/-- **The bytes of a plain value are read, if at all, as what it echoes.** -/
theorem echoed_of_ofBytes? {v w : Json} {depth : Nat} (hv : isPlain true depth v = true)
    (hlimit : depth ≤ depthLimit) (hdepth : depth ≤ (compactChars v).length)
    (h : ofBytes? v.compact.toByteArray = some w) : w = echoed v := by
  have hdecode : String.fromUTF8? v.compact.toByteArray = some v.compact := Text.fromUTF8?_eq_some_iff.2 rfl
  rw [ofBytes?, hdecode, Option.bind_some] at h
  split at h
  next hread =>
    obtain rfl := Option.some.inj h
    rw [read?, compact, String.toList_ofList] at hread
    obtain hok | ⟨-, f, herror⟩ := whole_strict (isPlain_mono hlimit hv)
    · rw [hok] at hread
      exact (Option.some.inj hread).symm
    · rw [herror] at hread
      cases hread
  next =>
    have hbytes : v.compact.toByteArray.data.toList.map (fun b => Char.ofNat b.toNat) =
        (compactChars v).flatMap byteChars := by
      have hutf8 := Text.utf8_eq v.compact
      rw [compact, String.toList_ofList] at hutf8
      rw [flatMap_byteChars, ← hutf8]
      rfl
    simp only [hbytes] at h
    have hlength : (compactChars v).length ≤ ((compactChars v).flatMap byteChars).length := by
      rw [flatMap_byteChars, length_map, Text.length_flatMap_utf8EncodeChar]
      exact Text.length_le_byteLength _
    obtain hok | ⟨-, f, herror⟩ := gives_whole reads_lenient
      (isPlain_mono (Nat.le_succ_of_le (Nat.le_trans hdepth hlength)) hv)
    · rw [hok] at h
      exact (Option.some.inj h).symm
    · rw [herror] at h
      cases h

end Cartograph.Json
