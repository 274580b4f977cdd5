import Cartograph.Proofs.Run.Contents
import Cartograph.Proofs.Run.Fresh

/-!
# Line endings and byte-order marks

The bytes of a file may start with a byte-order mark, and its lines may end in a carriage return and a line feed. Both
are lost when the file is read: a text that is stored in any of the four ways (`Text.encodings`) is read as that text
(`Text.decode?_of_mem_encodings`). A line feed loses one carriage return and no more (`Text.unixLines_dosLines`); only a
text that has such a pair itself does not survive being stored as it is (`Text.unixLines_eq_self`).

A file is known by its digest, and what is read from it by a key. Both are made from the bytes of the text, or from all
bytes of a file that is no text; so they are the same for all four ways to store a text. They are never shared by a file
that is text and one that is not (`Content.bytes_ne`, `Digest.Fingerprint.eq_of_stream_bytes`).
-/

namespace Cartograph

open List

/-! ### Ways to store a text -/

namespace Text

/-- The bytes of a byte-order mark. -/
def mark : ByteArray := ⟨#[0xEF, 0xBB, 0xBF]⟩

/-- The text with a carriage return in front of each line feed. -/
def dosLines (cs : List Char) : List Char := cs.flatMap fun c => if c = '\n' then ['\r', '\n'] else [c]

/-- The ways to store a text: with or without a mark, and with either line ending. -/
def encodings (t : String) : List ByteArray :=
  let dos := String.ofList (dosLines t.toList)
  [t.toUTF8, mark ++ t.toUTF8, dos.toUTF8, mark ++ dos.toUTF8]

/-- A text that survives being stored as it is: it has no line feed behind a carriage return, and no mark in front. -/
structure IsPlain (t : String) : Prop where
  unpaired : ¬['\r', '\n'] <:+: t.toList
  unmarked : t.toList.head? ≠ some '\ufeff'

/-! ### Line endings -/

variable {cs : List Char} {c : Char} {raw : ByteArray}

theorem unixLines_cons (h : ¬['\r', '\n'] <+: c :: cs) : unixLines (c :: cs) = c :: unixLines cs := by
  refine unixLines.eq_2 c cs fun rest hc hcs => h ?_
  rw [hc, hcs]
  exact ⟨rest, rfl⟩

/-- **A text without pairs** keeps its lines. -/
theorem unixLines_eq_self (h : ¬['\r', '\n'] <:+: cs) : unixLines cs = cs := by
  induction cs with
  | nil => rfl
  | cons c cs ih =>
    have hfront : ¬['\r', '\n'] <+: c :: cs := fun hpair => h hpair.isInfix
    have hrest : ¬['\r', '\n'] <:+: cs := fun hpair => h (hpair.trans (suffix_cons c cs).isInfix)
    rw [unixLines_cons hfront, ih hrest]

theorem dosLines_cons_of_ne (h : c ≠ '\n') (cs : List Char) : dosLines (c :: cs) = c :: dosLines cs := by
  rw [dosLines, flatMap_cons, if_neg h]
  rfl

/-- No text starts with a line feed once each has its carriage return. -/
theorem head?_dosLines (cs : List Char) : (dosLines cs).head? ≠ some '\n' := by
  cases cs with
  | nil => exact nofun
  | cons c cs =>
    by_cases hc : c = '\n'
    · subst hc
      exact fun h => absurd (Option.some.inj h) (by decide)
    · rw [dosLines_cons_of_ne hc, head?_cons]
      exact fun h => hc (Option.some.inj h)

/-- **The carriage returns that were put in are taken out again**, and no others. -/
theorem unixLines_dosLines (cs : List Char) : unixLines (dosLines cs) = cs := by
  induction cs with
  | nil => rfl
  | cons c cs ih =>
    by_cases hc : c = '\n'
    · subst hc
      exact congrArg ('\n' :: ·) ih
    · -- a carriage return of the text itself is followed by no line feed now, and stays
      have hfront : ¬['\r', '\n'] <+: c :: dosLines cs := by
        rintro ⟨rest, hrest⟩
        have htail : '\n' :: rest = dosLines cs := (cons.inj hrest).2
        exact head?_dosLines cs (by rw [← htail]; rfl)
      rw [dosLines_cons_of_ne hc, unixLines_cons hfront, ih]

/-! ### Marks -/

theorem dropMark_of_head? (h : cs.head? ≠ some '\ufeff') : dropMark cs = cs := by
  refine dropMark.eq_2 cs fun rest hcs => h ?_
  rw [hcs]
  rfl

theorem head?_dosLines_eq_mark (h : cs.head? ≠ some '\ufeff') : (dosLines cs).head? ≠ some '\ufeff' := by
  cases cs with
  | nil => exact nofun
  | cons c cs =>
    by_cases hc : c = '\n'
    · subst hc
      exact fun hmark => absurd (Option.some.inj hmark) (by decide)
    · rw [dosLines_cons_of_ne hc]
      exact h

/-- A mark in front of the bytes of a text is a character in front of the text. -/
theorem mark_append (s : String) : mark ++ s.toUTF8 = (String.ofList ('\ufeff' :: s.toList)).toUTF8 := by
  have hmark : mark = "\ufeff".toByteArray := by decide
  have hchars : String.ofList ('\ufeff' :: s.toList) = "\ufeff" ++ s := String.toList_injective (by simp)
  rw [hchars, hmark]
  exact String.toByteArray_append.symm

/-! ### Decoding -/

theorem decode?_toUTF8 (s : String) : decode? s.toUTF8 = some (normalized s) := by
  have hread : String.fromUTF8? s.toUTF8 = some s := fromUTF8?_eq_some_iff.2 rfl
  rw [decode?, hread, Option.map_some]

/-- **A text is read from each way to store it.** -/
theorem decode?_of_mem_encodings {t : String} (h : IsPlain t) (hraw : raw ∈ encodings t) : decode? raw = some t := by
  have hplain : unixLines t.toList = t.toList := unixLines_eq_self h.unpaired
  have hdos : unixLines (dosLines t.toList) = t.toList := unixLines_dosLines t.toList
  simp only [encodings, mem_cons, not_mem_nil, or_false] at hraw
  -- with a mark it is dropped, and without one there is none to drop
  obtain rfl | rfl | rfl | rfl := hraw
  · rw [decode?_toUTF8, normalized, dropMark_of_head? h.unmarked, hplain, String.ofList_toList]
  · rw [mark_append, decode?_toUTF8, normalized, String.toList_ofList, dropMark, hplain, String.ofList_toList]
  · rw [decode?_toUTF8, normalized, String.toList_ofList, dropMark_of_head? (head?_dosLines_eq_mark h.unmarked), hdos,
      String.ofList_toList]
  · rw [mark_append, decode?_toUTF8, normalized, String.toList_ofList, String.toList_ofList, dropMark, hdos,
      String.ofList_toList]

theorem decode?_eq_none_iff : decode? raw = none ↔ ¬raw.IsValidUTF8 := by
  rw [decode?, Option.map_eq_none_iff, String.fromUTF8?]
  split
  · next hvalid => simp [hvalid]
  · next hinvalid => simp [hinvalid]

end Text

/-! ### What is hashed -/

open Digest (Fingerprint)

/-- The texts that stand in front of the content in the key of reading a file. -/
def keyTexts (language : Language) (path : String) : List String :=
  [language.id, language.version, (Path.extension? path).getD ""]

/-- What the key of reading a file in a language is made of. -/
def keyFrame (language : Language) (path : String) (content : Content) : Fingerprint :=
  Fingerprint.bytes { domain := "parse", fields := (keyTexts language path).map Digest.utf8 } content.bytes

/-- Whether these texts are short enough for their lengths to be written in front of them. -/
def AreShort (texts : List String) : Prop := ∀ text ∈ texts, text.utf8ByteSize < 2 ^ 64

instance (texts : List String) : Decidable (AreShort texts) := inferInstanceAs (Decidable (∀ _ ∈ _, _))

namespace Content

variable {raw valid invalid other raw' : ByteArray}

/-- Bytes that are no text are not the bytes of a text. -/
theorem bytes_ne (hvalid : valid.IsValidUTF8) (hinvalid : ¬invalid.IsValidUTF8) :
    (ofBytes valid).bytes ≠ (ofBytes invalid).bytes := by
  intro h
  have htext := text_eq_of_bytes h
  rw [text_ofBytes, text_ofBytes, Text.decode?_eq_none_iff.2 hinvalid, Text.decode?_eq_none_iff] at htext
  exact htext hvalid

/-- What is known of a file depends on its text, if it has one. -/
theorem eq_of_text {t : String} (hraw : Text.decode? raw = some t) (hother : Text.decode? other = some t) :
    (ofBytes raw).bytes = (ofBytes other).bytes ∧
      ∀ language path, (ofBytes raw).readBy language path = (ofBytes other).readBy language path := by
  refine ⟨?_, fun language path => ?_⟩
  · rw [bytes, bytes, text_ofBytes, text_ofBytes, hraw, hother]
  · rw [readBy, readBy, text_ofBytes, text_ofBytes, hraw, hother]

/-- Different contents have different keys, whatever the languages and paths, where hashes do not collide. -/
theorem bytes_eq_of_parseKey {language other : Language} {path path' : String}
    (hshort : AreShort (keyTexts language path)) (hshort' : AreShort (keyTexts other path'))
    (hstreams : Set.InjOn Digest.Sha256.hash
      {(keyFrame language path (ofBytes raw)).stream, (keyFrame other path' (ofBytes raw')).stream})
    (h : parseKey language path (ofBytes raw) = parseKey other path' (ofBytes raw')) :
    (ofBytes raw).bytes = (ofBytes raw').bytes := by
  have hfields : ∀ {texts : List String}, AreShort texts → ∀ field ∈ texts.map Digest.utf8, field.length < 2 ^ 64 := by
    intro texts hshort field hfield
    obtain ⟨text, htext, rfl⟩ := mem_map.1 hfield
    rw [Text.length_utf8, ← Text.utf8ByteSize_eq]
    exact hshort text htext
  have hstream : (keyFrame language path (ofBytes raw)).stream = (keyFrame other path' (ofBytes raw')).stream :=
    hstreams (.inl rfl) (.inr rfl) (Digest.hex_injective h)
  rw [keyFrame, keyFrame] at hstream
  refine Fingerprint.eq_of_stream_bytes ?_ ?_ (hfields hshort) (hfields hshort') hstream <;> rfl

end Content

/-! ### What a run records of a file -/

/-- **A run records** the digest of a file that it can read, and the key of reading it if there is a store. -/
theorem Plan.run_parse_records {p : Plan} {store : Option Store} {path : String} {package : Nat} {s : Session}
    {raw : ByteArray} (h : s.files.read (Path.Spelling.under p.root path) = .ok raw) :
    ((p.parse store path package).run s).1.file.contentHash = (Content.ofBytes raw).hash ∧
      ((p.parse store path package).run s).1.key =
        (p.language? path).bind fun language => store.map fun _ => parseKey language path (Content.ofBytes raw) := by
  rw [run_parse, h]
  dsimp only
  cases p.language? path with
  | none => exact ⟨rfl, rfl⟩
  | some language =>
    cases store with
    | none => exact ⟨rfl, rfl⟩
    | some own =>
      dsimp only [Option.bind_some, Option.map_some]
      cases own.outcome? s (parseKey language path (Content.ofBytes raw)) <;> exact ⟨rfl, rfl⟩

/-- **Line endings and byte-order marks are invisible.** Each way to store a text is read as the text, so the digest of
the file, the key of reading it and what is read are the same for all of them. The content of a file that is text and
that of one that is not are never hashed alike, so neither the digests nor the keys are shared, whatever the languages
and paths, where hashes do not collide. And these digests and keys are what a run records of a file. -/
theorem Content.encodings_invisible :
    (∀ t : String, Text.IsPlain t → ∀ raw ∈ Text.encodings t, Text.decode? raw = some t ∧
      ∀ other ∈ Text.encodings t, (ofBytes raw).hash = (ofBytes other).hash ∧
        ∀ language path, parseKey language path (ofBytes raw) = parseKey language path (ofBytes other) ∧
          (ofBytes raw).readBy language path = (ofBytes other).readBy language path) ∧
    (∀ valid invalid : ByteArray, valid.IsValidUTF8 → ¬invalid.IsValidUTF8 →
      (ofBytes valid).bytes ≠ (ofBytes invalid).bytes ∧
      (Set.InjOn Digest.Sha256.hash {(frame valid).stream, (frame invalid).stream} →
        (ofBytes valid).hash ≠ (ofBytes invalid).hash) ∧
      ∀ language other path path', AreShort (keyTexts language path) → AreShort (keyTexts other path') →
        Set.InjOn Digest.Sha256.hash
          {(keyFrame language path (ofBytes valid)).stream, (keyFrame other path' (ofBytes invalid)).stream} →
        parseKey language path (ofBytes valid) ≠ parseKey other path' (ofBytes invalid)) ∧
    ∀ (p : Plan) (store : Option Store) (path : String) (package : Nat) (s : Session) (raw : ByteArray),
      s.files.read (Path.Spelling.under p.root path) = .ok raw →
      ((p.parse store path package).run s).1.file.contentHash = (ofBytes raw).hash ∧
        ((p.parse store path package).run s).1.key =
          (p.language? path).bind fun language => store.map fun _ => parseKey language path (ofBytes raw) := by
  refine ⟨fun t ht raw hraw => ⟨?_, fun other hother => ?_⟩, fun valid invalid hvalid hinvalid => ⟨?_, ?_, ?_⟩, ?_⟩
  · exact Text.decode?_of_mem_encodings ht hraw
  · obtain ⟨hbytes, hread⟩ := eq_of_text (Text.decode?_of_mem_encodings ht hraw) (Text.decode?_of_mem_encodings ht hother)
    refine ⟨by rw [hash, hash, hbytes], fun language path => ⟨?_, hread language path⟩⟩
    rw [parseKey, parseKey, hbytes]
  · exact bytes_ne hvalid hinvalid
  · intro hstreams h
    have hstream := hstreams (.inl rfl) (.inr rfl) (Digest.hex_injective h)
    exact bytes_ne hvalid hinvalid (Fingerprint.bytes_injective hstream)
  · intro language other path path' hshort hshort' hstreams h
    exact bytes_ne hvalid hinvalid (bytes_eq_of_parseKey hshort hshort' hstreams h)
  · exact fun p store path package s raw hread => Plan.run_parse_records hread

/-- A text with a carriage return that ends no line, and with a mark that is not at the start. -/
def mixedText : String := "a\rb\n\ufeffc\n"

theorem mixedText_isPlain : Text.IsPlain mixedText where
  unpaired := by decide +kernel
  unmarked := by decide +kernel

/-- Both of its line endings and both of its starts give the text, and bytes that are no text share nothing with it. -/
theorem Content.encodings_invisible_mixedText :
    (Text.encodings mixedText).map Text.decode? =
        [some mixedText, some mixedText, some mixedText, some mixedText] ∧
      (ofBytes mixedText.toUTF8).hash ≠ (ofBytes ⟨#[0x61, 0xff]⟩).hash ∧
      parseKey TypeScript.language "a.ts" (ofBytes mixedText.toUTF8) ≠
        parseKey TypeScript.language "b.ts" (ofBytes ⟨#[0x61, 0xff]⟩) := by
  obtain ⟨hread, hapart, -⟩ := encodings_invisible
  have hinvalid : ¬(⟨#[0x61, 0xff]⟩ : ByteArray).IsValidUTF8 := Text.decode?_eq_none_iff.1 (by decide +kernel)
  obtain ⟨-, hhash, hkey⟩ := hapart mixedText.toUTF8 ⟨#[0x61, 0xff]⟩ mixedText.isValidUTF8 hinvalid
  refine ⟨?_, hhash ?_, hkey TypeScript.language TypeScript.language "a.ts" "b.ts" ?_ ?_ ?_⟩
  · rw [map_congr_left fun raw hraw => (hread mixedText mixedText_isPlain raw hraw).1]
    rfl
  · exact Set.injOn_pair.2 fun h => absurd h (by decide +kernel)
  · decide
  · decide
  · exact Set.injOn_pair.2 fun h => absurd h (by decide +kernel)

end Cartograph
