import Cartograph.Run
import Cartograph.TypeScript.Language
import Cartograph.Proofs.Digest.Framing
import Cartograph.Proofs.Path.Segments
import Cartograph.Proofs.Text.Bytes

/-!
# What is read from a file

What is read from a source file depends on its extension and on the bytes that stand for its content, and on
nothing else (`outcome_eq_of_bytes`). Both are in the key of reading it, so files with one key give one outcome
(`outcome_eq_of_parseKey`). Bytes that are no text cannot be mistaken for those of a text.
-/

namespace Cartograph

open Cartograph.Path TypeScript
open Digest (Fingerprint Collisionless)

/-! ### Extensions -/

namespace TypeScript

variable {path other e : String}

/-- Whether a path is that of a source file. -/
def IsSource (path : String) : Prop := ∃ e ∈ extensions, extension? path = some e

theorem ne_empty_of_mem_extensions (h : e ∈ extensions) : e ≠ "" := by
  rintro rfl
  exact absurd h (by decide)

/-- The extension alone decides how a source file is read. -/
theorem readerFor_eq (h : IsSource path) (hext : extension? path = extension? other) :
    readerFor path = readerFor other := by
  obtain ⟨e, he, hpath⟩ := h
  have hne := ne_empty_of_mem_extensions he
  have hother : extension? other = some e := hext.symm.trans hpath
  rw [readerFor, readerFor, name?_of_extension? hpath hne, name?_of_extension? hother hne,
    Option.bind_some, Option.bind_some, extension?_fileName, extension?_fileName, hext]

theorem readOutcome_eq (h : IsSource path) (hext : extension? path = extension? other)
    (text : String) : readOutcome path text = readOutcome other text := by
  unfold readOutcome readModule
  rw [readerFor_eq h hext]

end TypeScript

/-! ### Contents -/

namespace Content

theorem text_ofBytes (raw : ByteArray) : (ofBytes raw).text = Text.decode? raw := rfl

variable {raw raw' : ByteArray}

/-- Bytes that are no text are not the bytes of a text. -/
theorem utf8_ne_of_text_eq_none (h : (ofBytes raw).text = none) (s : String) : Digest.utf8 s ≠ raw.data.toList := by
  intro hbytes
  have hraw : s.toByteArray = raw := ByteArray.ext (Array.toList_inj.1 hbytes)
  rw [text_ofBytes, Text.decode?, Text.fromUTF8?_eq_some_iff.2 hraw] at h
  cases h

/-- **The bytes of a content determine its text.** -/
theorem text_eq_of_bytes (h : (ofBytes raw).bytes = (ofBytes raw').bytes) :
    (ofBytes raw).text = (ofBytes raw').text := by
  cases htext : (ofBytes raw).text with
  | none =>
    cases htext' : (ofBytes raw').text with
    | none => rfl
    | some t =>
      rw [bytes, bytes, htext, htext'] at h
      exact absurd h.symm (utf8_ne_of_text_eq_none htext t)
  | some s =>
    cases htext' : (ofBytes raw').text with
    | none =>
      rw [bytes, bytes, htext, htext'] at h
      exact absurd h (utf8_ne_of_text_eq_none htext' s)
    | some t =>
      rw [bytes, bytes, htext, htext'] at h
      rw [Digest.utf8_injective h]

/-- What is read from a file in a language that looks at the extension only. -/
def outcome (raw : ByteArray) (path : String) : Outcome := ((ofBytes raw).readBy language path).outcome

/-- **What is read depends on the extension and on the bytes of the content.** -/
theorem outcome_eq_of_bytes {path other : String} (hpath : IsSource path)
    (hext : extension? path = extension? other) (h : (ofBytes raw).bytes = (ofBytes raw').bytes) :
    outcome raw path = outcome raw' other := by
  simp only [outcome, readBy, text_eq_of_bytes h]
  cases (ofBytes raw').text with
  | none => rfl
  | some text =>
    simp only [language]
    exact readOutcome_eq hpath hext text

/-- What the digest of a content is made of. -/
def frame (raw : ByteArray) : Fingerprint := ({ domain := "content" } : Fingerprint).bytes (ofBytes raw).bytes

theorem bytes_eq_of_hash {streams : Set (List UInt8)} (hstreams : Collisionless streams)
    (hraw : (frame raw).stream ∈ streams) (hraw' : (frame raw').stream ∈ streams)
    (h : (ofBytes raw).hash = (ofBytes raw').hash) : (ofBytes raw).bytes = (ofBytes raw').bytes := by
  have hframe := congrArg Fingerprint.fields (hstreams.eq_of_digest_eq hraw hraw' h)
  simpa [frame] using hframe

end Content

/-! ### The key of reading -/

/-- What the key of reading a file is made of. -/
def parseFrame (path : String) (raw : ByteArray) : Fingerprint :=
  (({ domain := "parse" } : Fingerprint).texts [language.id, language.version,
    (extension? path).getD ""]).bytes (Content.ofBytes raw).bytes

/-- **Files with one key give one outcome**, where digests do not collide. -/
theorem outcome_eq_of_parseKey {streams : Set (List UInt8)} (hstreams : Collisionless streams) {path other : String}
    {raw raw' : ByteArray} (hpath : IsSource path) (hother : IsSource other)
    (hraw : (parseFrame path raw).stream ∈ streams) (hraw' : (parseFrame other raw').stream ∈ streams)
    (h : (parseFrame path raw).digest = (parseFrame other raw').digest) :
    Content.outcome raw path = Content.outcome raw' other := by
  have hfields := congrArg Fingerprint.fields (hstreams.eq_of_digest_eq hraw hraw' h)
  simp only [parseFrame, Fingerprint.texts, Fingerprint.fields_bytes, List.nil_append, List.map_cons,
    List.map_nil, List.cons_append, List.cons.injEq, and_true, true_and] at hfields
  obtain ⟨hext, hbytes⟩ := hfields
  obtain ⟨e, -, he⟩ := id hpath
  obtain ⟨e', -, he'⟩ := hother
  have hext := Digest.utf8_injective hext
  rw [he, he', Option.getD_some, Option.getD_some] at hext
  exact Content.outcome_eq_of_bytes hpath (by rw [he, he', hext]) hbytes

end Cartograph
