import Cartograph.Cache.FileName
import Cartograph.TypeScript.Language
import Cartograph.Proofs.FileSystem.Spelled
import Cartograph.Proofs.Json.Scalars

/-!
# Names that a store gives

A store gives names of three kinds: those of entries, those of entries that are being written, and those of the
files that try out a directory (`IsStoreName`). Each is the name of a file, and none is that of a source file. The same
holds of the names that it takes for its own, since they have the same forms (`HasForm`).

Which names these are is told by what is written in them. The name of an entry is read back as it was given
(`entryKey?_eq_some_iff`). The name of a temporary file may have a plus sign and zeros in front of its numbers, and is
taken for one all the same (`tempProcess?_eq_some_iff`).
-/

namespace Cartograph.Cache

open Json List Text

/-- The names that a store gives to its files. -/
inductive IsStoreName : String → Prop where
  | entry {key : String} (digest : isDigest key.toList = true) : IsStoreName (entryName key)
  | staged {key : String} (process ticket : Nat) (digest : isDigest key.toList = true) :
      IsStoreName (tempName key process ticket)
  | probe (process ticket : Nat) : IsStoreName (tempName probeStem process ticket)

variable {key name path extension other stem stem' : String} {text number ending rest front : List Char} {c : Char}
  {plus plus' : Bool} {n n' zeros zeros' process process' ticket ticket' : Nat}

/-! ### Numbers -/

theorem digitChar_of_isDigit (h : isDigit c = true) :
    c.toNat - '0'.toNat < 10 ∧ (c.toNat - '0'.toNat).digitChar = c := by
  have hbounds : 48 ≤ c.toNat ∧ c.toNat ≤ 57 := of_decide_eq_true h
  have hall : ∀ n, n < 10 → n.digitChar = Char.ofNat (48 + n) := by decide
  obtain ⟨n, hn⟩ := Nat.exists_eq_add_of_le hbounds.1
  have hvalue : c.toNat - '0'.toNat = n := by
    rw [hn]
    exact Nat.add_sub_cancel_left 48 n
  have hlt : n < 10 := by omega
  rw [hvalue]
  exact ⟨hlt, by rw [hall n hlt, ← hn, Char.ofNat_toNat]⟩

/-- Digits behind those of a number are digits of the number that they go on with. -/
theorem toDigits_append (h : ∀ c ∈ text, isDigit c = true) (hn : 0 < n) :
    Nat.toDigits 10 n ++ text = Nat.toDigits 10 (text.foldl (fun n c => 10 * n + (c.toNat - '0'.toNat)) n) := by
  induction text generalizing n with
  | nil => simp
  | cons c text ih =>
    obtain ⟨hlt, hchar⟩ := digitChar_of_isDigit (h c mem_cons_self)
    have hnext := Nat.toDigits_append_toDigits (by decide : 1 < 10) hn hlt
    rw [Nat.toDigits_of_lt_base hlt, hchar] at hnext
    rw [foldl_cons, ← ih (forall_mem_cons.1 h).2 (by omega), ← hnext, append_assoc, singleton_append]

theorem isDecimal_iff : isDecimal text = true ↔ text ≠ [] ∧ ∀ c ∈ text, isDigit c = true := by
  rw [isDecimal, Bool.and_eq_true, Bool.not_eq_true', isEmpty_eq_false_iff, all_eq_true]
  rfl

/-- The digits of a number behind zeros. -/
def padded (zeros n : Nat) : List Char := List.replicate zeros '0' ++ Nat.toDigits 10 n

theorem isDigit_of_mem_padded (hc : c ∈ padded zeros n) : isDigit c = true := by
  obtain hc | hc := mem_append.1 hc
  · rw [eq_of_mem_replicate hc]
    rfl
  · exact isDigit_of_mem_toDigits hc

/-- **A decimal number** is written in its digits, with zeros in front of them or without. -/
theorem isDecimal_and_value_iff : isDecimal text = true ∧ decimalValue text = n ↔ ∃ zeros, text = padded zeros n := by
  constructor
  · rintro ⟨h, rfl⟩
    obtain ⟨hne, hdigits⟩ := isDecimal_iff.1 h
    clear h
    induction text with
    | nil => exact absurd rfl hne
    | cons c text ih =>
      have hrest : ∀ d ∈ text, isDigit d = true := (forall_mem_cons.1 hdigits).2
      by_cases hc : c = '0'
      · subst hc
        by_cases htext : text = []
        · exact ⟨0, by subst htext; rfl⟩
        · obtain ⟨zeros, heq⟩ := ih htext hrest
          exact ⟨zeros + 1, congrArg ('0' :: ·) heq⟩
      · -- the number starts with its first digit
        obtain ⟨hlt, hchar⟩ := digitChar_of_isDigit (hdigits c mem_cons_self)
        have hpos : 0 < c.toNat - '0'.toNat := by
          refine Nat.pos_of_ne_zero fun hzero => hc ?_
          rw [← hchar, hzero]
          rfl
        have hall := toDigits_append hrest hpos
        rw [Nat.toDigits_of_lt_base hlt, hchar] at hall
        refine ⟨0, hall.trans ?_⟩
        rw [decimalValue, foldl_cons, Nat.zero_add]
        rfl
  · rintro ⟨zeros, rfl⟩
    refine ⟨isDecimal_iff.2 ⟨by simp [padded], fun c => isDigit_of_mem_padded⟩, ?_⟩
    induction zeros with
    | zero => exact digitsValue_toDigits n
    | succ zeros ih => exact ih

theorem padded_injective (h : padded zeros n = padded zeros' n') : zeros = zeros' ∧ n = n' := by
  have hvalue (zeros n : Nat) : decimalValue (padded zeros n) = n := (isDecimal_and_value_iff.2 ⟨zeros, rfl⟩).2
  obtain rfl : n = n' := by rw [← hvalue zeros n, h, hvalue]
  have hlength := congrArg List.length (append_cancel_right h)
  rw [length_replicate, length_replicate] at hlength
  exact ⟨hlength, rfl⟩

def signed (plus : Bool) (text : List Char) : List Char := if plus then '+' :: text else text

theorem isDigit_of_mem_signed (hc : c ∈ signed plus (padded zeros n)) : isDigit c = true ∨ c = '+' := by
  cases plus with
  | false => exact .inl (isDigit_of_mem_padded hc)
  | true => exact (mem_cons.1 hc).symm.imp_left isDigit_of_mem_padded

theorem plus_not_mem_padded (zeros n : Nat) : '+' ∉ padded zeros n := fun hplus =>
  absurd (isDigit_of_mem_padded hplus) (by decide)

theorem dot_not_mem_signed (plus : Bool) (zeros n : Nat) : '.' ∉ signed plus (padded zeros n) := fun hdot =>
  absurd (isDigit_of_mem_signed hdot) (by decide)

theorem signed_injective (h : signed plus (padded zeros n) = signed plus' (padded zeros' n')) :
    plus = plus' ∧ zeros = zeros' ∧ n = n' := by
  have hplus {zeros n zeros' n' : Nat} : '+' :: padded zeros n ≠ padded zeros' n' := fun heq =>
    plus_not_mem_padded zeros' n' (heq ▸ mem_cons_self)
  cases plus <;> cases plus'
  · exact ⟨rfl, padded_injective h⟩
  · exact absurd h.symm hplus
  · exact absurd h hplus
  · exact ⟨rfl, padded_injective (List.cons.inj h).2⟩

/-- The number of a process may have a plus sign in front of it. -/
theorem processNumber?_eq_some_iff :
    processNumber? text = some process ↔
      process < processLimit ∧ ∃ plus zeros, text = signed plus (padded zeros process) := by
  have hread (digits : List Char) (hdigits : (dropStart? ['+'] text).getD text = digits) :
      processNumber? text = some process ↔ process < processLimit ∧ ∃ zeros, digits = padded zeros process := by
    rw [← isDecimal_and_value_iff, processNumber?, hdigits]
    split
    · next h =>
      rw [Bool.and_eq_true, decide_eq_true_eq] at h
      rw [Option.some.injEq]
      exact ⟨fun heq => ⟨heq ▸ h.2, h.1, heq⟩, fun heq => heq.2.2⟩
    · next h =>
      refine iff_of_false nofun fun heq => h ?_
      rw [heq.2.1, heq.2.2, decide_eq_true heq.1]
      rfl
  constructor
  · intro h
    cases hplus : dropStart? ['+'] text with
    | none =>
      obtain ⟨hlt, zeros, heq⟩ := (hread text (by rw [hplus]; rfl)).1 h
      exact ⟨hlt, false, zeros, heq⟩
    | some digits =>
      obtain ⟨hlt, zeros, rfl⟩ := (hread digits (by rw [hplus]; rfl)).1 h
      exact ⟨hlt, true, zeros, eq_append_of_dropStart? hplus⟩
  · rintro ⟨hlt, plus, zeros, rfl⟩
    refine (hread _ ?_).2 ⟨hlt, zeros, rfl⟩
    cases plus with
    | true => exact congrArg (Option.getD · _) (dropStart?_append ['+'] _)
    | false =>
      have hplus := plus_not_mem_padded zeros process
      change (dropStart? ['+'] (padded zeros process)).getD (padded zeros process) = _
      cases hchars : padded zeros process with
      | nil => rfl
      | cons c text =>
        rw [hchars, mem_cons, not_or] at hplus
        simp [dropStart?, hplus.1]

/-! ### Characters of names -/

theorem toList_entryName (key : String) : (entryName key).toList = key.toList ++ '.' :: "json".toList := by
  rw [entryName, String.toList_append]
  rfl

theorem entryName_injective (h : entryName key = entryName other) : key = other := by
  have hchars := congrArg String.toList h
  rw [toList_entryName, toList_entryName] at hchars
  exact String.toList_inj.1 (append_cancel_right hchars)

theorem isDigestDigit_of_mem (h : isDigest text = true) (hc : c ∈ text) : isDigestDigit c = true := by
  rw [isDigest, Bool.and_eq_true, all_eq_true] at h
  exact h.2 c hc

theorem dot_not_mem_of_isDigest (h : isDigest text = true) : '.' ∉ text := by
  intro hdot
  exact absurd (isDigestDigit_of_mem h hdot) (by decide)

/-- The stems of temporary files. -/
def IsStem (stem : List Char) : Prop := stem = probeStem.toList ∨ isDigest stem = true

theorem IsStem.dot_not_mem (h : IsStem text) : '.' ∉ text := by
  obtain rfl | h := h
  · decide
  · exact dot_not_mem_of_isDigest h

/-- The characters of the name of a temporary file, from its stem and its two numbers as they are written. -/
def tempChars (stem number ticket : List Char) : List Char :=
  '.' :: (stem ++ '.' :: (number ++ '.' :: (ticket ++ '.' :: "tmp".toList)))

/-- What may stand in front of the two numbers in the name of a temporary file. -/
structure Lead where
  plus : Bool := false
  zeros : Nat := 0
  ticketZeros : Nat := 0
  deriving DecidableEq

variable {lead lead' : Lead}

/-- The name of a temporary file with a lead in front of its numbers. -/
def ledName (lead : Lead) (stem : String) (process ticket : Nat) : String :=
  .ofList (tempChars stem.toList (signed lead.plus (padded lead.zeros process)) (padded lead.ticketZeros ticket))

theorem toList_ledName : (ledName lead stem process ticket).toList =
    tempChars stem.toList (signed lead.plus (padded lead.zeros process)) (padded lead.ticketZeros ticket) :=
  String.toList_ofList

theorem tempName_eq (stem : String) (process ticket : Nat) :
    tempName stem process ticket = ledName {} stem process ticket := by
  refine String.toList_injective ?_
  rw [toList_ledName]
  simp [tempName]
  rfl

/-- Names of entries and of temporary files have different endings. -/
theorem ledName_ne_entryName (lead : Lead) (stem : String) (process ticket : Nat) (key : String) :
    ledName lead stem process ticket ≠ entryName key := by
  intro h
  have hlast := congrArg (·.toList.getLast?) h
  have htmp : ('.' :: "tmp".toList).getLast? = some 'p' := by decide
  have hjson : ('.' :: "json".toList).getLast? = some 'n' := by decide
  simp only [toList_ledName, tempChars, toList_entryName, ← cons_append, ← append_assoc,
    getLast?_append, htmp, hjson, Option.some_or] at hlast
  exact absurd hlast (by decide)

theorem tempName_ne_entryName (stem : String) (process ticket : Nat) (key : String) :
    tempName stem process ticket ≠ entryName key :=
  tempName_eq stem process ticket ▸ ledName_ne_entryName {} stem process ticket key

/-- A piece without dots comes first when what follows it is split at dots. -/
theorem splitOn_dot (rest : List Char) (h : '.' ∉ text) : (text ++ '.' :: rest).splitOn '.' = text :: rest.splitOn '.' := by
  rw [splitOn_append_cons_self, splitOn_eq_singleton h]
  rfl

/-- The parts of the name of a temporary file stand between its dots. -/
theorem splitOn_ledName (hstem : '.' ∉ stem.toList) :
    (ledName lead stem process ticket).toList.splitOn '.' = [[], stem.toList,
      signed lead.plus (padded lead.zeros process), padded lead.ticketZeros ticket, "tmp".toList] := by
  have hticket : '.' ∉ padded lead.ticketZeros ticket := dot_not_mem_signed false _ _
  rw [toList_ledName, tempChars, ← nil_append ('.' :: _), splitOn_dot _ not_mem_nil, splitOn_dot _ hstem,
    splitOn_dot _ (dot_not_mem_signed _ _ _), splitOn_dot _ hticket, splitOn_eq_singleton (by decide)]

/-- **The name of a temporary file** tells its stem, its numbers and what leads them. -/
theorem ledName_injective (hstem : '.' ∉ stem.toList) (hstem' : '.' ∉ stem'.toList)
    (h : ledName lead stem process ticket = ledName lead' stem' process' ticket') :
    lead = lead' ∧ stem = stem' ∧ process = process' ∧ ticket = ticket' := by
  have hpieces := congrArg (fun name => name.toList.splitOn '.') h
  simp only [splitOn_ledName hstem, splitOn_ledName hstem', List.cons.injEq, true_and, and_true] at hpieces
  obtain ⟨hstems, hprocess, hticket⟩ := hpieces
  obtain ⟨plus, zeros, ticketZeros⟩ := lead
  obtain ⟨rfl, rfl, rfl⟩ := signed_injective hprocess
  obtain ⟨rfl, rfl⟩ := padded_injective hticket
  exact ⟨rfl, String.toList_inj.1 hstems, rfl, rfl⟩

theorem tempName_injective (hstem : '.' ∉ stem.toList) (hstem' : '.' ∉ stem'.toList)
    (h : tempName stem process ticket = tempName stem' process' ticket') :
    stem = stem' ∧ process = process' ∧ ticket = ticket' := by
  rw [tempName_eq, tempName_eq] at h
  exact (ledName_injective hstem hstem' h).2

/-! ### Names that are taken for those of a store -/

theorem dropEnd?_append (rest ending : List Char) : dropEnd? ending (rest ++ ending) = some rest := by
  rw [dropEnd?, reverse_append, dropStart?_append, Option.map_some, reverse_reverse]

theorem eq_append_of_dropEnd? (h : dropEnd? ending text = some rest) : text = rest ++ ending := by
  obtain ⟨back, hback, rfl⟩ := Option.map_eq_some_iff.1 h
  have htext := eq_append_of_dropStart? hback
  rw [← reverse_reverse text, htext, reverse_append, reverse_reverse]

/-- **The name of an entry** is taken for that of its key, and no other name is. -/
theorem entryKey?_eq_some_iff : entryKey? name = some key ↔ isDigest key.toList = true ∧ name = entryName key := by
  unfold entryKey?
  constructor
  · intro h
    split at h
    · next stem hstem =>
      split at h
      · next hdigest =>
        cases h
        rw [String.toList_ofList]
        refine ⟨hdigest, String.toList_injective ?_⟩
        rw [eq_append_of_dropEnd? hstem, entryName, String.toList_append, String.toList_ofList]
      · cases h
    · cases h
  · rintro ⟨hdigest, rfl⟩
    rw [entryName, String.toList_append, dropEnd?_append]
    dsimp only
    rw [if_pos hdigest, String.ofList_toList]

/-- What a name has to be made of to be taken for that of a temporary file. -/
theorem tempProcess?_eq_some_iff_chars :
    tempProcess? name = some process ↔
      ∃ stem number ticket, name.toList = tempChars stem number ticket ∧ IsStem stem ∧
        processNumber? number = some process ∧ isDecimal ticket = true := by
  have hinner (stem number ticket : List Char) : tempChars stem number ticket =
      ['.'] ++ ((stem ++ '.' :: (number ++ '.' :: ticket)) ++ ".tmp".toList) := by
    simp [tempChars]
  unfold tempProcess?
  constructor
  · intro h
    split at h
    · cases h
    · next inner hparts =>
      obtain ⟨behind, hbehind, hparts⟩ := Option.bind_eq_some_iff.1 hparts
      split at h
      · next stem number ticket hpieces =>
        split at h
        · next hvalid =>
          rw [Bool.and_eq_true, Bool.or_eq_true, beq_iff_eq] at hvalid
          refine ⟨stem, number, ticket, ?_, hvalid.1, h, hvalid.2⟩
          have hjoined : ['.'].intercalate (inner.splitOn '.') = inner := intercalate_splitOn '.'
          rw [hpieces] at hjoined
          rw [hinner, eq_append_of_dropStart? hbehind, eq_append_of_dropEnd? hparts, ← hjoined]
          simp [intercalate_cons_cons]
        · cases h
      · cases h
  · rintro ⟨stem, number, ticket, hchars, hstem, hnumber, hticket⟩
    have hdotNumber : '.' ∉ number := by
      obtain ⟨-, plus, zeros, rfl⟩ := processNumber?_eq_some_iff.1 hnumber
      exact dot_not_mem_signed plus zeros process
    have hdotTicket : '.' ∉ ticket := fun hdot => absurd ((isDecimal_iff.1 hticket).2 '.' hdot) (by decide)
    rw [hchars, hinner, dropStart?_append, Option.bind_some, dropEnd?_append]
    dsimp only
    rw [splitOn_dot _ hstem.dot_not_mem, splitOn_dot _ hdotNumber, splitOn_eq_singleton hdotTicket]
    dsimp only
    rw [if_pos, hnumber]
    rw [Bool.and_eq_true, Bool.or_eq_true, beq_iff_eq]
    exact ⟨hstem, hticket⟩

/-- **A name is taken for that of a temporary file** exactly if it is one, up to a lead in front of its numbers. -/
theorem tempProcess?_eq_some_iff :
    tempProcess? name = some process ↔
      process < processLimit ∧ ∃ lead stem ticket, IsStem stem.toList ∧ name = ledName lead stem process ticket := by
  rw [tempProcess?_eq_some_iff_chars]
  constructor
  · rintro ⟨stem, number, ticket, hchars, hstem, hnumber, hticket⟩
    obtain ⟨hlt, plus, zeros, rfl⟩ := processNumber?_eq_some_iff.1 hnumber
    obtain ⟨ticketZeros, hdigits⟩ := isDecimal_and_value_iff.1 ⟨hticket, rfl⟩
    refine ⟨hlt, ⟨plus, zeros, ticketZeros⟩, .ofList stem, decimalValue ticket, ?_, String.toList_injective ?_⟩
    · rwa [String.toList_ofList]
    · rw [hchars, toList_ledName, String.toList_ofList, ← hdigits]
  · rintro ⟨hlt, lead, stem, ticket, hstem, rfl⟩
    exact ⟨_, _, _, toList_ledName, hstem, processNumber?_eq_some_iff.2 ⟨hlt, _, _, rfl⟩,
      (isDecimal_and_value_iff.2 ⟨_, rfl⟩).1⟩

/-! ### The forms of names -/

/-- The forms of the names that a store gives to its files or takes for theirs. -/
inductive HasForm : String → Prop where
  | entry {key : String} (digest : isDigest key.toList = true) : HasForm (entryName key)
  | temp (lead : Lead) {stem : String} (process ticket : Nat) (stemmed : IsStem stem.toList) :
      HasForm (ledName lead stem process ticket)

theorem IsStoreName.hasForm (h : IsStoreName name) : HasForm name := by
  cases h with
  | entry digest => exact .entry digest
  | staged process ticket digest => exact tempName_eq _ _ _ ▸ .temp {} process ticket (.inr digest)
  | probe process ticket => exact tempName_eq _ _ _ ▸ .temp {} process ticket (.inl rfl)

theorem hasForm_of_isOwnName (h : isOwnName name = true) : HasForm name := by
  rw [isOwnName, Bool.or_eq_true, Option.isSome_iff_exists, Option.isSome_iff_exists] at h
  obtain ⟨key, hentry⟩ | ⟨process, htemp⟩ := h
  · obtain ⟨digest, rfl⟩ := entryKey?_eq_some_iff.1 hentry
    exact .entry digest
  · obtain ⟨-, lead, stem, ticket, hstem, rfl⟩ := tempProcess?_eq_some_iff.1 htemp
    exact .temp lead process ticket hstem

/-- The characters that names of these forms are written with. -/
def isNameChar (c : Char) : Bool :=
  isDigestDigit c || isDigit c ||
    ['.', '+', 'j', 's', 'o', 'n', 't', 'm', 'p', 'w', 'r', 'i', 'a', 'b', 'l', 'e'].contains c

namespace HasForm

variable (h : HasForm name)
include h

theorem not_mem (hc : isNameChar c = false) : c ∉ name.toList := by
  simp only [isNameChar, Bool.or_eq_false_iff] at hc
  obtain ⟨⟨hdigest, hdigit⟩, hrest⟩ := hc
  have hkey {text : List Char} (htext : isDigest text = true) : c ∉ text := fun hc => by
    rw [isDigestDigit_of_mem htext hc] at hdigest
    cases hdigest
  simp only [contains_eq_mem, decide_eq_false_iff_not, mem_cons, not_or] at hrest
  cases h with
  | entry digest =>
    rw [toList_entryName]
    simp [hkey digest, hrest]
  | @temp lead stem process ticket stemmed =>
    have hstem : c ∉ stem.toList := by
      obtain heq | digest := stemmed
      · simp [heq, probeStem, hrest]
      · exact hkey digest
    have hnumber (plus : Bool) (zeros n : Nat) : c ∉ signed plus (padded zeros n) := fun hc => by
      simpa [hdigit, hrest] using isDigit_of_mem_signed hc
    have hticket : c ∉ padded lead.ticketZeros ticket := hnumber false _ _
    rw [toList_ledName]
    simp [tempChars, hstem, hnumber, hticket, hrest]

theorem exists_ending :
    ∃ front ending, name.toList = front ++ '.' :: ending ∧ ending ∈ ["json".toList, "tmp".toList] := by
  cases h with
  | entry digest => exact ⟨_, _, toList_entryName _, mem_cons_self⟩
  | temp =>
    rw [toList_ledName, tempChars]
    simp only [← cons_append, ← append_assoc]
    exact ⟨_, _, rfl, by simp⟩

/-- **Names of these forms are names of files.** -/
theorem isName : FileSystem.IsName name := by
  refine ⟨?_, h.not_mem (by decide), h.not_mem (by decide)⟩
  obtain ⟨front, ending, hchars, hending⟩ := h.exists_ending
  have hlength : 2 < name.toList.length := by
    have hall : ∀ ending ∈ ["json".toList, "tmp".toList], 2 < ending.length := by decide
    have := hall ending hending
    rw [hchars, length_append, length_cons]
    omega
  rw [Path.isOrdinary, Bool.and_eq_true, Bool.and_eq_true]
  refine ⟨⟨?_, ?_⟩, ?_⟩
  all_goals
    refine bne_iff_ne.2 ?_
    rintro rfl
    exact absurd hlength (by decide)

end HasForm

theorem IsStoreName.isName (h : IsStoreName name) : FileSystem.IsName name := h.hasForm.isName

/-! ### Extensions -/

/-- What follows the last dot of a file name is its extension, if it has one. -/
theorem eq_of_extension? (hname : (Path.fileName path).toList = front ++ '.' :: ending) (hending : '.' ∉ ending)
    (h : Path.extension? path = some extension) : extension = String.ofList ending := by
  have hsplit : ((Path.fileName path).toList.splitOn '.').reverse =
      ending :: (front.splitOn '.').reverse := by
    rw [hname, splitOn_append_cons_self, splitOn_eq_singleton hending, reverse_append]
    rfl
  rw [Path.extension?, hsplit] at h
  simp only at h
  split at h
  · cases h
  · exact (Option.some.inj h).symm

/-- A name that no store gives to a file or takes for one of its own. -/
structure IsForeign (name : String) : Prop where
  notGiven : ¬ IsStoreName name
  notTaken : isOwnName name = false

/-- A name with a character that occurs in none of a store is foreign. -/
theorem isForeign_of_any (h : name.toList.any (!isNameChar ·) = true) : IsForeign name := by
  obtain ⟨c, hc, hnot⟩ := any_eq_true.1 h
  rw [Bool.not_eq_true'] at hnot
  exact ⟨fun h => h.hasForm.not_mem hnot hc,
    Bool.eq_false_iff.2 fun h => (hasForm_of_isOwnName h).not_mem hnot hc⟩

/-- **The names of source files are foreign to stores.** -/
theorem isForeign_fileName (hpath : Path.extension? path = some extension)
    (hsource : extension ∈ TypeScript.extensions) : IsForeign (Path.fileName path) := by
  -- the two endings that a store gives to its files are none of the extensions
  have hform : ¬ HasForm (Path.fileName path) := by
    intro hform
    obtain ⟨front, ending, hchars, hending⟩ := hform.exists_ending
    have hdot : '.' ∉ ending ∧ String.ofList ending ∉ TypeScript.extensions := by
      simp only [mem_cons, not_mem_nil, or_false] at hending
      obtain rfl | rfl := hending <;> decide
    rw [eq_of_extension? hchars hdot.1 hpath] at hsource
    exact hdot.2 hsource
  exact ⟨fun h => hform h.hasForm, Bool.eq_false_iff.2 fun h => hform (hasForm_of_isOwnName h)⟩

end Cartograph.Cache
