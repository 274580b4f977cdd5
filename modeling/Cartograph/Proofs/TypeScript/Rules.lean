import Cartograph.Proofs.Grammar.Items
import Cartograph.TypeScript.Grammar
import Mathlib.Data.List.Basic

/-!
# What the productions of the grammar say about imports

The facts about the grammar that imports rest on. They are checked for all productions at once, by evaluation
(`areChecked_productions`), and read off for the steps of a single one:

* `isRegular_step` — no production makes a string or a node of anything that is none by itself, and only argument lists and
  templates are the arguments of a call;
* `IsChecked.sourceless` — a phrase that is no statement about modules says nothing about their sources;
* `IsChecked.exports`, `isQuiet_step` — an export statement does not either, or it has only names and strings in it;
* `quoted_steps` — a string starts and ends with the same quotation mark.
-/

namespace Cartograph

open List

/-! ### The productions of a grammar -/

namespace Grammar

variable {P T : Type} [BEq P] [BEq T] (g : Grammar P T)

/-- The rules of a grammar with numbers and without repetitions, and the repetitions. -/
def unrolled : List (Rule Nat Nat) × Repeats :=
  Repeats.unrollAll ⟨[], g.phraseList.length⟩
    (g.rules.map fun (_, rule) => rule.map g.phraseList.idxOf g.tokenList.idxOf)

/-- The productions of all phrases and repetitions, with inlined phrases still in them. -/
def ways : Array (List Production) := ((g.unrolled.1 ++ g.unrolled.2.rules).map Rule.ways).toArray

/-- The productions of the inlined phrases. -/
def inlinedWays (n : Nat) : Option (List Production) :=
  if (g.inlined.map g.phraseList.idxOf).contains n then g.ways[n]? else none

/-- The productions of all phrases and repetitions and, behind them, that of a whole text. -/
def productions : List (List Production) :=
  (g.ways.toList.map fun ps => ps.flatMap (·.inlined g.inlinedWays (g.inlined.length + 1))) ++
    [[goalProduction (g.phraseList.idxOf g.start)]]

theorem isFor_table : g.table.IsFor g.productions := Table.isFor_ofProductions _ _ _ _ _ _

end Grammar

namespace TypeScript

open Source (Shape Role)
open Grammar (Production Step Symbol)

variable {d : Dialect} {p : Phrase} {role : Option Role} {symbol : Symbol}

/-! ### Phrases -/

theorem map_ctorIdx_phraseList (d : Dialect) : (grammar d).phraseList.map Phrase.ctorIdx = range 208 := by
  cases d <;> decide +kernel

theorem Phrase.ctorIdx_lt (p : Phrase) : p.ctorIdx < 208 := by
  cases p <;> exact Nat.le_of_ble_eq_true rfl

theorem length_phraseList (d : Dialect) : (grammar d).phraseList.length = 208 := by
  simpa using congrArg length (map_ctorIdx_phraseList d)

/-- The rules stand in the order of their phrases. -/
theorem getElem?_phraseList {n : Nat} : (grammar d).phraseList[n]? = some p ↔ n = p.ctorIdx := by
  have hmap (n : Nat) : (grammar d).phraseList[n]?.map Phrase.ctorIdx = (range 208)[n]? := by
    rw [← getElem?_map, map_ctorIdx_phraseList]
  have hn := hmap n
  constructor
  · intro hp
    rw [hp, Option.map_some] at hn
    obtain ⟨hlt, heq⟩ := List.getElem?_eq_some_iff.1 hn.symm
    exact (List.getElem_range hlt).symm.trans heq
  · rintro rfl
    rw [getElem?_range p.ctorIdx_lt, Option.map_eq_some_iff] at hn
    obtain ⟨q, hq, heq⟩ := hn
    rw [hq, ← Phrase.ofNat_ctorIdx q, heq, Phrase.ofNat_ctorIdx]

/-! ### Checks -/

/-- Whether a symbol is asked for no shape but that of a word, and for an argument only if it is an argument list or a
template. -/
def isRegular (shape : Option Shape) (role : Option Role) (symbol : Symbol) : Bool :=
  (shape == none || shape == some (.leaf .word)) &&
    (role != some .arguments || symbol == .phrase Phrase.callArguments.ctorIdx ||
      symbol == .phrase Phrase.templateString.ctorIdx)

theorem isRegular_iff {shape : Option Shape} :
    isRegular shape role symbol = true ↔ (shape = none ∨ shape = some (.leaf .word)) ∧
      (role = some .arguments →
        symbol = .phrase Phrase.callArguments.ctorIdx ∨ symbol = .phrase Phrase.templateString.ctorIdx) := by
  simp [isRegular, or_assoc, imp_iff_not_or]

/-- The phrases that have the source of a module in them. -/
def sourcePhrases : List Phrase := [.fromClause, .exportStatement, .importStatement, .importRequire]

/-- Whether a symbol is no source, and no clause that names one. -/
def isSourceless (role : Option Role) (symbol : Symbol) : Bool :=
  role != some .source && symbol != .phrase Phrase.fromClause.ctorIdx

theorem isSourceless_iff :
    isSourceless role symbol = true ↔ role ≠ some .source ∧ symbol ≠ .phrase Phrase.fromClause.ctorIdx := by
  simp [isSourceless]

/-- The phrases of export statements that hold nothing but names and strings. -/
def quietPhrases : List Phrase :=
  [.namespaceExport, .exportClause, .exportSpecifier, .exportName, .fromClause, .stringText, .semicolon]

/-- Whether a symbol is a token, or a phrase that holds nothing but names and strings if those in `repeats` do. -/
def isQuietWith (repeats : List Nat) : Symbol → Bool
  | .token _ => true
  | .phrase n => quietPhrases.any (·.ctorIdx == n) || repeats.contains n

/-- The repetitions of nothing but names and strings. -/
def quietRepeats (d : Dialect) : List Nat :=
  ((grammar d).productions.zipIdx.filter fun (ps, n) =>
    decide ((grammar d).phraseList.length ≤ n) && ps.all (·.steps.all (isQuietWith [n] ·.symbol))).map Prod.snd

/-- Whether a symbol stands for names and strings only. -/
def isQuiet (d : Dialect) : Symbol → Bool := isQuietWith (quietRepeats d)

theorem mem_quietPhrases (h : isQuiet d (.phrase p.ctorIdx) = true) : p ∈ quietPhrases := by
  rw [isQuiet, isQuietWith, Bool.or_eq_true, any_eq_true, contains_iff_mem] at h
  obtain ⟨q, hq, heq⟩ | h := h
  · rwa [← Phrase.ofNat_ctorIdx p, ← beq_iff_eq.1 heq, Phrase.ofNat_ctorIdx]
  · -- repetitions have numbers behind all phrases
    obtain ⟨⟨ps, n⟩, hmem, rfl⟩ := mem_map.1 h
    have hle := (Bool.and_eq_true_iff.1 (mem_filter.1 hmem).2).1
    rw [decide_eq_true_eq, length_phraseList] at hle
    exact absurd p.ctorIdx_lt (Nat.not_lt.2 hle)

/-- The quotation marks of strings. -/
def quotes : List String := ["\"", "'"]

/-- Whether steps start and end with the given mark. -/
def isQuotedBy (tokens : List Token) (quote : String) (steps : List Step) : Bool :=
  steps.head?.any (·.symbol == .token (tokens.idxOf (.mark quote))) &&
    steps.tail.getLast?.any (·.symbol == .token (tokens.idxOf (.mark quote)))

/-- What is checked of a production of the phrase with the given number. -/
structure IsChecked (d : Dialect) (n : Nat) (steps : List Step) : Prop where
  regular : ∀ step ∈ steps, isRegular step.shape step.role step.symbol = true
  sourceless : (∀ p ∈ sourcePhrases, p.ctorIdx ≠ n) → ∀ step ∈ steps, isSourceless step.role step.symbol = true
  quiet : isQuiet d (.phrase n) = true → ∀ step ∈ steps, isQuiet d step.symbol = true
  exports : n = Phrase.exportStatement.ctorIdx → (∀ step ∈ steps, isSourceless step.role step.symbol = true) ∨
    ∀ step ∈ steps, isQuiet d step.symbol = true
  strings : n = Phrase.stringText.ctorIdx → ∃ quote ∈ quotes, isQuotedBy (grammar d).tokenList quote steps = true

instance (d : Dialect) (n : Nat) (steps : List Step) : Decidable (IsChecked d n steps) :=
  decidable_of_iff (_ ∧ _ ∧ _ ∧ _ ∧ _)
    ⟨fun h => ⟨h.1, h.2.1, h.2.2.1, h.2.2.2.1, h.2.2.2.2⟩, fun h => ⟨h.1, h.2, h.3, h.4, h.5⟩⟩

theorem areChecked_productions (d : Dialect) :
    ∀ entry ∈ (grammar d).productions.zipIdx, ∀ q ∈ entry.1, IsChecked d entry.2 q.steps := by
  cases d <;> decide +kernel

/-! ### Steps of a production -/

section Steps

variable {d : Dialect} {n : Nat} {ps : List Production} {q : Production} {step : Step}

theorem isChecked (h : (grammar d).productions[n]? = some ps) (hq : q ∈ ps) : IsChecked d n q.steps :=
  areChecked_productions d (ps, n) (mem_zipIdx_iff_getElem?.2 h) q hq

theorem isRegular_none (symbol : Symbol) : isRegular none none symbol = true := rfl

theorem isRegular_step (h : (grammar d).productions[n]? = some ps) (hq : q ∈ ps) (hstep : step ∈ q.steps) :
    isRegular step.shape step.role step.symbol = true := (isChecked h hq).regular step hstep

theorem isQuiet_step (hn : isQuiet d (.phrase n) = true) (h : (grammar d).productions[n]? = some ps) (hq : q ∈ ps)
    (hstep : step ∈ q.steps) : isQuiet d step.symbol = true := (isChecked h hq).quiet hn step hstep

/-- A string stands between quotation marks. -/
theorem quoted_steps (h : (grammar d).productions[Phrase.stringText.ctorIdx]? = some ps) (hq : q ∈ ps) :
    ∃ quote ∈ quotes, ∃ middle : List Symbol, q.steps.map Step.symbol =
      .token ((grammar d).tokenList.idxOf (.mark quote)) ::
        (middle ++ [.token ((grammar d).tokenList.idxOf (.mark quote))]) := by
  obtain ⟨quote, hquote, hquoted⟩ := (isChecked h hq).strings rfl
  refine ⟨quote, hquote, ?_⟩
  rw [isQuotedBy, Bool.and_eq_true, Option.any_eq_true, Option.any_eq_true] at hquoted
  obtain ⟨⟨first, hfirst, hfirst'⟩, last, hlast, hlast'⟩ := hquoted
  obtain ⟨rest, hsteps⟩ := head?_eq_some_iff.1 hfirst
  rw [hsteps, tail_cons] at hlast
  obtain ⟨middle, hrest⟩ := getLast?_eq_some_iff.1 hlast
  refine ⟨middle.map Step.symbol, ?_⟩
  rw [hsteps, hrest, map_cons, map_append, map_singleton, beq_iff_eq.1 hfirst', beq_iff_eq.1 hlast']

end Steps

end TypeScript

end Cartograph
