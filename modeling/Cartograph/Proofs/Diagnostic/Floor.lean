import Cartograph.Report.Finish

/-!
# Floors

A finding is made with a severity and is changed afterwards: it gets a floor, a hint, evidence, and in the end the
severity that the configuration gives to its category. A change that looks at the severity puts it at the floor or above
(`meetsFloor_of_isGrading`), and the others leave both as they are. So whatever the changes and their order, the severity
is not below the floor that holds then (`meetsFloor_changed`).

A finding that is made with a floor above its severity stays so until the first change of the former kind. The floor is
part of the value, not of the way it came about.
-/

namespace Cartograph

namespace Severity

theorem le_max_right (a b : Severity) : b ≤ a.max b := by
  cases a <;> cases b <;> decide

theorem le_trans {a b c : Severity} (hab : a ≤ b) (hbc : b ≤ c) : a ≤ c := Nat.le_trans hab hbc

end Severity

namespace Diagnostic

/-- The severity is not below the floor, if there is one. -/
def MeetsFloor (d : Diagnostic) : Prop := ∀ floor, d.floor = some floor → floor ≤ d.severity

/-! ### Changes -/

/-- A change of a finding. -/
inductive Change where
  | floor (least : Severity)
  | help (text : String)
  | evidence (label : Label)
  | grade (severity : Severity)

namespace Change

/-- The finding after a change. -/
def apply (d : Diagnostic) : Change → Diagnostic
  | floor least => d.withFloor least
  | help text => d.withHelp text
  | evidence label => d.withEvidence label
  | grade severity => d.override severity

/-- Whether a change looks at the severity. -/
def isGrading : Change → Bool
  | floor _ => true
  | grade _ => true
  | _ => false

variable {d : Diagnostic}

theorem meetsFloor_of_isGrading {change : Change} (h : change.isGrading = true) : (change.apply d).MeetsFloor := by
  intro bound hbound
  cases change with
  | floor least =>
    cases hbound
    exact Severity.le_max_right _ _
  | help text => cases h
  | evidence label => cases h
  | grade severity =>
    have hfloor : d.floor = some bound := hbound
    rw [apply, override, hfloor]
    exact Severity.le_max_right _ _

theorem meetsFloor_apply (h : d.MeetsFloor) (change : Change) : (change.apply d).MeetsFloor := by
  cases change with
  | help text => exact h
  | evidence label => exact h
  | floor least => exact meetsFloor_of_isGrading rfl
  | grade severity => exact meetsFloor_of_isGrading rfl

/-- A change does not touch what a finding is about. -/
theorem apply_keeps (change : Change) : (change.apply d).location = d.location ∧ (change.apply d).code = d.code ∧
    (change.apply d).message = d.message ∧ (change.apply d).category = d.category := by
  cases change <;> exact ⟨rfl, rfl, rfl, rfl⟩

end Change

/-! ### Runs of changes -/

variable {d : Diagnostic} {changes : List Change}

/-- The finding after several changes. -/
def changed (d : Diagnostic) (changes : List Change) : Diagnostic := changes.foldl Change.apply d

/-- **The severity is never below the floor**, if it was not before the changes or if one of them looks at it. -/
theorem meetsFloor_changed
    (h : d.MeetsFloor ∨ ∃ change ∈ changes, change.isGrading = true) : (d.changed changes).MeetsFloor := by
  induction changes generalizing d with
  | nil => exact h.resolve_right fun ⟨_, hmem, _⟩ => nomatch hmem
  | cons change changes ih =>
    -- once a change has looked at the severity, the rest of them starts from a finding that meets its floor
    apply ih (d := change.apply d)
    obtain hd | ⟨grading, hmem, hgrading⟩ := h
    · exact .inl (Change.meetsFloor_apply hd change)
    · obtain rfl | hrest := List.mem_cons.1 hmem
      · exact .inl (Change.meetsFloor_of_isGrading hgrading)
      · exact .inr ⟨grading, hrest, hgrading⟩

theorem changed_keeps (d : Diagnostic) (changes : List Change) : (d.changed changes).location = d.location ∧
    (d.changed changes).code = d.code ∧ (d.changed changes).message = d.message ∧
    (d.changed changes).category = d.category := by
  induction changes generalizing d with
  | nil => exact ⟨rfl, rfl, rfl, rfl⟩
  | cons change changes ih =>
    obtain ⟨hlocation, hcode, hmessage, hcategory⟩ := ih (change.apply d)
    obtain ⟨hlocation', hcode', hmessage', hcategory'⟩ := change.apply_keeps (d := d)
    exact ⟨hlocation.trans hlocation', hcode.trans hcode', hmessage.trans hmessage', hcategory.trans hcategory'⟩

/-- Without a new floor the old one stays. -/
theorem floor_changed (h : ∀ change ∈ changes, ∀ least, change ≠ .floor least) :
    (d.changed changes).floor = d.floor := by
  induction changes generalizing d with
  | nil => rfl
  | cons change changes ih =>
    have happly : (change.apply d).floor = d.floor := by
      cases change with
      | floor least => exact absurd rfl (h _ List.mem_cons_self least)
      | help text => rfl
      | evidence label => rfl
      | grade severity => rfl
    exact (ih (List.forall_mem_cons.1 h).2).trans happly

end Diagnostic

/-- What a configuration does to a finding is one change, or none. -/
theorem Config.regrade_eq_changed (c : Config) (d : Diagnostic) :
    c.regrade d = d.changed ((c.categories d.category).severity.toList.map .grade) := by
  unfold regrade
  cases (c.categories d.category).severity <;> rfl

end Cartograph
