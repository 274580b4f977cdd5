import Mathlib.Data.List.Infix
import Cartograph.Proofs.Path.Segments

/-!
# Where a path arrives

A path that is written inside a directory is walked segment by segment: an empty segment and `.` stay, `..` leaves the
innermost directory, and a name enters one (`Arrives`). `resolve?` gives the place at which this walk ends
(`resolve?_eq_some_iff`). There is no such place exactly if the walk would leave the root on the way, and that can be
seen by counting: up to some segment there is more to leave than the directory and the names before it give
(`resolve?_eq_none_iff`).

Only the segments of the written path are walked. Those of the directory are taken as they are, apart from empty ones
(`dirNames`).
-/

namespace Cartograph.Path

open List

/-- The directories on the way to a directory, the outermost first. -/
def dirNames (dir : String) : List String := (segments dir).filter (· != "")

/-- A walk along segments, from one place to another. Places are lists of names, the outermost first. -/
inductive Arrives : (start walked place : List String) → Prop where
  | done (place : List String) : Arrives place [] place
  | stay {start walked place : List String} {segment : String} (idle : segment = "" ∨ segment = ".")
      (rest : Arrives start walked place) : Arrives start (segment :: walked) place
  | leave {start walked place : List String} {innermost : String} (rest : Arrives start walked place) :
      Arrives (start ++ [innermost]) (".." :: walked) place
  | enter {start walked place : List String} {name : String} (ordinary : isOrdinary name = true)
      (rest : Arrives (start ++ [name]) walked place) : Arrives start (name :: walked) place

/-- Segments that lead out of a place of some depth: up to one of them there is more to leave than there is to leave. -/
def Climbs (depth : Nat) (walked : List String) : Prop :=
  ∃ front, front <+: walked ∧ depth + front.countP isOrdinary < front.count ".."

/-- `tail` written inside `dir` arrives at `target`. -/
def Normalizes (dir tail target : String) : Prop :=
  ∃ place, Arrives (dirNames dir) (segments tail) place ∧ target = ofSegments place

/-- `tail` written inside `dir` leaves the root. -/
def Escapes (dir tail : String) : Prop := Climbs (dirNames dir).length (segments tail)

/-! ### One step -/

variable {segment dir tail target path name : String} {walked start place stack above : List String}

theorem step_of_idle (h : segment = "" ∨ segment = ".") (stack : List String) : step stack segment = some stack := by
  exact if_pos h

theorem step_of_isOrdinary (h : isOrdinary segment = true) (stack : List String) :
    step stack segment = some (segment :: stack) := by
  simp only [isOrdinary, Bool.and_eq_true, bne_iff_ne] at h
  simp [step, h]

/-- **What a step does**, by the kind of the segment. -/
theorem step_cases (stack : List String) (segment : String) :
    (segment = "" ∨ segment = ".") ∧ step stack segment = some stack ∨
      segment = ".." ∧ stack = [] ∧ step stack segment = none ∨
      (∃ innermost above, segment = ".." ∧ stack = innermost :: above ∧ step stack segment = some above) ∨
      isOrdinary segment = true ∧ step stack segment = some (segment :: stack) := by
  by_cases hidle : segment = "" ∨ segment = "."
  · exact .inl ⟨hidle, step_of_idle hidle stack⟩
  by_cases hup : segment = ".."
  · subst hup
    cases stack with
    | nil => exact .inr (.inl ⟨rfl, rfl, rfl⟩)
    | cons innermost above => exact .inr (.inr (.inl ⟨innermost, above, rfl, rfl, rfl⟩))
  · have hname : isOrdinary segment = true := by simpa [isOrdinary, hup] using hidle
    exact .inr (.inr (.inr ⟨hname, step_of_isOrdinary hname stack⟩))

theorem isOrdinary_of_idle (h : segment = "" ∨ segment = ".") : isOrdinary segment = false := by
  obtain rfl | rfl := h <;> decide

theorem ne_dots_of_isOrdinary (h : isOrdinary segment = true) : segment ≠ ".." := by
  rintro rfl
  exact absurd h (by decide)

/-! ### Arriving -/

/-- The steps of `resolve?` are a walk. -/
theorem arrives_of_foldlM (h : walked.foldlM step stack = some above) : Arrives stack.reverse walked above.reverse := by
  induction walked generalizing stack with
  | nil =>
    cases h
    exact .done _
  | cons segment walked ih =>
    rw [foldlM_cons] at h
    obtain ⟨hidle, hstep⟩ | ⟨-, -, hstep⟩ | ⟨innermost, rest, rfl, rfl, hstep⟩ | ⟨hname, hstep⟩ :=
      step_cases stack segment
    all_goals rw [hstep] at h
    · exact .stay hidle (ih h)
    · cases h
    · rw [reverse_cons]
      exact .leave (ih h)
    · have hrest : Arrives (segment :: stack).reverse walked above.reverse := ih h
      rw [reverse_cons] at hrest
      exact .enter hname hrest

/-- A walk is made of the steps of `resolve?`. -/
theorem foldlM_of_arrives (h : Arrives start walked place) : walked.foldlM step start.reverse = some place.reverse := by
  induction h with
  | done place => rfl
  | stay idle _ ih =>
    rw [foldlM_cons, step_of_idle idle]
    exact ih
  | leave _ ih =>
    rw [reverse_concat]
    exact ih
  | enter ordinary _ ih =>
    rw [foldlM_cons, step_of_isOrdinary ordinary]
    rw [reverse_concat] at ih
    exact ih

/-- **A path resolves to the place at which it arrives.** -/
theorem resolve?_eq_some_iff : resolve? dir tail = some target ↔ Normalizes dir tail target := by
  unfold resolve? Normalizes dirNames
  rw [Option.map_eq_some_iff]
  constructor
  · rintro ⟨stack, hstack, rfl⟩
    have harrives := arrives_of_foldlM hstack
    rw [reverse_reverse] at harrives
    exact ⟨_, harrives, rfl⟩
  · rintro ⟨place, harrives, rfl⟩
    exact ⟨place.reverse, foldlM_of_arrives harrives, by rw [reverse_reverse]⟩

/-! ### Places -/

/-- A walk gets no deeper than by the names on it. -/
theorem Arrives.length_le (h : Arrives start walked place) :
    place.length ≤ start.length + walked.countP isOrdinary := by
  induction h with
  | done place => exact Nat.le_add_right _ _
  | stay idle _ ih =>
    rw [countP_cons_of_neg (by simp [isOrdinary_of_idle idle])]
    exact ih
  | leave _ ih =>
    rw [countP_cons_of_neg (by decide), length_append]
    omega
  | enter ordinary _ ih =>
    rw [countP_cons_of_pos ordinary]
    rw [length_append, length_singleton] at ih
    omega

/-- A place consists of names on the walk. -/
theorem Arrives.of_mem (h : Arrives start walked place) (hname : name ∈ place) :
    name ∈ start ∨ name ∈ walked ∧ isOrdinary name = true := by
  induction h with
  | done place => exact .inl hname
  | stay idle _ ih => exact (ih hname).imp_right fun h => ⟨mem_cons_of_mem _ h.1, h.2⟩
  | leave _ ih =>
    exact (ih hname).imp (mem_append_left _) fun h => ⟨mem_cons_of_mem _ h.1, h.2⟩
  | enter ordinary _ ih =>
    obtain hstart | hwalked := ih hname
    · obtain hstart | hlast := mem_append.1 hstart
      · exact .inl hstart
      · rw [mem_singleton.1 hlast]
        exact .inr ⟨mem_cons_self, ordinary⟩
    · exact .inr ⟨mem_cons_of_mem _ hwalked.1, hwalked.2⟩

theorem arrives_of_ordinary (h : ∀ s ∈ walked, isOrdinary s = true) (start : List String) :
    Arrives start walked (start ++ walked) := by
  induction walked generalizing start with
  | nil =>
    rw [append_nil]
    exact .done start
  | cons name walked ih =>
    have hrest := ih (forall_mem_cons.1 h).2 (start ++ [name])
    rw [append_assoc] at hrest
    exact .enter (h name mem_cons_self) hrest

/-- A path of ordinary names is its own normal form. -/
theorem resolve?_of_ordinary (h : ∀ s ∈ segments path, isOrdinary s = true) : resolve? "" path = some path := by
  rw [resolve?_eq_some_iff]
  exact ⟨segments path, arrives_of_ordinary h [], (ofSegments_segments path).symm⟩

/-- The place of a path from the root. -/
theorem exists_place_of_resolve? (h : resolve? "" path = some target) :
    ∃ place, target = ofSegments place ∧ place.length ≤ (segments path).countP isOrdinary ∧
      ∀ name ∈ place, isOrdinary name = true ∧ '/' ∉ name.toList := by
  obtain ⟨place, harrives, rfl⟩ := resolve?_eq_some_iff.1 h
  have hstart : dirNames "" = [] := by decide
  rw [hstart] at harrives
  refine ⟨place, rfl, ?_, ?_⟩
  · simpa using harrives.length_le
  · intro name hname
    obtain hmem | ⟨hmem, hordinary⟩ := harrives.of_mem hname
    · cases hmem
    · exact ⟨hordinary, slash_not_mem_of_mem_segments hmem⟩

/-! ### Leaving the root -/

theorem not_climbs_nil (depth : Nat) : ¬Climbs depth [] := by
  rintro ⟨front, hfront, hlt⟩
  rw [prefix_nil.1 hfront] at hlt
  exact absurd hlt (Nat.not_lt_zero _)

/-- The first segment changes the depth from which the others have to climb. -/
theorem climbs_cons {depth : Nat} :
    Climbs depth (segment :: walked) ↔
      ∃ front, front <+: walked ∧
        depth + (front.countP isOrdinary + if isOrdinary segment then 1 else 0) <
          front.count ".." + if segment = ".." then 1 else 0 := by
  constructor
  · rintro ⟨front, hfront, hlt⟩
    obtain rfl | ⟨rest, rfl, hrest⟩ := prefix_cons_iff.1 hfront
    · exact absurd hlt (Nat.not_lt_zero _)
    · refine ⟨rest, hrest, ?_⟩
      simpa only [countP_cons, count_cons, beq_iff_eq] using hlt
  · rintro ⟨rest, hrest, hlt⟩
    refine ⟨segment :: rest, cons_prefix_cons.2 ⟨rfl, hrest⟩, ?_⟩
    simpa only [countP_cons, count_cons, beq_iff_eq] using hlt

/-- The steps of `resolve?` fail exactly on segments that lead out. -/
theorem foldlM_eq_none_iff : walked.foldlM step stack = none ↔ Climbs stack.length walked := by
  induction walked generalizing stack with
  | nil => exact ⟨nofun, fun h => absurd h (not_climbs_nil _)⟩
  | cons segment walked ih =>
    rw [foldlM_cons, climbs_cons]
    obtain ⟨hidle, hstep⟩ | ⟨rfl, rfl, hstep⟩ | ⟨innermost, rest, rfl, rfl, hstep⟩ | ⟨hname, hstep⟩ :=
      step_cases stack segment
    all_goals rw [hstep]
    -- a segment that stays counts on neither side
    · have hdots : segment ≠ ".." := by
        rintro rfl
        exact absurd hidle (by decide)
      simp only [isOrdinary_of_idle hidle, if_neg hdots]
      exact ih
    -- at the root, leaving once is too much already
    · refine ⟨fun _ => ⟨[], nil_prefix, ?_⟩, fun _ => rfl⟩
      decide
    -- leaving and entering change the depth by one
    · have hdots : isOrdinary ".." = false := by decide
      simp only [hdots, Bool.false_eq_true, if_false, if_true, length_cons]
      refine ih.trans (exists_congr fun front => and_congr_right fun _ => ?_)
      omega
    · simp only [hname, if_true, if_neg (ne_dots_of_isOrdinary hname), Nat.add_zero]
      have hrest : walked.foldlM step (segment :: stack) = none ↔ Climbs (segment :: stack).length walked := ih
      refine hrest.trans (exists_congr fun front => and_congr_right fun _ => ?_)
      rw [length_cons]
      omega

/-- **A path does not resolve exactly if it leaves the root.** -/
theorem resolve?_eq_none_iff : resolve? dir tail = none ↔ Escapes dir tail := by
  unfold resolve? Escapes dirNames
  rw [Option.map_eq_none_iff, foldlM_eq_none_iff, length_reverse]

end Cartograph.Path
