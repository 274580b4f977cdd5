import Cartograph.FileSystem
import Cartograph.Proofs.Lists
import Cartograph.Proofs.Path.Segments

/-!
# Where paths lead

Two facts about following a path, whatever links it goes through. A path that ends in a name leads to the
directory in front of the name and from there to the name, unless that is a link (`locate_under`). And files that
come and go change the way of no path that could be followed before (`SameWays.locate`): all that lies on the way
are directories and links. Whether a link at the end is followed makes no difference to a path that does not come
to one (`locate_last`).

A path that spells a place leads to that place when all that lies above it are directories (`Leads.resolve_eq`).
-/

namespace Cartograph.FileSystem

open List

open Cartograph.Path (isOrdinary)
open Path.Spelling (isAbsolute under)

variable {fs fs' : FileSystem} {last : Bool} {here place : Place} {name base path : String} {idle : List String}
  {links : Nat}

/-! ### A name at the end -/

theorem advance_cons (hname : isOrdinary name = true) (rest : List String) :
    fs.advance last here (name :: rest) =
      if nameLimit < name.utf8ByteSize then .error .nameTooLong
      else
        match fs.node? (here ++ [name]) with
        | none => if rest = [] then .ok (.arrived (here ++ [name])) else .error .notFound
        | some (.file _) => if rest = [] then .ok (.arrived (here ++ [name])) else .error .notADirectory
        | some .dir => fs.advance last (here ++ [name]) rest
        | some (.link target) =>
          if rest = [] ∧ last = false then .ok (.arrived (here ++ [name]))
          else .ok (.linked here target rest) := by
  simp only [isOrdinary, Bool.and_eq_true, bne_iff_ne] at hname
  rw [advance, if_neg (by simp [hname.1.1, hname.1.2])]
  exact if_neg hname.2

/-- Empty segments lead nowhere else. -/
theorem advance_idle (h : ∀ segment ∈ idle, segment = "") : fs.advance last here idle = .ok (.arrived here) := by
  induction idle with
  | nil => rfl
  | cons segment idle ih =>
    rw [advance, if_pos (Or.inl (h segment mem_cons_self))]
    exact ih (forall_mem_cons.1 h).2

/-- What the front of a path does to the way of all that comes behind it: it leads to a directory from which the rest
is followed, or to a link behind which the rest comes, or whatever comes behind it is refused. -/
inductive Front (fs : FileSystem) (here : Place) (front : List String) : Prop where
  | leads (dir : Place) (on : ∀ last more, more ≠ [] ∨ last = true →
      fs.advance last here (front ++ more) = fs.advance last dir more)
  | links (dir : Place) (target : String) (rest : List String) (on : ∀ last more, more ≠ [] ∨ last = true →
      fs.advance last here (front ++ more) = .ok (.linked dir target (rest ++ more)))
  | ends (e : OsError) (refused : ∀ last more, more ≠ [] → fs.advance last here (front ++ more) = .error e)
      (blind : ∀ progress, fs.advance true here front = .ok progress →
        ∃ place, progress = .arrived place ∧ fs.node? place ≠ some .dir)

theorem Front.cons {next : Place} {segment : String} {front : List String} (h : fs.Front next front)
    (hnext : ∀ last rest, fs.advance last here (segment :: rest) = fs.advance last next rest) :
    fs.Front here (segment :: front) := by
  cases h with
  | leads dir on => exact .leads dir fun last more hmore => by rw [cons_append, hnext, on last more hmore]
  | links dir target rest on =>
    exact .links dir target rest fun last more hmore => by rw [cons_append, hnext, on last more hmore]
  | ends e refused blind =>
    refine .ends e (fun last more hmore => ?_) fun progress h => blind progress (by rwa [hnext] at h)
    rw [cons_append, hnext, refused last more hmore]

theorem front (fs : FileSystem) (here : Place) (front : List String) : fs.Front here front := by
  induction front generalizing here with
  | nil => exact .leads here fun _ _ _ => rfl
  | cons segment front ih =>
    by_cases hidle : segment = "" ∨ segment = "."
    · exact (ih here).cons fun last rest => by rw [advance, if_pos hidle]
    by_cases hup : segment = ".."
    · exact (ih here.dropLast).cons fun last rest => by rw [advance, if_neg hidle, if_pos hup]
    by_cases hlong : nameLimit < segment.utf8ByteSize
    · have hrefused (last : Bool) (rest : List String) : fs.advance last here (segment :: rest) = .error .nameTooLong := by
        rw [advance, if_neg hidle, if_neg hup, if_pos hlong]
      refine .ends _ (fun last more _ => hrefused last _) fun progress h => ?_
      rw [hrefused] at h
      cases h
    have hnamed (last : Bool) (rest : List String) := show fs.advance last here (segment :: rest) = _ by
      rw [advance, if_neg hidle, if_neg hup, if_neg hlong]
    -- a way that ends at something else than a directory
    have hend (e : OsError) (hnode : fs.node? (here ++ [segment]) ≠ some .dir) (hrest : ∀ last rest,
        fs.advance last here (segment :: rest) = if rest = [] then .ok (.arrived (here ++ [segment])) else .error e) :
        fs.Front here (segment :: front) := by
      refine .ends e (fun last more hmore => ?_) fun progress h => ?_
      · rw [cons_append, hrest, if_neg (by simp [hmore])]
      · rw [hrest] at h
        split at h
        · exact ⟨_, (Except.ok.inj h).symm, hnode⟩
        · cases h
    cases hnode : fs.node? (here ++ [segment]) with
    | none => exact hend .notFound (by simp [hnode]) fun last rest => by rw [hnamed, hnode]
    | some node =>
      cases node with
      | file content => exact hend .notADirectory (by simp [hnode]) fun last rest => by rw [hnamed, hnode]
      | dir => exact (ih (here ++ [segment])).cons fun last rest => by rw [hnamed, hnode]
      | link target =>
        refine .links here target front fun last more hmore => ?_
        rw [cons_append, hnamed, hnode]
        refine if_neg fun hlast => ?_
        simp_all

/-- The same of a path that leads through links: of those that may be followed, some are left behind its front. -/
theorem follow_append (fs : FileSystem) (links : Nat) (here : Place) (front : List String) :
    (∃ dir left, ∀ last more, more ≠ [] ∨ last = true →
      fs.follow last links here (front ++ more) = fs.follow last left dir more) ∨
    (∃ e, ∀ last more, more ≠ [] → fs.follow last links here (front ++ more) = .error e) ∧
      ∀ place, fs.follow true links here front = .ok place → fs.node? place ≠ some .dir := by
  induction links using Nat.strongRecOn generalizing front here with
  | _ links ih =>
    cases fs.front here front with
    | leads dir on =>
      refine .inl ⟨dir, links, fun last more hmore => ?_⟩
      rw [follow, on last more hmore, follow]
    | links dir target rest on =>
      cases links with
      | zero =>
        refine .inr ⟨⟨.tooManyLinks, fun last more hmore => by rw [follow, on last more (.inl hmore)]⟩, fun place h => ?_⟩
        rw [follow, ← append_nil front, on true [] (.inr rfl)] at h
        cases h
      | succ links =>
        -- a link uses up one of those that may be followed, and its target comes in front of the segments
        have hon (last : Bool) (more : List String) (hmore : more ≠ [] ∨ last = true) :
            fs.follow last (links + 1) here (front ++ more) =
              fs.follow last links (start dir target) (Path.segments target ++ rest ++ more) := by
          rw [follow, on last more hmore, append_assoc]
        refine (ih links (Nat.lt_succ_self links) (start dir target) (Path.segments target ++ rest)).imp ?_ ?_
        · rintro ⟨dir, left, hleft⟩
          exact ⟨dir, left, fun last more hmore => (hon last more hmore).trans (hleft last more hmore)⟩
        · rintro ⟨⟨e, hrefused⟩, hend⟩
          refine ⟨⟨e, fun last more hmore => (hon last more (.inl hmore)).trans (hrefused last more hmore)⟩, ?_⟩
          have hfront := hon true [] (.inr rfl)
          rw [append_nil, append_nil] at hfront
          rwa [hfront]
    | ends e refused blind =>
      refine .inr ⟨⟨e, fun last more hmore => by rw [follow, refused last more hmore]⟩, fun place h => ?_⟩
      rw [follow] at h
      cases hadvance : fs.advance true here front with
      | error e => rw [hadvance] at h; cases h
      | ok progress =>
        obtain ⟨there, rfl, hnode⟩ := blind progress hadvance
        rw [hadvance] at h
        cases h
        exact hnode

theorem follow_idle (h : ∀ segment ∈ idle, segment = "") : fs.follow last links here idle = .ok here := by
  rw [follow, advance_idle h]

theorem follow_name (hname : isOrdinary name = true) {dir : Place}
    (hlink : last = true → ∀ target, fs.node? (dir ++ [name]) ≠ some (.link target))
    (h : fs.follow last links dir [name] = .ok place) : place = dir ++ [name] := by
  have hadvance : fs.advance last dir [name] = .error .nameTooLong ∨
      fs.advance last dir [name] = .ok (.arrived (dir ++ [name])) := by
    rw [advance_cons hname]
    split
    · exact .inl rfl
    · refine .inr ?_
      split
      · rfl
      · rfl
      · rfl
      · next target hnode =>
        cases last with
        | false => rfl
        | true => exact absurd hnode (hlink rfl target)
  rw [follow] at h
  obtain hadvance | hadvance := hadvance <;> rw [hadvance] at h <;> cases h
  rfl

theorem checkPath_of_append {tail : String} (hbase : base ≠ "") (h : checkPath (base ++ tail) = .ok ()) :
    checkPath base = .ok () := by
  rw [checkPath] at h ⊢
  split at h
  · cases h
  next hnul =>
  split at h
  · cases h
  split at h
  · cases h
  next hlong =>
  rw [if_neg, if_neg hbase, if_neg]
  · rw [String.utf8ByteSize_append] at hlong
    omega
  · simpa using fun hmem => hnul (by simpa using Or.inl hmem)

/-- A path below a directory starts with the directory, as it is written. -/
theorem exists_under_eq (hbase : base ≠ "") (hpath : isAbsolute path = false) :
    ∃ slash, (slash = "" ∨ slash = "/") ∧ under base path = base ++ (slash ++ path) := by
  rw [under, if_neg (by simp [hpath, hbase])]
  split
  · exact ⟨"", .inl rfl, by rw [String.empty_append]⟩
  · exact ⟨"/", .inr rfl, String.append_assoc ..⟩

/-- So both start at the same place. -/
theorem start_under (hbase : base ≠ "") (hpath : isAbsolute path = false) (here : Place) :
    start here (under base path) = start here base := by
  obtain ⟨slash, -, hunder⟩ := exists_under_eq hbase hpath
  obtain ⟨c, cs, hcs⟩ := exists_cons_of_ne_nil (show base.toList ≠ [] by simpa using hbase)
  rw [start, start, hunder, String.toList_append, hcs]
  rfl

/-- **A path that ends in a name leads to the directory in front of the name**, and on to the place of the name
unless there is a link at its end that is followed. -/
theorem locate_under (hbase : base ≠ "") (hname : isOrdinary name = true) (hslash : '/' ∉ name.toList)
    (h : fs.locate (under base name) last = .ok place) :
    ∃ dir, fs.locate base true = .ok dir ∧
      ((last = true → ∀ target, fs.node? (dir ++ [name]) ≠ some (.link target)) → place = dir ++ [name]) := by
  have hsegments := Path.segments_eq_singleton hslash
  have hrelative : isAbsolute name = false :=
    Path.isAbsolute_eq_false hsegments fun hempty => by
      rw [hempty] at hname
      exact absurd hname (by decide)
  obtain ⟨slash, -, hunder⟩ := exists_under_eq hbase hrelative
  rw [locate, start_under hbase hrelative, Path.segments_under base hrelative, hsegments] at h
  obtain ⟨_, hcheck, h⟩ := of_bind_eq_ok h
  obtain ⟨idle, hidle, hbaseSegments⟩ := Path.segments_eq_frontSegments hbase
  obtain ⟨dir, left, hon⟩ | ⟨⟨e, hrefused⟩, -⟩ :=
    fs.follow_append linkLimit (start fs.current base) (Path.Spelling.frontSegments base)
  · refine ⟨dir, ?_, fun hlink => follow_name hname hlink ((hon last [name] (.inl (cons_ne_nil _ _))).symm.trans h)⟩
    rw [locate, checkPath_of_append hbase (hunder ▸ hcheck), hbaseSegments]
    exact (hon true idle (.inr rfl)).trans (follow_idle hidle)
  · cases (hrefused last [name] (cons_ne_nil _ _)).symm.trans h

/-! ### A link at the end -/

/-- Following the last link or not makes a difference only to a path that comes to a link at its end. -/
theorem advance_last (fs : FileSystem) (here : Place) (segments : List String) :
    fs.advance true here segments = fs.advance false here segments ∨
      ∃ dir name target, fs.advance false here segments = .ok (.arrived (dir ++ [name])) ∧
        fs.node? (dir ++ [name]) = some (.link target) ∧
        fs.advance true here segments = .ok (.linked dir target []) := by
  induction segments generalizing here with
  | nil => exact .inl rfl
  | cons segment rest ih =>
    rw [advance, advance]
    split
    · exact ih here
    split
    · exact ih here.dropLast
    split
    · exact .inl rfl
    cases hnode : fs.node? (here ++ [segment]) with
    | none => exact .inl rfl
    | some node =>
      cases node with
      | file content => exact .inl rfl
      | dir => exact ih (here ++ [segment])
      | link target =>
        by_cases hrest : rest = []
        · refine .inr ⟨here, segment, target, ?_, hnode, ?_⟩ <;> simp [hrest]
        · simp [hrest]

/-- So does where a path leads. -/
theorem locate_last (fs : FileSystem) (path : String) :
    fs.locate path true = fs.locate path false ∨
      ∃ place target, fs.locate path false = .ok place ∧ fs.node? place = some (.link target) := by
  have hfollow : ∀ (links : Nat) (here : Place) (segments : List String),
      fs.follow true links here segments = fs.follow false links here segments ∨
        ∃ place target, fs.follow false links here segments = .ok place ∧ fs.node? place = some (.link target) := by
    intro links
    induction links using Nat.strongRecOn with
    | _ links ih =>
      intro here segments
      rw [follow, follow]
      obtain hsame | ⟨dir, name, target, harrived, hnode, -⟩ := advance_last fs here segments
      · rw [hsame]
        cases fs.advance false here segments with
        | error e => exact .inl rfl
        | ok progress =>
          cases progress with
          | arrived place => exact .inl rfl
          | linked dir target rest =>
            cases links with
            | zero => exact .inl rfl
            | succ links => exact ih links (Nat.lt_succ_self links) _ _
      · refine .inr ⟨dir ++ [name], target, ?_, hnode⟩
        rw [harrived]
  rw [locate, locate]
  cases checkPath path with
  | error e => exact .inl rfl
  | ok _ => exact hfollow linkLimit _ _

/-! ### Files that come and go -/

/-- Whether a place holds neither a directory nor a link, so that no way leads through it. -/
def IsBlind (fs : FileSystem) (place : Place) : Prop :=
  fs.node? place ≠ some .dir ∧ ∀ target, fs.node? place ≠ some (.link target)

/-- Whether a path that can be followed in one file system leads to the same place in another: they differ in nothing
but what stands where no way led through, and there no link stands now, if the path's last name is followed too. -/
structure Follows (last : Bool) (fs fs' : FileSystem) : Prop where
  current : fs'.current = fs.current
  node : ∀ place, fs'.node? place = fs.node? place ∨
    fs.IsBlind place ∧ (last = true → ∀ target, fs'.node? place ≠ some (.link target))

namespace Follows

variable {segments : List String} (h : Follows last fs fs')
include h

theorem advance {progress : Progress} (hprogress : fs.advance last here segments = .ok progress) :
    fs'.advance last here segments = .ok progress := by
  induction segments generalizing here with
  | nil => exact hprogress
  | cons segment rest ih =>
    rw [FileSystem.advance] at hprogress ⊢
    split at hprogress
    next hidle => rw [if_pos hidle]; exact ih hprogress
    next hidle =>
    rw [if_neg hidle]
    split at hprogress
    next hup => rw [if_pos hup]; exact ih hprogress
    next hup =>
    rw [if_neg hup]
    split at hprogress
    next => cases hprogress
    next hlong =>
    rw [if_neg hlong]
    obtain hsame | ⟨hblind, hlink⟩ := h.node (here ++ [segment])
    · rw [hsame]
      split at hprogress
      next => exact hprogress
      next => exact hprogress
      next => exact ih hprogress
      next => exact hprogress
    · -- no way leads through the place, so this one ends there
      have hend : rest = [] ∧ progress = .arrived (here ++ [segment]) := by
        split at hprogress
        next =>
          split at hprogress
          next hrest => cases hprogress; exact ⟨hrest, rfl⟩
          next => cases hprogress
        next =>
          split at hprogress
          next hrest => cases hprogress; exact ⟨hrest, rfl⟩
          next => cases hprogress
        next hnode => exact absurd hnode hblind.1
        next target hnode => exact absurd hnode (hblind.2 target)
      rw [hend.2]
      split
      next => exact if_pos hend.1
      next => exact if_pos hend.1
      next => rw [hend.1]; rfl
      next target hnode => exact if_pos ⟨hend.1, Bool.eq_false_iff.2 fun hlast => hlink hlast target hnode⟩

theorem follow {links : Nat} {there : Place} (hthere : fs.follow last links here segments = .ok there) :
    fs'.follow last links here segments = .ok there := by
  induction links using Nat.strongRecOn generalizing segments here with
  | _ links ih =>
    rw [FileSystem.follow] at hthere ⊢
    cases hadvance : fs.advance last here segments with
    | error e => rw [hadvance] at hthere; cases hthere
    | ok progress =>
      rw [h.advance hadvance]
      rw [hadvance] at hthere
      cases progress with
      | arrived dir => exact hthere
      | linked dir target rest =>
        cases links with
        | zero => cases hthere
        | succ links => exact ih links (Nat.lt_succ_self links) hthere

theorem locate {path : String} (hplace : fs.locate path last = .ok place) : fs'.locate path last = .ok place := by
  obtain ⟨_, hcheck, hplace⟩ := of_bind_eq_ok hplace
  rw [FileSystem.locate, h.current, hcheck]
  exact h.follow hplace

end Follows

/-- Whether two file systems differ in nothing but what stands where no way leads through. -/
structure SameWays (fs fs' : FileSystem) : Prop where
  current : fs'.current = fs.current
  node : ∀ place, fs'.node? place = fs.node? place ∨ fs.IsBlind place ∧ fs'.IsBlind place

theorem ne_nil_of_isBlind (h : fs.IsBlind place) : place ≠ [] := by
  rintro rfl
  exact h.1 rfl

theorem sameWays_put_file (hplace : fs.IsBlind place) (content : ByteArray) :
    SameWays fs (fs.put place (.file content)) := by
  refine ⟨rfl, fun other => ?_⟩
  by_cases hother : other = place
  · rw [hother, IsBlind, IsBlind, fs.node?_put_self _ (ne_nil_of_isBlind hplace)]
    exact .inr ⟨hplace, by simp⟩
  · exact .inl (fs.node?_put_of_ne _ hother)

theorem sameWays_drop (hplace : fs.IsBlind place) : SameWays fs (fs.drop place) := by
  refine ⟨rfl, fun other => ?_⟩
  by_cases hother : other = place
  · rw [hother, IsBlind, IsBlind, fs.node?_drop_self (ne_nil_of_isBlind hplace)]
    exact .inr ⟨hplace, by simp⟩
  · exact .inl (fs.node?_drop_of_ne hother)

namespace SameWays

theorem refl (fs : FileSystem) : SameWays fs fs := ⟨rfl, fun _ => .inl rfl⟩

theorem symm (h : SameWays fs fs') : SameWays fs' fs :=
  ⟨h.current.symm, fun place => (h.node place).imp Eq.symm And.symm⟩

theorem trans {fs'' : FileSystem} (h : SameWays fs fs') (h' : SameWays fs' fs'') : SameWays fs fs'' := by
  refine ⟨h'.current.trans h.current, fun place => ?_⟩
  obtain hsame | ⟨hblind, hblind'⟩ := h.node place
  · obtain hsame' | ⟨hblind', hblind''⟩ := h'.node place
    · exact .inl (hsame'.trans hsame)
    · rw [IsBlind, hsame] at hblind'
      exact .inr ⟨hblind', hblind''⟩
  · obtain hsame' | ⟨-, hblind''⟩ := h'.node place
    · rw [IsBlind, ← hsame'] at hblind'
      exact .inr ⟨hblind, hblind'⟩
    · exact .inr ⟨hblind, hblind''⟩

section

variable (h : SameWays fs fs')
include h

/-- **Files that come and go do not change the way of a path.** -/
theorem locate {path : String} {there : Place} (hthere : fs.locate path last = .ok there) :
    fs'.locate path last = .ok there := by
  exact Follows.locate ⟨h.current, fun place => (h.node place).imp_right fun hblind =>
    ⟨hblind.1, fun _ => hblind.2.2⟩⟩ hthere

theorem dir (hdir : fs.node? place = some .dir) : fs'.node? place = some .dir := by
  obtain hsame | ⟨hblind, -⟩ := h.node place
  · rwa [hsame]
  · exact absurd hdir hblind.1

theorem node_ne_dir (hnode : fs.node? place ≠ some .dir) : fs'.node? place ≠ some .dir := by
  obtain hsame | ⟨-, hblind⟩ := h.node place
  · rwa [hsame]
  · exact hblind.1

end

end SameWays

/-! ### Spelled places -/

/-- Names lead from a directory through directories to what stands at their end. -/
inductive Leads (fs : FileSystem) : Place → List String → Node → Prop where
  | here {place : Place} (dir : fs.node? place = some .dir) : Leads fs place [] .dir
  | last {place : Place} {name : String} {content : ByteArray} (ordinary : isOrdinary name = true)
      (file : fs.node? (place ++ [name]) = some (.file content)) : Leads fs place [name] (.file content)
  | step {place : Place} {name : String} {rest : List String} {node : Node}
      (ordinary : isOrdinary name = true) (dir : fs.node? (place ++ [name]) = some .dir)
      (behind : Leads fs (place ++ [name]) rest node) : Leads fs place (name :: rest) node

/-- Whether all names are short enough. -/
def areShort (names : List String) : Bool := names.all fun name => !decide (nameLimit < name.utf8ByteSize)

namespace Leads

variable {names : List String} {node : Node}

theorem node?_eq (h : fs.Leads place names node) : fs.node? (place ++ names) = some node := by
  induction h with
  | here dir => rwa [append_nil]
  | last _ file => exact file
  | step _ _ _ ih => rwa [append_assoc, singleton_append] at ih

theorem advance_eq (h : fs.Leads place names node) (last : Bool) :
    fs.advance last place names =
      if areShort names then .ok (.arrived (place ++ names)) else .error .nameTooLong := by
  induction h with
  | here dir => simp [advance, areShort]
  | last ordinary file =>
    rw [advance_cons ordinary]
    simp only [areShort]
    split <;> simp_all
  | step ordinary dir _ ih =>
    rw [advance_cons ordinary]
    simp only [ih, areShort]
    split <;> simp_all

/-- What a path gives that spells a place. -/
theorem resolve_eq (h : fs.Leads [] names node) {path : String} (habsolute : isAbsolute path = true)
    (hpath : Path.segments path = "" :: names) :
    fs.resolve path =
      match checkPath path with
      | .error e => .error e
      | .ok () => if areShort names then .ok (names, node) else .error .nameTooLong := by
  have hstart : start fs.current path = [] := if_pos (by simpa [isAbsolute] using habsolute)
  have hadvance : fs.advance true [] ("" :: names) =
      if areShort names then .ok (.arrived names) else .error .nameTooLong := by
    rw [advance, if_pos (Or.inl rfl), h.advance_eq, nil_append]
  have hnode := h.node?_eq
  rw [nil_append] at hnode
  rw [resolve, locate, hstart, hpath]
  cases checkPath path with
  | error e => rfl
  | ok _ =>
    rw [follow, hadvance]
    cases areShort names with
    | false => rfl
    | true =>
      simp only [if_true, bind, Except.bind, hnode]
      rfl

end Leads

end Cartograph.FileSystem
