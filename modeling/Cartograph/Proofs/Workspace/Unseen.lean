import Cartograph.Proofs.Cache.Disk
import Cartograph.Proofs.Workspace.Scan

/-!
# What a scan does not see

A store may lie in the workspace that is scanned. A scan does not see it: while directories and foreign files are
spared, the same files are read (`read_eq_of_spared`), the same rules say what is ignored (`rulings_eq_of_spared`), so
the same manifests and source files are picked, and a scan has the same result (`Scan.scan_eq_of_spared`). Only rules
that are read from outside of the workspace (`IsOutside`) have to be kept apart: a link in the place of an ignore file
could lead to a file of the store. One that leads to a foreign file does not (`read_eq_of_isForeign`).
-/

namespace Cartograph

open List

open FileSystem (Place IsName IsProper IsWellFormed Spared spell)
open Cache (IsForeign)

namespace Workspace

variable {fs fs' : FileSystem} {root : Place} {dir : Place} {name : List String} {own : Option String}

/-- **Foreign files in the workspace are read as before.** -/
theorem read_eq_of_spared (hfs : fs.IsProper) (hroot : fs.node? root = some .dir) (hspared : Spared fs fs')
    {path : String} (hholds : Holds fs root path) (hforeign : IsForeign (Path.fileName path)) :
    fs'.read (Path.Spelling.under (spell root) path) = fs.read (Path.Spelling.under (spell root) path) := by
  obtain ⟨names, content, hne, hnames, rfl, hnode⟩ := hholds
  have hplace := hfs.isName_of_node? hroot
  have hleads := hfs.leads_of_node? hnode (by simp)
  have hlast : ∀ name ∈ (root ++ names).getLast?, IsForeign name := by
    intro name hname
    obtain ⟨front, last, rfl⟩ := (eq_nil_or_concat' names).resolve_left hne
    rw [Path.fileName_ofSegments fun name hname => (hnames name hname).2.1] at hforeign
    rw [← append_assoc, getLast?_concat] at hname
    exact Option.some.inj hname ▸ hforeign
  rw [(hleads.spared hspared hlast).read_under_spell hplace hnames hne, hleads.read_under_spell hplace hnames hne]

/-- **What is read where a path leads to a foreign file** is read as before, through whatever links. -/
theorem read_eq_of_isForeign (hspared : Spared fs fs') (hcurrent : fs'.current = fs.current) {path last : String}
    {content : ByteArray} (hlocate : fs.locate path true = .ok (dir ++ [last])) (hforeign : IsForeign last)
    (hnode : fs.node? (dir ++ [last]) = some (.file content)) : fs'.read path = fs.read path := by
  rw [FileSystem.read_eq_ok_iff.2 ⟨_, (hspared.follows hcurrent).locate hlocate, (hspared.file hforeign).2 hnode⟩,
    FileSystem.read_eq_ok_iff.2 ⟨_, hlocate, hnode⟩]

/-! ### Ignore files -/

/-- The names of ignore files, as seen from the directory that they are about. -/
def ruleNames : List (List String) := [[".ignore"], [".gitignore"], [".git", "info", "exclude"]]

/-- The directories that can have ignore files. -/
def dirsBelow (fs : FileSystem) (root : Place) : List Place :=
  [] :: (fs.placesBelow root).filterMap fun e =>
    match e.2 with
    | .dir => some e.1
    | _ => none

/-- No link stands on the way from a directory to what is named. -/
def IsPlain (fs : FileSystem) (dir : Place) (name : List String) : Prop :=
  ∀ front, front ≠ [] → front <+: name → ∀ target, fs.node? (dir ++ front) ≠ some (.link target)

/-- The paths under which a walk may read rules that lie outside of its root: that of the personal ignore file, and
those of ignore files with a link on the way. -/
inductive IsOutside (fs : FileSystem) (root : Place) (own : Option String) (path : String) : Prop where
  | own (mem : path ∈ own)
  | linked (dir : Place) (name : List String) (isDir : fs.node? (root ++ dir) = some .dir) (isRules : name ∈ ruleNames)
      (link : ¬ IsPlain fs (root ++ dir) name) (eq : path = spell (root ++ dir ++ name))

theorem mem_dirsBelow (hfs : fs.IsProper) (hroot : fs.node? root = some .dir) :
    dir ∈ dirsBelow fs root ↔ fs.node? (root ++ dir) = some .dir := by
  rw [dirsBelow, mem_cons, mem_filterMap]
  constructor
  · rintro (rfl | ⟨⟨place, node⟩, hbelow, hdir⟩)
    · rwa [append_nil]
    · obtain ⟨-, hmem⟩ := mem_placesBelow.1 hbelow
      dsimp only at hdir
      split at hdir
      · cases hdir
        exact hfs.once _ hmem
      · cases hdir
  · intro hdir
    by_cases hne : dir = []
    · exact .inl hne
    · exact .inr ⟨(dir, .dir), mem_placesBelow.2 ⟨hne, FileSystem.mem_nodes_of_node? hdir (by simp [hne])⟩, rfl⟩

/-- The rules of a directory are those of its ignore file. -/
theorem find?_rulesNamed (fs : FileSystem) (root : Place) (dirs : List Place) (name : List String) (dir : Place) :
    (rulesNamed fs root dirs name).find? (·.1 == dir) =
      if dir ∈ dirs then
        (fs.read (spell (root ++ dir ++ name))).toOption.map fun content => (dir, Ignore.Rules.ofContent content)
      else none := by
  induction dirs with
  | nil => rfl
  | cons other dirs ih =>
    unfold rulesNamed at ih ⊢
    rw [filterMap_cons]
    by_cases hother : other = dir
    · subst hother
      rw [if_pos mem_cons_self]
      cases hread : fs.read (spell (root ++ other ++ name)) with
      | error cause =>
        rw [hread] at ih
        rw [ih]
        split <;> rfl
      | ok content => exact find?_cons_of_pos (by simp)
    · have hmem : dir ∈ other :: dirs ↔ dir ∈ dirs := by simp [Ne.symm hother]
      simp only [hmem]
      cases fs.read (spell (root ++ other ++ name)) with
      | error cause => exact ih
      | ok content =>
        rw [find?_cons_of_neg (by simpa using hother)]
        exact ih

theorem isForeign_of_mem_ruleNames (hname : name ∈ ruleNames) :
    ∃ front last, name = front ++ [last] ∧ IsForeign last := by
  simp only [ruleNames, mem_cons, not_mem_nil, or_false] at hname
  obtain rfl | rfl | rfl := hname
  · exact ⟨[], ".ignore", rfl, Cache.isForeign_of_any (by decide)⟩
  · exact ⟨[], ".gitignore", rfl, Cache.isForeign_of_any (by decide)⟩
  · exact ⟨[".git", "info"], "exclude", rfl, Cache.isForeign_of_any (by decide)⟩

theorem IsPlain.spared (h : IsPlain fs dir name) (hspared : Spared fs fs') : IsPlain fs' dir name :=
  fun front hne hfront target hlink => h front hne hfront target (hspared.link.1 hlink)

/-- What is read as an ignore file of a directory stands in its place, if no link is on the way. -/
theorem IsPlain.node?_of_read (h : IsPlain fs dir name) (hfs : fs.IsProper) (hdir : fs.node? dir = some .dir)
    (hname : name ∈ ruleNames) {content : ByteArray} (hread : fs.read (spell (dir ++ name)) = .ok content) :
    fs.node? (dir ++ name) = some (.file content) := by
  have hnames : ∀ n ∈ name, IsName n := by
    have hall : ∀ name ∈ ruleNames, ∀ n ∈ name, IsName n := by decide
    exact hall name hname
  have hne : name ≠ [] := by
    rintro rfl
    exact absurd hname (by decide)
  refine FileSystem.node?_of_read_spell (by simp [hne]) (fun n hn => ?_) (fun front hfront target hlink => ?_) hread
  · obtain hn | hn := mem_append.1 hn
    · exact hfs.isName_of_node? hdir n hn
    · exact hnames n hn
  · -- up to the directory there are only directories, and behind it no link either
    obtain hfront' | ⟨rest, rfl⟩ := prefix_or_prefix_of_prefix hfront (prefix_append dir name)
    · obtain ⟨rest, hrest⟩ := hfront'
      rw [← hrest] at hdir
      by_cases hempty : rest = []
      · rw [hempty, append_nil, hlink] at hdir
        cases hdir
      · rw [hfs.dir_of_append hdir hempty] at hlink
        cases hlink
    · by_cases hempty : rest = []
      · rw [hempty, append_nil, hdir] at hlink
        cases hlink
      · exact h rest hempty ((prefix_append_right_inj _).1 hfront) target hlink

/-- **Ignore files are read as before**, if no link is on the way. -/
theorem read_rules_of_spared (hfs : fs.IsProper) (hfs' : fs'.IsProper) (hspared : Spared fs fs')
    (hplain : IsPlain fs dir name) (hdir : fs.node? dir = some .dir) (hname : name ∈ ruleNames) :
    (fs'.read (spell (dir ++ name))).toOption = (fs.read (spell (dir ++ name))).toOption := by
  obtain ⟨front, last, rfl, hforeign⟩ := isForeign_of_mem_ruleNames hname
  have hfile : ∀ content, fs'.node? (dir ++ (front ++ [last])) = some (.file content) ↔
      fs.node? (dir ++ (front ++ [last])) = some (.file content) := by
    intro content
    rw [← append_assoc]
    exact hspared.file hforeign
  -- a file that is read by either stands there for both, and is read alike
  have hsame : ∀ content, fs.node? (dir ++ (front ++ [last])) = some (.file content) →
      fs'.read (spell (dir ++ (front ++ [last]))) = fs.read (spell (dir ++ (front ++ [last]))) := by
    intro content hnode
    rw [hfs.read_spell hnode, hfs'.read_spell ((hfile content).2 hnode)]
  cases hread : fs.read (spell (dir ++ (front ++ [last]))) with
  | ok content => rw [hsame content (hplain.node?_of_read hfs hdir hname hread), hread]
  | error cause =>
    cases hread' : fs'.read (spell (dir ++ (front ++ [last]))) with
    | error cause' => rfl
    | ok content =>
      have hnode := (hplain.spared hspared).node?_of_read hfs' (hspared.dir hdir) hname hread'
      rw [← hread', hsame content ((hfile content).1 hnode), hread]

/-- **The same rules** say what is ignored. -/
theorem rulings_eq_of_spared (hfs : fs.IsProper) (hfs' : fs'.IsProper) (hroot : fs.node? root = some .dir)
    (hspared : Spared fs fs') (hcurrent : fs'.current = fs.current)
    (houtside : ∀ path, IsOutside fs root own path → (fs'.read path).toOption = (fs.read path).toOption) :
    rulings fs' root own = rulings fs root own := by
  have hrules : ∀ name ∈ ruleNames, ∀ dir,
      (rulesNamed fs' root (dirsBelow fs' root) name).find? (·.1 == dir) =
        (rulesNamed fs root (dirsBelow fs root) name).find? (·.1 == dir) := by
    intro name hname dir
    rw [find?_rulesNamed, find?_rulesNamed]
    by_cases hdir : fs.node? (root ++ dir) = some .dir
    · rw [if_pos ((mem_dirsBelow hfs hroot).2 hdir),
        if_pos ((mem_dirsBelow hfs' (hspared.dir hroot)).2 (hspared.dir hdir))]
      by_cases hplain : IsPlain fs (root ++ dir) name
      · rw [read_rules_of_spared hfs hfs' hspared hplain hdir hname]
      · rw [houtside _ (.linked dir name hdir hname hplain rfl)]
    · -- a directory that was made has no ignore file, nor a link
      rw [if_neg fun hmem => hdir ((mem_dirsBelow hfs hroot).1 hmem)]
      split
      · next hmem =>
        have hdir' := (mem_dirsBelow hfs' (hspared.dir hroot)).1 hmem
        cases hread : fs'.read (spell (root ++ dir ++ name)) with
        | error cause => rfl
        | ok content =>
          have hplain : IsPlain fs' (root ++ dir) name := fun front hne _ target hlink =>
            hdir (hfs.dir_of_append (hspared.link.1 hlink) hne)
          have hnode := hplain.node?_of_read hfs' hdir' hname hread
          obtain ⟨front, last, rfl, hforeign⟩ := isForeign_of_mem_ruleNames hname
          rw [← append_assoc, hspared.file hforeign, append_assoc] at hnode
          exact absurd (hfs.dir_of_append hnode (by simp)) hdir
      · rfl
  have hverdict : ∀ name ∈ ruleNames, verdictOf (rulesNamed fs' root (dirsBelow fs' root) name) =
      verdictOf (rulesNamed fs root (dirsBelow fs root) name) := by
    intro name hname
    unfold verdictOf
    simp only [hrules name hname]
  have hkinds : (ruleKinds fs' root).map verdictOf = (ruleKinds fs root).map verdictOf := by
    exact map_congr_left hverdict
  have hpersonal : (own.bind fun path => (fs'.read path).toOption) = own.bind fun path => (fs.read path).toOption := by
    cases own with
    | none => rfl
    | some path => exact houtside path (.own rfl)
  unfold rulings
  rw [hkinds, hpersonal, hcurrent]

/-! ### Walks -/

/-- **The same files are picked from a walk**, as long as only foreign ones are. -/
theorem filter_walkFrom_of_spared (hfs : fs.IsWellFormed) (hfs' : fs'.IsWellFormed)
    (hroot : fs.node? root = some .dir) (hspared : Spared fs fs') (hcurrent : fs'.current = fs.current)
    {respect : Bool} (houtside : respect = true → ∀ path, IsOutside fs root own path →
      (fs'.read path).toOption = (fs.read path).toOption) {pick : String → Bool}
    (hpick : ∀ path, pick path = true → IsForeign (Path.fileName path)) :
    (walkFrom fs' root respect own).filter pick = (walkFrom fs root respect own).filter pick := by
  have hrules : (if respect then rulings fs' root own else []) = if respect then rulings fs root own else [] := by
    cases respect with
    | false => rfl
    | true => exact rulings_eq_of_spared hfs.toIsProper hfs'.toIsProper hroot hspared hcurrent (houtside rfl)
  have hmem : ∀ path, path ∈ (walkFrom fs' root respect own).filter pick ↔
      path ∈ (walkFrom fs root respect own).filter pick := by
    intro path
    rw [mem_filter, mem_filter]
    refine and_congr_left fun hpath => ?_
    rw [mem_walkFrom hfs.toIsProper, mem_walkFrom hfs'.toIsProper, hrules]
    refine exists_congr fun names => exists_congr fun content => and_congr_right fun hne => ?_
    refine and_congr_left fun hnames => ?_
    obtain ⟨front, last, rfl⟩ := (eq_nil_or_concat' names).resolve_left hne
    have hforeign := hpick path hpath
    rw [hnames.2] at hforeign
    have hiff : (∀ name ∈ root ++ (front ++ [last]), IsName name) →
        (fs'.node? (root ++ (front ++ [last])) = some (.file content) ↔
          fs.node? (root ++ (front ++ [last])) = some (.file content)) := by
      intro hnames
      rw [Path.fileName_ofSegments fun name hname => (hnames name (mem_append_right root hname)).2.1] at hforeign
      rw [← append_assoc]
      exact hspared.file hforeign
    exact ⟨fun hnode => (hiff (hfs'.isName_of_node? hnode)).1 hnode,
      fun hnode => (hiff (hfs.isName_of_node? hnode)).2 hnode⟩
  have hsorted : ∀ fs : FileSystem, ((walkFrom fs root respect own).filter pick).Pairwise (· ≤ ·) := by
    intro fs
    exact (pairwise_walkFrom fs root respect own).filter pick
  refine Perm.eq_of_pairwise (fun a b _ _ => String.le_antisymm) (hsorted fs') (hsorted fs) ?_
  exact (perm_ext_iff_of_nodup ((nodup_walkFrom hfs'.toIsProper hfs'.nodup respect own).filter _)
    ((nodup_walkFrom hfs.toIsProper hfs.nodup respect own).filter _)).2 hmem

end Workspace

/-! ### Scans -/

namespace Scan

variable {fs fs' : FileSystem} {policy : AnalyzerPolicy} {extensions paths paths' : List String} {path : String}

theorem isForeign_of_isManifest (h : isManifest policy path = true) : IsForeign (Path.fileName path) := by
  rw [isManifest, Bool.and_eq_true, beq_iff_eq] at h
  rw [h.1]
  exact Cache.isForeign_of_any (by decide)

theorem isForeign_of_isSource (hextensions : ∀ e ∈ extensions, e ∈ TypeScript.extensions)
    (h : isSource policy extensions path = true) : IsForeign (Path.fileName path) := by
  rw [isSource, Bool.and_eq_true, Option.any_eq_true] at h
  obtain ⟨-, extension, hpath, hmem⟩ := h
  exact Cache.isForeign_fileName hpath (hextensions extension (contains_iff_mem.1 hmem))

/-- **What is picked from paths** depends on the foreign ones alone. -/
theorem ofPaths?_congr {read read' : String → Except OsError ByteArray}
    (hextensions : ∀ e ∈ extensions, e ∈ TypeScript.extensions)
    (hread : ∀ path ∈ paths, IsForeign (Path.fileName path) → read' path = read path)
    (hpaths : ∀ pick : String → Bool, (∀ path, pick path = true → IsForeign (Path.fileName path)) →
      paths'.filter pick = paths.filter pick) (root label : String) :
    ofPaths? read' root policy extensions label paths' = ofPaths? read root policy extensions label paths := by
  have hmanifests : packageManifests policy paths' = packageManifests policy paths := by
    refine hpaths _ fun path hpath => ?_
    rw [Bool.and_eq_true] at hpath
    exact isForeign_of_isManifest hpath.1
  have hfound : (packageManifests policy paths').map (readPackage read' root) =
      (packageManifests policy paths).map (readPackage read root) := by
    rw [hmanifests]
    refine map_congr_left fun manifest hmanifest => ?_
    obtain ⟨hmem, hpath⟩ := mem_filter.1 hmanifest
    rw [Bool.and_eq_true] at hpath
    rw [readPackage, readPackage, hread manifest hmem (isForeign_of_isManifest hpath.1)]
  have hsources : ∀ packages, sources policy extensions packages paths' = sources policy extensions packages paths := by
    intro packages
    rw [sources, sources, hpaths _ fun path hpath => isForeign_of_isSource hextensions hpath]
  have hunmatched : unmatched policy paths' = unmatched policy paths := by
    refine filter_congr fun pattern _ => congrArg (!·) ?_
    have hany : ∀ l : List String, (l.any fun path => isManifest policy path && hits pattern path) =
        (l.filter (isManifest policy)).any (hits pattern) := fun l => any_filter.symm
    rw [hany, hany, hpaths _ fun path hpath => isForeign_of_isManifest hpath]
  unfold ofPaths?
  rw [hfound, hunmatched]
  simp only [hsources]

/-- **A scan does not see a store** that is used: it has the same result as before. -/
theorem scan_eq_of_spared {root : Place} (hfs : fs.IsWellFormed) (hfs' : fs'.IsWellFormed)
    (hroot : fs.node? root = some .dir) (hspared : Spared fs fs') (hcurrent : fs'.current = fs.current)
    {own : Option String} (houtside : policy.respectIgnoreFiles = true → ∀ path, Workspace.IsOutside fs root own path →
      (fs'.read path).toOption = (fs.read path).toOption)
    (hextensions : ∀ e ∈ extensions, e ∈ TypeScript.extensions) (label : String) :
    scan fs' (spell root) policy extensions label own = scan fs (spell root) policy extensions label own := by
  have hresolve' : fs'.resolve (spell root) = fs.resolve (spell root) := by
    rw [hfs'.resolve_spell (hspared.dir hroot), hfs.resolve_spell hroot]
  unfold scan Workspace.walk
  rw [hresolve']
  obtain hresolve | ⟨cause, hresolve⟩ := hfs.resolve_spell_cases hroot
  · rw [hresolve]
    dsimp only [bind, Except.bind, pure, Except.pure]
    rw [ofPaths?_congr hextensions (fun path hpath hforeign => ?_) fun pick hpick => ?_]
    · exact Workspace.read_eq_of_spared hfs.toIsProper hroot hspared
        (Workspace.holds_of_walkFrom hfs.toIsProper hpath) hforeign
    · exact Workspace.filter_walkFrom_of_spared hfs hfs' hroot hspared hcurrent houtside hpick
  · rw [hresolve]
    rfl

end Scan

end Cartograph
