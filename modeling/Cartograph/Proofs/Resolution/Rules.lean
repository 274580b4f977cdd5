import Cartograph.Proofs.Path.Normalization
import Cartograph.Proofs.Resolution.Candidates
import Cartograph.Proofs.Resolution.Specifier

/-!
# The rules of resolution

`Resolves` says what a specifier refers to, rule by rule and without an order of evaluation. A path has one target, a
name of a package of the workspace has several; each target stands for a list of names, and what counts is the first
name on these lists, taken one after the other, that is a module. Nothing else about the modules matters.

Main statement: `resolve_eq_iff`. The rules give exactly one answer for every specifier, and it is that of
`Resolver.resolve`. One half applies the rules along the case distinction of `resolve` (`resolves_resolve`), the other
evaluates `resolve` for each rule (`resolve_of_resolves`).
-/

namespace Cartograph

open Cartograph.Path List Resolution Specifier

namespace Resolution

variable {importer specifier target : String}

/-! ### Targets -/

/-- The target of a path: it is seen from the root, or from the directory of the importing module. -/
inductive Points (importer specifier : String) : String → Prop where
  | rooted {rest target : String} (written : specifier = "/" ++ rest) (arrives : Normalizes "" rest target) :
      Points importer specifier target
  | relative {target : String} (written : IsRelative specifier)
      (arrives : Normalizes (parent importer) specifier target) : Points importer specifier target

/-- A path that leaves the root. -/
inductive Strays (importer specifier : String) : Prop where
  | rooted {rest : String} (written : specifier = "/" ++ rest) (escapes : Escapes "" rest)
  | relative (written : IsRelative specifier) (escapes : Escapes (parent importer) specifier)

theorem Points.isPath (h : Points importer specifier target) : IsRelative specifier ∨ IsRooted specifier := by
  obtain ⟨written, -⟩ | ⟨written, -⟩ := h
  · exact .inr ⟨_, written⟩
  · exact .inl written

theorem Strays.isPath (h : Strays importer specifier) : IsRelative specifier ∨ IsRooted specifier := by
  obtain ⟨written, -⟩ | ⟨written, -⟩ := h
  · exact .inr ⟨_, written⟩
  · exact .inl written

/-- The targets of entry points, in order. Those outside the workspace are left out. -/
inductive EntryTargets (root : String) : List String → List String → Prop where
  | nil : EntryTargets root [] []
  | within {entry target : String} {entries targets : List String} (arrives : Normalizes root entry target)
      (rest : EntryTargets root entries targets) : EntryTargets root (entry :: entries) (target :: targets)
  | outside {entry : String} {entries targets : List String} (escapes : Escapes root entry)
      (rest : EntryTargets root entries targets) : EntryTargets root (entry :: entries) targets

/-- The targets of a package, with a path inside it or by itself, in order. -/
inductive PackageTargets (p : Package) : Option String → List String → Prop where
  | inside (sub : String) : PackageTargets p (some sub) [join p.root sub, join p.root ("src/" ++ sub)]
  | itself {targets : List String} (entries : EntryTargets p.root p.entryPoints targets) :
      PackageTargets p none (targets ++ [join p.root "src/index", join p.root "index"])

/-- The names under which targets are looked for, those of the first target in front. -/
inductive Listed : List String → List String → Prop where
  | nil : Listed [] []
  | cons {target : String} {targets names rest : List String} (own : Candidates target names)
      (others : Listed targets rest) : Listed (target :: targets) (names ++ rest)

end Resolution

/-! ### Names -/

namespace Specifier

/-- A specifier that is neither empty nor a path. -/
structure IsBare (specifier : String) : Prop where
  nonempty : specifier ≠ ""
  notRelative : ¬IsRelative specifier
  notRooted : ¬IsRooted specifier

/-- A specifier with a sign that no package has in its name. -/
def IsForeign (specifier : String) : Prop :=
  (∃ rest, specifier = "#" ++ rest) ∨ ':' ∈ specifier.toList ∧ ∀ rest, specifier ≠ "node:" ++ rest

/-- A specifier that names a package, and perhaps a path inside it. -/
structure Names (specifier name : String) (sub : Option String) : Prop where
  bare : IsBare specifier
  plain : ':' ∉ specifier.toList ∧ ∀ rest, specifier ≠ "#" ++ rest
  split : IsSplit specifier name sub

theorem Names.not_isForeign {specifier name : String} {sub : Option String} (h : Names specifier name sub) :
    (∀ rest, specifier ≠ "node:" ++ rest) ∧ ¬IsForeign specifier := by
  refine ⟨?_, ?_⟩
  · rintro rest rfl
    exact h.plain.1 (by simp)
  · rintro (⟨rest, hrest⟩ | ⟨hcolon, -⟩)
    · exact h.plain.2 rest hrest
    · exact h.plain.1 hcolon

end Specifier

namespace Resolver

open Resolution (Candidates Points Strays PackageTargets Listed candidates)

/-- The first name of a list that is a module. -/
def IsFirst (r : Resolver) (names : List String) (path : String) : Prop :=
  ∃ front back, names = front ++ path :: back ∧ r.modules path = true ∧ ∀ name ∈ front, r.modules name = false

/-- A list on which no name is a module. -/
def HasNone (r : Resolver) (names : List String) : Prop := ∀ name ∈ names, r.modules name = false

/-- The first package in the list with a name. -/
def IsPackage (r : Resolver) (name : String) (p : Package) : Prop :=
  ∃ front back, r.packages = front ++ p :: back ∧ p.name = name ∧ ∀ q ∈ front, q.name ≠ name

/-- A name that no package has. -/
def IsUnclaimed (r : Resolver) (name : String) : Prop := ∀ p ∈ r.packages, p.name ≠ name

/-- **The rules of resolution.** -/
inductive Resolves (r : Resolver) (importer specifier : String) : Resolution → Prop where
  | empty (written : specifier = "") : Resolves r importer specifier .unresolved
  -- a path has one target
  | path {target path : String} {names : List String} (points : Points importer specifier target)
      (listed : Candidates target names) (first : r.IsFirst names path) : Resolves r importer specifier (.module path)
  | missing {target : String} {names : List String} (points : Points importer specifier target)
      (listed : Candidates target names) (none : r.HasNone names) : Resolves r importer specifier .unresolved
  | astray (strays : Strays importer specifier) : Resolves r importer specifier .unresolved
  -- what is not a path is a name, unless a sign in it says that it is none
  | foreign (bare : IsBare specifier) (foreign : IsForeign specifier) :
      Resolves r importer specifier .unresolved
  | runtime {rest name : String} {sub : Option String} (written : specifier = "node:" ++ rest)
      (split : IsSplit rest name sub) : Resolves r importer specifier (.external name .builtin)
  -- a package of the workspace takes its name from the runtime and the registry
  | builtin {name : String} {sub : Option String} (names : Specifier.Names specifier name sub)
      (unclaimed : r.IsUnclaimed name) (known : name ∈ builtins) :
      Resolves r importer specifier (.external name .builtin)
  | registry {name : String} {sub : Option String} (names : Specifier.Names specifier name sub)
      (unclaimed : r.IsUnclaimed name) (unknown : name ∉ builtins) :
      Resolves r importer specifier (.external name .registry)
  -- and keeps it where nothing is found, so that the import still leads to the package
  | package {name path : String} {sub : Option String} {p : Package} {targets listed : List String}
      (names : Specifier.Names specifier name sub) (owner : r.IsPackage name p)
      (targeted : PackageTargets p sub targets) (lists : Listed targets listed) (first : r.IsFirst listed path) :
      Resolves r importer specifier (.module path)
  | unfound {name : String} {sub : Option String} {p : Package} {targets listed : List String}
      (names : Specifier.Names specifier name sub) (owner : r.IsPackage name p)
      (targeted : PackageTargets p sub targets) (lists : Listed targets listed) (none : r.HasNone listed) :
      Resolves r importer specifier (.external name .workspace)

/-! ### Searching -/

variable {r : Resolver} {names targets entries : List String} {path root target start text : String}

theorem find?_eq_some_iff : names.find? r.modules = some path ↔ r.IsFirst names path := by
  rw [find?_eq_some_iff_append]
  constructor
  · rintro ⟨hpath, front, back, rfl, hfront⟩
    exact ⟨front, back, rfl, hpath, fun name hname => by simpa using hfront name hname⟩
  · rintro ⟨front, back, rfl, hpath, hfront⟩
    exact ⟨hpath, front, back, rfl, fun name hname => by simpa using hfront name hname⟩

theorem find?_eq_none_iff : names.find? r.modules = none ↔ r.HasNone names := by
  simp [HasNone]

theorem package?_eq_some_iff {name : String} {p : Package} : r.package? name = some p ↔ r.IsPackage name p := by
  rw [package?, find?_eq_some_iff_append]
  constructor
  · rintro ⟨hname, front, back, hlist, hfront⟩
    exact ⟨front, back, hlist, eq_of_beq hname, fun q hq => by simpa using hfront q hq⟩
  · rintro ⟨front, back, hlist, hname, hfront⟩
    exact ⟨beq_iff_eq.2 hname, front, back, hlist, fun q hq => by simpa using hfront q hq⟩

theorem package?_eq_none_iff {name : String} : r.package? name = none ↔ r.IsUnclaimed name := by
  simp [package?, IsUnclaimed]

/-! ### Targets of packages -/

theorem entryTargets_iff : EntryTargets root entries targets ↔ entries.filterMap (resolve? root) = targets := by
  constructor
  · intro h
    induction h with
    | nil => rfl
    | within arrives _ ih => rw [filterMap_cons_some (resolve?_eq_some_iff.2 arrives), ih]
    | outside escapes _ ih => rw [filterMap_cons_none (resolve?_eq_none_iff.2 escapes), ih]
  · rintro rfl
    induction entries with
    | nil => exact .nil
    | cons entry entries ih =>
      cases hentry : resolve? root entry with
      | none =>
        rw [filterMap_cons_none hentry]
        exact .outside (resolve?_eq_none_iff.1 hentry) ih
      | some target =>
        rw [filterMap_cons_some hentry]
        exact .within (resolve?_eq_some_iff.1 hentry) ih

theorem listed_iff : Listed targets names ↔ targets.flatMap candidates = names := by
  constructor
  · intro h
    induction h with
    | nil => rfl
    | cons own _ ih => rw [flatMap_cons, candidates_eq_iff.2 own, ih]
  · rintro rfl
    induction targets with
    | nil => exact .nil
    | cons target targets ih => exact .cons (candidates_eq_iff.1 rfl) ih

/-- The targets of a package, as a list. -/
def targetsIn (p : Package) : Option String → List String
  | some sub => [join p.root sub, join p.root ("src/" ++ sub)]
  | none => p.entryPoints.filterMap (resolve? p.root) ++
      [join p.root "src/index", join p.root "index"]

theorem packageTargets_iff {p : Package} {sub : Option String} :
    PackageTargets p sub targets ↔ targetsIn p sub = targets := by
  constructor
  · rintro (sub | ⟨entries⟩)
    · rfl
    · rw [targetsIn, entryTargets_iff.1 entries]
  · rintro rfl
    cases sub with
    | some sub => exact .inside sub
    | none => exact .itself (entryTargets_iff.2 rfl)

variable {r : Resolver} {importer specifier name : String} {sub : Option String} {p : Package}

/-- A package is searched for on the lists of its targets, one after the other. -/
theorem find?_targetsIn (r : Resolver) (p : Package) (sub : Option String) :
    ((targetsIn p sub).flatMap candidates).find? r.modules = sub.elim (r.entry? p) (r.inside? p) := by
  have hpair : ∀ a b : String, [a, b].findSome? r.find? = (r.find? a).or (r.find? b) := by
    intro a b
    rw [findSome?_cons, findSome?_singleton]
    cases r.find? a <;> rfl
  rw [find?_flatMap]
  change (targetsIn p sub).findSome? r.find? = _
  cases sub with
  | some sub => exact hpair _ _
  | none =>
    rw [targetsIn, findSome?_append, hpair]
    rfl

theorem resolveName_of_package (hsplit : split specifier = (name, sub)) (hp : r.package? name = some p) :
    r.resolveName specifier =
      (((targetsIn p sub).flatMap candidates).find? r.modules).elim (.external name .workspace) .module := by
  rw [find?_targetsIn]
  unfold resolveName
  rw [hsplit]
  simp only [hp]
  cases sub with
  | some sub =>
    dsimp only [Option.elim_some]
    cases r.inside? p sub <;> rfl
  | none =>
    cases r.entry? p <;> rfl

theorem resolveName_of_unclaimed (hsplit : split specifier = (name, sub)) (hp : r.package? name = none) :
    r.resolveName specifier = .external name (if builtins.contains name then .builtin else .registry) := by
  rw [resolveName, hsplit]
  simp only [hp]

/-! ### Paths -/

/-- The target of a path, if there is one. -/
def target? (importer specifier : String) : Option String :=
  match specifier.toList with
  | '/' :: rest => resolve? "" (String.ofList rest)
  | _ => resolve? (parent importer) specifier

theorem resolvePath_eq (r : Resolver) (importer specifier : String) :
    r.resolvePath importer specifier = ((target? importer specifier).bind r.find?).elim .unresolved .module := by
  change (match (target? importer specifier).bind r.find? with
    | some path => module path
    | none => .unresolved) = _
  cases (target? importer specifier).bind r.find? <;> rfl

theorem target?_rooted (importer rest : String) : target? importer ("/" ++ rest) = resolve? "" rest := by
  have hchars : ("/" ++ rest).toList = '/' :: rest.toList := by simp
  rw [target?, hchars]
  simp only [String.ofList_toList]

theorem target?_relative (importer : String) (h : ¬IsRooted specifier) :
    target? importer specifier = resolve? (parent importer) specifier := by
  unfold target?
  split
  · next rest hchars =>
    exact absurd ⟨String.ofList rest, String.toList_injective (by rw [hchars]; simp)⟩ h
  · rfl

theorem not_isRooted_of_isRelative (h : IsRelative specifier) : ¬IsRooted specifier := by
  have hhead : specifier.toList.head? = some '.' := by
    obtain rfl | rfl | ⟨rest, rfl⟩ | ⟨rest, rfl⟩ := h <;> simp
  rintro ⟨rest, rfl⟩
  simp at hhead

/-- **The target of a path** is the one that it points to. -/
theorem target?_eq_some_iff (h : IsRelative specifier ∨ IsRooted specifier) :
    target? importer specifier = some target ↔ Points importer specifier target := by
  constructor
  · intro htarget
    obtain hrelative | ⟨rest, rfl⟩ := h
    · rw [target?_relative importer (not_isRooted_of_isRelative hrelative)] at htarget
      exact .relative hrelative (resolve?_eq_some_iff.1 htarget)
    · rw [target?_rooted] at htarget
      exact .rooted rfl (resolve?_eq_some_iff.1 htarget)
  · rintro (⟨rfl, arrives⟩ | ⟨written, arrives⟩)
    · rw [target?_rooted]
      exact resolve?_eq_some_iff.2 arrives
    · rw [target?_relative importer (not_isRooted_of_isRelative written)]
      exact resolve?_eq_some_iff.2 arrives

theorem target?_eq_none_iff (h : IsRelative specifier ∨ IsRooted specifier) :
    target? importer specifier = none ↔ Strays importer specifier := by
  constructor
  · intro htarget
    obtain hrelative | ⟨rest, rfl⟩ := h
    · rw [target?_relative importer (not_isRooted_of_isRelative hrelative)] at htarget
      exact .relative hrelative (resolve?_eq_none_iff.1 htarget)
    · rw [target?_rooted] at htarget
      exact .rooted rfl (resolve?_eq_none_iff.1 htarget)
  · rintro (⟨rfl, escapes⟩ | ⟨written, escapes⟩)
    · rw [target?_rooted]
      exact resolve?_eq_none_iff.2 escapes
    · rw [target?_relative importer (not_isRooted_of_isRelative written)]
      exact resolve?_eq_none_iff.2 escapes

/-! ### The order of the cases -/

theorem resolve_of_isPath (r : Resolver) (importer : String) (h : IsRelative specifier ∨ IsRooted specifier) :
    r.resolve importer specifier = r.resolvePath importer specifier := by
  have hbare : isBare specifier = false := by
    rw [← Bool.not_eq_true, isBare_iff]
    rintro ⟨-, hrelative, hrooted⟩
    exact h.elim hrelative hrooted
  have hne : specifier ≠ "" := by
    rintro rfl
    obtain h | ⟨rest, hrest⟩ := h
    · simp [IsRelative] at h
    · simp at hrest
  rw [resolve, if_neg hne, if_pos (by simp [hbare])]

theorem dropStart?_eq_none_iff : Text.dropStart? start.toList text.toList = none ↔ ∀ rest, text ≠ start ++ rest := by
  rw [← Option.not_isSome_iff_eq_none]
  change ¬Text.startsWith start.toList text.toList = true ↔ _
  rw [Text.startsWith_iff, toList_eq_append_iff, not_exists]

theorem resolve_of_runtime (r : Resolver) (importer rest : String) :
    r.resolve importer ("node:" ++ rest) = .external (packageName rest) .builtin := by
  have hchars : ("node:" ++ rest).toList = "node:".toList ++ rest.toList := String.toList_append
  have hbare : isBare ("node:" ++ rest) = true := by
    unfold isBare
    rw [hchars]
    rfl
  unfold resolve
  rw [if_neg (by simp), if_neg (by simp [hbare]), hchars, Text.dropStart?_append]
  simp only [String.ofList_toList]

theorem resolve_of_isBare (r : Resolver) (importer : String) (hbare : IsBare specifier)
    (hnode : ∀ rest, specifier ≠ "node:" ++ rest) :
    r.resolve importer specifier =
      if specifier.toList.head? == some '#' || specifier.toList.contains ':' then .unresolved
      else r.resolveName specifier := by
  have hisBare : isBare specifier = true := isBare_iff.2 ⟨hbare.nonempty, hbare.notRelative, hbare.notRooted⟩
  unfold resolve
  rw [if_neg hbare.nonempty, if_neg (by simp [hisBare]), dropStart?_eq_none_iff.2 hnode]

/-- What makes a bare specifier foreign, in signs. -/
theorem isForeign_iff (hnode : ∀ rest, specifier ≠ "node:" ++ rest) :
    (specifier.toList.head? == some '#' || specifier.toList.contains ':') = true ↔ IsForeign specifier := by
  have hhead : specifier.toList.head? = some '#' ↔ ∃ rest, specifier = "#" ++ rest := by
    rw [head?_eq_some_iff]
    exact @toList_eq_append_iff specifier "#"
  simp [IsForeign, ← hhead, hnode]

theorem resolve_of_names (r : Resolver) (importer : String) (h : Specifier.Names specifier name sub) :
    r.resolve importer specifier = r.resolveName specifier := by
  obtain ⟨hnode, hforeign⟩ := h.not_isForeign
  rw [resolve_of_isBare r importer h.bare hnode, if_neg fun hsigns => hforeign ((isForeign_iff hnode).1 hsigns)]

/-! ### The rules and the resolver -/

/-- The names of packages follow the rules. -/
theorem resolves_resolveName (r : Resolver) (importer : String) (h : Specifier.Names specifier name sub) :
    Resolves r importer specifier (r.resolveName specifier) := by
  have hsplit : Specifier.split specifier = (name, sub) := Specifier.split_eq_iff.2 h.split
  cases hp : r.package? name with
  | none =>
    rw [resolveName_of_unclaimed hsplit hp]
    have hunclaimed := package?_eq_none_iff.1 hp
    by_cases hknown : name ∈ builtins
    · rw [if_pos (contains_iff_mem.2 hknown)]
      exact .builtin h hunclaimed hknown
    · rw [if_neg (mt contains_iff_mem.1 hknown)]
      exact .registry h hunclaimed hknown
  | some p =>
    rw [resolveName_of_package hsplit hp]
    have howner := package?_eq_some_iff.1 hp
    have htargets : PackageTargets p sub (targetsIn p sub) := packageTargets_iff.2 rfl
    have hlists : Listed (targetsIn p sub) ((targetsIn p sub).flatMap candidates) := listed_iff.2 rfl
    cases hfound : ((targetsIn p sub).flatMap candidates).find? r.modules with
    | none => exact .unfound h howner htargets hlists (find?_eq_none_iff.1 hfound)
    | some path => exact .package h howner htargets hlists (find?_eq_some_iff.1 hfound)

/-- Paths follow the rules. -/
theorem resolves_resolvePath (r : Resolver) (importer : String) (h : IsRelative specifier ∨ IsRooted specifier) :
    Resolves r importer specifier (r.resolvePath importer specifier) := by
  rw [resolvePath_eq]
  cases htarget : target? importer specifier with
  | none => exact .astray ((target?_eq_none_iff h).1 htarget)
  | some target =>
    have hpoints := (target?_eq_some_iff h).1 htarget
    have hlisted : Candidates target (candidates target) := candidates_eq_iff.1 rfl
    rw [Option.bind_some, find?]
    cases hfound : (candidates target).find? r.modules with
    | none => exact .missing hpoints hlisted (find?_eq_none_iff.1 hfound)
    | some path => exact .path hpoints hlisted (find?_eq_some_iff.1 hfound)

/-- **Every answer follows the rules.** -/
theorem resolves_resolve (r : Resolver) (importer specifier : String) :
    Resolves r importer specifier (r.resolve importer specifier) := by
  by_cases hempty : specifier = ""
  · rw [resolve, if_pos hempty]
    exact .empty hempty
  by_cases hpath : IsRelative specifier ∨ IsRooted specifier
  · rw [resolve_of_isPath r importer hpath]
    exact resolves_resolvePath r importer hpath
  have hbare : IsBare specifier := ⟨hempty, (not_or.1 hpath).1, (not_or.1 hpath).2⟩
  by_cases hnode : ∃ rest, specifier = "node:" ++ rest
  · obtain ⟨rest, rfl⟩ := hnode
    rw [resolve_of_runtime]
    exact .runtime rfl (isSplit_split rest)
  · have hnode : ∀ rest, specifier ≠ "node:" ++ rest := not_exists.1 hnode
    rw [resolve_of_isBare r importer hbare hnode]
    split
    · next hsigns => exact .foreign hbare ((isForeign_iff hnode).1 hsigns)
    · next hsigns =>
      -- neither sign is there, so the specifier is a name
      have hforeign := mt (isForeign_iff hnode).2 hsigns
      refine resolves_resolveName r importer ⟨hbare, ⟨fun hcolon => ?_, fun rest hrest => ?_⟩, isSplit_split specifier⟩
      · exact hforeign (.inr ⟨hcolon, hnode⟩)
      · exact hforeign (.inl ⟨rest, hrest⟩)

/-- **The rules give no other answer.** -/
theorem resolve_of_resolves {answer : Resolution} (h : Resolves r importer specifier answer) :
    r.resolve importer specifier = answer := by
  -- what is found for a package, for a name that no package has, and for a path, with the lists of the rules
  have hpackage : ∀ {name sub p targets listed}, Specifier.Names specifier name sub → r.IsPackage name p →
      PackageTargets p sub targets → Listed targets listed →
      r.resolve importer specifier = (listed.find? r.modules).elim (.external name .workspace) .module := by
    intro name sub p targets listed names owner targeted lists
    rw [resolve_of_names r importer names,
      resolveName_of_package (split_eq_iff.2 names.split) (package?_eq_some_iff.2 owner),
      packageTargets_iff.1 targeted, listed_iff.1 lists]
  have hunclaimed : ∀ {name sub}, Specifier.Names specifier name sub → r.IsUnclaimed name →
      r.resolve importer specifier = .external name (if builtins.contains name then .builtin else .registry) := by
    intro name sub names unclaimed
    rw [resolve_of_names r importer names,
      resolveName_of_unclaimed (split_eq_iff.2 names.split) (package?_eq_none_iff.2 unclaimed)]
  have hpath : ∀ {target names}, Points importer specifier target → Candidates target names →
      r.resolve importer specifier = (names.find? r.modules).elim .unresolved .module := by
    intro target names points listed
    rw [resolve_of_isPath r importer points.isPath, resolvePath_eq, (target?_eq_some_iff points.isPath).2 points,
      Option.bind_some, find?, candidates_eq_iff.2 listed]
  cases h with
  | empty written => rw [resolve, if_pos written]
  | path points listed first => rw [hpath points listed, find?_eq_some_iff.2 first, Option.elim_some]
  | missing points listed none => rw [hpath points listed, find?_eq_none_iff.2 none, Option.elim_none]
  | astray strays =>
    rw [resolve_of_isPath r importer strays.isPath, resolvePath_eq, (target?_eq_none_iff strays.isPath).2 strays,
      Option.bind_none, Option.elim_none]
  | foreign bare foreign =>
    -- the prefix of the runtime is looked for first, but a foreign specifier does not have it
    have hnode : ∀ rest, specifier ≠ "node:" ++ rest := by
      rintro rest rfl
      obtain ⟨other, hother⟩ | ⟨-, hnode⟩ := foreign
      · have hhead := congrArg (fun text : String => text.toList.head?) hother
        simp at hhead
      · exact hnode rest rfl
    rw [resolve_of_isBare r importer bare hnode, if_pos ((isForeign_iff hnode).2 foreign)]
  | runtime written split =>
    rw [written, resolve_of_runtime, packageName, split_eq_iff.2 split]
  | builtin names unclaimed known => rw [hunclaimed names unclaimed, if_pos (contains_iff_mem.2 known)]
  | registry names unclaimed unknown => rw [hunclaimed names unclaimed, if_neg (mt contains_iff_mem.1 unknown)]
  | package names owner targeted lists first =>
    rw [hpackage names owner targeted lists, find?_eq_some_iff.2 first, Option.elim_some]
  | unfound names owner targeted lists none =>
    rw [hpackage names owner targeted lists, find?_eq_none_iff.2 none, Option.elim_none]

/-- **Resolution follows the rules.** A specifier refers to what the rules say, and to nothing else. -/
theorem resolve_eq_iff (r : Resolver) (importer specifier : String) (answer : Resolution) :
    r.resolve importer specifier = answer ↔ Resolves r importer specifier answer := by
  constructor
  · rintro rfl
    exact resolves_resolve r importer specifier
  · exact resolve_of_resolves

end Resolver

end Cartograph
