import Cartograph.Proofs.Analysis.Codes

/-!
# Missing dependencies

A package lacks a name if one of its modules imports it and its manifest does not declare it (`Lacks`). What counts as
an import of a name is read off the graph (`References`). Main statement: `reportsLacking_find`. The findings with the
code of missing dependencies correspond one to one to the pairs of a package and a name that it lacks.

The correspondence is a table of the pairs and their findings (`ReportsLacking`). A finding alone would not do: its
message is made of names, and names may hold anything.
-/

namespace Cartograph

open List Specifier

namespace Dependencies

/-! ### What a package lacks -/

/-- What an import refers to by a name: a package outside that is not part of the runtime, or a module that is named by
its package. -/
inductive RefersTo (g : Graph) (e : Edge) (name : String) : Prop where
  | outside {x : External} (node : g.node? e.target = some (.external x)) (named : x.name = name)
      (origin : x.origin = .registry ∨ x.origin = .workspace)
  | inside {m : ModuleNode} {sub : Option String} (node : g.node? e.target = some (.module m))
      (bare : IsBare e.specifier) (split : IsSplit e.specifier name sub)

/-- An import by a module of a package that refers to a name. -/
structure References (g : Graph) (countTypeOnly : Bool) (i : Nat) (name : String) (e : Edge) : Prop where
  edge : e ∈ g.edges.toList
  owner : ∃ m, g.module? e.source = some m ∧ m.package = i
  /-- Imports for types may be left out. -/
  kind : e.kind = .typeOnly → countTypeOnly = true
  target : RefersTo g e name

/-- A name that a package refers to without declaring it. -/
structure Lacks (g : Graph) (policy : DependencyPolicy) (i : Nat) (name : String) : Prop where
  undeclared : ∃ p declared, g.packages[i]? = some p ∧ p.declared = some declared ∧ name ∉ declared.toList ∧
    name ≠ p.name
  checked : policy.isIgnored name = false
  referenced : ∃ e, References g policy.countTypeOnly i name e

/-- A finding on a name that a package lacks. -/
structure Tells (g : Graph) (policy : DependencyPolicy) (i : Nat) (name : String) (d : Diagnostic) : Prop where
  code : d.code = "AG202"
  category : d.category = .dependency
  place : ∃ e, References g policy.countTypeOnly i name e ∧ d.location = g.edgeLocation e
  message : ∃ p, g.packages[i]? = some p ∧ d.message =
    "package `" ++ p.name ++ "` imports `" ++ name ++ "` but does not declare it in " ++ p.manifest

/-- Findings of which there is one for each package and name that it lacks, and no other. -/
def ReportsLacking (g : Graph) (policy : DependencyPolicy) (found : List Diagnostic) : Prop :=
  ∃ table : List ((Nat × String) × Diagnostic),
    (table.map (·.1)).Nodup ∧ (∀ i name, (i, name) ∈ table.map (·.1) ↔ Lacks g policy i name) ∧
      (∀ row ∈ table, Tells g policy row.1.1 row.1.2 row.2) ∧ (table.map (·.2)).Perm found

/-! ### Uses -/

variable {g : Graph} {policy : DependencyPolicy} {countTypeOnly : Bool} {i : Nat} {p : Package} {name own : String}
  {e : Edge} {d : Diagnostic}

theorem refersTo_external {x : External} (hnode : g.node? e.target = some (.external x)) :
    RefersTo g e name ↔ x.origin ≠ .builtin ∧ x.name = name := by
  constructor
  · rintro (⟨node, named, origin⟩ | ⟨node, -, -⟩)
    · cases hnode.symm.trans node
      refine ⟨?_, named⟩
      obtain h | h := origin <;> rw [h] <;> exact nofun
    · cases hnode.symm.trans node
  · rintro ⟨hbuiltin, named⟩
    refine .outside hnode named ?_
    cases horigin : x.origin with
    | registry => exact .inl rfl
    | workspace => exact .inr rfl
    | builtin => exact absurd horigin hbuiltin

theorem refersTo_module {m : ModuleNode} (hnode : g.node? e.target = some (.module m)) :
    RefersTo g e name ↔ isBare e.specifier = true ∧ packageName e.specifier = name := by
  rw [isBare_iff]
  constructor
  · rintro (⟨node, -, -⟩ | ⟨-, bare, split⟩)
    · cases hnode.symm.trans node
    · refine ⟨⟨bare.nonempty, bare.notRelative, bare.notRooted⟩, ?_⟩
      rw [packageName, split_of_isSplit split]
  · rintro ⟨⟨nonempty, notRelative, notRooted⟩, rfl⟩
    exact .inside hnode ⟨nonempty, notRelative, notRooted⟩ (isSplit_split e.specifier)

/-- **What an import counts as a use of.** -/
theorem usedName?_eq_some_iff : usedName? g countTypeOnly own e = some name ↔
    (e.kind = .typeOnly → countTypeOnly = true) ∧ RefersTo g e name ∧ name ≠ own := by
  unfold usedName?
  by_cases hkind : e.kind = .typeOnly → countTypeOnly = true
  · have hcounted : ¬(decide (e.kind = .typeOnly) && !countTypeOnly) = true := by simpa using hkind
    rw [if_neg hcounted, Option.filter_eq_some_iff, bne_iff_ne]
    refine Iff.trans (and_congr_left fun _ => ?_) (and_iff_right hkind).symm
    cases hnode : g.node? e.target with
    | none =>
      refine ⟨nofun, ?_⟩
      rintro (⟨node, -, -⟩ | ⟨node, -, -⟩) <;> cases hnode.symm.trans node
    | some node =>
      cases node with
      | external x =>
        rw [refersTo_external hnode]
        by_cases hbuiltin : x.origin = .builtin <;> simp [hbuiltin]
      | module m =>
        rw [refersTo_module hnode]
        by_cases hbare : isBare e.specifier = true <;> simp [hbare]
  · have hcounted : (decide (e.kind = .typeOnly) && !countTypeOnly) = true := by simpa using hkind
    rw [if_pos hcounted]
    exact ⟨nofun, fun h => absurd h.1 hkind⟩

/-- An import that counts as a use belongs to a module of the package, and determines the name. -/
theorem mem_uses_iff : (name, e) ∈ uses g countTypeOnly i p ↔
    e ∈ g.edges.toList ∧ (∃ m, g.module? e.source = some m ∧ m.package = i) ∧
      usedName? g countTypeOnly p.name e = some name := by
  unfold uses Graph.outgoing
  simp only [mem_flatMap, mem_filterMap, mem_filter, Graph.mem_modulesOf, Option.map_eq_some_iff,
    Prod.mk.injEq, beq_iff_eq]
  constructor
  · rintro ⟨j, hj, edge, ⟨hedge, rfl⟩, used, hused, rfl, rfl⟩
    exact ⟨hedge, hj, hused⟩
  · rintro ⟨hedge, hj, hused⟩
    exact ⟨e.source, hj, e, ⟨hedge, rfl⟩, name, hused, rfl, rfl⟩

theorem mem_uses : (name, e) ∈ uses g countTypeOnly i p ↔
    References g countTypeOnly i name e ∧ name ≠ p.name := by
  rw [mem_uses_iff, usedName?_eq_some_iff]
  constructor
  · rintro ⟨edge, owner, kind, target, hne⟩
    exact ⟨⟨edge, owner, kind, target⟩, hne⟩
  · rintro ⟨⟨edge, owner, kind, target⟩, hne⟩
    exact ⟨edge, owner, kind, target, hne⟩

/-! ### Findings -/

/-- The names that a package lacks, in order. -/
def lacked (policy : DependencyPolicy) (g : Graph) (i : Nat) (p : Package) : List String :=
  p.declared.elim [] fun declared =>
    (Names.ofList ((uses g policy.countTypeOnly i p).map (·.1))).toList.filter fun n =>
      !declared.contains n && !policy.isIgnored n

/-- The imports of a name, in order. -/
def importsOf (policy : DependencyPolicy) (g : Graph) (i : Nat) (p : Package) (name : String) : List Edge :=
  ((uses g policy.countTypeOnly i p).filter (·.1 == name)).map (·.2)

/-- The finding on a name that is imported. -/
def missing? (policy : DependencyPolicy) (g : Graph) (i : Nat) (p : Package) (name : String) : Option Diagnostic :=
  match importsOf policy g i p name with
  | first :: rest => some (missing policy g p name first rest)
  | [] => none

theorem mem_importsOf :
    e ∈ importsOf policy g i p name ↔ References g policy.countTypeOnly i name e ∧ name ≠ p.name := by
  rw [importsOf, mem_map, ← mem_uses]
  constructor
  · rintro ⟨⟨used, e⟩, huse, rfl⟩
    obtain ⟨huse, hname⟩ := mem_filter.1 huse
    exact eq_of_beq hname ▸ huse
  · intro huse
    exact ⟨(name, e), mem_filter.2 ⟨huse, beq_self_eq_true name⟩, rfl⟩

theorem nodup_lacked (policy : DependencyPolicy) (g : Graph) (i : Nat) (p : Package) : (lacked policy g i p).Nodup := by
  unfold lacked
  cases p.declared with
  | none => exact nodup_nil
  | some declared => exact (Names.nodup _).filter _

theorem mem_lacked (hp : g.packages[i]? = some p) : name ∈ lacked policy g i p ↔ Lacks g policy i name := by
  have hused : name ∈ (Names.ofList ((uses g policy.countTypeOnly i p).map (·.1))).toList ↔
      (∃ e, References g policy.countTypeOnly i name e) ∧ name ≠ p.name := by
    rw [Names.mem_ofList, mem_map]
    constructor
    · rintro ⟨⟨_, e⟩, huse, rfl⟩
      obtain ⟨hreferences, hne⟩ := mem_uses.1 huse
      exact ⟨⟨e, hreferences⟩, hne⟩
    · rintro ⟨⟨e, hreferences⟩, hne⟩
      exact ⟨(name, e), mem_uses.2 ⟨hreferences, hne⟩, rfl⟩
  unfold lacked
  cases hdeclared : p.declared with
  | none =>
    refine ⟨nofun, ?_⟩
    rintro ⟨⟨q, declared, hq, hdeclared', -⟩, -, -⟩
    cases hp.symm.trans hq
    cases hdeclared.symm.trans hdeclared'
  | some declared =>
    rw [Option.elim_some, mem_filter, hused]
    simp only [Names.contains, Bool.and_eq_true, Bool.not_eq_eq_eq_not, Bool.not_true, contains_eq_mem,
      decide_eq_false_iff_not]
    constructor
    · rintro ⟨⟨hreferenced, hne⟩, hundeclared, hchecked⟩
      exact ⟨⟨p, declared, hp, hdeclared, hundeclared, hne⟩, hchecked, hreferenced⟩
    · rintro ⟨⟨q, declared', hq, hdeclared', hundeclared, hne⟩, hchecked, hreferenced⟩
      cases hp.symm.trans hq
      cases hdeclared.symm.trans hdeclared'
      exact ⟨⟨hreferenced, hne⟩, hundeclared, hchecked⟩

/-- A name that is lacked has a finding. -/
theorem exists_missing? (hp : g.packages[i]? = some p) (h : name ∈ lacked policy g i p) :
    ∃ d, missing? policy g i p name = some d := by
  obtain ⟨⟨q, declared, hq, -, -, hne⟩, -, e, hreferences⟩ := (mem_lacked hp).1 h
  cases hp.symm.trans hq
  have he : e ∈ importsOf policy g i p name := mem_importsOf.2 ⟨hreferences, hne⟩
  unfold missing?
  cases himports : importsOf policy g i p name with
  | nil => rw [himports] at he; cases he
  | cons first rest => exact ⟨_, rfl⟩

theorem of_missing? (h : missing? policy g i p name = some d) :
    ∃ first rest, importsOf policy g i p name = first :: rest ∧ d = missing policy g p name first rest := by
  unfold missing? at h
  split at h
  · next first rest himports => exact ⟨first, rest, himports, (Option.some.inj h).symm⟩
  · cases h

/-- The finding on a name tells the package and the name. -/
theorem tells_missing? (hp : g.packages[i]? = some p) (h : missing? policy g i p name = some d) :
    Tells g policy i name d := by
  obtain ⟨first, rest, himports, rfl⟩ := of_missing? h
  obtain ⟨hlocation, hcode, hmessage, hcategory⟩ := missing_keeps policy g p name first rest
  have hfirst : first ∈ importsOf policy g i p name := himports ▸ mem_cons_self
  exact ⟨hcode, hcategory, ⟨first, (mem_importsOf.1 hfirst).1, hlocation⟩, p, hp, hmessage⟩

theorem filter_findIn (policy : DependencyPolicy) (g : Graph) (i : Nat) (p : Package) :
    (findIn policy g i p).filter (·.code = "AG202") = (lacked policy g i p).filterMap (missing? policy g i p) := by
  unfold findIn lacked
  cases p.declared with
  | none => rfl
  | some declared =>
    rw [filter_append, filter_eq_nil_iff.2, filter_eq_self.2]
    · rfl
    · intro d hd
      obtain ⟨n, -, hn⟩ := mem_filterMap.1 hd
      obtain ⟨first, rest, -, rfl⟩ := of_missing? hn
      rw [(missing_keeps policy g p n first rest).2.1]
      rfl
    · intro d hd
      obtain ⟨n, -, rfl⟩ := mem_map.1 hd
      simp [unused]

/-! ### The table -/

/-- The names that a package lacks, with their findings. -/
def rowsIn (policy : DependencyPolicy) (g : Graph) (i : Nat) (p : Package) : List ((Nat × String) × Diagnostic) :=
  (lacked policy g i p).filterMap fun name => (missing? policy g i p name).map ((i, name), ·)

/-- The rows of all packages. -/
def rows (policy : DependencyPolicy) (g : Graph) : List ((Nat × String) × Diagnostic) :=
  g.packages.zipIdx.flatMap fun (p, i) => rowsIn policy g i p

theorem mem_rows {row : (Nat × String) × Diagnostic} : row ∈ rows policy g ↔
    ∃ p, g.packages[row.1.1]? = some p ∧ row.1.2 ∈ lacked policy g row.1.1 p ∧
      missing? policy g row.1.1 p row.1.2 = some row.2 := by
  unfold rows rowsIn
  simp only [mem_flatMap, Prod.exists, mem_zipIdx_iff_getElem?, mem_filterMap, Option.map_eq_some_iff]
  constructor
  · rintro ⟨p, i, hp, name, hname, d, hd, rfl⟩
    exact ⟨p, hp, hname, hd⟩
  · rintro ⟨p, hp, hname, hd⟩
    exact ⟨p, row.1.1, hp, row.1.2, hname, row.2, hd, rfl⟩

theorem nodup_rows (policy : DependencyPolicy) (g : Graph) : ((rows policy g).map (·.1)).Nodup := by
  have hnumbers : g.packages.zipIdx.Pairwise fun a b => a.2 ≠ b.2 := by
    rw [← pairwise_map, zipIdx_map_snd]
    exact nodup_range'
  have hfirst {i : Nat} {p : Package} {pair : Nat × String} (h : pair ∈ (rowsIn policy g i p).map (·.1)) :
      pair.1 = i := by
    obtain ⟨row, hrow, rfl⟩ := mem_map.1 h
    obtain ⟨name, -, hname⟩ := mem_filterMap.1 hrow
    obtain ⟨d, -, rfl⟩ := Option.map_eq_some_iff.1 hname
    rfl
  -- the pairs of one package differ in the name, those of two packages in the number
  rw [rows, map_flatMap, nodup_flatMap]
  constructor
  · rintro ⟨p, i⟩ -
    change ((rowsIn policy g i p).map (·.1)).Nodup
    rw [rowsIn, map_filterMap]
    refine (nodup_lacked policy g i p).filterMap ?_
    intro name name' pair hname hname'
    rw [Option.map_map, Option.mem_def, Option.map_eq_some_iff] at hname hname'
    obtain ⟨d, -, rfl⟩ := hname
    obtain ⟨d', -, hpair⟩ := hname'
    exact (Prod.mk.inj hpair).2.symm
  · refine hnumbers.imp ?_
    intro a b hne pair ha hb
    exact hne ((hfirst ha).symm.trans (hfirst hb))

theorem map_rows (context : AnalysisContext) : (rows context.config.dependencies context.graph).map (·.2) =
    (find context).filter (·.code = "AG202") := by
  unfold rows rowsIn find
  rw [map_flatMap, filter_flatMap]
  congr 1
  funext entry
  rw [filter_findIn, map_filterMap]
  congr 1
  funext name
  rw [Option.map_map]
  exact Option.map_id'

/-- The table has the pairs of a package and a name that it lacks. -/
theorem mem_map_rows : (i, name) ∈ (rows policy g).map (·.1) ↔ Lacks g policy i name := by
  rw [mem_map]
  constructor
  · rintro ⟨row, hrow, hpair⟩
    obtain ⟨p, hp, hname, -⟩ := mem_rows.1 hrow
    rw [hpair] at hp hname
    exact (mem_lacked hp).1 hname
  · intro hlacks
    obtain ⟨p, declared, hp, -⟩ := hlacks.undeclared
    have hname := (mem_lacked hp).2 hlacks
    obtain ⟨d, hd⟩ := exists_missing? hp hname
    exact ⟨((i, name), d), mem_rows.2 ⟨p, hp, hname, hd⟩, rfl⟩

/-- **What is missing is found once.** -/
theorem reportsLacking_find (context : AnalysisContext) :
    ReportsLacking context.graph context.config.dependencies ((find context).filter (·.code = "AG202")) := by
  refine ⟨rows context.config.dependencies context.graph, nodup_rows _ _, fun i name => mem_map_rows, ?_,
    map_rows context ▸ .refl _⟩
  intro row hrow
  obtain ⟨p, hp, -, hd⟩ := mem_rows.1 hrow
  exact tells_missing? hp hd

end Dependencies

end Cartograph
