import Cartograph.Proofs.Source.Strings
import Cartograph.Proofs.TypeScript.Comments.Imports
import Mathlib.Data.List.Basic

/-!
# The order of imports in a tree

Every import that is found in trees is named by a string of its own (`named_importsInAll`), and what is found in one tree
comes before what is found in the next. Within a node, the import that the node makes itself comes first. In an import or
export statement nothing else is found (`IsSound`). A call names its import in its arguments, so what is found in the trees
before them stands further left but comes behind it.

Main statement (`arranged_importsInAll`), for trees whose strings stand one behind the other: no two imports have the same
position, and imports come in the order of their positions if and only if no call that makes an import has imports before
its arguments (`isInOrderAll`).
-/

namespace Cartograph

open List
open Source (Tree Role Kind Position Ascending)
open Source.Tree (stringsIn stringsOf inRole?)

/-- Where an import stands. -/
def Import.position (i : Import) : Position := ⟨i.line, i.column⟩

namespace TypeScript

variable {imports a b : List Import} {ts : List Tree} {first : Tree} {ordered : Bool}

/-- Imports in the order of their positions. -/
def Sorted (imports : List Import) : Prop := imports.Pairwise fun i j => i.position.Before j.position

/-- Imports at different positions. -/
def Distinct (imports : List Import) : Prop := imports.Pairwise fun i j => i.position ≠ j.position

theorem Sorted.distinct (h : Sorted imports) : Distinct imports := h.imp fun hbefore => hbefore.ne

/-! ### Strings that name imports -/

/-- A string names an import: its text between the quotes is the specifier, and the import stands where the string does. -/
structure Names (s : List Char × Position) (i : Import) : Prop where
  specifier : i.specifier = unquoted s.1
  position : i.position = s.2

/-- All imports are named by strings among those given. -/
def Named (imports : List Import) (strings : List (List Char × Position)) : Prop := ∀ i ∈ imports, ∃ s ∈ strings, Names s i

variable {strings s' more : List (List Char × Position)} {arguments : Tree}

theorem Named.mono (h : Named imports strings) (hmore : ∀ s ∈ strings, s ∈ more) : Named imports more := by
  intro i hi
  obtain ⟨s, hs, hnames⟩ := h i hi
  exact ⟨s, hmore s hs, hnames⟩

theorem Named.append {s : List (List Char × Position)} (ha : Named a s) (hb : Named b s') :
    Named (a ++ b) (s ++ s') := by
  intro i hi
  obtain hi | hi := mem_append.1 hi
  · exact ha.mono (fun _ => mem_append_left _) i hi
  · exact hb.mono (fun _ => mem_append_right _) i hi

/-- Imports named by earlier strings stand before imports named by later ones. -/
theorem Named.before {s : List (List Char × Position)} (ha : Named a s) (hb : Named b s')
    (h : Ascending (s ++ s')) {i j : Import} (hi : i ∈ a) (hj : j ∈ b) : i.position.Before j.position := by
  obtain ⟨x, hx, hnames⟩ := ha i hi
  obtain ⟨y, hy, hnames'⟩ := hb j hj
  rw [hnames.position, hnames'.position]
  exact (Source.ascending_append.1 h).2.2 x hx y hy

theorem named_nil : Named [] strings := fun _ hi => absurd hi not_mem_nil

variable {s : List Char × Position} {t : Tree} {trees : List Tree}

theorem named_importOf? {kind : ImportKind} : Named (importOf? kind t).toList t.stringsIn := by
  unfold importOf?
  split
  · next role text p =>
    intro i hi
    obtain rfl := mem_singleton.1 hi
    exact ⟨(text, p), by simp, rfl, rfl⟩
  · exact named_nil

theorem mem_stringsOf (ht : t ∈ ts) (hs : s ∈ t.stringsIn) : s ∈ stringsOf ts := by
  obtain ⟨before, behind, rfl⟩ := append_of_mem ht
  simp [hs]

theorem exists_of_mem_stringsOf (hs : s ∈ stringsOf ts) : ∃ t ∈ ts, s ∈ t.stringsIn := by
  induction ts with
  | nil => exact absurd hs not_mem_nil
  | cons t ts ih =>
    rw [Tree.stringsOf_cons] at hs
    obtain hs | hs := mem_append.1 hs
    · exact ⟨t, mem_cons_self, hs⟩
    · obtain ⟨u, hu, hs⟩ := ih hs
      exact ⟨u, mem_cons_of_mem _ hu, hs⟩

theorem mem_stringsIn (hs : s ∈ stringsOf t.children) : s ∈ t.stringsIn := by
  cases t with
  | leaf kind role text p => simp [Tree.children] at hs
  | node kind role children => simpa [Tree.children] using hs

/-- An import that is named by one of the trees below a tree. -/
theorem named_bind_importOf? (kind : ImportKind) {child : Option Tree} (hchild : ∀ u ∈ child, u ∈ t.children) :
    Named (child.bind (importOf? kind)).toList t.stringsIn := by
  cases child with
  | none => exact named_nil
  | some u => exact named_importOf?.mono fun s hs => mem_stringsIn (mem_stringsOf (hchild u rfl) hs)

theorem named_source (kind : ImportKind) (t : Tree) :
    Named ((inRole? .source t.children).bind (importOf? kind)).toList t.stringsIn :=
  named_bind_importOf? kind fun _ => mem_of_find?_eq_some

theorem named_importStatementImports (trees : List Tree) : Named (importStatementImports trees) (stringsOf trees) := by
  unfold importStatementImports
  split
  · next source hsource => exact named_importOf?.mono fun s => mem_stringsOf (mem_of_find?_eq_some hsource)
  · intro i hi
    obtain ⟨clause, hclause, hi⟩ := mem_filterMap.1 hi
    refine (named_source _ clause).mono (fun s => ?_) i (Option.mem_toList.2 hi)
    exact mem_stringsOf (mem_filter.1 hclause).1

theorem named_exportStatementImports (trees : List Tree) : Named (exportStatementImports trees) (stringsOf trees) := by
  unfold exportStatementImports
  split
  · next source hsource => exact named_importOf?.mono fun s => mem_stringsOf (mem_of_find?_eq_some hsource)
  · exact named_nil

/-- The import of a call is named by the first of its arguments. -/
theorem named_callImports (trees : List Tree) : Named (callImports trees) (stringsOf trees) := by
  unfold callImports
  split
  · next kind arguments _ harguments =>
    refine (named_bind_importOf? kind (t := arguments) fun u => mem_of_find?_eq_some).mono ?_
    exact fun s => mem_stringsOf (mem_of_find?_eq_some harguments)
  · exact named_nil

theorem named_ownImports (kind : Kind) (trees : List Tree) : Named (ownImports kind trees) (stringsOf trees) := by
  unfold ownImports
  split
  · exact named_importStatementImports trees
  · exact named_exportStatementImports trees
  · exact named_callImports trees
  · exact named_nil

mutual

/-- **Every import in a tree is named by a string in it.** -/
theorem named_importsIn : ∀ t : Tree, Named (importsIn t) t.stringsIn
  | .leaf _ _ _ _ => named_nil
  | .node kind role trees => by
    rw [importsIn_node, Tree.stringsIn_node]
    intro i hi
    obtain hi | hi := mem_append.1 hi
    · exact named_ownImports kind trees i hi
    · split at hi
      · exact absurd hi not_mem_nil
      · exact named_importsInAll trees i hi

theorem named_importsInAll : ∀ ts : List Tree, Named (importsInAll ts) (stringsOf ts)
  | [] => named_nil
  | t :: ts => by
    rw [importsInAll, Tree.stringsOf_cons]
    exact (named_importsIn t).append (named_importsInAll ts)

end

/-! ### Trees one behind the other -/

section Trees

variable {f : Tree → List Import} {trees : List Tree}

theorem pairwise_before (hnamed : ∀ t, Named (f t) t.stringsIn) (h : Ascending (stringsOf trees)) :
    trees.Pairwise fun t u => ∀ i ∈ f t, ∀ j ∈ f u, i.position.Before j.position := by
  induction trees with
  | nil => exact .nil
  | cons t trees ih =>
    rw [Tree.stringsOf_cons] at h
    refine .cons (fun u hu i hi j hj => ?_) (ih (Source.ascending_append.1 h).2.1)
    exact (hnamed t).before ((hnamed u).mono fun s hs => mem_stringsOf hu hs) h hi hj

theorem ascending_of_mem (h : Ascending (stringsOf trees)) (ht : t ∈ trees) : Ascending t.stringsIn := by
  obtain ⟨before, behind, rfl⟩ := append_of_mem ht
  rw [Tree.stringsOf_append, Tree.stringsOf_cons] at h
  exact (Source.ascending_append.1 (Source.ascending_append.1 h).2.1).1

/-- How imports lie in a text: at different positions, and in their order exactly if `ordered` says so. -/
structure Arranged (ordered : Bool) (imports : List Import) : Prop where
  distinct : Distinct imports
  sorted_iff : Sorted imports ↔ ordered = true

theorem arranged_of_sorted (h : Sorted imports) : Arranged true imports := ⟨h.distinct, iff_of_true h rfl⟩

theorem sorted_toList (i : Option Import) : Sorted i.toList := by
  cases i with
  | none => exact .nil
  | some i => exact pairwise_singleton _ i

/-- Imports of trees that follow each other are in order if those of each tree are. -/
theorem arranged_flatMap {ordered : Tree → Bool} (hnamed : ∀ t, Named (f t) t.stringsIn)
    (h : Ascending (stringsOf trees)) (heach : ∀ t ∈ trees, Arranged (ordered t) (f t)) :
    Arranged (trees.all ordered) (trees.flatMap f) := by
  have hbefore := pairwise_before hnamed h
  refine ⟨pairwise_flatMap.2 ⟨fun t ht => (heach t ht).distinct, ?_⟩, ?_⟩
  · exact hbefore.imp fun hlt i hi j hj => (hlt i hi j hj).ne
  · rw [Sorted, pairwise_flatMap, all_eq_true]
    constructor
    · exact fun hsorted t ht => (heach t ht).sorted_iff.1 (hsorted.1 t ht)
    · exact fun hordered => ⟨fun t ht => (heach t ht).sorted_iff.2 (hordered t ht), hbefore⟩

end Trees

theorem importsInAll_eq_flatMap (trees : List Tree) : importsInAll trees = trees.flatMap importsIn := by
  induction trees with
  | nil => rfl
  | cons t trees ih => rw [importsInAll, flatMap_cons, ih]

theorem importsInAll_append (trees more : List Tree) :
    importsInAll (trees ++ more) = importsInAll trees ++ importsInAll more := by
  rw [importsInAll_eq_flatMap, importsInAll_eq_flatMap, importsInAll_eq_flatMap, flatMap_append]

/-- The imports of an import statement are in order: there is one, or one in each of several clauses. -/
theorem sorted_importStatementImports (h : Ascending (stringsOf trees)) : Sorted (importStatementImports trees) := by
  unfold importStatementImports
  split
  · exact sorted_toList _
  · rw [filterMap_filter, filterMap_eq_flatMap_toList]
    refine pairwise_flatMap.2 ⟨fun t _ => sorted_toList _, pairwise_before (fun t => ?_) h⟩
    split
    · exact named_source _ t
    · exact named_nil

theorem sorted_exportStatementImports (trees : List Tree) : Sorted (exportStatementImports trees) := by
  unfold exportStatementImports
  split
  · exact sorted_toList _
  · exact .nil

/-! ### Calls -/

/-- The trees of a call before its arguments. -/
def beforeArguments (trees : List Tree) : List Tree := trees.takeWhile (·.role != some .arguments)

/-- Whether a call that makes an import has no imports before its arguments. -/
def isInOrderCall (trees : List Tree) : Bool :=
  (callImports trees).isEmpty || (importsInAll (beforeArguments trees)).isEmpty

/-- A tree that may be the arguments of a call makes no import itself. -/
def IsArguments (t : Tree) : Prop := importsIn t = importsInAll t.children

theorem eq_beforeArguments_append (h : inRole? .arguments trees = some arguments) :
    ∃ behind, trees = beforeArguments trees ++ arguments :: behind := by
  induction trees with
  | nil => cases h
  | cons t trees ih =>
    rw [inRole?, find?_cons] at h
    unfold beforeArguments
    rw [takeWhile_cons]
    split at h
    · next hrole =>
      obtain rfl := Option.some.inj h
      rw [if_neg (by simpa using hrole)]
      exact ⟨trees, rfl⟩
    · next hrole =>
      obtain ⟨behind, htrees⟩ := ih h
      rw [if_pos (by simpa using hrole)]
      exact ⟨behind, congrArg (t :: ·) htrees⟩

/-- What stands before the first tree that is more than a mark has no imports and no strings in it. -/
theorem split_isNamed (h : trees.find? Tree.isNamed = some first) :
    ∃ rest, importsInAll trees = importsIn first ++ importsInAll rest ∧
      stringsOf trees = first.stringsIn ++ stringsOf rest := by
  induction trees with
  | nil => cases h
  | cons t trees ih =>
    rw [find?_cons] at h
    split at h
    · obtain rfl := Option.some.inj h
      exact ⟨trees, by rw [importsInAll], Tree.stringsOf_cons t trees⟩
    · next hmark =>
      obtain ⟨rest, himports, hstrings⟩ := ih h
      obtain ⟨role, text, p, rfl⟩ : ∃ role text p, t = .leaf .mark role text p := by
        unfold Tree.isNamed at hmark
        split at hmark
        · exact ⟨_, _, _, rfl⟩
        · cases hmark
      refine ⟨rest, ?_, ?_⟩
      · rw [importsInAll, importsIn, nil_append, himports]
      · rw [Tree.stringsOf_cons, Tree.stringsIn_leaf (by simp), nil_append, hstrings]

theorem stringsIn_of_find? (h : t.children.find? Tree.isNamed = some first) : t.stringsIn = stringsOf t.children := by
  cases t with
  | leaf kind role text p => cases h
  | node kind role children => exact Tree.stringsIn_node kind role children

/-- **The anatomy of a call that makes an import.** The string that names it stands behind the trees before the arguments and
before everything else in which imports are found. -/
theorem split_call (harguments : ∀ t ∈ trees, t.role = some .arguments → IsArguments t) {x : Import}
    (hx : x ∈ callImports trees) :
    callImports trees = [x] ∧ ∃ s rest, Names s x ∧
      importsInAll trees = importsInAll (beforeArguments trees) ++ importsInAll rest ∧
      stringsOf trees = stringsOf (beforeArguments trees) ++ s :: stringsOf rest := by
  unfold callImports at hx ⊢
  split at hx
  case h_2 => exact absurd hx not_mem_nil
  next kind arguments hkind hfound =>
    obtain ⟨first, hfirst, hx⟩ := Option.bind_eq_some_iff.1 (Option.mem_toList.1 hx)
    rw [hfirst, Option.bind_some, hx]
    refine ⟨rfl, ?_⟩
    obtain ⟨rest, himports, hstrings⟩ := split_isNamed hfirst
    obtain ⟨behind, htrees⟩ := eq_beforeArguments_append hfound
    have hplain := harguments arguments (mem_of_find?_eq_some hfound) (by simpa using find?_some hfound)
    -- the first argument is a string, and so has no imports in it
    unfold importOf? at hx
    split at hx
    case h_2 => cases hx
    next role text p =>
      cases hx
      refine ⟨(text, p), rest ++ behind, ⟨rfl, rfl⟩, ?_, ?_⟩
      · calc importsInAll trees
          _ = importsInAll (beforeArguments trees) ++ (importsIn arguments ++ importsInAll behind) := by
            conv => lhs; rw [htrees, importsInAll_append, importsInAll]
          _ = importsInAll (beforeArguments trees) ++ importsInAll (rest ++ behind) := by
            rw [hplain, himports, importsIn, nil_append, importsInAll_append]
      · calc stringsOf trees
          _ = stringsOf (beforeArguments trees) ++ (arguments.stringsIn ++ stringsOf behind) := by
            conv => lhs; rw [htrees, Tree.stringsOf_append, Tree.stringsOf_cons]
          _ = stringsOf (beforeArguments trees) ++ (text, p) :: stringsOf (rest ++ behind) := by
            rw [stringsIn_of_find? hfirst, hstrings, Tree.stringsOf_append]
            rfl

/-- What is found in a call lies to both sides of the import that it makes, but comes behind it. -/
theorem arranged_call (harguments : ∀ t ∈ trees, t.role = some .arguments → IsArguments t)
    (h : Ascending (stringsOf trees)) (hall : Arranged ordered (importsInAll trees)) :
    Arranged (isInOrderCall trees && ordered) (callImports trees ++ importsInAll trees) := by
  cases hcall : callImports trees with
  | nil =>
    rw [isInOrderCall, hcall]
    exact hall
  | cons x imports =>
    obtain ⟨hone, s, rest, hnames, himports, hstrings⟩ := split_call harguments (hcall ▸ mem_cons_self)
    obtain rfl : imports = [] := by simpa [hcall] using hone
    have hx : Named [x] [s] := fun i hi => ⟨s, mem_cons_self, mem_singleton.1 hi ▸ hnames⟩
    have hbefore : ∀ i ∈ importsInAll (beforeArguments trees), i.position.Before x.position := by
      rw [hstrings, ← singleton_append, ← append_assoc] at h
      exact fun i hi => (named_importsInAll _).before hx (Source.ascending_append.1 h).1 hi mem_cons_self
    have hbehind : ∀ i ∈ importsInAll rest, x.position.Before i.position := by
      rw [hstrings] at h
      exact fun i hi => hx.before (named_importsInAll _) (Source.ascending_append.1 h).2.1 mem_cons_self hi
    rw [singleton_append]
    refine ⟨.cons (fun i hi => ?_) hall.distinct, ?_⟩
    · rw [himports, mem_append] at hi
      obtain hi | hi := hi
      · exact (hbefore i hi).ne.symm
      · exact (hbehind i hi).ne
    · rw [Sorted, pairwise_cons, isInOrderCall, hcall, isEmpty_cons, Bool.false_or, Bool.and_eq_true,
        ← hall.sorted_iff, List.isEmpty_iff]
      refine and_congr_left fun _ => ⟨fun hfirst => ?_, fun hnone i hi => ?_⟩
      · -- an import before the arguments would stand on both sides of the call's own
        refine eq_nil_iff_forall_not_mem.2 fun i hi => (hbefore i hi).asymm (hfirst i ?_)
        exact himports ▸ mem_append_left _ hi
      · rw [himports, hnone, nil_append] at hi
        exact hbehind i hi

/-! ### Trees of all kinds -/

mutual

/-- Whether no call in a tree has imports before its arguments if it makes one. Import statements are not searched. -/
def isInOrder : Tree → Bool
  | .leaf _ _ _ _ => true
  | .node .importStatement _ _ => true
  | .node .call _ trees => isInOrderCall trees && isInOrderAll trees
  | .node _ _ trees => isInOrderAll trees

/-- The same of several trees. -/
def isInOrderAll : List Tree → Bool
  | [] => true
  | t :: ts => isInOrder t && isInOrderAll ts

end

theorem isInOrderAll_eq_all (trees : List Tree) : isInOrderAll trees = trees.all isInOrder := by
  induction trees with
  | nil => rfl
  | cons t trees ih => rw [isInOrderAll, all_cons, ih]

/-- The text of a string: something between two quotation marks of a kind. -/
def IsQuoted (text : List Char) : Prop := ∃ q middle, (q = '"' ∨ q = '\'') ∧ text = q :: (middle ++ [q])

/-- Trees as they are read. Strings are quoted, an export statement with a source has no other imports in it, and the
arguments of a call make none themselves. -/
inductive IsSound : Tree → Prop
  | leaf {kind : Source.Leaf} (role : Option Role) {text : List Char} (p : Position)
      (quoted : kind = .string → IsQuoted text) : IsSound (.leaf kind role text p)
  | node (kind : Kind) (role : Option Role) {trees : List Tree} (each : ∀ t ∈ trees, IsSound t)
      (reexport : kind = .exportStatement → (inRole? .source trees).isSome → importsInAll trees = [])
      (arguments : ∀ t ∈ trees, t.role = some .arguments → IsArguments t) : IsSound (.node kind role trees)

theorem IsSound.quoted (h : IsSound t) : ∀ s ∈ t.stringsIn, IsQuoted s.1 := by
  induction h with
  | @leaf kind role text p hquoted =>
    by_cases hkind : kind = .string
    · subst hkind
      exact fun s hs => mem_singleton.1 hs ▸ hquoted rfl
    · rw [Tree.stringsIn_leaf hkind]
      exact fun s hs => absurd hs not_mem_nil
  | node kind role _ _ _ ih =>
    intro s hs
    obtain ⟨t, ht, hs⟩ := exists_of_mem_stringsOf hs
    exact ih t ht s hs

theorem arranged_of_each (h : Ascending (stringsOf trees))
    (heach : ∀ t ∈ trees, Ascending t.stringsIn → Arranged (isInOrder t) (importsIn t)) :
    Arranged (isInOrderAll trees) (importsInAll trees) := by
  rw [isInOrderAll_eq_all, importsInAll_eq_flatMap]
  exact arranged_flatMap named_importsIn h fun t ht => heach t ht (ascending_of_mem h ht)

/-- An export statement makes an import, or imports are found in it, but not both. -/
theorem arranged_exportStatement (hreexport : (inRole? .source trees).isSome → importsInAll trees = [])
    (hall : Arranged ordered (importsInAll trees)) :
    Arranged ordered (exportStatementImports trees ++ importsInAll trees) := by
  cases hsource : inRole? .source trees with
  | none =>
    rw [exportStatementImports, hsource]
    exact hall
  | some source =>
    rw [hreexport (by rw [hsource]; rfl)] at hall ⊢
    rw [hall.sorted_iff.1 .nil, append_nil]
    exact arranged_of_sorted (sorted_exportStatementImports trees)

theorem IsSound.arranged (h : IsSound t) (hstrings : Ascending t.stringsIn) : Arranged (isInOrder t) (importsIn t) := by
  induction h with
  | leaf role p _ => exact arranged_of_sorted .nil
  | @node kind role trees _ hreexport harguments ih =>
    have hall := arranged_of_each hstrings ih
    cases kind with
    | importStatement => exact arranged_of_sorted (sorted_importStatementImports hstrings)
    | exportStatement => exact arranged_exportStatement (hreexport rfl) hall
    | call => exact arranged_call harguments hstrings hall
    | _ => exact hall

/-- **The imports of several trees** are at different positions, and in the order of these exactly if no call has imports
before its arguments. -/
theorem arranged_importsInAll (h : ∀ t ∈ trees, IsSound t) (hstrings : Ascending (stringsOf trees)) :
    Arranged (isInOrderAll trees) (importsInAll trees) :=
  arranged_of_each hstrings fun t ht => (h t ht).arranged

end TypeScript

end Cartograph
