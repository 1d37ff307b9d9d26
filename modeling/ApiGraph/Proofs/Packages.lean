import ApiGraph.Package
import ApiGraph.Proofs.Occurrences
import Mathlib.Data.List.Basic

/-!
# ApiGraph.Proofs.Packages

The package of a file, told by the segments of its path. The search for the directory of the packages is
a search for a piece of text, so it stops at the first segment that **ends** in the directory's name, and
a scope that is followed by a slash counts as a package even if no name stands behind the slash. Every
other file gets the package that its path names.

* `SymbolLocation.IsBelow` — the segments below the first directory of a kind.
* `SymbolLocation.Names` — the package that such segments name.
* `SymbolLocation.isBelow_iff` — the search is one for the end of a segment.
* `SymbolLocation.Names.nil_not_mem` — a package that is named has no empty segment.
* `SymbolLocation.package_iff` — the package of a file, and when it is the one that the path names.
-/

namespace ApiGraph.SymbolLocation

open List (splitOn_append_cons_self_of_not_mem splitOn_eq_singleton)

variable {kind : List Char → Prop} {path rest : List (List Char)}
  {cs name scope segment package : List Char}

/-! ### Paths and packages -/

/-- The segments of a file name, between slashes of both kinds. -/
def segmentsOf (file : String) : List (List Char) :=
  (file.toList.map fun c => if c = '\\' then '/' else c).splitOn '/'

/-- The name of the directory below which packages lie. -/
def directory : List Char := "node_modules".toList

/-- Below the first segment of a kind stand the segments `rest`, at least one. -/
def IsBelow (kind : List Char → Prop) (path rest : List (List Char)) : Prop :=
  ∃ before dir, path = before ++ dir :: rest ∧ (∀ s ∈ before, ¬ kind s) ∧ kind dir ∧ rest ≠ []

/-- The package that the segments below its directory begin with: the first of them, and with it the
second one if the first is a scope. A scope at the end of the path stands alone. -/
inductive Names : List (List Char) → List Char → Prop
  | plain {name : List Char} (others : List (List Char)) (nonEmpty : name ≠ [])
      (unscoped : name.head? ≠ some '@') : Names (name :: others) name
  | lone {scope : List Char} (isScope : scope.head? = some '@') : Names [scope] scope
  | inScope {scope name : List Char} (others : List (List Char)) (isScope : scope.head? = some '@')
      (nonEmpty : name ≠ []) : Names (scope :: name :: others) (scope ++ '/' :: name)

/-- A scope and a slash, without a name behind them. -/
def IsBareScope (rest : List (List Char)) (package : List Char) : Prop :=
  ∃ scope others, rest = scope :: [] :: others ∧ scope.head? = some '@' ∧ package = scope ++ ['/']

/-- The package that is cut out of the segments below the directory. -/
def IsFound (rest : List (List Char)) (package : List Char) : Prop :=
  Names rest package ∨ IsBareScope rest package

/-- In a plain path no segment merely ends in the directory's name, and a scope below the directory is
not followed by an empty segment. -/
structure IsPlain (path : List (List Char)) : Prop where
  exact : ∀ s ∈ path, directory <:+ s → s = directory
  named : ∀ scope ∈ path, scope.head? = some '@' → ¬ [directory, scope, []] <:+: path

/-! ### A path, segment by segment -/

/-- Induction on the segments of a text. -/
theorem segment_induction {motive : List Char → Prop}
    (last : ∀ segment, '/' ∉ segment → motive segment)
    (next : ∀ segment cs, '/' ∉ segment → motive cs → motive (segment ++ '/' :: cs))
    (cs : List Char) : motive cs := by
  by_cases slash : '/' ∈ cs
  · obtain ⟨segment, others, split, whole⟩ := List.eq_append_cons_of_mem slash
    have shorter : others.length < cs.length := by simp [split]; omega
    rw [split]
    exact next segment others whole (segment_induction last next others)
  · exact last cs slash
termination_by cs.length

theorem slash_not_mem (cs : List Char) : ∀ segment ∈ cs.splitOn '/', '/' ∉ segment := by
  induction cs using segment_induction with
  | last segment whole => simpa [splitOn_eq_singleton whole] using whole
  | next segment cs whole ih =>
    rw [splitOn_append_cons_self_of_not_mem whole]
    exact List.forall_mem_cons.2 ⟨whole, ih⟩

/-! ### The first directory -/

theorem IsBelow.congr {other : List Char → Prop} (below : IsBelow kind path rest)
    (same : ∀ s ∈ path, kind s ↔ other s) : IsBelow other path rest := by
  obtain ⟨before, dir, rfl, others, isDir, nonEmpty⟩ := below
  refine ⟨before, dir, rfl, fun s earlier => ?_, (same dir (by simp)).1 isDir, nonEmpty⟩
  exact (same s (List.mem_append_left _ earlier)).not.1 (others s earlier)

theorem not_isBelow_last (dir : List Char) : ¬ IsBelow kind [dir] rest := by
  rintro ⟨before, found, split, -, -, nonEmpty⟩
  have size := congrArg List.length split
  have := List.length_pos_of_ne_nil nonEmpty
  simp only [List.length_append, List.length_cons, List.length_nil] at size
  omega

theorem isBelow_here (here : kind segment) :
    IsBelow kind (segment :: path) rest ↔ path ≠ [] ∧ rest = path := by
  constructor
  · rintro ⟨before, dir, split, others, isDir, nonEmpty⟩
    cases before with
    | nil =>
      obtain ⟨rfl, rfl⟩ := List.cons.inj split
      exact ⟨nonEmpty, rfl⟩
    | cons s before =>
      obtain ⟨rfl, -⟩ := List.cons.inj split
      exact absurd here (others _ List.mem_cons_self)
  · rintro ⟨nonEmpty, rfl⟩
    exact ⟨[], segment, rfl, by simp, here, nonEmpty⟩

theorem isBelow_later (other : ¬ kind segment) :
    IsBelow kind (segment :: path) rest ↔ IsBelow kind path rest := by
  constructor
  · rintro ⟨before, dir, split, others, isDir, nonEmpty⟩
    cases before with
    | nil =>
      obtain ⟨rfl, -⟩ := List.cons.inj split
      exact absurd isDir other
    | cons s before =>
      obtain ⟨-, split⟩ := List.cons.inj split
      exact ⟨before, dir, split, (List.forall_mem_cons.1 others).2, isDir, nonEmpty⟩
  · rintro ⟨before, dir, rfl, others, isDir, nonEmpty⟩
    exact ⟨segment :: before, dir, rfl, List.forall_mem_cons.2 ⟨other, others⟩, isDir, nonEmpty⟩

theorem after?_segment (named : '/' ∉ name) (whole : '/' ∉ segment) (cs : List Char) :
    Text.after? (name ++ ['/']) (segment ++ '/' :: cs) = if name = segment then some cs else none := by
  split_ifs with same
  · subst same
    simpa using Text.after?_append (name ++ ['/']) cs
  · rw [Text.after?_eq_none_iff]
    rintro ⟨more, split⟩
    rw [List.append_assoc, List.singleton_append] at split
    have paths := congrArg (List.splitOn '/') split
    rw [splitOn_append_cons_self_of_not_mem named, splitOn_append_cons_self_of_not_mem whole] at paths
    exact same (List.cons.inj paths).1

/-- A name and a slash are found at the first segment that ends in the name. -/
theorem afterFirst?_segment (named : '/' ∉ name) (whole : '/' ∉ segment) (cs : List Char) :
    Text.afterFirst? (name ++ ['/']) (segment ++ '/' :: cs) =
      if name <:+ segment then some cs else Text.afterFirst? (name ++ ['/']) cs := by
  -- the search tries the ends of the segment one after the other, the empty one last
  induction segment with
  | nil =>
    have here := after?_segment named whole cs
    rw [List.nil_append] at here ⊢
    rw [Text.afterFirst?, here]
    by_cases same : name = [] <;> simp [same]
  | cons c segment ih =>
    have here := after?_segment named whole cs
    rw [List.cons_append] at here ⊢
    rw [Text.afterFirst?, here, ih (List.not_mem_of_not_mem_cons whole)]
    by_cases same : name = c :: segment <;> simp [same, List.suffix_cons_iff]

/-- The search finds the first segment that ends in the directory's name. -/
theorem isBelow_iff : IsBelow (directory <:+ ·) (cs.splitOn '/') rest ↔
    ∃ more, Text.afterFirst? boundary cs = some more ∧ more.splitOn '/' = rest := by
  have split : boundary = directory ++ ['/'] := rfl
  have named : '/' ∉ directory := by decide
  induction cs using segment_induction with
  | last segment whole =>
    have absent : Text.afterFirst? boundary segment = none := by
      rw [Text.afterFirst?_eq_none_iff]
      exact fun occurs => whole (occurs.subset (by simp [split]))
    simp [splitOn_eq_singleton whole, not_isBelow_last, absent]
  | next segment cs whole ih =>
    rw [splitOn_append_cons_self_of_not_mem whole, split, afterFirst?_segment named whole, ← split]
    by_cases here : directory <:+ segment
    · rw [isBelow_here here, if_pos here]
      simp [eq_comm (a := rest)]
    · rw [isBelow_later here, if_neg here]
      exact ih

/-! ### The first segments -/

theorem segments_cons (n : Nat) {c : Char} (other : c ≠ '/') (cs : List Char) :
    segments n (c :: cs) = c :: segments n cs := by
  rw [segments.eq_def]
  exact if_neg other

theorem segments_last (n : Nat) (whole : '/' ∉ segment) : segments n segment = segment := by
  induction segment with
  | nil => rw [segments.eq_def]
  | cons c segment ih =>
    rw [segments_cons n (List.ne_of_not_mem_cons whole).symm, ih (List.not_mem_of_not_mem_cons whole)]

theorem segments_next (n : Nat) (whole : '/' ∉ segment) (cs : List Char) :
    segments n (segment ++ '/' :: cs) = segment ++ segments n ('/' :: cs) := by
  induction segment with
  | nil => rfl
  | cons c segment ih =>
    rw [List.cons_append, segments_cons n (List.ne_of_not_mem_cons whole).symm,
      ih (List.not_mem_of_not_mem_cons whole), List.cons_append]

/-- One segment is the first one. -/
theorem exists_splitOn_eq (cs : List Char) : ∃ others, cs.splitOn '/' = segments 1 cs :: others := by
  induction cs using segment_induction with
  | last segment whole => exact ⟨[], by rw [splitOn_eq_singleton whole, segments_last 1 whole]⟩
  | next segment cs whole ih =>
    refine ⟨cs.splitOn '/', ?_⟩
    rw [splitOn_append_cons_self_of_not_mem whole, segments_next 1 whole]
    simp [segments]

theorem head?_segments (cs : List Char) : (segments 1 cs).head? = some '@' ↔ cs.head? = some '@' := by
  cases cs with
  | nil => rfl
  | cons c cs =>
    by_cases slash : c = '/'
    · subst slash
      simp [segments]
    · rw [segments_cons 1 slash, List.head?_cons, List.head?_cons]

/-! ### The package that is cut out -/

theorem isFound_unscoped (others : List (List Char)) (unscoped : name.head? ≠ some '@') :
    IsFound (name :: others) package ↔ package ≠ [] ∧ name = package := by
  constructor
  · rintro (names | ⟨scope, others, same, isScope, -⟩)
    · cases names with
      | plain _ nonEmpty _ => exact ⟨nonEmpty, rfl⟩
      | lone isScope => exact absurd isScope unscoped
      | inScope _ isScope _ => exact absurd isScope unscoped
    · exact absurd ((List.cons.inj same).1 ▸ isScope) unscoped
  · rintro ⟨nonEmpty, rfl⟩
    exact .inl (.plain others nonEmpty unscoped)

theorem isFound_lone (isScope : scope.head? = some '@') : IsFound [scope] package ↔ scope = package := by
  constructor
  · rintro (names | ⟨scope, others, same, -, -⟩)
    · cases names <;> rfl
    · cases same
  · rintro rfl
    exact .inl (.lone isScope)

theorem isFound_inScope (others : List (List Char)) (isScope : scope.head? = some '@') :
    IsFound (scope :: name :: others) package ↔ scope ++ '/' :: name = package := by
  constructor
  · rintro (names | ⟨scope, others, same, -, rfl⟩)
    · cases names with
      | plain _ _ unscoped => exact absurd isScope unscoped
      | inScope _ _ _ => rfl
    · cases same
      rfl
  · rintro rfl
    by_cases empty : name = []
    · exact .inr ⟨scope, others, by rw [empty], isScope, by rw [empty]⟩
    · exact .inl (.inScope others isScope empty)

theorem isFound_iff (more : List Char) : IsFound (more.splitOn '/') package ↔
    package ≠ [] ∧ segments (if more.head? = some '@' then 2 else 1) more = package := by
  by_cases isScope : more.head? = some '@'
  · have nonEmpty : more ≠ [] := by rintro rfl; cases isScope
    rw [if_pos isScope]
    by_cases slash : '/' ∈ more
    · obtain ⟨scope, cs, rfl, whole⟩ := List.eq_append_cons_of_mem slash
      obtain ⟨others, split⟩ := exists_splitOn_eq cs
      have cut : segments 2 ('/' :: cs) = '/' :: segments 1 cs := rfl
      have first : scope.head? = some '@' := by
        rw [← head?_segments, segments_next 1 whole] at isScope
        simpa [segments] using isScope
      rw [splitOn_append_cons_self_of_not_mem whole, split, isFound_inScope others first,
        segments_next 2 whole, cut]
      refine (and_iff_right_of_imp ?_).symm
      rintro rfl
      simp
    · rw [splitOn_eq_singleton slash, isFound_lone isScope, segments_last 2 slash]
      refine (and_iff_right_of_imp ?_).symm
      rintro rfl
      exact nonEmpty
  · obtain ⟨others, split⟩ := exists_splitOn_eq more
    rw [split, if_neg isScope, isFound_unscoped others ((head?_segments more).not.2 isScope)]

theorem packageOf?_eq_some_iff : packageOf? cs = some package ↔
    ∃ rest, IsBelow (directory <:+ ·) (cs.splitOn '/') rest ∧ IsFound rest package := by
  simp only [isBelow_iff, packageOf?, Option.bind_eq_bind, Option.bind_eq_some_iff]
  constructor
  · rintro ⟨more, found, cut⟩
    refine ⟨_, ⟨more, found, rfl⟩, (isFound_iff more).2 ?_⟩
    rw [ite_eq_iff] at cut
    obtain ⟨-, impossible⟩ | ⟨nonEmpty, same⟩ := cut
    · cases impossible
    · rw [← Option.some.inj same]
      exact ⟨by simpa using nonEmpty, rfl⟩
  · rintro ⟨_, ⟨more, found, rfl⟩, names⟩
    obtain ⟨nonEmpty, cut⟩ := (isFound_iff more).1 names
    exact ⟨more, found, by rw [cut, if_neg (by simpa using nonEmpty)]⟩

theorem package_eq_some_iff {file package : String} : (parse file).package = some package ↔
    ∃ rest, IsBelow (directory <:+ ·) (segmentsOf file) rest ∧ IsFound rest package.toList := by
  rw [parse, Option.map_eq_some_iff, segmentsOf, ← packageOf?_eq_some_iff]
  constructor
  · rintro ⟨package, found, rfl⟩
    rwa [String.toList_ofList]
  · exact fun found => ⟨package.toList, found, String.ofList_toList⟩

/-! ### Plain paths -/

theorem IsPlain.isBelow_iff (plain : IsPlain path) :
    IsBelow (directory <:+ ·) path rest ↔ IsBelow (· = directory) path rest := by
  have same (s : List Char) (member : s ∈ path) : directory <:+ s ↔ s = directory :=
    ⟨plain.exact s member, fun same => same ▸ List.suffix_rfl⟩
  exact ⟨fun below => below.congr same, fun below => below.congr fun s member => (same s member).symm⟩

theorem IsPlain.isFound_iff (plain : IsPlain path) (below : IsBelow (· = directory) path rest) :
    IsFound rest package ↔ Names rest package := by
  refine or_iff_left ?_
  obtain ⟨before, dir, rfl, -, rfl, -⟩ := below
  rintro ⟨scope, others, rfl, isScope, -⟩
  exact plain.named scope (by simp) isScope ⟨before, others, by simp⟩

/-- A package that is named has no empty segment. -/
theorem Names.nil_not_mem (names : Names rest package) (whole : ∀ s ∈ rest, '/' ∉ s) :
    [] ∉ package.splitOn '/' := by
  cases names with
  | plain others nonEmpty _ =>
    rw [splitOn_eq_singleton (whole _ List.mem_cons_self)]
    simpa using nonEmpty.symm
  | lone isScope =>
    rw [splitOn_eq_singleton (whole _ List.mem_cons_self), List.mem_singleton]
    rintro rfl
    cases isScope
  | @inScope scope name others isScope nonEmpty =>
    rw [splitOn_append_cons_self_of_not_mem (whole scope (by simp)),
      splitOn_eq_singleton (whole name (by simp))]
    have scopeNonEmpty : scope ≠ [] := by rintro rfl; cases isScope
    simp [nonEmpty.symm, scopeNonEmpty.symm]

theorem IsBareScope.nil_mem (bare : IsBareScope rest package) : [] ∈ package.splitOn '/' := by
  obtain ⟨scope, others, -, -, rfl⟩ := bare
  rw [List.splitOn_append_cons_self, List.splitOn_nil]
  exact List.mem_append_right _ List.mem_cons_self

theorem IsBelow.slash_not_mem {file : String} (below : IsBelow kind (segmentsOf file) rest) :
    ∀ s ∈ rest, '/' ∉ s := by
  obtain ⟨before, dir, split, -, -, -⟩ := below
  intro s member
  refine SymbolLocation.slash_not_mem _ s (?_ : s ∈ segmentsOf file)
  rw [split]
  exact List.mem_append_right _ (List.mem_cons_of_mem _ member)

/-! ### The package of a file -/

/-- A file lies in a package if it lies below a directory whose name ends in the one that is looked for, and
the package is the one that is named there, or a scope and a slash; only then it has an empty segment. On
a plain path the directory is the one with this very name, and the package is always named. A symbol is
external together with its file. -/
theorem package_iff (file : String) :
    (∀ package, (parse file).package = some package ↔
      ∃ rest, IsBelow (directory <:+ ·) (segmentsOf file) rest ∧ IsFound rest package.toList) ∧
    (∀ package, (parse file).package = some package →
      ([] ∈ package.toList.splitOn '/' ↔
        ∃ rest, IsBelow (directory <:+ ·) (segmentsOf file) rest ∧ IsBareScope rest package.toList)) ∧
    (IsPlain (segmentsOf file) → ∀ package,
      ((parse file).package = some package ↔
        ∃ rest, IsBelow (· = directory) (segmentsOf file) rest ∧ Names rest package.toList) ∧
      ((parse file).package = some package → [] ∉ package.toList.splitOn '/')) ∧
    ∀ name, (ExternalName.ofDeclaration? file name).map ExternalName.package = (parse file).package := by
  refine ⟨fun package => package_eq_some_iff, fun package found => ?_, fun plain package => ?_,
    fun name => ?_⟩
  · constructor
    · intro empty
      obtain ⟨rest, below, names | bare⟩ := package_eq_some_iff.1 found
      · exact absurd empty (names.nil_not_mem below.slash_not_mem)
      · exact ⟨rest, below, bare⟩
    · rintro ⟨rest, -, bare⟩
      exact bare.nil_mem
  · have named : (parse file).package = some package ↔
        ∃ rest, IsBelow (· = directory) (segmentsOf file) rest ∧ Names rest package.toList := by
      simp only [package_eq_some_iff, plain.isBelow_iff]
      exact exists_congr fun rest => and_congr_right plain.isFound_iff
    refine ⟨named, fun found => ?_⟩
    obtain ⟨rest, below, names⟩ := named.1 found
    exact names.nil_not_mem below.slash_not_mem
  · simp [ExternalName.ofDeclaration?, Function.comp_def]

/-- A file of a scoped package, with backslashes. -/
theorem package_inScope :
    (parse "C:\\r\\node_modules\\@types\\node\\a.ts").package = some "@types/node" ∧
      [] ∉ "@types/node".toList.splitOn '/' := by
  have named := (package_iff "C:\\r\\node_modules\\@types\\node\\a.ts").2.2.1 ⟨by decide, by decide⟩
    "@types/node"
  have found := named.1.2 ⟨["@types".toList, "node".toList, "a.ts".toList],
    ⟨["C:".toList, "r".toList], directory, by decide, by decide, rfl, by decide⟩,
    .inScope ["a.ts".toList] (by decide) (by decide)⟩
  exact ⟨found, named.2 found⟩

/-- A directory of another name, which ends in the same letters, makes a package, and so does a scope
without a name in it. -/
theorem package_likeNamed :
    (parse "/repo/my_node_modules/lodash/index.d.ts").package = some "lodash" ∧
      directory ∉ segmentsOf "/repo/my_node_modules/lodash/index.d.ts" ∧
      (parse "/repo/node_modules/@types/").package = some "@types/" ∧
      [] ∈ "@types/".toList.splitOn '/' := by
  decide

end ApiGraph.SymbolLocation
