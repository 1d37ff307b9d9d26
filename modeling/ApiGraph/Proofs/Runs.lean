import ApiGraph.Proofs.Additions

/-!
# ApiGraph.Proofs.Runs

Any order of changes. A run starts from a new project or a decoded one and makes edits, of which those
that fail change nothing. Beside the project it remembers the type literals: the declarations that were
decoded inside types, and those that were added as such. A main type that is a reflection type names one
of them; everything else about an edit is free.

* `Edit`, `Stage.edit` — the edits and what they do, with `edited_of_edit`.
* `Reachable` — the stages of all runs.
* `Stage.IsSound.apply` — what one edit preserves.
* `isCoherent_of_reachable` — what holds at any time.
-/

namespace ApiGraph

/-- A change of a project. -/
inductive Edit
  | addDeclaration (parent : Option Id) (name : String) (kind : Kind) (symbol : Option Symbol)
  | addTypeLiteral (symbol : Option Symbol)
  | addSignature (parent : Id) (name : String) (kind : Kind)
  | addParameter (signature : Id) (name : String) (type : Option TypeExpr)
  | addTypeParameter (owner : Id) (name : String) (constraint default : Option TypeExpr)
  | registerSymbol (symbol : Symbol) (id : Id)
  | remove (id : Id)
  | assignType (id : Id) (type : Option TypeExpr)
deriving Inhabited

/-- The main type that an edit gives to a reflection. -/
def Edit.mainType : Edit → Option TypeExpr
  | .addParameter _ _ type => type
  | .addTypeParameter _ _ constraint _ => constraint
  | .assignType _ type => type
  | _ => none

/-- Main types that are reflection types name some of these declarations. -/
def Edit.Names (literals : List Id) (e : Edit) : Prop :=
  ∀ id, e.mainType.bind TypeExpr.declaration? = some id → id ∈ literals

/-- A project in the course of a run, with the type literals that there were so far. -/
structure Stage where
  project : Project
  literals : List Id
deriving Inhabited

namespace Stage

/-- What an edit does, unless it fails. -/
def edit (s : Stage) : Edit → Except Error Stage
  | .addDeclaration parent name kind symbol => do
    let (_, p) ← s.project.addDeclaration parent name kind symbol
    return { s with project := p }
  | .addTypeLiteral symbol => do
    let (id, p) ← s.project.addTypeLiteral symbol
    return { project := p, literals := id :: s.literals }
  | .addSignature parent name kind => do
    let (_, p) ← s.project.addSignature parent name kind
    return { s with project := p }
  | .addParameter signature name type => do
    let (_, p) ← s.project.addParameter signature name type
    return { s with project := p }
  | .addTypeParameter owner name constraint default => do
    let (_, p) ← s.project.addTypeParameter owner name constraint default
    return { s with project := p }
  | .registerSymbol symbol id => do
    let p ← s.project.registerSymbol symbol id
    return { s with project := p }
  | .remove id => do
    let (_, p) ← s.project.remove id
    return { s with project := p }
  | .assignType id type => return { s with project := s.project.assignType id type }

/-- The stage after an edit: a failed one changes nothing. -/
def apply (s : Stage) (e : Edit) : Stage :=
  match s.edit e with
  | .ok s' => s'
  | .error _ => s

/-- What every stage of a run keeps. -/
def IsSound (s : Stage) : Prop :=
  s.project.IsSound s.literals []

variable {s s' : Stage} {e : Edit}

/-- What an edit has done if it succeeds. -/
inductive Edited (s : Stage) : Edit → Stage → Prop
  | addDeclaration {parent name kind symbol id p}
      (added : s.project.addDeclaration parent name kind symbol = .ok (id, p)) :
      Edited s (.addDeclaration parent name kind symbol) { s with project := p }
  | addTypeLiteral {symbol id p} (added : s.project.addTypeLiteral symbol = .ok (id, p)) :
      Edited s (.addTypeLiteral symbol) { project := p, literals := id :: s.literals }
  | addSignature {parent name kind id p}
      (added : s.project.addSignature parent name kind = .ok (id, p)) :
      Edited s (.addSignature parent name kind) { s with project := p }
  | addParameter {signature name type id p}
      (added : s.project.addParameter signature name type = .ok (id, p)) :
      Edited s (.addParameter signature name type) { s with project := p }
  | addTypeParameter {owner name constraint default id p}
      (added : s.project.addTypeParameter owner name constraint default = .ok (id, p)) :
      Edited s (.addTypeParameter owner name constraint default) { s with project := p }
  | registerSymbol {symbol id p} (named : s.project.registerSymbol symbol id = .ok p) :
      Edited s (.registerSymbol symbol id) { s with project := p }
  | remove {id r p} (removed : s.project.remove id = .ok (r, p)) :
      Edited s (.remove id) { s with project := p }
  | assignType {id type} :
      Edited s (.assignType id type) { s with project := s.project.assignType id type }

/-- An edit that gives another project succeeds only if its operation does. -/
private theorem exists_of_withProject {α : Type} {x : Except Error (α × Project)}
    (done : (do let (_, p) ← x; return { s with project := p }) = .ok s') :
    ∃ a p, x = .ok (a, p) ∧ s' = { s with project := p } := by
  obtain ⟨⟨a, p⟩, succeeded, rest⟩ := exists_of_bind_ok done
  exact ⟨a, p, succeeded, (Except.ok.inj rest).symm⟩

theorem edited_of_edit (done : s.edit e = .ok s') : s.Edited e s' := by
  cases e with
  | addDeclaration parent name kind symbol =>
      obtain ⟨id, p, added, rfl⟩ := exists_of_withProject done
      exact .addDeclaration added
  | addTypeLiteral symbol =>
      obtain ⟨⟨id, p⟩, added, rest⟩ := exists_of_bind_ok done
      obtain rfl := Except.ok.inj rest
      exact .addTypeLiteral added
  | addSignature parent name kind =>
      obtain ⟨id, p, added, rfl⟩ := exists_of_withProject done
      exact .addSignature added
  | addParameter signature name type =>
      obtain ⟨id, p, added, rfl⟩ := exists_of_withProject done
      exact .addParameter added
  | addTypeParameter owner name constraint default =>
      obtain ⟨id, p, added, rfl⟩ := exists_of_withProject done
      exact .addTypeParameter added
  | registerSymbol symbol id =>
      obtain ⟨p, named, rest⟩ := exists_of_bind_ok done
      obtain rfl := Except.ok.inj rest
      exact .registerSymbol named
  | remove id =>
      obtain ⟨r, p, removed, rfl⟩ := exists_of_withProject done
      exact .remove removed
  | assignType id type =>
      obtain rfl := Except.ok.inj done
      exact .assignType

/-- An edit that succeeds keeps the project sound. -/
theorem IsSound.edit (h : s.IsSound) (names : e.Names s.literals) (done : s.edit e = .ok s') :
    s'.IsSound := by
  cases edited_of_edit done with
  | addDeclaration added => exact Project.IsSound.addDeclaration h added
  | addTypeLiteral added => exact Project.IsSound.addTypeLiteral h added
  | addSignature added => exact Project.IsSound.addSignature h added
  | addParameter added => exact Project.IsSound.addParameter h names added
  | addTypeParameter added => exact Project.IsSound.addTypeParameter h names added
  | registerSymbol named => exact Project.IsSound.registerSymbol h named
  | remove removed => exact Project.IsSound.remove h removed
  | assignType => exact Project.IsSound.assignType h names

/-- Any edit keeps a stage sound. -/
theorem IsSound.apply (h : s.IsSound) (names : e.Names s.literals) : (s.apply e).IsSound := by
  unfold Stage.apply
  split
  · next done => exact h.edit names done
  · exact h

end Stage

/-- The stages of all runs. -/
inductive Reachable : Stage → Prop
  | new (name : String) : Reachable { project := { name }, literals := [] }
  | decoded (root : WireReflection) (p : Project) (decoded : Project.ofWire root = .ok p) :
      Reachable { project := p, literals := p.anonymous }
  | apply (s : Stage) (e : Edit) (before : Reachable s) (names : e.Names s.literals) :
      Reachable (s.apply e)

variable {s : Stage}

/-- Every reachable stage is sound. -/
theorem Reachable.isSound (h : Reachable s) : s.IsSound := by
  induction h with
  | new name => exact Project.isSound_new name
  | decoded root p decoded =>
      obtain ⟨valid, rfl⟩ := ofWire_eq_ok_iff.1 decoded
      exact Project.isSound_project valid
  | apply s e _ names ih => exact ih.apply names

/-- **A project is coherent at any time**, whatever edits were made in whatever order. -/
theorem isCoherent_of_reachable (h : Reachable s) : s.project.IsCoherent :=
  h.isSound.isCoherent

/-- The variable of the example document gets another anonymous type and a getter, and is removed at
the second attempt. -/
def optionsRemoved : Stage :=
  let decoded : Stage :=
    { project := optionsDocument.project, literals := optionsDocument.project.anonymous }
  let retyped := (decoded.apply (.addTypeLiteral none)).apply (.assignType 1 (some (.reflection 3)))
  ((retyped.apply (.addSignature 1 "options" .getSignature)).apply (.remove 9)).apply (.remove 1)

theorem isCoherent_optionsRemoved :
    Reachable optionsRemoved ∧ optionsRemoved.project.IsCoherent := by
  have decoded := Reachable.decoded optionsDocument optionsDocument.project
    (ofWire_eq_ok_iff.2 ⟨isProject_optionsDocument, rfl⟩)
  have added := decoded.apply _ (.addTypeLiteral none) nofun
  have retyped := added.apply _ (.assignType 1 (some (.reflection 3))) fun id named => by
    obtain rfl := Option.some.inj named
    exact List.mem_cons_self
  have extended := retyped.apply _ (.addSignature 1 "options" .getSignature) nofun
  have unchanged := extended.apply _ (.remove 9) nofun
  have removed : Reachable optionsRemoved := unchanged.apply _ (.remove 1) nofun
  exact ⟨removed, isCoherent_of_reachable removed⟩

end ApiGraph
