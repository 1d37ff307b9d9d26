import ApiGraph.Proofs.Removal
import ApiGraph.Proofs.Runs

/-!
# ApiGraph.Proofs.Allocation

Ids are given out in ascending order and never again. An addition that passes its checks gives out the
next id, and no other edit touches it; so the next id is beyond every id that was ever registered, also
after the reflection has gone. Nothing is asked of the types that additions bring along.

* `Project.Allots` — how an addition answers, with one lemma for each addition.
* `Edit.addition?`, `Edit.Passes` — the edits that are additions, and what they check.
* `Stage.Advances`, `Stage.Ran` — what one edit and what a run do to the next id.
* `givesFreshIds_of_isStart` — the ids of any run.
-/

namespace ApiGraph

namespace Project

variable {p p' p₁ : Project} {id : Id} {r : Reflection} {passes passes' isOwner : Prop}
  {x : Except Error (Id × Project)}

/-! ### Giving out no id -/

/-- A change that gives out no id: the next one stays, and nothing new is registered. -/
structure ShrinksTo (p p' : Project) : Prop where
  nextId : p'.nextId = p.nextId
  contains : ∀ id, p'.contains id = true → p.contains id = true

theorem ShrinksTo.refl (p : Project) : p.ShrinksTo p := ⟨rfl, fun _ => id⟩

theorem ShrinksTo.trans {q : Project} (h : p.ShrinksTo p') (h' : p'.ShrinksTo q) : p.ShrinksTo q where
  nextId := h'.nextId.trans h.nextId
  contains id known := h.contains id (h'.contains id known)

theorem shrinksTo_modify (p : Project) (id : Id) (f : Reflection → Reflection) :
    p.ShrinksTo (p.modify id f) where
  nextId := rfl
  contains x known := (Registry.contains_modify p.registry id f x).symm.trans known

theorem shrinksTo_unregister (p : Project) (work : List Id) : p.ShrinksTo (p.unregister work) where
  nextId := by
    fun_induction Project.unregister p work with
    | case1 p => rfl
    | case2 p id rest missing ih => exact ih
    | case3 p id rest r found ih => exact ih
  contains x known := by
    obtain ⟨r, found⟩ := Registry.contains_iff.1 known
    exact Registry.contains_iff.2 ⟨r, (of_get?_unregister found).2⟩

theorem shrinksTo_remove (removed : p.remove id = .ok (r, p')) : p.ShrinksTo p' where
  nextId := by
    unfold Project.remove at removed
    split at removed
    · cases removed
    · dsimp only at removed
      split at removed
      · cases removed
      · obtain ⟨-, rfl⟩ := Prod.mk.inj (Except.ok.inj removed)
        exact (shrinksTo_unregister _ _).nextId.trans (nextId_detach _ _ _)
  contains x known := by
    obtain ⟨s, removal⟩ := isRemoval_of_remove removed
    exact (removal.contains_iff.1 known).1

theorem shrinksTo_registerSymbol {symbol : Symbol} (named : p.registerSymbol symbol id = .ok p') :
    p.ShrinksTo p' := by
  unfold Project.registerSymbol at named
  split at named
  · obtain rfl := Except.ok.inj named
    exact ⟨rfl, fun _ known => known⟩
  · cases named

/-- A registered reflection may always be remembered under a symbol. -/
theorem exists_registerSymbol? (symbol : Option Symbol) (known : p₁.contains id = true)
    (before : p.ShrinksTo p₁) :
    ∃ p', (do return (id, ← p₁.registerSymbol? symbol id) : Except Error _) = .ok (id, p') ∧
      p.ShrinksTo p' := by
  cases symbol with
  | none => exact ⟨p₁, rfl, before⟩
  | some symbol =>
      have named : p₁.registerSymbol symbol id =
          .ok { p₁ with symbols := (symbol, id) :: p₁.symbols.filter (·.1 != symbol) } :=
        if_pos known
      refine ⟨_, ?_, before.trans (shrinksTo_registerSymbol named)⟩
      simp only [registerSymbol?, named]
      rfl

/-! ### Giving out the next id -/

/-- How an addition answers: it gives out the next id if its arguments pass and an id is left, and says
which of the two is missing otherwise. -/
structure Allots (p : Project) (passes : Prop) (x : Except Error (Id × Project)) : Prop where
  refuses : ¬passes → ∃ e, x = .error e ∧ ∀ last, e ≠ .idSpaceExhausted last
  ends : passes → maxId ≤ p.nextId → x = .error (.idSpaceExhausted p.nextId)
  gives : passes → p.nextId < maxId → ∃ p', x = .ok (p.nextId, p') ∧ p'.nextId = p.nextId + 1 ∧
    ∀ id, p'.contains id = true → p.contains id = true ∨ id = p.nextId

theorem Allots.congr (h : p.Allots passes x) (same : passes' ↔ passes) : p.Allots passes' x := by
  rwa [propext same]

/-- An addition succeeds only with the next id. -/
theorem Allots.of_ok (h : p.Allots passes (.ok (id, p'))) :
    passes ∧ (id = p.nextId ∧ id < maxId) ∧ p'.nextId = p.nextId + 1 ∧
      ∀ x, p'.contains x = true → p.contains x = true ∨ x = id := by
  have checked : passes := by
    by_contra fails
    obtain ⟨e, failed, -⟩ := h.refuses fails
    cases failed
  have left : p.nextId < maxId := by
    refine Int.not_le.1 fun full => ?_
    cases h.ends checked full
  obtain ⟨p₁, given, moves, contains⟩ := h.gives checked left
  obtain ⟨rfl, rfl⟩ := Prod.mk.inj (Except.ok.inj given)
  exact ⟨checked, ⟨rfl, left⟩, moves, contains⟩

/-- An addition fails since no id is left, or since its arguments do not pass. -/
theorem Allots.of_error {e : Error} (h : p.Allots passes (.error e)) :
    (passes ∧ maxId ≤ p.nextId ∧ e = .idSpaceExhausted p.nextId) ∨
      (¬passes ∧ ∀ last, e ≠ .idSpaceExhausted last) := by
  by_cases checked : passes
  · have full : maxId ≤ p.nextId := by
      refine Int.not_lt.1 fun left => ?_
      obtain ⟨p', given, -⟩ := h.gives checked left
      cases given
    exact .inl ⟨checked, full, Except.error.inj (h.ends checked full)⟩
  · obtain ⟨e', failed, other⟩ := h.refuses checked
    rw [Except.error.inj failed]
    exact .inr ⟨checked, other⟩

/-- Registering allots, if what follows gives out no id and never fails. -/
theorem allots_register {f : Id × Project → Except Error (Id × Project)}
    (same : passes ↔ r.body.role.accepts r.kind = true)
    (ends : ∀ p₁, p₁.contains p.nextId = true →
      ∃ p', f (p.nextId, p₁) = .ok (p.nextId, p') ∧ p₁.ShrinksTo p') :
    p.Allots passes (p.register r >>= f) := by
  rw [propext same]
  refine ⟨fun refused => ?_, fun fits full => ?_, fun fits left => ?_⟩
  · refine ⟨.kindMismatch r.kind r.body.role, ?_, nofun⟩
    simp only [register, refused]
    rfl
  · simp only [register, allocate, fits, Int.not_lt.2 full]
    rfl
  · let p₁ : Project :=
      { p with nextId := p.nextId + 1, registry := p.registry.insert p.nextId r }
    have registered : p.register r = .ok (p.nextId, p₁) := by
      simp only [register, allocate, fits, left]
      rfl
    have known (id : Id) : p₁.contains id = (decide (id = p.nextId) || p.contains id) :=
      Registry.contains_insert _ _ _ _
    obtain ⟨p', done, shrinks⟩ := ends p₁ (by simp [known])
    refine ⟨p', by rw [registered]; exact done, shrinks.nextId, fun id inside => ?_⟩
    have before := shrinks.contains id inside
    rw [known, Bool.or_eq_true, decide_eq_true_eq] at before
    exact before.symm

/-! ### Owners -/

/-- A reflection is registered under the id in the given role. -/
def HasRole (p : Project) (id : Id) (role : Role) : Prop :=
  ∃ r, p.get? id = some r ∧ r.body.role = role

/-- How a check answers: it succeeds if the condition holds, and says that no id is left in no case. -/
def Guards {α : Type} (holds : Prop) (guard : Except Error α) : Prop :=
  (holds ∧ ∃ a, guard = .ok a) ∨
    (¬holds ∧ ∃ e, guard = .error e ∧ ∀ last, e ≠ .idSpaceExhausted last)

/-- A check in front adds its condition. -/
theorem Allots.guarded {α : Type} {guard : Except Error α} {f : α → Except Error (Id × Project)}
    (guards : Guards isOwner guard) (allots : ∀ a, p.Allots passes (f a)) :
    p.Allots (isOwner ∧ passes) (guard >>= f) := by
  rcases guards with ⟨holds, a, rfl⟩ | ⟨fails, e, rfl, other⟩
  · exact (allots a).congr (and_iff_right holds)
  · exact ⟨fun _ => ⟨e, rfl, other⟩, fun both => absurd both.1 fails, fun both => absurd both.1 fails⟩

/-- The form of a registered owner, if it is the one that a `child` asks for. -/
def owning {α : Type} (view : Reflection → Option α) (p : Project) (owner : Id) (child : Role) :
    Except Error α :=
  match p.get? owner with
  | none => .error (.unknownReflection owner)
  | some r => (view r).elim (.error (.invalidParent owner child)) .ok

theorem guards_owning {α : Type} (view : Reflection → Option α) (p : Project) (owner : Id)
    (child : Role) : Guards (∃ r, p.get? owner = some r ∧ (view r).isSome = true)
      (p.owning view owner child) := by
  unfold owning
  cases p.get? owner with
  | none =>
      refine .inr ⟨?_, .unknownReflection owner, rfl, nofun⟩
      rintro ⟨r, missing, -⟩
      cases missing
  | some r =>
      cases seen : view r with
      | some a => exact .inl ⟨⟨r, rfl, by rw [seen]; rfl⟩, a, by simp [seen]⟩
      | none =>
          refine .inr ⟨?_, .invalidParent owner child, by simp [seen], nofun⟩
          rintro ⟨r', same, isSome⟩
          obtain rfl := Option.some.inj same
          rw [seen] at isSome
          cases isSome

theorem guards_owningDeclaration (p : Project) (owner : Id) (child : Role) :
    Guards (p.HasRole owner .declaration) (p.owningDeclaration owner child) := by
  have isDeclaration (r : Reflection) : r.body.role = .declaration ↔ r.declaration?.isSome = true := by
    cases body : r.body <;> simp [Reflection.declaration?, Body.role, body]
  simp only [HasRole, isDeclaration]
  exact guards_owning Reflection.declaration? p owner child

theorem guards_owningSignature (p : Project) (owner : Id) (child : Role) :
    Guards (p.HasRole owner .signature) (p.owningSignature owner child) := by
  have isSignature (r : Reflection) : r.body.role = .signature ↔ r.signature?.isSome = true := by
    cases body : r.body <;> simp [Reflection.signature?, Body.role, body]
  simp only [HasRole, isSignature]
  exact guards_owning Reflection.signature? p owner child

/-! ### The additions -/

theorem allots_addDeclaration (p : Project) (parent : Option Id) (name : String) (kind : Kind)
    (symbol : Option Symbol) :
    p.Allots ((∀ owner, parent = some owner → p.HasRole owner .declaration) ∧
      Role.declaration.accepts kind = true) (p.addDeclaration parent name kind symbol) := by
  unfold addDeclaration
  cases parent with
  | none =>
      refine allots_register (and_iff_right nofun) fun p₁ known => ?_
      exact exists_registerSymbol? symbol known ⟨rfl, fun _ => id⟩
  | some owner =>
      have owners : (∀ above, some owner = some above → p.HasRole above .declaration) ↔
          p.HasRole owner .declaration := by
        simp
      rw [owners]
      refine .guarded (guards_owningDeclaration p owner .declaration) fun _ => ?_
      refine allots_register .rfl fun p₁ known => ?_
      refine exists_registerSymbol? symbol ?_ (shrinksTo_modify p₁ owner _)
      exact (Registry.contains_modify p₁.registry owner _ p.nextId).trans known

theorem allots_addTypeLiteral (p : Project) (symbol : Option Symbol) :
    p.Allots True (p.addTypeLiteral symbol) := by
  unfold addTypeLiteral
  refine allots_register (iff_of_true trivial rfl) fun p₁ known => ?_
  exact exists_registerSymbol? symbol known (.refl p₁)

theorem allots_addSignature (p : Project) (parent : Id) (name : String) (kind : Kind) :
    p.Allots (p.HasRole parent .declaration ∧ Role.signature.accepts kind = true)
      (p.addSignature parent name kind) := by
  unfold addSignature
  refine .guarded (guards_owningDeclaration p parent .signature) fun d => ?_
  refine allots_register .rfl fun p₁ _ => ⟨_, rfl, ?_⟩
  exact (shrinksTo_modify p₁ parent _).trans (shrinksTo_unregister _ _)

theorem allots_addParameter (p : Project) (signature : Id) (name : String)
    (type : Option TypeExpr) :
    p.Allots (p.HasRole signature .signature) (p.addParameter signature name type) := by
  unfold addParameter
  rw [← and_true (p.HasRole signature .signature)]
  refine .guarded (guards_owningSignature p signature .parameter) fun _ => ?_
  refine allots_register (iff_of_true trivial rfl) fun p₁ _ => ⟨_, rfl, ?_⟩
  exact shrinksTo_modify p₁ signature _

/-- A body has room for type parameters if it is that of a declaration or signature. -/
theorem isSome_placeTypeParameter?_iff (id : Id) (b : Body) :
    (placeTypeParameter? id b).isSome = true ↔ b.role = .declaration ∨ b.role = .signature := by
  cases b <;> simp [placeTypeParameter?, Body.role]

theorem allots_addTypeParameter (p : Project) (owner : Id) (name : String)
    (constraint default : Option TypeExpr) :
    p.Allots (p.HasRole owner .declaration ∨ p.HasRole owner .signature)
      (p.addTypeParameter owner name constraint default) := by
  have owners : (p.HasRole owner .declaration ∨ p.HasRole owner .signature) ↔
      (∃ r, p.get? owner = some r ∧ (placeTypeParameter? 0 r.body).isSome = true) ∧ True := by
    simp only [HasRole, isSome_placeTypeParameter?_iff, ← exists_or, ← and_or_left, and_true]
  -- the check of the owner is one of the usual form, though it is written out
  have checked : p.addTypeParameter owner name constraint default = (do
      let _ ← p.owning (fun r => placeTypeParameter? 0 r.body) owner .typeParameter
      let added ← p.register
        { name, kind := .typeParameter, parent := some owner,
          body := .typeParameter { constraint, default } }
      return (added.1, added.2.modify owner fun r =>
        { r with body := (placeTypeParameter? added.1 r.body).getD r.body })) := by
    unfold addTypeParameter owning
    cases p.get? owner with
    | none => rfl
    | some r =>
        dsimp only
        cases placeTypeParameter? 0 r.body <;> rfl
  rw [owners, checked]
  refine .guarded (guards_owning _ p owner .typeParameter) fun _ => ?_
  refine allots_register (iff_of_true trivial rfl) fun p₁ _ => ⟨_, rfl, ?_⟩
  exact shrinksTo_modify p₁ owner _

end Project

/-! ### Edits -/

/-- What an edit adds to a project, if it is an addition. -/
def Edit.addition? (p : Project) : Edit → Option (Except Error (Id × Project))
  | .addDeclaration parent name kind symbol => some (p.addDeclaration parent name kind symbol)
  | .addTypeLiteral symbol => some (p.addTypeLiteral symbol)
  | .addSignature parent name kind => some (p.addSignature parent name kind)
  | .addParameter signature name type => some (p.addParameter signature name type)
  | .addTypeParameter owner name constraint default =>
    some (p.addTypeParameter owner name constraint default)
  | .registerSymbol _ _ | .remove _ | .assignType _ _ => none

/-- The edit is an addition whose arguments pass the checks: the owner is registered in a role that may
own the new reflection, and the kind fits the role of the new one. -/
def Edit.Passes (p : Project) : Edit → Prop
  | .addDeclaration parent _ kind _ =>
    (∀ owner, parent = some owner → p.HasRole owner .declaration) ∧
      Role.declaration.accepts kind = true
  | .addTypeLiteral _ => True
  | .addSignature parent _ kind =>
    p.HasRole parent .declaration ∧ Role.signature.accepts kind = true
  | .addParameter signature _ _ => p.HasRole signature .signature
  | .addTypeParameter owner _ _ _ => p.HasRole owner .declaration ∨ p.HasRole owner .signature
  | .registerSymbol _ _ | .remove _ | .assignType _ _ => False

theorem Edit.allots_of_addition {p : Project} {e : Edit} {x : Except Error (Id × Project)}
    (addition : e.addition? p = some x) : p.Allots (e.Passes p) x := by
  cases e with
  | addDeclaration parent name kind symbol =>
      obtain rfl := Option.some.inj addition
      exact p.allots_addDeclaration parent name kind symbol
  | addTypeLiteral symbol =>
      obtain rfl := Option.some.inj addition
      exact p.allots_addTypeLiteral symbol
  | addSignature parent name kind =>
      obtain rfl := Option.some.inj addition
      exact p.allots_addSignature parent name kind
  | addParameter signature name type =>
      obtain rfl := Option.some.inj addition
      exact p.allots_addParameter signature name type
  | addTypeParameter owner name constraint default =>
      obtain rfl := Option.some.inj addition
      exact p.allots_addTypeParameter owner name constraint default
  | _ => cases addition

theorem Edit.exists_addition_of_passes {p : Project} {e : Edit} (passes : e.Passes p) :
    ∃ x, e.addition? p = some x := by
  cases e with
  | registerSymbol _ _ | remove _ | assignType _ _ => cases passes
  | _ => exact ⟨_, rfl⟩

namespace Stage

variable {s s' s'' : Stage} {e : Edit} {es more : List Edit} {id : Id} {new : Option Id}
  {ids : List Id} {x : Except Error (Id × Project)}

/-- What an edit answers at a stage, if it is an addition. -/
def answer? (s : Stage) (e : Edit) : Option (Except Error Id) :=
  (e.addition? s.project).map fun x => x.map Prod.fst

/-- The id that an edit gives out at a stage, if it is an addition that succeeds. -/
def given? (s : Stage) (e : Edit) : Option Id :=
  (s.answer? e).bind Except.toOption

/-- An edit that is an addition puts the new project in the place of the old one. -/
theorem exists_edit_eq (addition : e.addition? s.project = some x) : ∃ literals : Id → List Id,
    s.edit e = do let added ← x; return { project := added.2, literals := literals added.1 } := by
  cases e with
  | addTypeLiteral symbol =>
      obtain rfl := Option.some.inj addition
      exact ⟨fun id => id :: s.literals, rfl⟩
  | addDeclaration _ _ _ _ | addSignature _ _ _ | addParameter _ _ _ | addTypeParameter _ _ _ _ =>
      obtain rfl := Option.some.inj addition
      exact ⟨fun _ => s.literals, rfl⟩
  | _ => cases addition

theorem project_apply_of_ok {p' : Project} (addition : e.addition? s.project = some (.ok (id, p'))) :
    (s.apply e).project = p' := by
  obtain ⟨literals, edits⟩ := exists_edit_eq addition
  unfold apply
  rw [edits]
  rfl

/-- An addition that fails changes nothing. -/
theorem apply_of_error {err : Error} (addition : e.addition? s.project = some (.error err)) :
    s.apply e = s := by
  obtain ⟨literals, edits⟩ := exists_edit_eq addition
  unfold apply
  rw [edits]
  rfl

/-- An edit that is no addition gives out no id. -/
theorem shrinksTo_apply (none : e.addition? s.project = none) :
    s.project.ShrinksTo (s.apply e).project := by
  unfold apply
  split
  · next s' done =>
    cases edited_of_edit done with
    | registerSymbol named => exact Project.shrinksTo_registerSymbol named
    | remove removed => exact Project.shrinksTo_remove removed
    | assignType => exact Project.shrinksTo_modify _ _ _
    | _ => cases none
  · exact .refl _

/-! ### One edit -/

/-- A step that gives out an id, or none: the given one is the next one, which moves on, and nothing else
is new. -/
structure Advances (s : Stage) (new : Option Id) (s' : Stage) : Prop where
  isNext : ∀ id, new = some id → id = s.project.nextId ∧ id < maxId
  nextId : s'.project.nextId = new.elim s.project.nextId (· + 1)
  contains : ∀ id, s'.project.contains id = true → s.project.contains id = true ∨ new = some id

theorem advances_of_shrinksTo (h : s.project.ShrinksTo s'.project) : s.Advances none s' where
  isNext := nofun
  nextId := h.nextId
  contains id known := .inl (h.contains id known)

/-- What an addition answers at a stage. -/
theorem answer?_of_passes (passes : e.Passes s.project) : s.answer? e = some
    (if s.project.nextId < maxId then .ok s.project.nextId
      else .error (.idSpaceExhausted s.project.nextId)) := by
  obtain ⟨x, addition⟩ := Edit.exists_addition_of_passes passes
  have allots := Edit.allots_of_addition addition
  unfold answer?
  rw [addition]
  split
  · next left =>
    obtain ⟨p', rfl, -⟩ := allots.gives passes left
    rfl
  · next full =>
    rw [allots.ends passes (Int.not_lt.1 full)]
    rfl

/-- Of the additions that fail, those that pass their checks say that no id is left, which is so, and the
others do not. -/
theorem cases_of_answer? {err : Error} (answer : s.answer? e = some (.error err)) :
    (e.Passes s.project ∧ maxId ≤ s.project.nextId ∧ err = .idSpaceExhausted s.project.nextId) ∨
      (¬e.Passes s.project ∧ ∀ last, err ≠ .idSpaceExhausted last) := by
  obtain ⟨x, addition, failed⟩ := Option.map_eq_some_iff.1 answer
  cases x with
  | ok result => cases failed
  | error e' =>
      obtain rfl := Except.error.inj failed
      exact (Edit.allots_of_addition addition).of_error

/-- That no id is left is only said when it is so. -/
theorem exhausted_of_answer? {last : Id}
    (answer : s.answer? e = some (.error (.idSpaceExhausted last))) :
    last = s.project.nextId ∧ maxId ≤ s.project.nextId := by
  rcases cases_of_answer? answer with ⟨-, full, reason⟩ | ⟨-, other⟩
  · exact ⟨Error.idSpaceExhausted.inj reason, full⟩
  · exact absurd rfl (other last)

/-- An edit gives out an id only if its arguments pass. -/
theorem passes_of_given? (given : s.given? e = some id) : e.Passes s.project := by
  obtain ⟨answer, answered, succeeds⟩ := Option.bind_eq_some_iff.1 given
  obtain ⟨x, addition, rfl⟩ := Option.map_eq_some_iff.1 answered
  cases x with
  | ok result => exact (Edit.allots_of_addition addition).of_ok.1
  | error err => cases succeeds

/-- **Every edit advances its stage** by the id that it gives out. -/
theorem advances_apply (s : Stage) (e : Edit) : s.Advances (s.given? e) (s.apply e) := by
  unfold given? answer?
  cases addition : e.addition? s.project with
  | none => exact advances_of_shrinksTo (shrinksTo_apply addition)
  | some x =>
      cases x with
      | error err =>
          rw [apply_of_error addition]
          exact advances_of_shrinksTo (.refl _)
      | ok result =>
          obtain ⟨id, p'⟩ := result
          obtain ⟨-, isNext, moves, contains⟩ := (Edit.allots_of_addition addition).of_ok
          rw [← project_apply_of_ok addition] at moves contains
          constructor
          · intro x given
            exact Option.some.inj given ▸ isNext
          · rw [moves, isNext.1]
            rfl
          · intro x known
            exact (contains x known).imp_right fun same => congrArg some same.symm

/-! ### Runs -/

/-- The stage after some edits. -/
def run (s : Stage) (es : List Edit) : Stage :=
  es.foldl apply s

/-- The ids that some edits give out, in order. -/
def given : Stage → List Edit → List Id
  | _, [] => []
  | s, e :: es => (s.given? e).toList ++ (s.apply e).given es

theorem run_append (s : Stage) (es more : List Edit) : s.run (es ++ more) = (s.run es).run more :=
  List.foldl_append

/-- What edits do that give out the ids: these ascend from the next one on, which moves beyond them, and
nothing else is new. -/
structure Ran (s : Stage) (ids : List Id) (s' : Stage) : Prop where
  nextId : s.project.nextId ≤ s'.project.nextId
  within : ∀ id ∈ ids, s.project.nextId ≤ id ∧ id < s'.project.nextId
  ascending : ids.Pairwise (· < ·)
  contains : ∀ id, s'.project.contains id = true → s.project.contains id = true ∨ id ∈ ids

theorem Ran.nil (s : Stage) : s.Ran [] s where
  nextId := Int.le_refl _
  within := nofun
  ascending := .nil
  contains _ known := .inl known

/-- One more edit in front. -/
theorem Advances.cons (first : s.Advances new s') (rest : s'.Ran ids s'') :
    s.Ran (new.toList ++ ids) s'' := by
  obtain ⟨isNext, moves, contains⟩ := first
  cases new with
  | none =>
      have same : s'.project.nextId = s.project.nextId := moves
      refine ⟨same ▸ rest.nextId, same ▸ rest.within, rest.ascending, fun x known => ?_⟩
      exact (rest.contains x known).imp_left fun before => (contains x before).resolve_right nofun
  | some id =>
      obtain ⟨rfl, -⟩ := isNext id rfl
      have moved : s.project.nextId < s'.project.nextId :=
        Int.lt_iff_add_one_le.2 (Int.le_of_eq moves.symm)
      have beyond (x : Id) (later : x ∈ ids) : s.project.nextId < x :=
        Int.lt_of_lt_of_le moved (rest.within x later).1
      refine ⟨Int.le_trans (Int.le_of_lt moved) rest.nextId, fun x mem => ?_,
        List.pairwise_cons.2 ⟨beyond, rest.ascending⟩, fun x known => ?_⟩
      · rcases List.mem_cons.1 mem with rfl | later
        · exact ⟨Int.le_refl _, Int.lt_of_lt_of_le moved rest.nextId⟩
        · exact ⟨Int.le_of_lt (beyond x later), (rest.within x later).2⟩
      · rcases rest.contains x known with before | later
        · exact (contains x before).imp_right fun same =>
            List.mem_cons.2 (.inl (Option.some.inj same).symm)
        · exact .inr (List.mem_cons_of_mem _ later)

/-- **A run gives out ascending ids.** -/
theorem ran_run (s : Stage) (es : List Edit) : s.Ran (s.given es) (s.run es) := by
  induction es generalizing s with
  | nil => exact .nil s
  | cons e es ih => exact (s.advances_apply e).cons (ih (s.apply e))

/-- The next id is beyond every registered one, and not beyond the last one. -/
structure IsNumbered (s : Stage) : Prop where
  bounded : s.project.nextId ≤ maxId
  below : ∀ id, s.project.contains id = true → id < s.project.nextId

theorem IsNumbered.advance (h : s.IsNumbered) (first : s.Advances new s') : s'.IsNumbered := by
  obtain ⟨isNext, moves, contains⟩ := first
  cases new with
  | none =>
      have same : s'.project.nextId = s.project.nextId := moves
      refine ⟨same ▸ h.bounded, fun x known => ?_⟩
      rw [same]
      exact h.below x ((contains x known).resolve_right nofun)
  | some id =>
      obtain ⟨rfl, left⟩ := isNext id rfl
      have moved : s'.project.nextId = s.project.nextId + 1 := moves
      constructor
      · rw [moved]
        exact left
      · intro x known
        rw [moved]
        refine Int.lt_add_one_of_le ?_
        rcases contains x known with before | same
        · exact Int.le_of_lt (h.below x before)
        · exact Int.le_of_eq (Option.some.inj same).symm

theorem IsNumbered.run (h : s.IsNumbered) (es : List Edit) : (s.run es).IsNumbered := by
  induction es generalizing s with
  | nil => exact h
  | cons e es ih => exact ih (h.advance (s.advances_apply e))

/-! ### Used ids -/

/-- The id was given out in the course of some edits, or something was registered under it at some time,
be it at the start. -/
def Used (s : Stage) (es : List Edit) (id : Id) : Prop :=
  id ∈ s.given es ∨ ∃ before after, es = before ++ after ∧ (s.run before).project.contains id = true

/-- **The next id is beyond every id that was ever used.** -/
theorem IsNumbered.lt_of_used (h : s.IsNumbered) (used : s.Used es id) :
    id < (s.run es).project.nextId := by
  rcases used with given | ⟨before, after, rfl, known⟩
  · exact ((s.ran_run es).within id given).2
  · rw [run_append]
    exact Int.lt_of_lt_of_le ((h.run before).below id known) ((s.run before).ran_run after).nextId

/-- **A used id under which nothing is registered any more stays free.** -/
theorem IsNumbered.not_contains_of_used (h : s.IsNumbered) (used : s.Used es id)
    (gone : (s.run es).project.contains id = false) (more : List Edit) :
    (s.run (es ++ more)).project.contains id = false := by
  rw [run_append, ← Bool.not_eq_true]
  intro known
  have ran := (s.run es).ran_run more
  rcases ran.contains id known with before | given
  · rw [gone] at before
    cases before
  · exact Int.not_le.2 (h.lt_of_used used) (ran.within id given).1

/-- A given id is beyond every id that was used before. -/
theorem IsNumbered.fresh (h : s.IsNumbered) (given : (s.run es).given? e = some id) :
    e.Passes (s.run es).project ∧ id ≤ maxId - 1 ∧ ∀ old, s.Used es old → old < id := by
  obtain ⟨rfl, left⟩ := ((s.run es).advances_apply e).isNext id given
  exact ⟨passes_of_given? given, Int.le_sub_one_of_lt left, fun old used => h.lt_of_used used⟩

/-- A stage at which no id is left answers nothing else to additions that pass, and stays as it is. -/
theorem exhausted_of_passes (full : s.project.nextId = maxId) (passes : e.Passes s.project) :
    s.answer? e = some (.error (.idSpaceExhausted maxId)) ∧ s.apply e = s := by
  have answer := answer?_of_passes passes
  rw [full, if_neg (Int.lt_irrefl _)] at answer
  obtain ⟨x, addition⟩ := Edit.exists_addition_of_passes passes
  have ends := (Edit.allots_of_addition addition).ends passes (Int.le_of_eq full.symm)
  exact ⟨answer, apply_of_error (ends ▸ addition)⟩

/-- A reference that was found to be a reflection points at its id from then on. -/
theorem target_settle {p : Project} {link : Link} (found : p.resolve? link.target = some id) :
    (link.settle p.lookup).target = .reflection id := by
  unfold Link.settle
  cases target : link.target with
  | reflection known =>
      rw [target, Project.resolve?] at found
      split at found
      · exact congrArg Target.reflection (Option.some.inj found)
      · cases found
  | symbol symbol =>
      rw [target] at found
      have lookup : p.lookup symbol = some id := found
      simp [Target.settle, lookup]

/-- After its removal nothing is registered under an id. -/
theorem contains_apply_remove (s : Stage) (id : Id) :
    (s.apply (.remove id)).project.contains id = false := by
  rw [← Bool.not_eq_true]
  intro known
  have before := (s.shrinksTo_apply (e := .remove id) rfl).contains id known
  obtain ⟨r, p', removed⟩ := Project.exists_remove before
  obtain ⟨r', removal⟩ := Project.isRemoval_of_remove removed
  have done : s.edit (.remove id) = .ok { s with project := p' } := by
    simp only [edit, removed]
    rfl
  simp only [apply, done] at known
  exact removal.not_contains known

/-- How a run from a stage deals with ids. -/
structure GivesFreshIds (s : Stage) (es : List Edit) : Prop where
  ascending : (s.given es).Pairwise (· < ·)
  /-- A given id is beyond all that were used before, and there is one beyond it. -/
  fresh : ∀ before e after id, es = before ++ e :: after → (s.run before).given? e = some id →
    e.Passes (s.run before).project ∧ id ≤ maxId - 1 ∧ ∀ old, s.Used before old → old < id
  /-- The next id never goes back, nor beyond the last one. -/
  counter : ∀ before after, es = before ++ after →
    (s.run before).project.nextId ≤ (s.run es).project.nextId ∧ (s.run es).project.nextId ≤ maxId
  /-- A further addition that passes its checks gets the next id, unless that is the last one. -/
  answers : ∀ e, e.Passes (s.run es).project → (s.run es).answer? e = some
    (if (s.run es).project.nextId < maxId then .ok (s.run es).project.nextId
      else .error (.idSpaceExhausted maxId))
  /-- A further addition that fails for another reason does not pass its checks. -/
  refused : ∀ e err, (s.run es).answer? e = some (.error err) →
    (e.Passes (s.run es).project ↔ ∃ last, err = .idSpaceExhausted last)
  /-- After an addition that was told so, no id is left for any other, and the stage stays as it is. -/
  exhausted : ∀ before after e last, es = before ++ after →
    (s.run before).answer? e = some (.error (.idSpaceExhausted last)) → last = maxId ∧
      ∀ e', e'.Passes (s.run es).project →
        (s.run es).answer? e' = some (.error (.idSpaceExhausted maxId)) ∧
        (s.run es).apply e' = s.run es
  /-- Where nothing is registered any more, nothing is found later. -/
  gone : ∀ id more, s.Used es id → (s.run es).project.contains id = false →
    (s.run (es ++ more)).project.resolve? (.reflection id) = none
  /-- A reference that was found to be a reflection, by its id or by its symbol, is found to be nothing
  once the reflection has gone. -/
  settled : ∀ before after (link : Link) id more, es = before ++ after →
    (s.run before).project.resolve? link.target = some id → (s.run es).project.contains id = false →
    (s.run (es ++ more)).project.resolve? (link.settle (s.run before).project.lookup).target = none

end Stage

/-- The projects that runs start from. -/
inductive Project.IsStart : Project → Prop
  | new (name : String) : IsStart { name }
  | decoded (root : WireReflection) (p : Project) (decoded : Project.ofWire root = .ok p) : IsStart p

/-- Runs start soundly. -/
theorem Project.IsStart.exists_isSound {p : Project} (start : p.IsStart) :
    ∃ literals, p.IsSound literals [] := by
  cases start with
  | new name => exact ⟨[], Project.isSound_new name⟩
  | decoded root p decoded =>
      obtain ⟨valid, rfl⟩ := ofWire_eq_ok_iff.1 decoded
      exact ⟨_, Project.isSound_project valid⟩

theorem Stage.isNumbered_of_isSound {s : Stage} {literals work : List Id}
    (sound : s.project.IsSound literals work) : s.IsNumbered := by
  refine ⟨sound.next.2, fun id known => ?_⟩
  obtain ⟨r, found⟩ := Registry.contains_iff.1 known
  exact (sound.numbered id r found).2

theorem Stage.isNumbered_of_isStart {s : Stage} (start : s.project.IsStart) : s.IsNumbered := by
  obtain ⟨literals, sound⟩ := start.exists_isSound
  exact isNumbered_of_isSound sound

/-- **Ids are never given out again**, whatever edits are made in whatever order, from a new project or a
decoded one. -/
theorem givesFreshIds_of_isStart {s : Stage} (start : s.project.IsStart) (es : List Edit) :
    s.GivesFreshIds es := by
  have numbered := Stage.isNumbered_of_isStart start
  have bounded (before : List Edit) := (numbered.run before).bounded
  have gone (id : Id) (more : List Edit) (used : s.Used es id)
      (missing : (s.run es).project.contains id = false) :
      (s.run (es ++ more)).project.resolve? (.reflection id) = none := by
    have never := numbered.not_contains_of_used used missing more
    simp [Project.resolve?, never]
  have counter (before after : List Edit) (split : es = before ++ after) :
      (s.run before).project.nextId ≤ (s.run es).project.nextId := by
    rw [split, Stage.run_append]
    exact ((s.run before).ran_run after).nextId
  refine
    { ascending := (s.ran_run es).ascending
      fresh := fun before e after id _ given => numbered.fresh given
      counter := fun before after split => ⟨counter before after split, bounded es⟩
      answers := ?answers
      refused := ?refused
      exhausted := ?exhausted
      gone := gone
      settled := ?settled }
  case answers =>
    intro e passes
    rw [Stage.answer?_of_passes passes]
    split
    · rfl
    · next full => rw [Int.le_antisymm (bounded es) (Int.not_lt.1 full)]
  case refused =>
    intro e err failed
    rcases Stage.cases_of_answer? failed with ⟨passes, -, reason⟩ | ⟨fails, other⟩
    · exact iff_of_true passes ⟨_, reason⟩
    · refine iff_of_false fails fun full => ?_
      obtain ⟨last, reason⟩ := full
      exact other last reason
  case exhausted =>
    intro before after e last split told
    obtain ⟨rfl, full⟩ := Stage.exhausted_of_answer? told
    have later := counter before after split
    refine ⟨Int.le_antisymm (bounded before) full, fun e' passes => ?_⟩
    exact Stage.exhausted_of_passes (Int.le_antisymm (bounded es) (Int.le_trans full later)) passes
  case settled =>
    intro before after link id more split found missing
    rw [Stage.target_settle found]
    have known := Project.contains_of_resolve? found
    exact gone id more (.inr ⟨before, after, split, known⟩) missing

/-- A document of one variable, whose id is the last but one. -/
def lastDocument : WireReflection :=
  .mk { id := 0, name := "library", kind := 0 }
    (some [.ofHeader { id := maxId - 1, name := "options", kind := 0x20 }])
    none none none none none none none none none none none none none false

theorem isProject_lastDocument : lastDocument.IsProject := by
  refine ⟨rfl, fun part mem => ?_, by decide⟩
  obtain rfl := List.mem_singleton.1 mem
  exact ⟨⟨.variable, rfl, rfl⟩, by decide, by decide⟩

/-- The stage at which the document has just been decoded. -/
def lastStage : Stage := { project := lastDocument.project, literals := [] }

/-- The stage of a new project. -/
def newStage : Stage := { project := { name := "library" }, literals := [] }

/-- No id is left beside the variable. Once it is removed, there is still none, and the variable is not
found again. In a new project the second addition gets an id beyond that of the first one. -/
theorem givesFreshIds_lastDocument :
    ((lastStage.run [.remove (maxId - 1)]).answer? (.addTypeLiteral none) =
        some (.error (.idSpaceExhausted maxId)) ∧
      lastStage.project.resolve? (.reflection (maxId - 1)) = some (maxId - 1) ∧
      ∀ more, (lastStage.run (.remove (maxId - 1) :: more)).project.resolve?
        (.reflection (maxId - 1)) = none) ∧
    (newStage.run [.addTypeLiteral none]).given? (.addTypeLiteral none) = some 2 ∧
      ∀ old, newStage.Used [.addTypeLiteral none] old → old < 2 := by
  constructor
  · have start : lastStage.project.IsStart :=
      .decoded lastDocument _ (ofWire_eq_ok_iff.2 ⟨isProject_lastDocument, rfl⟩)
    have fresh := givesFreshIds_of_isStart start [.remove (maxId - 1)]
    obtain ⟨least, most⟩ := fresh.counter [] [.remove (maxId - 1)] rfl
    have full : (lastStage.run [.remove (maxId - 1)]).project.nextId = maxId :=
      Int.le_antisymm most least
    have answer := fresh.answers (.addTypeLiteral none) trivial
    rw [full, if_neg (Int.lt_irrefl _)] at answer
    have used : lastStage.Used [.remove (maxId - 1)] (maxId - 1) := .inr ⟨[], _, rfl, rfl⟩
    have missing := lastStage.contains_apply_remove (maxId - 1)
    exact ⟨answer, rfl, fun more => fresh.gone (maxId - 1) more used missing⟩
  · have fresh := givesFreshIds_of_isStart (s := newStage) (.new "library")
      [.addTypeLiteral none, .addTypeLiteral none]
    exact ⟨rfl, (fresh.fresh [.addTypeLiteral none] (.addTypeLiteral none) [] 2 rfl rfl).2.2⟩

end ApiGraph
