import ApiGraph.Proofs.Removal
import ApiGraph.Proofs.Runs
import ApiGraph.Proofs.WrittenParts

/-!
# ApiGraph.Proofs.Naming

Which types name which type literals. A type literal is owned by the reflection whose type names it,
but nothing keeps two types from naming the same one: it is then written at both places, and what is
written cannot be read back. A project that is composed of literals of its own and can be written is
read back exactly if no literal is named twice below the top level.

* `Project.Follows` — what a change leaves of the reflections that were there before.
* `Project.NamesLiterals` — types name type literals only; `Stage.namesLiterals_edit` is its step.
* `Project.NamesOnce`, `IsSound.holdsOnce_iff` — no literal is named twice.
* `Composed` — the stages of all runs whose types name type literals only.
* `exists_ofWire_iff_namesOnce` — which of their documents are read.
-/

namespace ApiGraph

/-! ### Changes -/

namespace Reflection

/-- A reflection in the place of another, whose types name at most some further ids. -/
structure Follows (names : List Id) (r' r : Reflection) : Prop extends r'.Resembles r where
  anonymous : ∀ x ∈ r'.body.anonymous, x ∈ r.body.anonymous ∨ x ∈ names

theorem Follows.refl (names : List Id) (r : Reflection) : r.Follows names r :=
  ⟨.refl r, fun _ => .inl⟩

end Reflection

namespace Body

/-- Detaching leaves the types alone. -/
@[simp] theorem anonymous_detach (id : Id) (b : Body) : (b.detach id).anonymous = b.anonymous := by
  cases b <;> rfl

theorem role_placeTypeParameter (id : Id) (b : Body) :
    ((Project.placeTypeParameter? id b).getD b).role = b.role := by
  cases b <;> rfl

theorem anonymous_placeTypeParameter (id : Id) (b : Body) :
    ((Project.placeTypeParameter? id b).getD b).anonymous = b.anonymous := by
  cases b <;> rfl

theorem anonymous_placeSignature (kind : Kind) (id : Id) (d : Declaration) :
    (Body.declaration (Project.placeSignature kind id d)).anonymous =
      (Body.declaration d).anonymous := by
  unfold Project.placeSignature
  split <;> rfl

/-- With another main type, what is named is named by that or was named before. -/
theorem mem_anonymous_withType {type : Option TypeExpr} {x : Id} {b : Body}
    (h : x ∈ (b.withType type).anonymous) :
    x ∈ b.anonymous ∨ x ∈ TypeExpr.anonymousOption type := by
  cases b with
  | parameter q => exact .inr h
  | _ =>
      rcases List.mem_append.1 h with main | other
      · exact .inr main
      · exact .inl (List.mem_append_right _ other)

end Body

namespace Project

variable {p p' p'' : Project} {names literals work : List Id} {id owner : Id} {r o : Reflection}
  {f : Reflection → Reflection}

/-- Every reflection of a project follows one of another project. -/
def Follows (names : List Id) (p' p : Project) : Prop :=
  ∀ id r', p'.get? id = some r' → ∃ r, p.get? id = some r ∧ r'.Follows names r

namespace Follows

theorem refl (names : List Id) (p : Project) : p.Follows names p :=
  fun _ r found => ⟨r, found, .refl names r⟩

theorem trans (later : p''.Follows names p') (first : p'.Follows names p) : p''.Follows names p := by
  intro id r'' found''
  obtain ⟨r', found', same', names'⟩ := later id r'' found''
  obtain ⟨r, found, same, names⟩ := first id r' found'
  refine ⟨r, found, ⟨same'.parent.trans same.parent, same'.kind.trans same.kind,
    same'.role.trans same.role⟩, fun x mem => ?_⟩
  rcases names' x mem with before | new
  · exact names x before
  · exact .inr new

theorem modify (each : ∀ r, (f r).Follows names r) : (p.modify id f).Follows names p := by
  intro x r' found'
  rw [get?_modify] at found'
  split at found'
  · obtain ⟨r, found, rfl⟩ := Option.map_eq_some_iff.1 found'
    exact ⟨r, found, each r⟩
  · exact ⟨r', found', .refl names r'⟩

theorem modifyDeclaration {g : Declaration → Declaration}
    (same : ∀ d, (Body.declaration (g d)).anonymous = (Body.declaration d).anonymous) :
    (p.modifyDeclaration id g).Follows names p := by
  refine modify fun r => ?_
  obtain ⟨name, kind, parent, flags, body⟩ := r
  cases body with
  | declaration d => exact ⟨⟨rfl, rfl, rfl⟩, fun x mem => .inl (same d ▸ mem)⟩
  | _ => exact .refl names _

theorem modifySignature {g : Signature → Signature}
    (same : ∀ s, (Body.signature (g s)).anonymous = (Body.signature s).anonymous) :
    (p.modifySignature id g).Follows names p := by
  refine modify fun r => ?_
  obtain ⟨name, kind, parent, flags, body⟩ := r
  cases body with
  | signature s => exact ⟨⟨rfl, rfl, rfl⟩, fun x mem => .inl (same s ▸ mem)⟩
  | _ => exact .refl names _

theorem unregister (names : List Id) (p : Project) (work : List Id) :
    (p.unregister work).Follows names p :=
  fun _ r found => ⟨r, (of_get?_unregister found).2, .refl names r⟩

theorem remove (names : List Id) (removed : p.remove id = .ok (r, p')) : p'.Follows names p := by
  obtain ⟨o, removal⟩ := isRemoval_of_remove removed
  intro x s found
  obtain ⟨-, s', before, rfl⟩ := removal.exists_of_get? found
  refine ⟨s', before, ?_⟩
  split
  · exact ⟨⟨rfl, rfl, Body.role_detach id s'.body⟩, fun x mem =>
      .inl (Body.anonymous_detach id s'.body ▸ mem)⟩
  · exact .refl names s'

theorem registerSymbol (names : List Id) {symbol : Symbol}
    (done : p.registerSymbol symbol id = .ok p') : p'.Follows names p := by
  unfold Project.registerSymbol at done
  split at done
  · obtain rfl := Except.ok.inj done
    exact .refl names p
  · cases done

theorem registerSymbol? (names : List Id) {symbol : Option Symbol}
    (done : p.registerSymbol? symbol id = .ok p') : p'.Follows names p := by
  cases symbol with
  | none => exact Except.ok.inj done ▸ .refl names p
  | some symbol => exact registerSymbol names done

theorem assignType (p : Project) (id : Id) (type : Option TypeExpr) :
    (p.assignType id type).Follows (TypeExpr.anonymousOption type) p :=
  modify fun r => ⟨⟨rfl, rfl, Body.role_withType type r.body⟩, fun _ => Body.mem_anonymous_withType⟩

end Follows

/-! ### Type literals -/

/-- Types name type literals only, and those are declarations without parent. -/
structure NamesLiterals (p : Project) (literals : List Id) : Prop where
  named : ∀ id r, p.get? id = some r → ∀ x ∈ r.body.anonymous, x ∈ literals
  free : ∀ id ∈ literals, ∀ r, p.get? id = some r → r.position id = .free id

theorem namesLiterals_new (name : String) : NamesLiterals { name } [] where
  named id r found := by cases found
  free id literal := by cases literal

/-- The type literals of a decoded project are the declarations that its types name. -/
theorem namesLiterals_project {root : WireReflection} (h : root.IsProject) :
    root.project.NamesLiterals root.project.anonymous where
  named id r found x mem := mem_anonymous.2 ⟨id, r, found, mem⟩
  free id named r found := by
    have place : Position.free id ∈ root.project.positions :=
      root.project.perm_positions.mem_iff.2
        (List.mem_append_right _ (List.mem_map_of_mem named))
    exact (WireReflection.isForest_project h).isPlaced _ place r found

namespace NamesLiterals

/-- A change may name further type literals. -/
theorem follow (h : p.NamesLiterals literals) (follows : p'.Follows names p)
    (known : ∀ x ∈ names, x ∈ literals) : p'.NamesLiterals literals where
  named id r' found' x mem := by
    obtain ⟨r, found, same⟩ := follows id r' found'
    rcases same.anonymous x mem with before | new
    · exact h.named id r found x before
    · exact known x new
  free id literal r' found' := by
    obtain ⟨r, found, same⟩ := follows id r' found'
    rw [same.position_eq]
    exact h.free id literal r found

/-- A new reflection may name type literals. -/
theorem register (h : p.NamesLiterals literals) (sound : p.IsSound literals [])
    (added : p.register r = .ok (id, p')) (known : ∀ x ∈ r.body.anonymous, x ∈ literals) :
    p'.NamesLiterals literals where
  named x s found := by
    rw [get?_register added] at found
    split at found
    · exact Option.some.inj found ▸ known
    · exact h.named x s found
  free x literal s found := by
    rw [get?_register added, if_neg] at found
    · exact h.free x literal s found
    · rintro rfl
      exact sound.fresh.2 ((register_eq_ok added).1 ▸ literal)

/-- A declaration without parent may become a type literal. -/
theorem cons (h : p.NamesLiterals literals) (found : p.get? id = some r)
    (free : r.position id = .free id) : p.NamesLiterals (id :: literals) where
  named x s foundX y mem := List.mem_cons_of_mem _ (h.named x s foundX y mem)
  free x literal s foundX := by
    rcases List.mem_cons.1 literal with rfl | old
    · obtain rfl := Option.some.inj (found.symm.trans foundX)
      exact free
    · exact h.free x old s foundX

section

variable {p₁ : Project} {name : String} {kind : Kind} {symbol : Option Symbol}
  {type constraint default : Option TypeExpr}
  (h : p.NamesLiterals literals) (sound : p.IsSound literals [])
include h sound

theorem addDeclaration {above : Option Id}
    (added : p.addDeclaration above name kind symbol = .ok (id, p')) :
    p'.NamesLiterals literals := by
  cases above with
  | none =>
      obtain ⟨p₁, registered, symbols⟩ := addDeclaration_top_eq_ok added
      have new := h.register sound registered nofun
      have placed : Follows [] { p₁ with children := p₁.children ++ [id] } p₁ := .refl [] p₁
      exact new.follow ((Follows.registerSymbol? [] symbols).trans placed) nofun
  | some owner =>
      obtain ⟨d, p₁, -, registered, symbols⟩ := addDeclaration_under_eq_ok added
      have new := h.register sound registered nofun
      have placed : Follows [] (p₁.modifyDeclaration owner fun d =>
          { d with children := d.children ++ [id] }) p₁ :=
        .modifyDeclaration fun _ => rfl
      exact new.follow ((Follows.registerSymbol? [] symbols).trans placed) nofun

theorem addTypeLiteral (added : p.addTypeLiteral symbol = .ok (id, p')) :
    p'.NamesLiterals (id :: literals) := by
  obtain ⟨p₁, registered, symbols⟩ := addTypeLiteral_eq_ok added
  have new := h.register sound registered nofun
  have found := (get?_register registered id).trans (if_pos rfl)
  exact (new.cons found rfl).follow (Follows.registerSymbol? [] symbols) nofun

theorem addSignature (added : p.addSignature owner name kind = .ok (id, p')) :
    p'.NamesLiterals literals := by
  obtain ⟨d, p₁, -, registered, rfl⟩ := addSignature_eq_ok added
  have new := h.register sound registered nofun
  have placed : Follows [] (p₁.modifyDeclaration owner (placeSignature kind id)) p₁ :=
    .modifyDeclaration (Body.anonymous_placeSignature kind id)
  exact new.follow ((Follows.unregister [] _ _).trans placed) nofun

theorem addParameter (known : ∀ x ∈ TypeExpr.anonymousOption type, x ∈ literals)
    (added : p.addParameter owner name type = .ok (id, p')) : p'.NamesLiterals literals := by
  obtain ⟨s, p₁, -, registered, rfl⟩ := addParameter_eq_ok added
  have new := h.register sound registered known
  have placed : Follows [] (p₁.modifySignature owner fun s =>
      { s with parameters := s.parameters ++ [id] }) p₁ :=
    .modifySignature fun _ => rfl
  exact new.follow placed nofun

theorem addTypeParameter
    (known : ∀ x ∈ TypeExpr.anonymousOption constraint ++ TypeExpr.anonymousOption default,
      x ∈ literals)
    (added : p.addTypeParameter owner name constraint default = .ok (id, p')) :
    p'.NamesLiterals literals := by
  obtain ⟨o, p₁, -, -, registered, rfl⟩ := addTypeParameter_eq_ok added
  have new := h.register sound registered known
  have placed : Follows [] (p₁.modify owner fun r =>
      { r with body := (placeTypeParameter? id r.body).getD r.body }) p₁ := by
    refine Follows.modify fun r => ⟨⟨rfl, rfl, Body.role_placeTypeParameter id r.body⟩, ?_⟩
    intro x mem
    exact .inl (Body.anonymous_placeTypeParameter id r.body ▸ mem)
  exact new.follow placed nofun

end

end NamesLiterals

/-- Where types name type literals only, every place is taken by a reflection that fits it. -/
theorem IsSound.isPlaced (h : p.IsSound literals work) (names : p.NamesLiterals literals) :
    p.IsPlaced := by
  intro q mem r found
  rcases List.mem_append.1 (p.perm_positions.mem_iff.1 mem) with listed | named
  · obtain ⟨r', found', placed⟩ := h.placed q listed
    obtain rfl := Option.some.inj (found.symm.trans found')
    exact placed
  · obtain ⟨x, isNamed, rfl⟩ := List.mem_map.1 named
    obtain ⟨owner, o, foundOwner, inside⟩ := mem_anonymous.1 isNamed
    exact names.free x (names.named owner o foundOwner x inside) r found

theorem IsSound.isAdmissible (h : p.IsSound literals work) : p.IsAdmissible := by
  intro id r found
  obtain ⟨positive, below⟩ := h.numbered id r found
  have bounded := h.next.2
  exact ⟨positive, by grind, h.fits id r found⟩

/-! ### Literals that are named once -/

/-- The declarations that the types of the reflection registered under an id name. -/
def named (p : Project) (owner : Id) : List Id :=
  (p.get? owner).elim [] fun r => r.body.anonymous

theorem named_eq (found : p.get? owner = some r) : p.named owner = r.body.anonymous := by
  rw [named, found, Option.elim_some]

theorem exists_of_mem_named (h : id ∈ p.named owner) :
    ∃ r, p.get? owner = some r ∧ id ∈ r.body.anonymous := by
  cases found : p.get? owner with
  | none => simp [named, found] at h
  | some r => exact ⟨r, rfl, named_eq found ▸ h⟩

/-- No declaration is named twice by the types of the reflections in `S`. -/
structure NamesOnce (p : Project) (S : Id → Prop) : Prop where
  each : ∀ owner, S owner → (p.named owner).Nodup
  unique : ∀ id owner other, S owner → S other → id ∈ p.named owner → id ∈ p.named other →
    owner = other

/-- Where no declaration is named twice at all, none is named twice by some of the reflections. -/
theorem namesOnce_of_nodup {S : Id → Prop} (h : p.anonymous.Nodup) : p.NamesOnce S := by
  obtain ⟨each, apart⟩ := List.nodup_flatMap.1 h
  constructor
  · intro owner _
    cases found : p.get? owner with
    | none => simp [named, found]
    | some r =>
        rw [named_eq found]
        exact each (owner, r) (Registry.mem_entries_iff.2 found)
  · intro id owner other _ _ mem mem'
    obtain ⟨r, found, inside⟩ := exists_of_mem_named mem
    obtain ⟨r', found', inside'⟩ := exists_of_mem_named mem'
    by_contra differ
    have symm : Std.Symm
        (Function.onFun List.Disjoint fun e : Id × Reflection => e.2.body.anonymous) :=
      ⟨fun _ _ ab => ab.symm⟩
    have other : (owner, r) ≠ (other, r') := fun same => differ (congrArg Prod.fst same)
    exact apart.forall (Registry.mem_entries_iff.2 found) (Registry.mem_entries_iff.2 found') other
      inside inside'

/-- What a reflection holds, it lists or names. -/
theorem owns_iff : p.Owns owner id ↔
    (∃ o, p.get? owner = some o ∧ id ∈ (o.body.listed owner).map Position.id) ∨
      id ∈ p.named owner := by
  cases found : p.get? owner with
  | none => simp [Owns, held, named, found]
  | some o =>
      rw [Owns, held_eq found, ((Body.perm_positions owner o.body).map Position.id).mem_iff,
        List.map_append, List.map_map, Position.id_comp_free, List.map_id', List.mem_append,
        named_eq found]
      simp

/-- What a reflection holds are the places that it lists and those that its types name. -/
theorem perm_ids_held (found : p.get? owner = some o) : ((p.held owner).map Position.id).Perm
    ((o.body.listed owner).map Position.id ++ p.named owner) := by
  have all := (Body.perm_positions owner o.body).map Position.id
  rwa [List.map_append, List.map_map, Position.id_comp_free, List.map_id', ← held_eq found,
    ← named_eq found] at all

/-- What types name is not listed anywhere. -/
theorem IsSound.not_listed_of_named (h : p.IsSound literals work) (names : p.NamesLiterals literals)
    (named : id ∈ p.named owner) : id ∉ p.listed.map Position.id := by
  obtain ⟨o, found, inside⟩ := exists_of_mem_named named
  exact (h.unlisted id (names.named owner o found id inside)).2

/-- In a sound project ids are held once as soon as literals are named once. -/
theorem IsSound.holdsOnce_iff {S : Id → Prop} (h : p.IsSound literals work)
    (names : p.NamesLiterals literals) : p.HoldsOnce S ↔ p.NamesOnce S := by
  constructor
  · intro once
    refine ⟨fun owner inside => ?_, fun id owner other inside inside' mem mem' => ?_⟩
    · cases found : p.get? owner with
      | none => simp [named, found]
      | some o =>
          have distinct := (perm_ids_held found).nodup_iff.1 (once.each owner inside)
          exact (List.nodup_append.1 distinct).2.1
    · exact once.unique id owner other inside inside' (owns_iff.2 (.inr mem)) (owns_iff.2 (.inr mem'))
  · intro once
    refine ⟨h.topDistinct, fun id child owner inside owned => ?_, fun owner inside => ?_, ?_⟩
    · rcases owns_iff.1 owned with ⟨o, found, listed⟩ | named
      · exact h.not_child_of_listed found listed child
      · exact h.not_listed_of_named names named (mem_ids_listed.2 (.inl child))
    · cases found : p.get? owner with
      | none => simp [held, found]
      | some o =>
          refine (perm_ids_held found).nodup_iff.2 (List.nodup_append.2 ⟨h.distinct owner o found,
            once.each owner inside, ?_⟩)
          rintro x listed y named rfl
          exact h.not_listed_of_named names named
            (mem_ids_listed.2 (.inr ⟨owner, o, found, listed⟩))
    · intro id owner other inside inside' owned owned'
      rcases owns_iff.1 owned with ⟨o, found, listed⟩ | named
      · rcases owns_iff.1 owned' with ⟨o', found', listed'⟩ | named'
        · exact h.lister_eq found listed found' listed'
        · exact absurd (mem_ids_listed.2 (.inr ⟨owner, o, found, listed⟩))
            (h.not_listed_of_named names named')
      · rcases owns_iff.1 owned' with ⟨o', found', listed'⟩ | named'
        · exact absurd (mem_ids_listed.2 (.inr ⟨other, o', found', listed'⟩))
            (h.not_listed_of_named names named)
        · exact once.unique id owner other inside inside' named named'

/-- **What a sound project writes is read back exactly if no literal is named twice** by what the top
level reaches. -/
theorem IsSound.isProject_iff {document : WireReflection} {config : Config}
    (h : p.IsSound literals work) (names : p.NamesLiterals literals)
    (written : p.toWire config = .ok document) :
    document.IsProject ↔ p.NamesOnce p.Reaches := by
  obtain ⟨l, order⟩ := (h.isPlaced names).exists_postOrder_of_toWire written
  obtain ⟨top, rfl⟩ := toWire_eq_ok_iff.1 written
  have documents : ∀ q ∈ l, p.HasDocument config q.id := by
    intro q mem
    exact (order.mem_iff_reaches.1 (List.mem_map_of_mem mem)).hasDocument top
  rw [order.isProject_rootDocument_iff documents h.isAdmissible, order.nodup_iff_holdsOnce,
    h.holdsOnce_iff names]

end Project

/-! ### Runs -/

/-- The declarations that the types of an edit name at any depth. -/
def Edit.named : Edit → List Id
  | .addParameter _ _ type => TypeExpr.anonymousOption type
  | .addTypeParameter _ _ constraint default =>
    TypeExpr.anonymousOption constraint ++ TypeExpr.anonymousOption default
  | .assignType _ type => TypeExpr.anonymousOption type
  | _ => []

/-- The main type of an edit names what it is. -/
theorem Edit.names_of_named {e : Edit} {literals : List Id}
    (h : ∀ id ∈ e.named, id ∈ literals) : e.Names literals := by
  have main {type : Option TypeExpr} {id : Id} (literal : type.bind TypeExpr.declaration? = some id) :
      id ∈ TypeExpr.anonymousOption type := by
    obtain ⟨t, rfl, isLiteral⟩ := Option.bind_eq_some_iff.1 literal
    cases t with
    | reflection x =>
        obtain rfl := Option.some.inj isLiteral
        exact List.mem_cons_self
    | _ => cases isLiteral
  intro id literal
  refine h id ?_
  cases e with
  | addParameter _ _ type => exact main literal
  | addTypeParameter _ _ constraint default => exact List.mem_append_left _ (main literal)
  | assignType _ type => exact main literal
  | _ => cases literal

namespace Stage

variable {s s' : Stage} {e : Edit}

/-- An edit that succeeds keeps that types name type literals only. -/
theorem namesLiterals_edit (h : s.project.NamesLiterals s.literals) (sound : s.IsSound)
    (known : ∀ id ∈ e.named, id ∈ s.literals) (done : s.edit e = .ok s') :
    s'.project.NamesLiterals s'.literals := by
  cases edited_of_edit done with
  | addDeclaration added => exact h.addDeclaration sound added
  | addTypeLiteral added => exact h.addTypeLiteral sound added
  | addSignature added => exact h.addSignature sound added
  | addParameter added => exact h.addParameter sound known added
  | addTypeParameter added => exact h.addTypeParameter sound known added
  | registerSymbol named => exact h.follow (Project.Follows.registerSymbol [] named) nofun
  | remove removed => exact h.follow (Project.Follows.remove [] removed) nofun
  | assignType => exact h.follow (Project.Follows.assignType s.project _ _) known

end Stage

/-- The stages of all runs whose types name type literals only. -/
inductive Composed : Stage → Prop
  | new (name : String) : Composed { project := { name }, literals := [] }
  | decoded (root : WireReflection) (p : Project) (decoded : Project.ofWire root = .ok p) :
      Composed { project := p, literals := p.anonymous }
  | apply (s : Stage) (e : Edit) (before : Composed s) (known : ∀ id ∈ e.named, id ∈ s.literals) :
      Composed (s.apply e)

namespace Composed

variable {s : Stage}

theorem reachable (h : Composed s) : Reachable s := by
  induction h with
  | new name => exact .new name
  | decoded root p decoded => exact .decoded root p decoded
  | apply s e _ known before => exact .apply s e before (Edit.names_of_named known)

/-- Types name type literals only, at any time. -/
theorem namesLiterals (h : Composed s) : s.project.NamesLiterals s.literals := by
  induction h with
  | new name => exact Project.namesLiterals_new name
  | decoded root p decoded =>
      obtain ⟨valid, rfl⟩ := ofWire_eq_ok_iff.1 decoded
      exact Project.namesLiterals_project valid
  | apply s e before known names =>
      unfold Stage.apply
      split
      · next done => exact Stage.namesLiterals_edit names before.reachable.isSound known done
      · exact names

end Composed

/-- **What is written can be read back exactly if no type literal is named twice** by the types of
what the top level reaches, however the project came about. -/
theorem exists_ofWire_iff_namesOnce (s : Stage) (composed : Composed s) (config : Config)
    (document : WireReflection) (written : s.project.toWire config = .ok document) :
    (∃ q, Project.ofWire document = .ok q) ↔ s.project.NamesOnce s.project.Reaches := by
  have same := composed.reachable.isSound.isProject_iff composed.namesLiterals written
  rw [← same]
  simp [ofWire_eq_ok_iff]

/-- A variable with a type literal, and one more variable. -/
def namedOnce : Stage :=
  let start : Stage := { project := { name := "library" }, literals := [] }
  let literal := start.apply (.addTypeLiteral none)
  let declared := (literal.apply (.addDeclaration none "a" .variable none)).apply
    (.addDeclaration none "b" .variable none)
  declared.apply (.assignType 2 (some (.reflection 1)))

/-- The other variable gets the same type literal. -/
def namedTwice : Stage :=
  namedOnce.apply (.assignType 3 (some (.reflection 1)))

theorem composed_namedOnce : Composed namedOnce := by
  have literal := (Composed.new "library").apply _ (.addTypeLiteral none) nofun
  have declared := (literal.apply _ (.addDeclaration none "a" .variable none) nofun).apply _
    (.addDeclaration none "b" .variable none) nofun
  exact declared.apply _ (.assignType 2 (some (.reflection 1))) fun _ named => named

theorem composed_namedTwice : Composed namedTwice :=
  composed_namedOnce.apply _ (.assignType 3 (some (.reflection 1))) fun _ named => named

/-- With one variable of that type, what is written is read. -/
theorem exists_ofWire_namedOnce : ∃ document q, namedOnce.project.toWire {} = .ok document ∧
    Project.ofWire document = .ok q := by
  obtain ⟨document, written⟩ : ∃ document, namedOnce.project.toWire {} = .ok document := ⟨_, rfl⟩
  have each : namedOnce.project.NamesOnce namedOnce.project.Reaches :=
    Project.namesOnce_of_nodup (by decide)
  obtain ⟨q, read⟩ :=
    (exists_ofWire_iff_namesOnce namedOnce composed_namedOnce {} document written).2 each
  exact ⟨document, q, written, read⟩

/-- With two variables of that type, what is written is rejected. -/
theorem ofWire_namedTwice : Composed namedTwice ∧ ∃ document,
    namedTwice.project.toWire {} = .ok document ∧
      Project.ofWire document = .error (.duplicateId 1) :=
  ⟨composed_namedTwice, _, rfl, rfl⟩

end ApiGraph
