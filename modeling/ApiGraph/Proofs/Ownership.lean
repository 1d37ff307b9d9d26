import Mathlib.Logic.Relation
import ApiGraph.Proofs.Registry
import ApiGraph.Wire.Settle

/-!
# ApiGraph.Proofs.Ownership

Who owns whom. A **position** is a place where an id stands: the role that the place asks for, the
owner that holds it, and the id. A reflection holds its lists and slots, of which it is the owner,
and the declarations that its types name, which have no owner. The top level holds declarations
without owner too.

* `TypeExpr.anonymous` — the declarations that a type names at any depth, in reading order, with
  `TypeExpr.declarations_perm`: those that writing it embeds.
* `Body.listed`, `Body.positions` — what a reflection holds, without and with its types, with
  `Body.embedded_perm`: what writing it embeds.
* `Project.listed`, `Project.positions` — what a whole project holds.
* `Project.held`, `Project.Owns`, `Project.IsForest` — ownership is a forest that covers the project.
-/

namespace ApiGraph

/-! ### Declarations in types -/

namespace TypeExpr

mutual
/-- The declarations that the reflection types in a type name, in the order in which a document is
read: of an indexed access the object comes first. -/
def anonymous : TypeExpr → List Id
  | .array element => anonymous element
  | .conditional check bound whenTrue whenFalse =>
    anonymous check ++ (anonymous bound ++ (anonymous whenTrue ++ anonymous whenFalse))
  | .indexedAccess object index => anonymous object ++ anonymous index
  | .intersection members => anonymousList members
  | .mapped _ parameterType template _ _ nameType =>
    anonymous parameterType ++ (anonymous template ++ anonymousOption nameType)
  | .optional element => anonymous element
  | .predicate _ _ target => anonymousOption target
  | .query _ arguments => anonymousList arguments
  | .reference _ arguments => anonymousList arguments
  | .reflection id => [id]
  | .rest element => anonymous element
  | .templateLiteral _ tail => anonymousSpans tail
  | .tuple elements => anonymousList elements
  | .namedTupleMember _ _ element => anonymous element
  | .typeOperator _ target => anonymous target
  | .union members => anonymousList members
  | .inferred _ | .intrinsic _ | .literal _ | .unknown _ => []

/-- The declarations that each type in turn names. -/
def anonymousList : List TypeExpr → List Id
  | [] => []
  | t :: ts => anonymous t ++ anonymousList ts

/-- The declarations that a type that may be missing names. -/
def anonymousOption : Option TypeExpr → List Id
  | none => []
  | some t => anonymous t

/-- The declarations that each span's type in turn names. -/
def anonymousSpans : List (TypeExpr × String) → List Id
  | [] => []
  | (t, _) :: spans => anonymous t ++ anonymousSpans spans
end

theorem anonymousList_eq_flatMap (ts : List TypeExpr) : anonymousList ts = ts.flatMap anonymous := by
  induction ts with
  | nil => rfl
  | cons t ts ih => rw [anonymousList, ih, List.flatMap_cons]

mutual
/-- Writing a type embeds the declarations that reading it meets. Of an indexed access a document holds the
index first, so the orders differ. -/
theorem declarations_perm : ∀ t : TypeExpr, (declarations t).Perm (anonymous t)
  | .array element => declarations_perm element
  | .conditional check bound whenTrue whenFalse => by
      simp only [declarations, anonymous, List.append_assoc]
      exact (declarations_perm check).append ((declarations_perm bound).append
        ((declarations_perm whenTrue).append (declarations_perm whenFalse)))
  | .indexedAccess object index =>
      ((declarations_perm index).append (declarations_perm object)).trans List.perm_append_comm
  | .intersection members => declarationsList_perm members
  | .mapped _ parameterType template _ _ nameType => by
      simp only [declarations, anonymous, List.append_assoc]
      exact (declarations_perm parameterType).append
        ((declarations_perm template).append (declarationsOption_perm nameType))
  | .optional element => declarations_perm element
  | .predicate _ _ target => declarationsOption_perm target
  | .query _ arguments => declarationsList_perm arguments
  | .reference _ arguments => declarationsList_perm arguments
  | .reflection _ => .refl _
  | .rest element => declarations_perm element
  | .templateLiteral _ tail => declarationsSpans_perm tail
  | .tuple elements => declarationsList_perm elements
  | .namedTupleMember _ _ element => declarations_perm element
  | .typeOperator _ target => declarations_perm target
  | .union members => declarationsList_perm members
  | .inferred _ | .intrinsic _ | .literal _ | .unknown _ => .refl _

theorem declarationsList_perm : ∀ ts, (declarationsList ts).Perm (anonymousList ts)
  | [] => .refl _
  | t :: ts => (declarations_perm t).append (declarationsList_perm ts)

theorem declarationsOption_perm : ∀ t, (declarationsOption t).Perm (anonymousOption t)
  | none => .refl _
  | some t => declarations_perm t

theorem declarationsSpans_perm : ∀ spans, (declarationsSpans spans).Perm (anonymousSpans spans)
  | [] => .refl _
  | (t, _) :: spans => (declarations_perm t).append (declarationsSpans_perm spans)
end

end TypeExpr

/-- The declarations in the type arguments of a reference that may be missing. -/
def Reference.anonymousOption : Option Reference → List Id
  | none => []
  | some r => TypeExpr.anonymousList r.arguments

/-- The declarations in the type arguments of a lineage. -/
def Lineage.anonymous (l : Lineage) : List Id :=
  Reference.anonymousOption l.overwrites ++ (Reference.anonymousOption l.inheritedFrom ++
    Reference.anonymousOption l.implementationOf)

theorem Lineage.declarations_perm (l : Lineage) : l.declarations.Perm l.anonymous := by
  have each (r : Option Reference) :
      (r.elim [] fun r => TypeExpr.declarationsList r.arguments).Perm (Reference.anonymousOption r) := by
    cases r with
    | none => exact .refl _
    | some r => exact TypeExpr.declarationsList_perm r.arguments
  simp only [declarations, anonymous, List.flatMap_cons, List.flatMap_nil, List.append_nil]
  exact (each _).append ((each _).append (each _))

/-! ### Positions -/

/-- A place where an id stands: the role that it must have there, and the owner that holds it. -/
structure Position where
  role : Role
  owner : Option Id
  id : Id
deriving DecidableEq, Inhabited, Repr

namespace Position

/-- A declaration without owner: at the top level, or named by a type. -/
def free (id : Id) : Position :=
  { role := .declaration, owner := none, id }

/-- A place in a list or slot of `owner`. -/
def under (owner : Id) (role : Role) (id : Id) : Position :=
  { role, owner := some owner, id }

@[simp] theorem id_free (id : Id) : (free id).id = id := rfl

@[simp] theorem id_under (owner : Id) (role : Role) (id : Id) : (under owner role id).id = id := rfl

theorem id_comp_free : Position.id ∘ free = fun x => x := rfl

theorem id_comp_under (owner : Id) (role : Role) : Position.id ∘ under owner role = fun x => x := rfl

end Position

namespace Body

/-- The places in the lists and slots of a reflection with the id `self`. -/
def listed (self : Id) : Body → List Position
  | .declaration d =>
    d.typeParameters.map (.under self .typeParameter) ++ (d.signatures.map (.under self .signature) ++
      (d.indexSignature.toList.map (.under self .signature) ++
      (d.getSignature.toList.map (.under self .signature) ++
      (d.setSignature.toList.map (.under self .signature) ++
      d.children.map (.under self .declaration)))))
  | .signature s =>
    s.typeParameters.map (.under self .typeParameter) ++ s.parameters.map (.under self .parameter)
  | .parameter _ | .typeParameter _ => []

/-- The declarations that the types of a reflection name, cross-links included. -/
def anonymous : Body → List Id
  | .declaration d => TypeExpr.anonymousOption d.type ++ d.lineage.anonymous
  | .signature s => TypeExpr.anonymousOption s.type ++ s.lineage.anonymous
  | .parameter p => TypeExpr.anonymousOption p.type
  | .typeParameter p => TypeExpr.anonymousOption p.constraint ++ TypeExpr.anonymousOption p.default

/-- Everything that a reflection with the id `self` holds, in the order in which a document is
read. -/
def positions (self : Id) : Body → List Position
  | .declaration d =>
    d.typeParameters.map (.under self .typeParameter) ++ ((TypeExpr.anonymousOption d.type).map .free ++
      (d.lineage.anonymous.map .free ++ (d.signatures.map (.under self .signature) ++
      (d.indexSignature.toList.map (.under self .signature) ++
      (d.getSignature.toList.map (.under self .signature) ++
      (d.setSignature.toList.map (.under self .signature) ++
      d.children.map (.under self .declaration)))))))
  | .signature s =>
    s.typeParameters.map (.under self .typeParameter) ++ (s.parameters.map (.under self .parameter) ++
      ((TypeExpr.anonymousOption s.type).map .free ++ s.lineage.anonymous.map .free))
  | .parameter p => (TypeExpr.anonymousOption p.type).map .free
  | .typeParameter p =>
    (TypeExpr.anonymousOption p.constraint).map .free ++ (TypeExpr.anonymousOption p.default).map .free

/-- Everything held is in a list or slot, or named by a type. -/
theorem perm_positions (self : Id) (b : Body) :
    (b.positions self).Perm (b.listed self ++ b.anonymous.map .free) := by
  refine List.perm_iff_count.2 fun x => ?_
  cases b with
  | declaration d =>
      -- the types stand between the type parameters and the signatures
      simp [positions, listed, anonymous]
      omega
  | _ => simp [positions, listed, anonymous]

/-- Writing a reflection embeds what it holds. -/
theorem embedded_perm (self : Id) (b : Body) :
    b.embedded.Perm ((b.positions self).map Position.id) := by
  have types := TypeExpr.declarationsOption_perm
  cases b with
  | declaration d =>
      simp only [embedded, positions, List.map_append, List.map_map, Position.id_comp_free,
        Position.id_comp_under, List.map_id', List.append_assoc]
      exact .append (.refl _) ((types d.type).append (d.lineage.declarations_perm.append (.refl _)))
  | signature s =>
      simp only [embedded, positions, List.map_append, List.map_map, Position.id_comp_free,
        Position.id_comp_under, List.map_id', List.append_assoc]
      exact .append (.refl _) (.append (.refl _) ((types s.type).append s.lineage.declarations_perm))
  | parameter p =>
      simp only [embedded, positions, List.map_map, Position.id_comp_free, List.map_id']
      exact types p.type
  | typeParameter p =>
      simp only [embedded, positions, List.map_append, List.map_map, Position.id_comp_free,
        List.map_id']
      exact (types p.constraint).append (types p.default)

/-- Lists and slots hold what has this reflection as its owner. -/
theorem owner_of_mem_listed {self : Id} {b : Body} {q : Position} (h : q ∈ b.listed self) :
    q.owner = some self := by
  cases b <;> simp only [listed, List.mem_append, List.mem_map, List.not_mem_nil] at h
  all_goals aesop

end Body

/-- The place of a registered reflection, as its own fields tell it. -/
def Reflection.position (id : Id) (r : Reflection) : Position :=
  { role := r.body.role, owner := r.parent, id }

namespace Project

/-- The places at the top level and in the lists and slots of registered reflections. -/
def listed (p : Project) : List Position :=
  p.children.map .free ++ p.registry.entries.flatMap fun e => e.2.body.listed e.1

/-- The declarations that the types of registered reflections name. -/
def anonymous (p : Project) : List Id :=
  p.registry.entries.flatMap fun e => e.2.body.anonymous

/-- Everything that the top level and the registered reflections hold. -/
def positions (p : Project) : List Position :=
  p.children.map .free ++ p.registry.entries.flatMap fun e => e.2.body.positions e.1

theorem mem_listed {p : Project} {q : Position} :
    q ∈ p.listed ↔ (∃ id ∈ p.children, .free id = q) ∨
      ∃ owner r, p.get? owner = some r ∧ q ∈ r.body.listed owner := by
  simp [listed, get?, Registry.mem_entries_iff]

theorem mem_anonymous {p : Project} {id : Id} :
    id ∈ p.anonymous ↔ ∃ owner r, p.get? owner = some r ∧ id ∈ r.body.anonymous := by
  simp [anonymous, get?, Registry.mem_entries_iff]

/-- All that a project holds, sorted into listed and anonymous. -/
theorem perm_positions (p : Project) :
    p.positions.Perm (p.listed ++ p.anonymous.map .free) := by
  refine List.perm_iff_count.2 fun x => ?_
  have each (es : List (Id × Reflection)) :
      (es.flatMap fun e => e.2.body.positions e.1).count x =
        (es.flatMap fun e => e.2.body.listed e.1).count x +
          ((es.flatMap fun e => e.2.body.anonymous).map Position.free).count x := by
    induction es with
    | nil => rfl
    | cons e es ih =>
        have here := (Body.perm_positions e.1 e.2.body).count_eq x
        simp only [List.flatMap_cons, List.map_append, List.count_append] at here ⊢
        omega
  simp only [positions, listed, anonymous, List.count_append, each]
  omega

/-- Everything that the reflection registered under an id holds. -/
def held (p : Project) (id : Id) : List Position :=
  (p.get? id).elim [] fun r => r.body.positions id

theorem held_eq {p : Project} {id : Id} {r : Reflection} (found : p.get? id = some r) :
    p.held id = r.body.positions id := by
  rw [held, found, Option.elim_some]

/-- A registered reflection holds another id, in a list, a slot or a type. -/
def Owns (p : Project) (owner id : Id) : Prop :=
  id ∈ (p.held owner).map Position.id

/-- Only what is registered owns anything. -/
theorem Owns.contains {p : Project} {owner id : Id} (h : p.Owns owner id) :
    p.contains owner = true := by
  refine Registry.contains_iff.2 (Option.ne_none_iff_exists'.1 fun none => ?_)
  have absent : p.get? owner = Option.none := none
  simp [Owns, held, absent] at h

/-- **Ownership is a forest that covers the project**: every registered reflection is held in
exactly one place, which fits its role and is held by its parent, and nothing holds itself, directly
or through others. -/
structure IsForest (p : Project) : Prop where
  once : (p.positions.map Position.id).Nodup
  covers : ∀ id, p.contains id = true → id ∈ p.positions.map Position.id
  placed : ∀ q ∈ p.positions, ∃ r, p.get? q.id = some r ∧ r.position q.id = q
  acyclic : ∀ id, ¬Relation.TransGen p.Owns id id

end Project

end ApiGraph
