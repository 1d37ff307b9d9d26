import ApiGraph.Proofs.WrittenParts

/-!
# ApiGraph.Proofs.Everywhere

What holds at every node of a document, whether it is read or not. A project writes node by node, so a
property of the nodes that it writes holds everywhere in its documents.

* `WireType.Everywhere`, `WireReflection.Everywhere` — a property of types and one of reflections, at
  any depth.
* `IsOrder.everywhere_document`, `IsOrder.everywhere_rootDocument` — the documents of a project.
-/

namespace ApiGraph

mutual
/-- Every type and every reflection in a type has a property. -/
def WireType.Everywhere (P : WireType → Prop) (Q : WireReflection → Prop) : WireType → Prop
  | .array elementType => P (.array elementType) ∧ elementType.Everywhere P Q
  | .conditional checkType extendsType trueType falseType =>
    P (.conditional checkType extendsType trueType falseType) ∧ checkType.Everywhere P Q ∧
      extendsType.Everywhere P Q ∧ trueType.Everywhere P Q ∧ falseType.Everywhere P Q
  | .indexedAccess indexType objectType =>
    P (.indexedAccess indexType objectType) ∧ indexType.Everywhere P Q ∧ objectType.Everywhere P Q
  | .inferred name => P (.inferred name)
  | .intersection types => P (.intersection types) ∧ EverywhereTypes P Q types
  | .intrinsic name => P (.intrinsic name)
  | .literal value => P (.literal value)
  | .mapped parameter parameterType templateType readonlyModifier optionalModifier nameType =>
    P (.mapped parameter parameterType templateType readonlyModifier optionalModifier nameType) ∧
      parameterType.Everywhere P Q ∧ templateType.Everywhere P Q ∧ EverywhereType? P Q nameType
  | .optional elementType => P (.optional elementType) ∧ elementType.Everywhere P Q
  | .predicate name asserts targetType =>
    P (.predicate name asserts targetType) ∧ EverywhereType? P Q targetType
  | .query queryType => P (.query queryType) ∧ queryType.Everywhere P Q
  | .reference id typeArguments name qualifiedName package =>
    P (.reference id typeArguments name qualifiedName package) ∧ EverywhereTypes? P Q typeArguments
  | .reflection declaration => P (.reflection declaration) ∧ declaration.Everywhere P Q
  | .rest elementType => P (.rest elementType) ∧ elementType.Everywhere P Q
  | .templateLiteral head tail => P (.templateLiteral head tail) ∧ EverywhereSpans P Q tail
  | .tuple elements => P (.tuple elements) ∧ EverywhereTypes? P Q elements
  | .namedTupleMember name isOptional element =>
    P (.namedTupleMember name isOptional element) ∧ element.Everywhere P Q
  | .typeOperator target operator => P (.typeOperator target operator) ∧ target.Everywhere P Q
  | .union types => P (.union types) ∧ EverywhereTypes P Q types
  | .unknown name => P (.unknown name)

/-- Everywhere in some types. -/
def EverywhereTypes (P : WireType → Prop) (Q : WireReflection → Prop) : List WireType → Prop
  | [] => True
  | t :: ts => t.Everywhere P Q ∧ EverywhereTypes P Q ts

/-- Everywhere in types that may be missing. -/
def EverywhereTypes? (P : WireType → Prop) (Q : WireReflection → Prop) :
    Option (List WireType) → Prop
  | none => True
  | some ts => EverywhereTypes P Q ts

/-- Everywhere in a type that may be missing. -/
def EverywhereType? (P : WireType → Prop) (Q : WireReflection → Prop) : Option WireType → Prop
  | none => True
  | some t => t.Everywhere P Q

/-- Everywhere in the types of some spans. -/
def EverywhereSpans (P : WireType → Prop) (Q : WireReflection → Prop) :
    List (WireType × String) → Prop
  | [] => True
  | (t, _) :: spans => t.Everywhere P Q ∧ EverywhereSpans P Q spans

/-- Every type and every reflection in a reflection has a property. -/
def WireReflection.Everywhere (P : WireType → Prop) (Q : WireReflection → Prop) :
    WireReflection → Prop
  | .mk header children signatures indexSignature getSignature setSignature typeParameters
      parameters type default defaultValue overwrites inheritedFrom implementationOf categories
      hasOwnDocument =>
    Q (.mk header children signatures indexSignature getSignature setSignature typeParameters
      parameters type default defaultValue overwrites inheritedFrom implementationOf categories
      hasOwnDocument) ∧
    EverywhereReflections? P Q children ∧ EverywhereReflections? P Q signatures ∧
    EverywhereReflection? P Q indexSignature ∧ EverywhereReflection? P Q getSignature ∧
    EverywhereReflection? P Q setSignature ∧ EverywhereReflections? P Q typeParameters ∧
    EverywhereReflections? P Q parameters ∧ EverywhereType? P Q type ∧
    EverywhereType? P Q default ∧ EverywhereType? P Q overwrites ∧
    EverywhereType? P Q inheritedFrom ∧ EverywhereType? P Q implementationOf

/-- Everywhere in some reflections. -/
def EverywhereReflections (P : WireType → Prop) (Q : WireReflection → Prop) :
    List WireReflection → Prop
  | [] => True
  | r :: rs => r.Everywhere P Q ∧ EverywhereReflections P Q rs

/-- Everywhere in reflections that may be missing. -/
def EverywhereReflections? (P : WireType → Prop) (Q : WireReflection → Prop) :
    Option (List WireReflection) → Prop
  | none => True
  | some rs => EverywhereReflections P Q rs

/-- Everywhere in a reflection that may be missing. -/
def EverywhereReflection? (P : WireType → Prop) (Q : WireReflection → Prop) :
    Option WireReflection → Prop
  | none => True
  | some r => r.Everywhere P Q
end

variable {P : WireType → Prop} {Q : WireReflection → Prop} {p : Project}
  {tree : Id → WireReflection}

theorem everywhereTypes?_nonEmpty? {ts : List WireType} (h : EverywhereTypes P Q ts) :
    EverywhereTypes? P Q (nonEmpty? ts) := by
  cases ts with
  | nil => trivial
  | cons t ts => exact h

/-! ### Documents of ids -/

/-- A property everywhere in the documents of some ids. -/
def EverywhereOn (P : WireType → Prop) (Q : WireReflection → Prop) (tree : Id → WireReflection)
    (ids : List Id) : Prop :=
  ∀ id ∈ ids, (tree id).Everywhere P Q

namespace EverywhereOn

variable {a b : List Id}

theorem left (h : EverywhereOn P Q tree (a ++ b)) : EverywhereOn P Q tree a :=
  fun id mem => h id (List.mem_append_left _ mem)

theorem right (h : EverywhereOn P Q tree (a ++ b)) : EverywhereOn P Q tree b :=
  fun id mem => h id (List.mem_append_right _ mem)

theorem list {ids : List Id} (h : EverywhereOn P Q tree ids) :
    EverywhereReflections? P Q (nonEmpty? (ids.map tree)) := by
  have all : EverywhereReflections P Q (ids.map tree) := by
    induction ids with
    | nil => trivial
    | cons id ids ih =>
        exact ⟨h id List.mem_cons_self, ih fun x mem => h x (List.mem_cons_of_mem _ mem)⟩
  cases ids with
  | nil => trivial
  | cons id ids => exact all

theorem slot {slot : Option Id} (h : EverywhereOn P Q tree slot.toList) :
    EverywhereReflection? P Q (slot.map tree) := by
  cases slot with
  | none => trivial
  | some id => exact h id List.mem_cons_self

end EverywhereOn

/-! ### Types -/

namespace TypeExpr

mutual
/-- What holds of every written node holds everywhere in a written type, if it does in the
declarations that the type embeds. -/
theorem everywhere_written (each : ∀ s : TypeExpr, P (s.written p tree)) :
    ∀ t : TypeExpr, EverywhereOn P Q tree t.anonymous → (t.written p tree).Everywhere P Q
  | .array element, h => ⟨each (.array element), everywhere_written each element h⟩
  | .conditional check bound whenTrue whenFalse, h =>
      ⟨each (.conditional check bound whenTrue whenFalse), everywhere_written each check h.left,
        everywhere_written each bound h.right.left,
        everywhere_written each whenTrue h.right.right.left,
        everywhere_written each whenFalse h.right.right.right⟩
  | .indexedAccess object index, h =>
      ⟨each (.indexedAccess object index), everywhere_written each index h.right,
        everywhere_written each object h.left⟩
  | .inferred name, _ => each (.inferred name)
  | .intersection members, h => ⟨each (.intersection members), everywhereTypes_written each members h⟩
  | .intrinsic name, _ => each (.intrinsic name)
  | .literal value, _ => each (.literal value)
  | .mapped parameter parameterType template readonlyModifier optionalModifier nameType, h =>
      ⟨each (.mapped parameter parameterType template readonlyModifier optionalModifier nameType),
        everywhere_written each parameterType h.left, everywhere_written each template h.right.left,
        everywhereType?_written each nameType h.right.right⟩
  | .optional element, h => ⟨each (.optional element), everywhere_written each element h⟩
  | .predicate name asserts target, h =>
      ⟨each (.predicate name asserts target), everywhereType?_written each target h⟩
  | .query link arguments, h =>
      ⟨each (.query link arguments), each (.reference link arguments),
        everywhereTypes?_nonEmpty? (everywhereTypes_written each arguments h)⟩
  | .reference link arguments, h =>
      ⟨each (.reference link arguments),
        everywhereTypes?_nonEmpty? (everywhereTypes_written each arguments h)⟩
  | .reflection id, h => ⟨each (.reflection id), h id List.mem_cons_self⟩
  | .rest element, h => ⟨each (.rest element), everywhere_written each element h⟩
  | .templateLiteral head tail, h =>
      ⟨each (.templateLiteral head tail), everywhereSpans_written each tail h⟩
  | .tuple elements, h =>
      ⟨each (.tuple elements), everywhereTypes?_nonEmpty? (everywhereTypes_written each elements h)⟩
  | .namedTupleMember name isOptional element, h =>
      ⟨each (.namedTupleMember name isOptional element), everywhere_written each element h⟩
  | .typeOperator operator target, h =>
      ⟨each (.typeOperator operator target), everywhere_written each target h⟩
  | .union members, h => ⟨each (.union members), everywhereTypes_written each members h⟩
  | .unknown name, _ => each (.unknown name)

theorem everywhereTypes_written (each : ∀ s : TypeExpr, P (s.written p tree)) :
    ∀ ts : List TypeExpr, EverywhereOn P Q tree (anonymousList ts) →
      EverywhereTypes P Q (writtenList p tree ts)
  | [], _ => trivial
  | t :: ts, h => ⟨everywhere_written each t h.left, everywhereTypes_written each ts h.right⟩

theorem everywhereType?_written (each : ∀ s : TypeExpr, P (s.written p tree)) :
    ∀ t : Option TypeExpr, EverywhereOn P Q tree (anonymousOption t) →
      EverywhereType? P Q (writtenOption p tree t)
  | none, _ => trivial
  | some t, h => everywhere_written each t h

theorem everywhereSpans_written (each : ∀ s : TypeExpr, P (s.written p tree)) :
    ∀ spans : List (TypeExpr × String), EverywhereOn P Q tree (anonymousSpans spans) →
      EverywhereSpans P Q (writtenSpans p tree spans)
  | [], _ => trivial
  | (t, _) :: spans, h =>
      ⟨everywhere_written each t h.left, everywhereSpans_written each spans h.right⟩
end

end TypeExpr

theorem Reference.everywhere_written (each : ∀ s : TypeExpr, P (s.written p tree))
    (r : Option Reference)
    (h : EverywhereOn P Q tree (Reference.anonymousOption r)) :
    EverywhereType? P Q (Reference.writtenOption p tree r) := by
  cases r with
  | none => trivial
  | some r =>
      exact ⟨each (.reference r.link r.arguments),
        everywhereTypes?_nonEmpty? (TypeExpr.everywhereTypes_written each r.arguments h)⟩

/-! ### Reflections -/

/-- The same for a written body. -/
theorem Body.everywhere_written (each : ∀ s : TypeExpr, P (s.written p tree)) {header : WireHeader}
    (b : Body) (self : Id)
    (h : EverywhereOn P Q tree ((b.positions self).map Position.id))
    (node : Q (b.written p tree header)) : (b.written p tree header).Everywhere P Q := by
  rw [map_id_positions] at h
  cases b with
  | declaration d =>
      have lineage := h.right.right.left
      have lists := h.right.right.right
      exact ⟨node, lists.right.right.right.right.list, lists.left.list, lists.right.left.slot,
        lists.right.right.left.slot, lists.right.right.right.left.slot, h.left.list, trivial,
        TypeExpr.everywhereType?_written each d.type h.right.left, trivial,
        Reference.everywhere_written each _ lineage.left,
        Reference.everywhere_written each _ lineage.right.left,
        Reference.everywhere_written each _ lineage.right.right⟩
  | signature s =>
      have lineage := h.right.right.right
      exact ⟨node, trivial, trivial, trivial, trivial, trivial, h.left.list, h.right.left.list,
        TypeExpr.everywhereType?_written each s.type h.right.right.left, trivial,
        Reference.everywhere_written each _ lineage.left,
        Reference.everywhere_written each _ lineage.right.left,
        Reference.everywhere_written each _ lineage.right.right⟩
  | parameter q =>
      exact ⟨node, trivial, trivial, trivial, trivial, trivial, trivial, trivial,
        TypeExpr.everywhereType?_written each q.type h, trivial, trivial, trivial, trivial⟩
  | typeParameter q =>
      exact ⟨node, trivial, trivial, trivial, trivial, trivial, trivial, trivial,
        TypeExpr.everywhereType?_written each q.constraint h.left,
        TypeExpr.everywhereType?_written each q.default h.right, trivial, trivial, trivial⟩

namespace Project.IsOrder

variable {config : Config} {l : List Position}

section

variable (h : p.IsOrder l) (eachType : ∀ s : TypeExpr, P (s.written p (p.document config)))
  (eachReflection : ∀ id r, p.get? id = some r → Q (p.document config id))

include h eachType eachReflection

/-- What holds of every node that a project writes holds everywhere in its documents. -/
theorem everywhere_document {qs below : List Position} (order : p.PostOrder qs below) :
    ∀ q ∈ below, (p.document config q.id).Everywhere P Q := by
  induction order with
  | nil => simp
  | @cons q r below qs rest found _ first _ ih ihLater =>
      intro x mem
      rcases List.mem_append.1 mem with mem | mem
      · exact ih x mem
      rcases List.mem_cons.1 mem with rfl | mem
      · have node := eachReflection x.id r found
        rw [h.document_eq found] at node ⊢
        refine Body.everywhere_written eachType r.body x.id (fun id held => ?_) node
        obtain ⟨y, inside, rfl⟩ := List.mem_map.1 held
        exact ih y (first.perm.mem_iff.2 (List.mem_append_left _ inside))
      · exact ihLater x mem

theorem everywhere_rootDocument (root : Q (p.rootDocument config)) :
    (p.rootDocument config).Everywhere P Q := by
  have top : EverywhereOn P Q (p.document config) p.children := fun id child =>
    h.everywhere_document eachType eachReflection h.postOrder _ (h.free_mem child)
  exact ⟨root, top.list, trivial, trivial, trivial, trivial, trivial, trivial, trivial, trivial,
    trivial, trivial, trivial⟩

end

end Project.IsOrder

end ApiGraph
