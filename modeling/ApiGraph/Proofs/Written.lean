import ApiGraph.Proofs.PostOrder
import ApiGraph.Wire.Encode

/-!
# ApiGraph.Proofs.Written

What a project says, without the ways in which saying it can fail. Given the document of every
reflection, writing a type or a body is a plain function; on a project with a post-order the documents
of its reflections exist, and each is written from those of the reflections that it holds.

* `TypeExpr.written`, `Body.written` — types and bodies in documents.
* `TypeExpr.toWire_eq`, `Project.bodyToWire_eq` — encoding agrees where the documents are.
* `TypeExpr.toWire_asks`, `Project.bodyToWire_asks` — encoding fails where they are not.
* `Project.document`, `Project.rootDocument` — the documents of a reflection and of the project.
* `HasDocument.owned`, `HasDocument.document_eq` — an encoded reflection is written from what it holds.
* `toWire_eq_ok_iff` — a project is encoded exactly if its top level is.
* `PostOrder.hasDocument`, `IsOrder.toWire_eq` — a project with a post-order is written.
-/

namespace ApiGraph

namespace TypeExpr

mutual
/-- A type in a document, given the documents of the declarations that it names. -/
def written (p : Project) (tree : Id → WireReflection) : TypeExpr → WireType
  | .array element => .array (written p tree element)
  | .conditional check bound whenTrue whenFalse =>
    .conditional (written p tree check) (written p tree bound) (written p tree whenTrue)
      (written p tree whenFalse)
  | .indexedAccess object index => .indexedAccess (written p tree index) (written p tree object)
  | .inferred name => .inferred name
  | .intersection members => .intersection (writtenList p tree members)
  | .intrinsic name => .intrinsic name
  | .literal value => .literal value.toWire
  | .mapped parameter parameterType template readonlyModifier optionalModifier nameType =>
    .mapped parameter (written p tree parameterType) (written p tree template) readonlyModifier
      optionalModifier (writtenOption p tree nameType)
  | .optional element => .optional (written p tree element)
  | .predicate name asserts target => .predicate name asserts (writtenOption p tree target)
  | .query link arguments => .query (link.toWire p (writtenList p tree arguments))
  | .reference link arguments => link.toWire p (writtenList p tree arguments)
  | .reflection id => .reflection (tree id)
  | .rest element => .rest (written p tree element)
  | .templateLiteral head tail => .templateLiteral head (writtenSpans p tree tail)
  | .tuple elements => .tuple (nonEmpty? (writtenList p tree elements))
  | .namedTupleMember name isOptional element =>
    .namedTupleMember name isOptional (written p tree element)
  | .typeOperator operator target => .typeOperator (written p tree target) operator
  | .union members => .union (writtenList p tree members)
  | .unknown name => .unknown name

/-- Types in a document. -/
def writtenList (p : Project) (tree : Id → WireReflection) : List TypeExpr → List WireType
  | [] => []
  | t :: ts => written p tree t :: writtenList p tree ts

/-- A type that may be missing, in a document. -/
def writtenOption (p : Project) (tree : Id → WireReflection) : Option TypeExpr → Option WireType
  | none => none
  | some t => some (written p tree t)

/-- The spans of a template literal in a document. -/
def writtenSpans (p : Project) (tree : Id → WireReflection) :
    List (TypeExpr × String) → List (WireType × String)
  | [] => []
  | (t, text) :: spans => (written p tree t, text) :: writtenSpans p tree spans
end

end TypeExpr

/-- A reference that may be missing, in a document. -/
def Reference.writtenOption (p : Project) (tree : Id → WireReflection) :
    Option Reference → Option WireType
  | none => none
  | some r => some (r.link.toWire p (TypeExpr.writtenList p tree r.arguments))

/-- A body in a document, given the documents of the reflections that it holds. -/
def Body.written (p : Project) (tree : Id → WireReflection) (header : WireHeader) :
    Body → WireReflection
  | .declaration d =>
    .mk header (nonEmpty? (d.children.map tree)) (nonEmpty? (d.signatures.map tree))
      (d.indexSignature.map tree) (d.getSignature.map tree) (d.setSignature.map tree)
      (nonEmpty? (d.typeParameters.map tree)) none (TypeExpr.writtenOption p tree d.type) none
      d.defaultValue (Reference.writtenOption p tree d.lineage.overwrites)
      (Reference.writtenOption p tree d.lineage.inheritedFrom)
      (Reference.writtenOption p tree d.lineage.implementationOf)
      (Category.listToWire d.categories) d.hasOwnDocument
  | .signature s =>
    .mk header none none none none none (nonEmpty? (s.typeParameters.map tree))
      (nonEmpty? (s.parameters.map tree)) (TypeExpr.writtenOption p tree s.type) none none
      (Reference.writtenOption p tree s.lineage.overwrites)
      (Reference.writtenOption p tree s.lineage.inheritedFrom)
      (Reference.writtenOption p tree s.lineage.implementationOf) none false
  | .parameter q =>
    .mk header none none none none none none none (TypeExpr.writtenOption p tree q.type) none
      q.defaultValue none none none none false
  | .typeParameter q =>
    .mk header none none none none none none none (TypeExpr.writtenOption p tree q.constraint)
      (TypeExpr.writtenOption p tree q.default) none none none none none false

@[simp] theorem Body.header_written (p : Project) (tree : Id → WireReflection) (header : WireHeader)
    (b : Body) : (b.written p tree header).header = header := by
  cases b <;> rfl

/-- Written categories, without the difference between none and an empty list. -/
theorem getD_listToWire (categories : List Category) : (Category.listToWire categories).getD [] =
    categories.map fun c => { title := c.title, children := nonEmpty? c.children } := by
  cases categories <;> rfl

/-! ### Encoding -/

/-- Embedding gives the documents of some ids. -/
def Embeds (embed : Id → Except Error WireReflection) (tree : Id → WireReflection)
    (ids : List Id) : Prop :=
  ∀ id ∈ ids, embed id = .ok (tree id)

variable {p : Project} {embed : Id → Except Error WireReflection} {tree : Id → WireReflection}

theorem Embeds.left {a b : List Id} (h : Embeds embed tree (a ++ b)) : Embeds embed tree a :=
  fun id mem => h id (List.mem_append_left _ mem)

theorem Embeds.right {a b : List Id} (h : Embeds embed tree (a ++ b)) : Embeds embed tree b :=
  fun id mem => h id (List.mem_append_right _ mem)

namespace TypeExpr

mutual
/-- A type is encoded as it is written. -/
theorem toWire_eq : ∀ t : TypeExpr, Embeds embed tree t.anonymous →
    t.toWire p embed = .ok (t.written p tree)
  | .array element, h => by
      rw [toWire, toWire_eq element h]
      rfl
  | .conditional check bound whenTrue whenFalse, h => by
      rw [toWire, toWire_eq check h.left, toWire_eq bound h.right.left,
        toWire_eq whenTrue h.right.right.left, toWire_eq whenFalse h.right.right.right]
      rfl
  | .indexedAccess object index, h => by
      rw [toWire, toWire_eq index h.right, toWire_eq object h.left]
      rfl
  | .inferred _, _ => rfl
  | .intersection members, h => by
      rw [toWire, toWireList_eq members h]
      rfl
  | .intrinsic _, _ => rfl
  | .literal _, _ => rfl
  | .mapped _ parameterType template _ _ nameType, h => by
      rw [toWire, toWire_eq parameterType h.left, toWire_eq template h.right.left,
        toWireOption_eq nameType h.right.right]
      rfl
  | .optional element, h => by
      rw [toWire, toWire_eq element h]
      rfl
  | .predicate _ _ target, h => by
      rw [toWire, toWireOption_eq target h]
      rfl
  | .query _ arguments, h => by
      rw [toWire, toWireList_eq arguments h]
      rfl
  | .reference _ arguments, h => by
      rw [toWire, toWireList_eq arguments h]
      rfl
  | .reflection id, h => by
      rw [toWire, h id List.mem_cons_self]
      rfl
  | .rest element, h => by
      rw [toWire, toWire_eq element h]
      rfl
  | .templateLiteral _ tail, h => by
      rw [toWire, toWireSpans_eq tail h]
      rfl
  | .tuple elements, h => by
      rw [toWire, toWireList_eq elements h]
      rfl
  | .namedTupleMember _ _ element, h => by
      rw [toWire, toWire_eq element h]
      rfl
  | .typeOperator _ target, h => by
      rw [toWire, toWire_eq target h]
      rfl
  | .union members, h => by
      rw [toWire, toWireList_eq members h]
      rfl
  | .unknown _, _ => rfl

theorem toWireList_eq : ∀ ts : List TypeExpr, Embeds embed tree (anonymousList ts) →
    toWireList p embed ts = .ok (writtenList p tree ts)
  | [], _ => rfl
  | t :: ts, h => by
      rw [toWireList, toWire_eq t h.left, toWireList_eq ts h.right]
      rfl

theorem toWireOption_eq : ∀ t : Option TypeExpr, Embeds embed tree (anonymousOption t) →
    toWireOption p embed t = .ok (writtenOption p tree t)
  | none, _ => rfl
  | some t, h => by
      rw [toWireOption, toWire_eq t h]
      rfl

theorem toWireSpans_eq : ∀ spans : List (TypeExpr × String),
    Embeds embed tree (anonymousSpans spans) →
    toWireSpans p embed spans = .ok (writtenSpans p tree spans)
  | [], _ => rfl
  | (t, _) :: spans, h => by
      rw [toWireSpans, toWire_eq t h.left, toWireSpans_eq spans h.right]
      rfl
end

end TypeExpr

theorem Reference.toWireOption_eq (r : Option Reference)
    (h : Embeds embed tree (Reference.anonymousOption r)) :
    Reference.toWireOption p embed r = .ok (Reference.writtenOption p tree r) := by
  cases r with
  | none => rfl
  | some r =>
      rw [Reference.toWireOption, TypeExpr.toWireList_eq r.arguments h]
      rfl

namespace Project

theorem mapM_embed_eq {ids : List Id} (h : Embeds embed tree ids) :
    ids.mapM embed = .ok (ids.map tree) := by
  induction ids with
  | nil => rfl
  | cons id ids ih =>
      rw [List.mapM_cons, h id List.mem_cons_self, ih fun x hx => h x (List.mem_cons_of_mem _ hx)]
      rfl

theorem embedList_eq {ids : List Id} (h : Embeds embed tree ids) :
    embedList embed ids = .ok (nonEmpty? (ids.map tree)) := by
  rw [embedList, mapM_embed_eq h]
  rfl

theorem embedSlot_eq {slot : Option Id} (h : Embeds embed tree slot.toList) :
    embedSlot embed slot = .ok (slot.map tree) := by
  cases slot with
  | none => rfl
  | some id =>
      rw [embedSlot, h id List.mem_cons_self]
      rfl

end Project

/-- The ids that a body holds, in the order of its places. -/
theorem Body.map_id_positions (self : Id) (b : Body) :
    (b.positions self).map Position.id =
      match b with
      | .declaration d =>
        d.typeParameters ++ (TypeExpr.anonymousOption d.type ++ (d.lineage.anonymous ++
          (d.signatures ++ (d.indexSignature.toList ++ (d.getSignature.toList ++
          (d.setSignature.toList ++ d.children))))))
      | .signature s =>
        s.typeParameters ++ (s.parameters ++ (TypeExpr.anonymousOption s.type ++ s.lineage.anonymous))
      | .parameter q => TypeExpr.anonymousOption q.type
      | .typeParameter q =>
        TypeExpr.anonymousOption q.constraint ++ TypeExpr.anonymousOption q.default := by
  cases b <;>
    simp only [positions, List.map_append, List.map_map, Position.id_comp_free,
      Position.id_comp_under, List.map_id']

/-- A body is encoded as it is written. -/
theorem Project.bodyToWire_eq (self : Id) {b : Body} (header : WireHeader)
    (h : Embeds embed tree ((b.positions self).map Position.id)) :
    p.bodyToWire embed header b = .ok (b.written p tree header) := by
  rw [Body.map_id_positions] at h
  cases b with
  | declaration d =>
      have types := h.right.left
      have lineage := h.right.right.left
      have signatures := h.right.right.right
      rw [Project.bodyToWire, embedList_eq h.left, TypeExpr.toWireOption_eq _ types,
        Reference.toWireOption_eq _ lineage.left, Reference.toWireOption_eq _ lineage.right.left,
        Reference.toWireOption_eq _ lineage.right.right, embedList_eq signatures.left,
        embedSlot_eq signatures.right.left, embedSlot_eq signatures.right.right.left,
        embedSlot_eq signatures.right.right.right.left,
        embedList_eq signatures.right.right.right.right]
      rfl
  | signature s =>
      have types := h.right.right.left
      have lineage := h.right.right.right
      rw [Project.bodyToWire, embedList_eq h.left, embedList_eq h.right.left,
        TypeExpr.toWireOption_eq _ types, Reference.toWireOption_eq _ lineage.left,
        Reference.toWireOption_eq _ lineage.right.left,
        Reference.toWireOption_eq _ lineage.right.right]
      rfl
  | parameter q =>
      rw [Project.bodyToWire, TypeExpr.toWireOption_eq _ h]
      rfl
  | typeParameter q =>
      rw [Project.bodyToWire, TypeExpr.toWireOption_eq _ h.left, TypeExpr.toWireOption_eq _ h.right]
      rfl

/-! ### What encoding needs -/

/-- An action that succeeds only if embedding gives a document for each of some ids. -/
def Asks {α : Type} (embed : Id → Except Error WireReflection) (action : Except Error α)
    (ids : List Id) : Prop :=
  ∀ a, action = .ok a → ∀ id ∈ ids, ∃ w, embed id = .ok w

namespace Asks

variable {α β : Type} {action : Except Error α} {next : α → Except Error β} {ids ids' : List Id}

theorem nil : Asks embed action [] := by
  intro _ _ id mem
  cases mem

theorem bind (h : Asks embed action ids) (h' : ∀ a, Asks embed (next a) ids') :
    Asks embed (action >>= next) (ids ++ ids') := by
  intro b done id mem
  cases action with
  | error e => cases done
  | ok a =>
      rcases List.mem_append.1 mem with mem | mem
      · exact h a rfl id mem
      · exact h' a b done id mem

/-- An action may be followed by one that embeds nothing. -/
theorem skip (h : Asks embed action ids) : Asks embed (action >>= next) ids := by
  rw [← List.append_nil ids]
  exact h.bind fun _ => .nil

/-- The order of what is asked for does not matter. -/
theorem perm (h : Asks embed action ids) (same : ids'.Perm ids) : Asks embed action ids' :=
  fun a done id mem => h a done id (same.mem_iff.1 mem)

theorem single (id : Id) : Asks embed (embed id) [id] := by
  intro w done x mem
  rw [List.mem_singleton.1 mem]
  exact ⟨w, done⟩

end Asks

namespace TypeExpr

mutual
/-- A type is encoded only if the declarations that it names have documents. -/
theorem toWire_asks : ∀ t : TypeExpr, Asks embed (t.toWire p embed) t.anonymous
  | .array element => by
      rw [toWire]
      exact (toWire_asks element).skip
  | .conditional check bound whenTrue whenFalse => by
      rw [toWire]
      refine (toWire_asks check).bind fun _ => (toWire_asks bound).bind fun _ => ?_
      exact (toWire_asks whenTrue).bind fun _ => (toWire_asks whenFalse).skip
  | .indexedAccess object index => by
      rw [toWire]
      refine .perm ?_ List.perm_append_comm
      exact (toWire_asks index).bind fun _ => (toWire_asks object).skip
  | .inferred _ | .intrinsic _ | .literal _ | .unknown _ => .nil
  | .intersection members => by
      rw [toWire]
      exact (toWireList_asks members).skip
  | .mapped _ parameterType template _ _ nameType => by
      rw [toWire]
      refine (toWire_asks parameterType).bind fun _ => (toWire_asks template).bind fun _ => ?_
      exact (toWireOption_asks nameType).skip
  | .optional element => by
      rw [toWire]
      exact (toWire_asks element).skip
  | .predicate _ _ target => by
      rw [toWire]
      exact (toWireOption_asks target).skip
  | .query _ arguments => by
      rw [toWire]
      exact (toWireList_asks arguments).skip
  | .reference _ arguments => by
      rw [toWire]
      exact (toWireList_asks arguments).skip
  | .reflection id => by
      rw [toWire]
      exact (Asks.single id).skip
  | .rest element => by
      rw [toWire]
      exact (toWire_asks element).skip
  | .templateLiteral _ tail => by
      rw [toWire]
      exact (toWireSpans_asks tail).skip
  | .tuple elements => by
      rw [toWire]
      exact (toWireList_asks elements).skip
  | .namedTupleMember _ _ element => by
      rw [toWire]
      exact (toWire_asks element).skip
  | .typeOperator _ target => by
      rw [toWire]
      exact (toWire_asks target).skip
  | .union members => by
      rw [toWire]
      exact (toWireList_asks members).skip

theorem toWireList_asks : ∀ ts : List TypeExpr,
    Asks embed (toWireList p embed ts) (anonymousList ts)
  | [] => .nil
  | t :: ts => by
      rw [toWireList]
      exact (toWire_asks t).bind fun _ => (toWireList_asks ts).skip

theorem toWireOption_asks : ∀ t : Option TypeExpr,
    Asks embed (toWireOption p embed t) (anonymousOption t)
  | none => .nil
  | some t => by
      rw [toWireOption]
      exact (toWire_asks t).skip

theorem toWireSpans_asks : ∀ spans : List (TypeExpr × String),
    Asks embed (toWireSpans p embed spans) (anonymousSpans spans)
  | [] => .nil
  | (t, _) :: spans => by
      rw [toWireSpans]
      exact (toWire_asks t).bind fun _ => (toWireSpans_asks spans).skip
end

end TypeExpr

theorem Reference.toWireOption_asks (r : Option Reference) :
    Asks embed (Reference.toWireOption p embed r) (Reference.anonymousOption r) := by
  cases r with
  | none => exact .nil
  | some r =>
      rw [Reference.toWireOption]
      exact (TypeExpr.toWireList_asks r.arguments).skip

namespace Project

theorem mapM_embed_asks (ids : List Id) : Asks embed (ids.mapM embed) ids := by
  induction ids with
  | nil => exact .nil
  | cons id ids ih =>
      rw [List.mapM_cons]
      exact (Asks.single id).bind fun _ => ih.skip

theorem embedList_asks (ids : List Id) : Asks embed (embedList embed ids) ids := by
  rw [embedList]
  exact (mapM_embed_asks ids).skip

theorem embedSlot_asks (slot : Option Id) : Asks embed (embedSlot embed slot) slot.toList := by
  cases slot with
  | none => exact .nil
  | some id =>
      rw [embedSlot]
      exact (Asks.single id).skip

/-- A body is encoded only if everything that it holds has a document. -/
theorem bodyToWire_asks (self : Id) (header : WireHeader) (b : Body) :
    Asks embed (p.bodyToWire embed header b) ((b.positions self).map Position.id) := by
  rw [Body.map_id_positions]
  cases b with
  | declaration d =>
      rw [bodyToWire]
      simp only [Lineage.anonymous, List.append_assoc]
      refine (embedList_asks _).bind fun _ => (TypeExpr.toWireOption_asks _).bind fun _ => ?_
      refine (Reference.toWireOption_asks _).bind fun _ => ?_
      refine (Reference.toWireOption_asks _).bind fun _ => ?_
      refine (Reference.toWireOption_asks _).bind fun _ => ?_
      refine (embedList_asks _).bind fun _ => (embedSlot_asks _).bind fun _ => ?_
      refine (embedSlot_asks _).bind fun _ => (embedSlot_asks _).bind fun _ => ?_
      exact (embedList_asks _).skip
  | signature s =>
      rw [bodyToWire]
      simp only [Lineage.anonymous]
      refine (embedList_asks _).bind fun _ => (embedList_asks _).bind fun _ => ?_
      refine (TypeExpr.toWireOption_asks _).bind fun _ => ?_
      refine (Reference.toWireOption_asks _).bind fun _ => ?_
      refine (Reference.toWireOption_asks _).bind fun _ => ?_
      exact (Reference.toWireOption_asks _).skip
  | parameter q =>
      rw [bodyToWire]
      exact (TypeExpr.toWireOption_asks _).skip
  | typeParameter q =>
      rw [bodyToWire]
      exact (TypeExpr.toWireOption_asks _).bind fun _ => (TypeExpr.toWireOption_asks _).skip

end Project

/-! ### Documents -/

/-- The document that embedding gives an id, if it gives one. -/
def documentOf (embed : Id → Except Error WireReflection) (id : Id) : WireReflection :=
  match embed id with
  | .ok document => document
  | .error _ => default

theorem documentOf_eq {id : Id} {w : WireReflection} (h : embed id = .ok w) :
    documentOf embed id = w := by
  rw [documentOf, h]

theorem embeds_documentOf {ids : List Id} (h : ∀ id ∈ ids, ∃ w, embed id = .ok w) :
    Embeds embed (documentOf embed) ids := by
  intro id mem
  obtain ⟨w, done⟩ := h id mem
  rw [done, documentOf_eq done]

namespace Project

variable {config : Config} {l qs : List Position} {q : Position} {id owner : Id} {r : Reflection}
  {w : WireReflection} {levels levels' : Nat}

/-- The document of a reflection, if it has one. -/
def document (p : Project) (config : Config) (id : Id) : WireReflection :=
  documentOf (p.reflectionToWire config) id

/-- The document of the project, if its reflections have one. -/
def rootDocument (p : Project) (config : Config) : WireReflection :=
  .mk (headerToWire config 0 p.name .project {}) (nonEmpty? (p.children.map (p.document config))) none
    none none none none none none none none none none none (Category.listToWire p.categories) false

/-- Whether a reflection is encoded. -/
def HasDocument (p : Project) (config : Config) (id : Id) : Prop :=
  ∃ w, p.reflectionToWire config id = .ok w

/-- A reflection that is encoded is registered, what it holds is encoded one level down, and its
document is written from those documents. -/
theorem exists_of_nestedToWire (done : p.nestedToWire config (levels + 1) id = .ok w) :
    ∃ r, p.get? id = some r ∧
      Embeds (p.nestedToWire config levels) (documentOf (p.nestedToWire config levels))
        ((r.body.positions id).map Position.id) ∧
      w = r.body.written p (documentOf (p.nestedToWire config levels))
        (headerToWire config id r.name r.kind r.flags) := by
  rw [nestedToWire] at done
  split at done
  · cases done
  · next r found =>
    have held := embeds_documentOf (bodyToWire_asks id _ r.body w done)
    rw [bodyToWire_eq id _ held] at done
    exact ⟨r, found, held, (Except.ok.inj done).symm⟩

/-- Room for more levels does not change a document. -/
theorem nestedToWire_mono (done : p.nestedToWire config levels id = .ok w) (more : levels ≤ levels') :
    p.nestedToWire config levels' id = .ok w := by
  induction levels generalizing id w levels' with
  | zero => cases done
  | succ levels ih =>
      obtain ⟨levels', rfl⟩ := Nat.exists_eq_add_of_le' (Nat.one_le_of_lt more)
      obtain ⟨r, found, held, rfl⟩ := exists_of_nestedToWire done
      rw [nestedToWire, found]
      exact bodyToWire_eq id _ fun x mem => ih (held x mem) (Nat.le_of_succ_le_succ more)

namespace HasDocument

theorem reflectionToWire_eq (h : p.HasDocument config id) :
    p.reflectionToWire config id = .ok (p.document config id) := by
  obtain ⟨w, done⟩ := h
  rw [done, document, documentOf_eq done]

/-- An encoded reflection is registered, and its document is written from those of the reflections
that it holds. -/
theorem exists_written (h : p.HasDocument config id) : ∃ r, p.get? id = some r ∧
    Embeds (p.reflectionToWire config) (p.document config) ((r.body.positions id).map Position.id) ∧
    p.document config id =
      r.body.written p (p.document config) (headerToWire config id r.name r.kind r.flags) := by
  have done := h.reflectionToWire_eq
  obtain ⟨r, found, held, -⟩ := exists_of_nestedToWire done
  -- one level deeper than needed, so that what it holds is written at the full depth
  have deeper := nestedToWire_mono done (Nat.le_succ _)
  have inside : Embeds (p.reflectionToWire config) (p.document config)
      ((r.body.positions id).map Position.id) := by
    intro x mem
    have known : p.HasDocument config x := ⟨_, nestedToWire_mono (held x mem) (Nat.le_succ _)⟩
    exact known.reflectionToWire_eq
  rw [nestedToWire, found] at deeper
  exact ⟨r, found, inside, Except.ok.inj (deeper.symm.trans (bodyToWire_eq id _ inside))⟩

theorem contains (h : p.HasDocument config id) : p.contains id = true := by
  obtain ⟨r, found, -⟩ := h.exists_written
  exact Registry.contains_iff.2 ⟨r, found⟩

/-- What an encoded reflection holds is encoded. -/
theorem owned (h : p.HasDocument config owner) (owned : p.Owns owner id) :
    p.HasDocument config id := by
  obtain ⟨r, found, held, -⟩ := h.exists_written
  rw [Owns, held_eq found] at owned
  exact ⟨_, held id owned⟩

/-- The document of a reflection is written from those of the reflections that it holds. -/
theorem document_eq (h : p.HasDocument config id) (found : p.get? id = some r) :
    p.document config id =
      r.body.written p (p.document config) (headerToWire config id r.name r.kind r.flags) := by
  obtain ⟨r', found', -, written⟩ := h.exists_written
  obtain rfl := Option.some.inj (found.symm.trans found')
  exact written

theorem header_document (h : p.HasDocument config id) (found : p.get? id = some r) :
    (p.document config id).header = headerToWire config id r.name r.kind r.flags := by
  rw [h.document_eq found, Body.header_written]

theorem id_document (h : p.HasDocument config id) : (p.document config id).header.id = id := by
  obtain ⟨r, found, -⟩ := h.exists_written
  rw [h.header_document found]
  rfl

end HasDocument

/-- A project is encoded exactly if its top level is. -/
theorem toWire_eq_ok_iff : p.toWire config = .ok w ↔
    (∀ id ∈ p.children, p.HasDocument config id) ∧ w = p.rootDocument config := by
  have written (top : ∀ id ∈ p.children, p.HasDocument config id) :
      p.toWire config = .ok (p.rootDocument config) := by
    have embeds : Embeds (p.reflectionToWire config) (p.document config) p.children := by
      intro id child
      exact (top id child).reflectionToWire_eq
    rw [toWire, embedList_eq embeds]
    rfl
  constructor
  · intro done
    have asks : Asks (p.reflectionToWire config) (p.toWire config) p.children := by
      rw [toWire]
      exact (embedList_asks p.children).skip
    have top := asks w done
    exact ⟨top, Except.ok.inj (done.symm.trans (written top))⟩
  · rintro ⟨top, rfl⟩
    exact written top

/-- Where the top level is encoded, so is everything that it reaches. -/
theorem Reaches.hasDocument (h : p.Reaches id) (top : ∀ id ∈ p.children, p.HasDocument config id) :
    p.HasDocument config id := by
  obtain ⟨child, mem, path⟩ := h
  induction path with
  | refl => exact top child mem
  | tail _ owned before => exact before.owned owned

namespace PostOrder

/-- A reflection in a post-order is encoded at the depth of the order. -/
theorem exists_document (h : p.PostOrder qs l) (config : Config) :
    ∀ q ∈ l, ∃ w, p.nestedToWire config l.length q.id = .ok w := by
  induction h with
  | nil => simp
  | @cons q r below qs rest found placed first later ih ihLater =>
      intro x mem
      rw [List.length_append, List.length_cons]
      rcases List.mem_append.1 mem with mem | mem
      · obtain ⟨w, done⟩ := ih x mem
        exact ⟨w, nestedToWire_mono done (by omega)⟩
      rcases List.mem_cons.1 mem with rfl | mem
      · -- what it holds is encoded at the depth of its own post-order
        have held : ∀ id ∈ (r.body.positions x.id).map Position.id,
            ∃ w, p.nestedToWire config below.length id = .ok w := by
          intro id mem
          obtain ⟨y, inside, rfl⟩ := List.mem_map.1 mem
          exact ih y (first.perm.mem_iff.2 (List.mem_append_left _ inside))
        obtain ⟨w, done⟩ : ∃ w, p.nestedToWire config (below.length + 1) x.id = .ok w := by
          rw [nestedToWire, found]
          exact ⟨_, bodyToWire_eq x.id _ (embeds_documentOf held)⟩
        exact ⟨w, nestedToWire_mono done (by omega)⟩
      · obtain ⟨w, done⟩ := ihLater x mem
        exact ⟨w, nestedToWire_mono done (by omega)⟩

/-- A post-order without repetition is not longer than the registry, so it is encoded. -/
theorem hasDocument (h : p.PostOrder qs l) (distinct : (l.map Position.id).Nodup) :
    ∀ q ∈ l, p.HasDocument config q.id := by
  have registered : l.map Position.id ⊆ p.registry.ids := by
    intro id mem
    obtain ⟨q, inside, rfl⟩ := List.mem_map.1 mem
    obtain ⟨r, found, -⟩ := h.placed q inside
    exact Registry.mem_ids_iff.2 (Registry.contains_iff.2 ⟨r, found⟩)
  have short : l.length ≤ p.size := by
    have shorter := (distinct.subperm registered).length_le
    rwa [List.length_map, Registry.ids, List.length_map] at shorter
  intro q mem
  obtain ⟨w, done⟩ := h.exists_document config q mem
  exact ⟨w, nestedToWire_mono done (Nat.le_succ_of_le short)⟩

end PostOrder

namespace IsPlaced

/-- A place whose reflection is encoded has a post-order. -/
theorem exists_postOrder_of_nestedToWire (h : p.IsPlaced) (mem : q ∈ p.positions)
    (done : p.nestedToWire config levels q.id = .ok w) : ∃ l, p.PostOrder [q] l := by
  induction levels generalizing q w with
  | zero => cases done
  | succ levels ih =>
      obtain ⟨r, found, held, -⟩ := exists_of_nestedToWire done
      have below : ∀ x ∈ r.body.positions q.id, ∃ l, p.PostOrder [x] l := by
        intro x inside
        have here : x ∈ p.held q.id := (held_eq found).symm ▸ inside
        exact ih (mem_positions_of_mem_held here) (held x.id (List.mem_map_of_mem inside))
      obtain ⟨l, order⟩ := PostOrder.exists_of_forall below
      exact ⟨_, .single found (h q mem r found) order⟩

/-- The top level of an encoded project has a post-order. -/
theorem exists_postOrder_of_toWire (h : p.IsPlaced) (done : p.toWire config = .ok w) :
    ∃ l, p.PostOrder (p.children.map .free) l := by
  obtain ⟨top, -⟩ := toWire_eq_ok_iff.1 done
  refine PostOrder.exists_of_forall fun q mem => ?_
  obtain ⟨id, child, rfl⟩ := List.mem_map.1 mem
  obtain ⟨w, here⟩ := top id child
  exact h.exists_postOrder_of_nestedToWire (mem_positions_top child) here

end IsPlaced

namespace IsOrder

theorem hasDocument (h : p.IsOrder l) (config : Config) (known : p.contains id = true) :
    p.HasDocument config id := by
  obtain ⟨q, mem, rfl⟩ := List.mem_map.1 (h.covers id known)
  exact h.postOrder.hasDocument h.distinct q mem

/-- What a registered reflection holds is registered. -/
theorem contains_of_owns (h : p.IsOrder l) {owner : Id} (owned : p.Owns owner id) :
    p.contains id = true :=
  h.isForest.contains_of_owns owned

/-- The document of a reflection is written from those of the reflections that it holds. -/
theorem document_eq (h : p.IsOrder l) (found : p.get? id = some r) : p.document config id =
    r.body.written p (p.document config) (headerToWire config id r.name r.kind r.flags) :=
  (h.hasDocument config (Registry.contains_iff.2 ⟨r, found⟩)).document_eq found

theorem id_document (h : p.IsOrder l) (config : Config) (known : p.contains id = true) :
    (p.document config id).header.id = id :=
  (h.hasDocument config known).id_document

/-- **A project with a post-order is written.** -/
theorem toWire_eq (h : p.IsOrder l) (config : Config) :
    p.toWire config = .ok (p.rootDocument config) := by
  refine toWire_eq_ok_iff.2 ⟨fun id child => ?_, rfl⟩
  exact h.hasDocument config (h.contains_iff.2 (List.mem_map_of_mem (h.free_mem child)))

end IsOrder

end Project

end ApiGraph
