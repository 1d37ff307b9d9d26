import ApiGraph.Proofs.Rereading

/-!
# ApiGraph.Proofs.Bodies

Bodies that are written and read back: their types come back as types do, their lists and slots as
the ids of the documents there, and their categories if every member is known by then.

* `Body.nodes`, `Body.categories` — the nodes of all types of a body, and its categories.
* `Body.Same`, `Reflection.Same` — equality up to that of types.
* `Body.same_read` — a body comes back settled and otherwise the same.
* `Body.written_read` — what comes back is written as before.
-/

namespace ApiGraph

/-- The nodes of a reference that may be missing. -/
def Reference.nodesOption : Option Reference → List TypeExpr
  | none => []
  | some r => r.toType.walk

/-- The nodes of a lineage. -/
def Lineage.nodes (l : Lineage) : List TypeExpr :=
  Reference.nodesOption l.overwrites ++ (Reference.nodesOption l.inheritedFrom ++
    Reference.nodesOption l.implementationOf)

namespace Body

/-- The nodes of all types that a body carries. -/
def nodes : Body → List TypeExpr
  | .declaration d => TypeExpr.walkOption d.type ++ d.lineage.nodes
  | .signature s => TypeExpr.walkOption s.type ++ s.lineage.nodes
  | .parameter q => TypeExpr.walkOption q.type
  | .typeParameter q => TypeExpr.walkOption q.constraint ++ TypeExpr.walkOption q.default

/-- The categories of a body. -/
def categories : Body → List Category
  | .declaration d => d.categories
  | _ => []

end Body

/-- All members of categories are known. -/
def HasMembers (known : Id → Bool) (categories : List Category) : Prop :=
  ∀ c ∈ categories, ∀ id ∈ c.children, known id = true

variable {p q : Project} {tree tree' : Id → WireReflection} {known : Id → Bool}

/-! ### Lists, slots and categories -/

theorem idsOf_nonEmpty? (rs : List WireReflection) : idsOf (nonEmpty? rs) = rs.map (·.header.id) := by
  cases rs <;> rfl

theorem Named.idsOf_eq {ids : List Id} (h : Named tree ids) :
    idsOf (nonEmpty? (ids.map tree)) = ids := by
  rw [idsOf_nonEmpty?, List.map_map]
  exact (List.map_congr_left h).trans (List.map_id ids)

theorem Named.idOf?_eq {slot : Option Id} (h : Named tree slot.toList) :
    idOf? (slot.map tree) = slot := by
  cases slot with
  | none => rfl
  | some id => exact congrArg some (h id List.mem_cons_self)

theorem Agrees.map_idsOf {ids : List Id} (h : Agrees tree tree' ids) :
    (idsOf (nonEmpty? (ids.map tree))).map tree' = ids.map tree := by
  rw [idsOf_nonEmpty?, List.map_map, List.map_map]
  exact List.map_congr_left h

theorem Agrees.map_idOf? {slot : Option Id} (h : Agrees tree tree' slot.toList) :
    (idOf? (slot.map tree)).map tree' = slot.map tree := by
  cases slot with
  | none => rfl
  | some id => exact congrArg some (h id List.mem_cons_self)

theorem HasMembers.readCategories_eq {categories : List Category} (h : HasMembers known categories) :
    readCategories known (Category.listToWire categories) = categories := by
  rw [readCategories, getD_listToWire, List.map_map]
  refine (List.map_congr_left fun c mem => ?_).trans (List.map_id categories)
  obtain ⟨title, children⟩ := c
  have all : (nonEmpty? children).getD [] = children := by cases children <;> rfl
  simp only [Function.comp_apply, all, id_eq, Category.mk.injEq, true_and]
  exact List.filter_eq_self.2 (h _ mem)

/-! ### References -/

namespace Reference

theorem exists_settled_option (r : Option Reference) (keeps : Throughout p.Keeps (nodesOption r))
    (named : Named tree (anonymousOption r)) :
    ∃ r', (match r with
        | none => pure none
        | some r => do return some (← r.settleWhile (.whole p)) : StateM Bool _) true = (r', true) ∧
      TypeExpr.sameOption (r'.map toType)
        ((readReference? (writtenOption p tree r)).map toType) = true := by
  cases r with
  | none => exact ⟨none, rfl, by simp [writtenOption, readReference?, TypeExpr.sameOption]⟩
  | some r =>
      obtain ⟨arguments', run, same⟩ := TypeExpr.exists_settled_list r.arguments keeps.tail named
      refine ⟨some { link := r.link.settle p.lookup, arguments := arguments' }, ?_, ?_⟩
      · have whole : r.settleWhile (.whole p) true =
            ({ link := r.link.settle p.lookup, arguments := arguments' }, true) := by
          rw [settleWhile, TypeExpr.bind_pass (TypeExpr.settleLink_whole r.link),
            TypeExpr.bind_pass run]
          rfl
        exact TypeExpr.bind_pass whole
      · simp [writtenOption, readReference?, Link.toWire, WireType.readReference, toType,
          TypeExpr.sameOption, TypeExpr.same, TypeExpr.settle_link keeps.head, readTypes?_nonEmpty?,
          same]

theorem written_read (resolves : Resolves p q) (r : Option Reference)
    (merged : Throughout TypeExpr.IsMerged (nodesOption r))
    (agrees : Agrees tree tree' (anonymousOption r)) :
    writtenOption q tree' (readReference? (writtenOption p tree r)) = writtenOption p tree r := by
  cases r with
  | none => rfl
  | some r =>
      have list := TypeExpr.written_readTypes resolves r.arguments merged.tail agrees
      simp only [writtenOption, Link.toWire, readReference?, WireType.readReference,
        readTypes?_nonEmpty?, list]
      exact congrArg some (resolves.toWire_link r.link _)

end Reference

/-! ### Coming back the same -/

/-- Lineages with the same references. -/
structure Lineage.Same (a b : Lineage) : Prop where
  overwrites : TypeExpr.sameOption (a.overwrites.map (·.toType)) (b.overwrites.map (·.toType)) = true
  inheritedFrom :
    TypeExpr.sameOption (a.inheritedFrom.map (·.toType)) (b.inheritedFrom.map (·.toType)) = true
  implementationOf :
    TypeExpr.sameOption (a.implementationOf.map (·.toType)) (b.implementationOf.map (·.toType)) = true

/-- Bodies that differ at most in their types, and there have the same ones. -/
inductive Body.Same : Body → Body → Prop
  | declaration {d : Declaration} {type : Option TypeExpr} {lineage : Lineage}
      (sameType : TypeExpr.sameOption d.type type = true) (sameLineage : d.lineage.Same lineage) :
      Same (.declaration d) (.declaration { d with type, lineage })
  | signature {s : Signature} {type : Option TypeExpr} {lineage : Lineage}
      (sameType : TypeExpr.sameOption s.type type = true) (sameLineage : s.lineage.Same lineage) :
      Same (.signature s) (.signature { s with type, lineage })
  | parameter {q : Parameter} {type : Option TypeExpr}
      (sameType : TypeExpr.sameOption q.type type = true) :
      Same (.parameter q) (.parameter { q with type })
  | typeParameter {q : TypeParameter} {constraint default : Option TypeExpr}
      (sameConstraint : TypeExpr.sameOption q.constraint constraint = true)
      (sameDefault : TypeExpr.sameOption q.default default = true) :
      Same (.typeParameter q) (.typeParameter { constraint, default })

/-- The body with every reference settled. -/
def Body.settle (p : Project) (b : Body) : Body :=
  (b.settleWhile (.whole p) true).1

/-- Reflections that differ at most in the types of their bodies, and there have the same ones. -/
def Reflection.Same (a b : Reflection) : Prop :=
  a.body.Same b.body ∧ b = { a with body := b.body }

/-- The reflection with every reference settled. -/
def Reflection.settle (p : Project) (r : Reflection) : Reflection :=
  { r with body := r.body.settle p }

theorem Lineage.exists_settled (l : Lineage) (keeps : Throughout p.Keeps l.nodes)
    (named : Named tree l.anonymous) :
    ∃ l', l.settleWhile (.whole p) true = (l', true) ∧
      l'.Same (readLineage (Reference.writtenOption p tree l.overwrites)
        (Reference.writtenOption p tree l.inheritedFrom)
        (Reference.writtenOption p tree l.implementationOf)) := by
  obtain ⟨overwrites, runFirst, sameFirst⟩ :=
    Reference.exists_settled_option l.overwrites keeps.left named.left
  obtain ⟨inheritedFrom, runSecond, sameSecond⟩ :=
    Reference.exists_settled_option l.inheritedFrom keeps.right.left named.right.left
  obtain ⟨implementationOf, runThird, sameThird⟩ :=
    Reference.exists_settled_option l.implementationOf keeps.right.right named.right.right
  refine ⟨{ overwrites, inheritedFrom, implementationOf }, ?_, sameFirst, sameSecond, sameThird⟩
  rw [settleWhile]
  exact (TypeExpr.bind_pass runFirst).trans
    ((TypeExpr.bind_pass runSecond).trans (TypeExpr.bind_pass runThird))

theorem pass_whole (p : Project) (ids : List Id) :
    (modify (· && !ids.any (TypeExpr.Settling.whole p).blocks) : StateM Bool Unit) true =
      ((), true) := by
  have clear : ids.any (TypeExpr.Settling.whole p).blocks = false :=
    List.any_eq_false.2 fun _ _ => nofun
  show ((), true && !ids.any (TypeExpr.Settling.whole p).blocks) = ((), true)
  rw [clear]
  rfl

namespace Body

/-- A body comes back settled and otherwise the same. -/
theorem same_read {header : WireHeader} (b : Body) (self : Id) (keeps : Throughout p.Keeps b.nodes)
    (members : HasMembers known b.categories)
    (named : Named tree ((b.positions self).map Position.id)) :
    (b.settle p).Same ((b.written p tree header).body known b.role) := by
  rw [map_id_positions] at named
  cases b with
  | declaration d =>
      have kept : readCategories known (Category.listToWire d.categories) = d.categories :=
        members.readCategories_eq
      have lists := named.right.right.right
      obtain ⟨type', runType, sameType⟩ :=
        TypeExpr.exists_settled_option d.type keeps.left named.right.left
      obtain ⟨lineage', runLineage, sameLineage⟩ :=
        d.lineage.exists_settled keeps.right named.right.right.left
      have settled : (declaration d).settle p =
          .declaration { d with type := type', lineage := lineage' } := by
        rw [settle, settleWhile]
        dsimp only
        rw [TypeExpr.bind_pass (pass_whole p _), TypeExpr.bind_pass runType,
          TypeExpr.bind_pass runLineage]
        rfl
      rw [settled]
      simp only [written, WireReflection.body, role, named.left.idsOf_eq, lists.left.idsOf_eq,
        lists.right.left.idOf?_eq, lists.right.right.left.idOf?_eq,
        lists.right.right.right.left.idOf?_eq, lists.right.right.right.right.idsOf_eq,
        kept]
      exact .declaration sameType sameLineage
  | signature s =>
      obtain ⟨type', runType, sameType⟩ :=
        TypeExpr.exists_settled_option s.type keeps.left named.right.right.left
      obtain ⟨lineage', runLineage, sameLineage⟩ :=
        s.lineage.exists_settled keeps.right named.right.right.right
      have settled : (signature s).settle p =
          .signature { s with type := type', lineage := lineage' } := by
        rw [settle, settleWhile]
        dsimp only
        rw [TypeExpr.bind_pass (pass_whole p _), TypeExpr.bind_pass runType,
          TypeExpr.bind_pass runLineage]
        rfl
      rw [settled]
      simp only [written, WireReflection.body, role, named.left.idsOf_eq,
        named.right.left.idsOf_eq]
      exact .signature sameType sameLineage
  | parameter q =>
      obtain ⟨type', runType, sameType⟩ := TypeExpr.exists_settled_option q.type keeps named
      have settled : (parameter q).settle p = .parameter { q with type := type' } := by
        rw [settle, settleWhile]
        rw [TypeExpr.bind_pass runType]
        rfl
      rw [settled]
      exact .parameter sameType
  | typeParameter q =>
      obtain ⟨constraint', runConstraint, sameConstraint⟩ :=
        TypeExpr.exists_settled_option q.constraint keeps.left named.left
      obtain ⟨default', runDefault, sameDefault⟩ :=
        TypeExpr.exists_settled_option q.default keeps.right named.right
      have settled : (typeParameter q).settle p =
          .typeParameter { constraint := constraint', default := default' } := by
        rw [settle, settleWhile]
        rw [TypeExpr.bind_pass runConstraint, TypeExpr.bind_pass runDefault]
        rfl
      rw [settled]
      exact .typeParameter sameConstraint sameDefault

/-- A body without merges to make comes back to be written as before. -/
theorem written_read (resolves : Resolves p q) {self : Id} {header : WireHeader} (b : Body)
    (merged : Throughout TypeExpr.IsMerged b.nodes) (members : HasMembers known b.categories)
    (agrees : Agrees tree tree' ((b.positions self).map Position.id)) :
    ((b.written p tree header).body known b.role).written q tree' header =
      b.written p tree header := by
  rw [map_id_positions] at agrees
  cases b with
  | declaration d =>
      have kept : readCategories known (Category.listToWire d.categories) = d.categories :=
        members.readCategories_eq
      have types := agrees.right.left
      have lineage := agrees.right.right.left
      have lists := agrees.right.right.right
      simp only [written, WireReflection.body, role, readLineage, agrees.left.map_idsOf,
        TypeExpr.written_readType? resolves d.type merged.left types,
        Reference.written_read resolves _ merged.right.left lineage.left,
        Reference.written_read resolves _ merged.right.right.left lineage.right.left,
        Reference.written_read resolves _ merged.right.right.right lineage.right.right,
        lists.left.map_idsOf, lists.right.left.map_idOf?, lists.right.right.left.map_idOf?,
        lists.right.right.right.left.map_idOf?, lists.right.right.right.right.map_idsOf,
        kept]
  | signature s =>
      have types := agrees.right.right.left
      have lineage := agrees.right.right.right
      simp only [written, WireReflection.body, role, readLineage, agrees.left.map_idsOf,
        agrees.right.left.map_idsOf,
        TypeExpr.written_readType? resolves s.type merged.left types,
        Reference.written_read resolves _ merged.right.left lineage.left,
        Reference.written_read resolves _ merged.right.right.left lineage.right.left,
        Reference.written_read resolves _ merged.right.right.right lineage.right.right]
  | parameter q =>
      simp only [written, WireReflection.body, role,
        TypeExpr.written_readType? resolves q.type merged agrees]
  | typeParameter q =>
      simp only [written, WireReflection.body, role,
        TypeExpr.written_readType? resolves q.constraint merged.left agrees.left,
        TypeExpr.written_readType? resolves q.default merged.right agrees.right]

end Body

end ApiGraph
