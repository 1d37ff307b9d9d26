import ApiGraph.Proofs.Numbers
import ApiGraph.Proofs.Registered
import ApiGraph.Proofs.Written

/-!
# ApiGraph.Proofs.WrittenParts

The parts of a written project. What a type or a body writes by itself is valid and registers nothing;
between that stand the documents of the reflections that it holds, in the order of its places. So a
written project is a document whose reflections are the post-order of the project.

* `Weaves` — parts that stand around the documents at some places.
* `TypeExpr.weaves`, `Body.weaves` — what a type and a body write.
* `PostOrder.rootPlacements_eq` — the reflections of a written project.
* `PostOrder.isProject_rootDocument_iff`, `IsOrder.isProject_rootDocument` — when it is a project.
-/

namespace ApiGraph

/-- The parts of the document at a place. -/
def Position.piece (tree : Id → WireReflection) (q : Position) : List Part :=
  (tree q.id).parts q.role q.owner

/-- Parts that stand around the documents at some places, valid by themselves. -/
structure Weaves (tree : Id → WireReflection) (qs : List Position) (parts : List Part) : Prop where
  order : placements parts = qs.flatMap fun q => placements (q.piece tree)
  valid : ∀ part ∈ parts, part.IsValid ∨ ∃ q ∈ qs, part ∈ q.piece tree

variable {p : Project} {tree : Id → WireReflection} {qs qs' : List Position}
  {parts parts' : List Part}

namespace Weaves

theorem nil : Weaves tree [] [] := ⟨rfl, by simp⟩

theorem append (h : Weaves tree qs parts) (h' : Weaves tree qs' parts') :
    Weaves tree (qs ++ qs') (parts ++ parts') where
  order := by rw [placements_append, List.flatMap_append, h.order, h'.order]
  valid part mem := by
    rcases List.mem_append.1 mem with mem | mem
    · exact (h.valid part mem).imp_right fun ⟨q, hq, inside⟩ => ⟨q, List.mem_append_left _ hq, inside⟩
    · exact (h'.valid part mem).imp_right fun ⟨q, hq, inside⟩ =>
        ⟨q, List.mem_append_right _ hq, inside⟩

/-- A valid part that registers nothing may stand in front. -/
theorem skip {part : Part} (h : Weaves tree qs parts) (none : part.object? = none)
    (valid : part.IsValid) : Weaves tree qs (part :: parts) where
  order := (List.filterMap_cons_none none).trans h.order
  valid x mem := by
    rcases List.mem_cons.1 mem with rfl | mem
    · exact .inl valid
    · exact h.valid x mem

/-- The document at a place. -/
theorem piece (q : Position) : Weaves tree [q] (q.piece tree) where
  order := by rw [List.flatMap_cons, List.flatMap_nil, List.append_nil]
  valid _ mem := .inr ⟨q, List.mem_cons_self, mem⟩

end Weaves

theorem partsOfTypes?_nonEmpty? (ts : List WireType) :
    partsOfTypes? (nonEmpty? ts) = partsOfTypes ts := by
  cases ts <;> rfl

theorem partsOfReflections?_nonEmpty? (role : Role) (owner : Option Id) (rs : List WireReflection) :
    partsOfReflections? role owner (nonEmpty? rs) = partsOfReflections role owner rs := by
  cases rs <;> rfl

namespace TypeExpr

mutual
/-- A written type stands around the declarations that it embeds. -/
theorem weaves : ∀ t : TypeExpr,
    Weaves tree (t.anonymous.map .free) (t.written p tree).parts
  | .array element => by
      simp only [written, anonymous, WireType.parts]
      exact (weaves element).skip rfl trivial
  | .conditional check bound whenTrue whenFalse => by
      simp only [written, anonymous, WireType.parts, List.map_append]
      refine .skip ?_ rfl trivial
      exact (weaves check).append ((weaves bound).append
        ((weaves whenTrue).append (weaves whenFalse)))
  | .indexedAccess object index => by
      simp only [written, anonymous, WireType.parts, List.map_append]
      exact ((weaves object).append (weaves index)).skip rfl trivial
  | .inferred _ => Weaves.nil.skip rfl trivial
  | .intersection members => by
      simp only [written, anonymous, WireType.parts]
      exact (weaves_list members).skip rfl trivial
  | .intrinsic _ => Weaves.nil.skip rfl trivial
  | .literal value => Weaves.nil.skip rfl value.isValid_toWire
  | .mapped _ parameterType template _ _ nameType => by
      simp only [written, anonymous, WireType.parts, List.map_append]
      refine .skip ?_ rfl trivial
      exact (weaves parameterType).append ((weaves template).append (weaves_option nameType))
  | .optional element => by
      simp only [written, anonymous, WireType.parts]
      exact (weaves element).skip rfl trivial
  | .predicate _ _ target => by
      simp only [written, anonymous, WireType.parts]
      exact (weaves_option target).skip rfl trivial
  | .query link arguments => by
      simp only [written, Link.toWire, anonymous, WireType.parts, partsOfTypes?_nonEmpty?]
      refine .skip (.skip ?_ rfl rfl) rfl trivial
      exact (weaves_list arguments).skip rfl trivial
  | .reference link arguments => by
      simp only [written, Link.toWire, anonymous, WireType.parts, partsOfTypes?_nonEmpty?]
      exact (weaves_list arguments).skip rfl trivial
  | .reflection id => by
      simp only [written, anonymous, WireType.parts]
      exact (Weaves.piece (.free id)).skip rfl trivial
  | .rest element => by
      simp only [written, anonymous, WireType.parts]
      exact (weaves element).skip rfl trivial
  | .templateLiteral _ tail => by
      simp only [written, anonymous, WireType.parts]
      exact (weaves_spans tail).skip rfl trivial
  | .tuple elements => by
      simp only [written, anonymous, WireType.parts, partsOfTypes?_nonEmpty?]
      exact (weaves_list elements).skip rfl trivial
  | .namedTupleMember _ _ element => by
      simp only [written, anonymous, WireType.parts]
      exact (weaves element).skip rfl trivial
  | .typeOperator _ target => by
      simp only [written, anonymous, WireType.parts]
      exact (weaves target).skip rfl trivial
  | .union members => by
      simp only [written, anonymous, WireType.parts]
      exact (weaves_list members).skip rfl trivial
  | .unknown _ => Weaves.nil.skip rfl trivial

theorem weaves_list : ∀ ts : List TypeExpr,
    Weaves tree ((anonymousList ts).map .free) (partsOfTypes (writtenList p tree ts))
  | [] => .nil
  | t :: ts => by
      simp only [writtenList, anonymousList, partsOfTypes, List.map_append]
      exact (weaves t).append (weaves_list ts)

theorem weaves_option : ∀ t : Option TypeExpr,
    Weaves tree ((anonymousOption t).map .free) (partsOfType? (writtenOption p tree t))
  | none => .nil
  | some t => weaves t

theorem weaves_spans : ∀ spans : List (TypeExpr × String),
    Weaves tree ((anonymousSpans spans).map .free) (partsOfSpans (writtenSpans p tree spans))
  | [] => .nil
  | (t, _) :: spans => by
      simp only [writtenSpans, anonymousSpans, partsOfSpans, List.map_append]
      exact (weaves t).append (weaves_spans spans)
end

end TypeExpr

theorem Reference.weaves_option (r : Option Reference) :
    Weaves tree ((Reference.anonymousOption r).map .free)
      (partsOfLink? (Reference.writtenOption p tree r)) := by
  cases r with
  | none => exact .nil
  | some r =>
      simp only [Reference.writtenOption, Link.toWire, Reference.anonymousOption, partsOfLink?,
        WireType.parts, partsOfTypes?_nonEmpty?]
      refine .skip ?_ rfl rfl
      exact (TypeExpr.weaves_list r.arguments).skip rfl trivial

theorem weaves_reflections (role : Role) (owner : Option Id) (ids : List Id) :
    Weaves tree (ids.map (Position.mk role owner))
      (partsOfReflections? role owner (nonEmpty? (ids.map tree))) := by
  rw [partsOfReflections?_nonEmpty?]
  induction ids with
  | nil => exact .nil
  | cons id ids ih => exact (Weaves.piece ⟨role, owner, id⟩).append ih

theorem weaves_reflection (role : Role) (owner : Option Id) (slot : Option Id) :
    Weaves tree (slot.toList.map (Position.mk role owner))
      (partsOfReflection? role owner (slot.map tree)) := by
  cases slot with
  | none => exact .nil
  | some id => exact .piece ⟨role, owner, id⟩

/-- A written body stands around what it holds, and before itself. -/
theorem Body.weaves (p : Project) (tree : Id → WireReflection) (header : WireHeader)
    (owner : Option Id) (b : Body) :
    ∃ parts, Weaves tree (b.positions header.id) parts ∧
      (b.written p tree header).parts b.role owner =
        parts ++ [.object ⟨b.role, owner, b.written p tree header⟩] := by
  cases b with
  | declaration d =>
      refine ⟨_, ?_, rfl⟩
      simp only [Body.positions, Lineage.anonymous, List.map_append, List.append_assoc, Body.role]
      refine (weaves_reflections _ _ d.typeParameters).append ?_
      refine (TypeExpr.weaves_option d.type).append ?_
      refine (Reference.weaves_option d.lineage.overwrites).append ?_
      refine (Reference.weaves_option d.lineage.inheritedFrom).append ?_
      refine (Reference.weaves_option d.lineage.implementationOf).append ?_
      refine (weaves_reflections _ _ d.signatures).append ?_
      refine (weaves_reflection _ _ d.indexSignature).append ?_
      refine (weaves_reflection _ _ d.getSignature).append ?_
      refine (weaves_reflection _ _ d.setSignature).append ?_
      exact weaves_reflections _ _ d.children
  | signature s =>
      refine ⟨_, ?_, rfl⟩
      simp only [Body.positions, Lineage.anonymous, List.map_append, Body.role]
      refine (weaves_reflections _ _ s.typeParameters).append ?_
      refine (weaves_reflections _ _ s.parameters).append ?_
      refine (TypeExpr.weaves_option s.type).append ?_
      refine (Reference.weaves_option s.lineage.overwrites).append ?_
      refine (Reference.weaves_option s.lineage.inheritedFrom).append ?_
      exact Reference.weaves_option s.lineage.implementationOf
  | parameter q => exact ⟨_, TypeExpr.weaves_option q.type, rfl⟩
  | typeParameter q =>
      exact ⟨_, (TypeExpr.weaves_option q.constraint).append (TypeExpr.weaves_option q.default), rfl⟩

/-! ### Whole projects -/

namespace Project

variable {config : Config} {l : List Position}

/-- The document of a reflection at its place. -/
def placement (p : Project) (config : Config) (q : Position) : Placement :=
  { role := q.role, owner := q.owner, object := p.document config q.id }

namespace HasDocument

variable {q : Position} {r : Reflection}

/-- The document of a reflection at its place: what it holds, and then itself. -/
theorem exists_piece (h : p.HasDocument config q.id) (found : p.get? q.id = some r)
    (placed : r.position q.id = q) :
    ∃ parts, Weaves (p.document config) (r.body.positions q.id) parts ∧
      q.piece (p.document config) = parts ++ [.object (p.placement config q)] := by
  have role : r.body.role = q.role := congrArg Position.role placed
  obtain ⟨parts, weaves, split⟩ := Body.weaves p (p.document config)
    (headerToWire config q.id r.name r.kind r.flags) q.owner r.body
  refine ⟨parts, weaves, ?_⟩
  rw [Position.piece, placement, h.document_eq found, ← role]
  exact split

theorem id_placement (h : p.HasDocument config q.id) : (p.placement config q).id = q.id :=
  h.id_document

/-- The document of an admissible reflection is a valid part. -/
theorem isValid_placement (h : p.HasDocument config q.id) (admissible : r.IsAdmissible q.id)
    (found : p.get? q.id = some r) (placed : r.position q.id = q) :
    (p.placement config q).IsValid := by
  have role : r.body.role = q.role := congrArg Position.role placed
  have header : (p.placement config q).object.header =
      headerToWire config q.id r.name r.kind r.flags :=
    h.header_document found
  obtain ⟨positive, bounded, fits⟩ := admissible
  rw [role] at fits
  refine ⟨⟨r.kind, ?_, fits⟩, h.id_placement ▸ positive, h.id_placement ▸ bounded⟩
  rw [header]
  exact Kind.ofBits?_eq_some_iff.2 rfl

end HasDocument

namespace PostOrder

/-- The documents at some places have the reflections of their post-order, and valid parts. -/
theorem pieces {qs below : List Position} (order : p.PostOrder qs below)
    (written : ∀ q ∈ below, p.HasDocument config q.id) (admissible : p.IsAdmissible) :
    placements (qs.flatMap (Position.piece (p.document config))) = below.map (p.placement config) ∧
      ∀ part ∈ qs.flatMap (Position.piece (p.document config)), part.IsValid := by
  induction order with
  | nil => exact ⟨rfl, by simp⟩
  | @cons q r below qs rest found placed _ _ ihFirst ihLater =>
      have here : p.HasDocument config q.id :=
        written q (List.mem_append_right _ List.mem_cons_self)
      have first := ihFirst fun x mem => written x (List.mem_append_left _ mem)
      have later := ihLater fun x mem =>
        written x (List.mem_append_right _ (List.mem_cons_of_mem _ mem))
      obtain ⟨parts, weaves, split⟩ := here.exists_piece found placed
      have inside : placements parts = below.map (p.placement config) := by
        rw [weaves.order, ← first.1]
        exact (List.filterMap_flatMap ..).symm
      rw [List.flatMap_cons, split]
      refine ⟨?_, fun part mem => ?_⟩
      · simp [inside, later.1]
      · rcases List.mem_append.1 mem with mem | mem
        · rcases List.mem_append.1 mem with mem | mem
          · rcases weaves.valid part mem with valid | ⟨x, held, there⟩
            · exact valid
            · exact first.2 part (List.mem_flatMap.2 ⟨x, held, there⟩)
          · rw [List.mem_singleton.1 mem]
            exact here.isValid_placement (admissible q.id r found) found placed
        · exact later.2 part mem

theorem map_id_placement (written : ∀ q ∈ l, p.HasDocument config q.id) :
    (l.map (p.placement config)).map Placement.id = l.map Position.id := by
  rw [List.map_map]
  exact List.map_congr_left fun q mem => (written q mem).id_placement

end PostOrder

theorem rootParts_eq (p : Project) (config : Config) : (p.rootDocument config).rootParts =
    (p.children.map .free).flatMap (Position.piece (p.document config)) := by
  rw [rootDocument, WireReflection.rootParts, WireReflection.rootReflections,
    partsOfReflections?_nonEmpty?]
  induction p.children with
  | nil => rfl
  | cons id ids ih =>
      rw [List.map_cons, List.map_cons, List.flatMap_cons, partsOfReflections, ih]
      rfl

namespace PostOrder

variable (order : p.PostOrder (p.children.map .free) l)
  (written : ∀ q ∈ l, p.HasDocument config q.id) (admissible : p.IsAdmissible)
include order written admissible

/-- The reflections of a written project are its post-order. -/
theorem rootPlacements_eq :
    (p.rootDocument config).rootPlacements = l.map (p.placement config) := by
  rw [WireReflection.rootPlacements, rootParts_eq]
  exact (order.pieces written admissible).1

/-- **What is written is a project exactly if its post-order repeats nothing.** -/
theorem isProject_rootDocument_iff :
    (p.rootDocument config).IsProject ↔ (l.map Position.id).Nodup := by
  have same := order.rootPlacements_eq written admissible
  constructor
  · intro isProject
    have distinct := isProject.distinct
    rwa [same, map_id_placement written] at distinct
  · intro distinct
    refine ⟨rfl, ?_, ?_⟩
    · rw [rootParts_eq]
      exact (order.pieces written admissible).2
    · rwa [same, map_id_placement written]

end PostOrder

namespace IsOrder

variable (h : p.IsOrder l) (admissible : p.IsAdmissible) (config : Config)
include h

theorem written : ∀ q ∈ l, p.HasDocument config q.id :=
  h.postOrder.hasDocument h.distinct

include admissible

theorem rootPlacements_eq :
    (p.rootDocument config).rootPlacements = l.map (p.placement config) :=
  h.postOrder.rootPlacements_eq (h.written config) admissible

/-- **A written project is a project.** -/
theorem isProject_rootDocument : (p.rootDocument config).IsProject :=
  (h.postOrder.isProject_rootDocument_iff (h.written config) admissible).2 h.distinct

end IsOrder

end Project

end ApiGraph
