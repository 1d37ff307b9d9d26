import ApiGraph.Proofs.Bodies
import ApiGraph.Proofs.Registered

/-!
# ApiGraph.Proofs.Merged

Unions in documents. Reading merges one `true` with one `false`, so a union that lists two or more of
each still has both when it is read. Where no union does, everything that is read is merged.

* `Part.HasFewBools` — no union of two or more `true` and two or more `false`.
* `exists_notMem_mergeBools` — merging is enough then.
* `Merges` — nodes that are merged if parts have few boolean literals, put together like the parts.
* `WireReflection.merges` — what the parts of a document mean is merged.
-/

namespace ApiGraph

/-- The literal type of a boolean value, in a document. -/
def WireType.isBool (value : Bool) : WireType → Bool
  | .literal l => l == .bool value
  | _ => false

/-- A part that is no union of two or more `true` and two or more `false`. -/
def Part.HasFewBools : Part → Prop
  | .type (.union types) =>
    ¬(2 ≤ types.countP (WireType.isBool true) ∧ 2 ≤ types.countP (WireType.isBool false))
  | _ => True

instance (part : Part) : Decidable part.HasFewBools :=
  match part with
  | .type (.union _) => inferInstanceAs (Decidable ¬(_ ∧ _))
  | .type (.array _) | .type (.conditional ..) | .type (.indexedAccess ..) | .type (.inferred _)
  | .type (.intersection _) | .type (.intrinsic _) | .type (.literal _) | .type (.mapped ..)
  | .type (.optional _) | .type (.predicate ..) | .type (.query _) | .type (.reference ..)
  | .type (.reflection _) | .type (.rest _) | .type (.templateLiteral ..) | .type (.tuple _)
  | .type (.namedTupleMember ..) | .type (.typeOperator ..) | .type (.unknown _) | .link _ | .object _ =>
    isTrue trivial

theorem isBool_read (value : Bool) (t : WireType) : t.read.isBool value = t.isBool value := by
  cases t with
  | literal l =>
      cases l <;> simp [WireType.read, WireLiteral.read, TypeExpr.isBool, WireType.isBool]
  | _ => rfl

theorem countP_readTypes (value : Bool) (ts : List WireType) :
    (readTypes ts).countP (TypeExpr.isBool value) = ts.countP (WireType.isBool value) := by
  induction ts with
  | nil => rfl
  | cons t ts ih => rw [readTypes, List.countP_cons, List.countP_cons, ih, isBool_read]

namespace TypeExpr

/-- Merging leaves `true` and `false` in a union only if there were two or more of each. -/
theorem exists_notMem_mergeBools {members : List TypeExpr}
    (few : ¬(2 ≤ members.countP (isBool true) ∧ 2 ≤ members.countP (isBool false))) :
    ∃ value, bool value ∉ mergeBools members := by
  by_contra none
  have inside : ∀ value, bool value ∈ mergeBools^[1] members :=
    fun value => Classical.not_not.1 fun missing => none ⟨value, missing⟩
  have many := mem_iterate_mergeBools_iff.1 inside
  exact few ⟨many true, many false⟩

theorem walkList_append (as bs : List TypeExpr) :
    walkList (as ++ bs) = walkList as ++ walkList bs := by
  induction as with
  | nil => rfl
  | cons t ts ih => rw [List.cons_append, walkList, walkList, ih, List.append_assoc]

end TypeExpr

/-- If parts are valid and have few boolean literals in their unions, some nodes are merged, and so
is everything that the reflections among the parts carry. -/
def Merges (nodes : List TypeExpr) (parts : List Part) : Prop :=
  (∀ part ∈ parts, part.IsValid ∧ part.HasFewBools) → Throughout TypeExpr.IsMerged nodes ∧
    ∀ q ∈ placements parts, ∀ known,
      Throughout TypeExpr.IsMerged (q.object.body known q.role).nodes

namespace Merges

variable {nodes nodes' : List TypeExpr} {parts parts' : List Part}

theorem nil : Merges [] [] := fun _ => ⟨by simp [Throughout], by simp⟩

theorem append (h : Merges nodes parts) (h' : Merges nodes' parts') :
    Merges (nodes ++ nodes') (parts ++ parts') := by
  intro few
  obtain ⟨here, objects⟩ := h fun part mem => few part (List.mem_append_left _ mem)
  obtain ⟨there, objects'⟩ := h' fun part mem => few part (List.mem_append_right _ mem)
  refine ⟨fun t mem => (List.mem_append.1 mem).elim (here t) (there t), fun q mem => ?_⟩
  rw [placements_append, List.mem_append] at mem
  exact mem.elim (objects q) (objects' q)

/-- Which nodes come first does not matter. -/
theorem of_subset (h : Merges nodes parts) (sub : nodes' ⊆ nodes) : Merges nodes' parts :=
  fun few => ⟨fun t mem => (h few).1 t (sub mem), (h few).2⟩

/-- Merging the literals of a union adds no node that could be merged. -/
theorem of_mergeBools {members : List TypeExpr} (h : Merges (TypeExpr.walkList members) parts) :
    Merges (TypeExpr.walkList (TypeExpr.mergeBools members)) parts := by
  rcases TypeExpr.mergeBools_cases members with ⟨value, missing⟩ | ⟨value, a, b, c, before, after⟩
  · rwa [TypeExpr.mergeBools_eq_self value missing]
  · intro few
    obtain ⟨nodes, objects⟩ := h few
    refine ⟨fun t mem => ?_, objects⟩
    rw [after] at mem
    rw [before] at nodes
    simp only [TypeExpr.walkList_append, TypeExpr.walkList, TypeExpr.walk, List.mem_append,
      List.mem_singleton] at mem
    simp only [TypeExpr.walkList_append, TypeExpr.walkList, Throughout, List.mem_append] at nodes
    rcases mem with mem | rfl | mem | mem
    · exact nodes t (.inl mem)
    · trivial
    · exact nodes t (.inr (.inr (.inl mem)))
    · exact nodes t (.inr (.inr (.inr (.inr mem))))

/-- A node in front, with the part that it is read from. -/
theorem node {t : TypeExpr} {part : Part} (h : Merges nodes parts) (none : part.object? = none)
    (merged : part.HasFewBools → t.IsMerged) : Merges (t :: nodes) (part :: parts) := by
  intro few
  obtain ⟨here, objects⟩ := h fun part mem => few part (List.mem_cons_of_mem _ mem)
  have same : placements (part :: parts) = placements parts := List.filterMap_cons_none none
  rw [same]
  refine ⟨fun x mem => ?_, objects⟩
  rcases List.mem_cons.1 mem with rfl | mem
  · exact merged (few part List.mem_cons_self).2
  · exact here x mem

/-- A part that adds no node. -/
theorem skip {part : Part} (h : Merges nodes parts) (none : part.object? = none) :
    Merges nodes (part :: parts) := by
  intro few
  have same : placements (part :: parts) = placements parts := List.filterMap_cons_none none
  rw [same]
  exact h fun part mem => few part (List.mem_cons_of_mem _ mem)

theorem of_invalid {part : Part} (h : ¬part.IsValid) : Merges nodes (part :: parts) :=
  fun few => absurd (few part List.mem_cons_self).1 h

/-- A reflection after the parts of what it holds. -/
theorem object {q : Placement}
    (h : ∀ known, Merges (q.object.body known q.role).nodes parts) :
    Merges [] (parts ++ [.object q]) := by
  intro few
  have before : ∀ part ∈ parts, part.IsValid ∧ part.HasFewBools := fun part mem =>
    few part (List.mem_append_left _ mem)
  refine ⟨by simp [Throughout], fun x mem known => ?_⟩
  rw [placements_append, List.mem_append] at mem
  rcases mem with mem | mem
  · exact (h known before).2 x mem known
  · obtain rfl : x = q := by simpa using mem
    exact (h known before).1

end Merges

open TypeExpr

mutual
/-- What a type means is merged. -/
theorem WireType.merges : ∀ t : WireType, Merges t.read.walk t.parts
  | .array elementType => by
      simp only [WireType.read, walk, WireType.parts]
      exact elementType.merges.node rfl fun _ => trivial
  | .conditional checkType extendsType trueType falseType => by
      simp only [WireType.read, walk, WireType.parts, List.append_assoc]
      refine .node ?_ rfl fun _ => trivial
      exact checkType.merges.append (extendsType.merges.append
        (trueType.merges.append falseType.merges))
  | .indexedAccess indexType objectType => by
      simp only [WireType.read, walk, WireType.parts]
      refine .node ?_ rfl fun _ => trivial
      -- the index is walked first and read last
      exact (objectType.merges.append indexType.merges).of_subset List.perm_append_comm.subset
  | .inferred _ => Merges.nil.node rfl fun _ => trivial
  | .intersection types => by
      simp only [WireType.read, walk, WireType.parts]
      exact (merges_types types).node rfl fun _ => trivial
  | .intrinsic _ => Merges.nil.node rfl fun _ => trivial
  | .literal _ => Merges.nil.node rfl fun _ => trivial
  | .mapped _ parameterType templateType _ _ nameType => by
      simp only [WireType.read, walk, WireType.parts, List.append_assoc]
      refine .node ?_ rfl fun _ => trivial
      -- the name type is walked first and read last
      have inOrder :=
        parameterType.merges.append (templateType.merges.append (merges_type? nameType))
      refine inOrder.of_subset ?_
      rw [← List.append_assoc (walk parameterType.read)]
      exact List.perm_append_comm.subset
  | .optional elementType => by
      simp only [WireType.read, walk, WireType.parts]
      exact elementType.merges.node rfl fun _ => trivial
  | .predicate _ _ targetType => by
      simp only [WireType.read, walk, WireType.parts]
      exact (merges_type? targetType).node rfl fun _ => trivial
  | .query queryType => by
      simp only [WireType.read, Reference.toQuery, walk, WireType.parts]
      exact queryType.merges_link.node rfl fun _ => trivial
  | .reference _ typeArguments _ _ _ => by
      simp only [WireType.read, walk, WireType.parts]
      exact (merges_types? typeArguments).node rfl fun _ => trivial
  | .reflection declaration => by
      simp only [WireType.read, walk, WireType.parts]
      exact (declaration.merges .declaration none).node rfl fun _ => trivial
  | .rest elementType => by
      simp only [WireType.read, walk, WireType.parts]
      exact elementType.merges.node rfl fun _ => trivial
  | .templateLiteral _ tail => by
      simp only [WireType.read, walk, WireType.parts]
      exact (merges_spans tail).node rfl fun _ => trivial
  | .tuple elements => by
      simp only [WireType.read, walk, WireType.parts]
      exact (merges_types? elements).node rfl fun _ => trivial
  | .namedTupleMember _ _ element => by
      simp only [WireType.read, walk, WireType.parts]
      exact element.merges.node rfl fun _ => trivial
  | .typeOperator target _ => by
      simp only [WireType.read, walk, WireType.parts]
      exact target.merges.node rfl fun _ => trivial
  | .union types => by
      simp only [WireType.read, unionOf, walk, WireType.parts]
      refine .node ((merges_types types).of_mergeBools) rfl fun few => ?_
      refine exists_notMem_mergeBools ?_
      rw [countP_readTypes, countP_readTypes]
      exact few
  | .unknown _ => Merges.nil.node rfl fun _ => trivial

/-- What a reference means is merged. -/
theorem WireType.merges_link :
    ∀ t : WireType, Merges t.readReference.toType.walk (.link t :: t.parts)
  | .reference _ typeArguments _ _ _ => by
      simp only [WireType.readReference, Reference.toType, walk, WireType.parts]
      refine .skip ?_ rfl
      exact (merges_types? typeArguments).node rfl fun _ => trivial
  | .array _ | .conditional .. | .indexedAccess .. | .inferred _ | .intersection _ | .intrinsic _
  | .literal _ | .mapped .. | .optional _ | .predicate .. | .query _ | .reflection _ | .rest _
  | .templateLiteral .. | .tuple _ | .namedTupleMember .. | .typeOperator .. | .union _
  | .unknown _ => .of_invalid (by simp [Part.IsValid, WireType.form])

theorem merges_types : ∀ ts, Merges (walkList (readTypes ts)) (partsOfTypes ts)
  | [] => .nil
  | t :: ts => by
      simp only [readTypes, walkList, partsOfTypes]
      exact t.merges.append (merges_types ts)

theorem merges_types? : ∀ ts, Merges (walkList (readTypes? ts)) (partsOfTypes? ts)
  | none => .nil
  | some ts => merges_types ts

theorem merges_type? : ∀ t, Merges (walkOption (readType? t)) (partsOfType? t)
  | none => .nil
  | some t => t.merges

theorem merges_link? : ∀ t, Merges (Reference.nodesOption (readReference? t)) (partsOfLink? t)
  | none => .nil
  | some t => t.merges_link

theorem merges_spans : ∀ spans, Merges (walkSpans (readSpans spans)) (partsOfSpans spans)
  | [] => .nil
  | (t, _) :: spans => by
      simp only [readSpans, walkSpans, partsOfSpans]
      exact t.merges.append (merges_spans spans)

/-- What a reflection of a document carries is merged, and so is what it holds. -/
theorem WireReflection.merges (role : Role) (owner : Option Id) :
    ∀ r : WireReflection, Merges [] (r.parts role owner)
  | .mk header children signatures indexSignature getSignature setSignature typeParameters
      parameters type default defaultValue overwrites inheritedFrom implementationOf categories
      hasOwnDocument => by
      simp only [WireReflection.parts]
      refine .object fun known => ?_
      have types := merges_type? type
      have defaults := merges_type? default
      have lineage := (merges_link? overwrites).append
        ((merges_link? inheritedFrom).append (merges_link? implementationOf))
      cases role with
      | declaration =>
          have before := merges_reflections? .typeParameter (some header.id) typeParameters
          have after := (merges_reflections? .signature (some header.id) signatures).append
            ((merges_reflection? .signature (some header.id) indexSignature).append
            ((merges_reflection? .signature (some header.id) getSignature).append
            ((merges_reflection? .signature (some header.id) setSignature).append
            (merges_reflections? .declaration (some header.id) children))))
          have whole := before.append (types.append (lineage.append after))
          simp only [List.append_assoc, List.append_nil, List.nil_append] at whole
          exact whole
      | signature =>
          have before := (merges_reflections? .typeParameter (some header.id) typeParameters).append
            (merges_reflections? .parameter (some header.id) parameters)
          have whole := before.append (types.append lineage)
          simp only [List.append_assoc, List.nil_append] at whole
          exact whole
      | parameter => exact types
      | typeParameter => exact types.append defaults

theorem merges_reflections (role : Role) (owner : Option Id) :
    ∀ rs, Merges [] (partsOfReflections role owner rs)
  | [] => .nil
  | r :: rs => (r.merges role owner).append (merges_reflections role owner rs)

theorem merges_reflections? (role : Role) (owner : Option Id) :
    ∀ rs, Merges [] (partsOfReflections? role owner rs)
  | none => .nil
  | some rs => merges_reflections role owner rs

theorem merges_reflection? (role : Role) (owner : Option Id) :
    ∀ r, Merges [] (partsOfReflection? role owner r)
  | none => .nil
  | some r => r.merges role owner
end

end ApiGraph
