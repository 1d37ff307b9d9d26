import ApiGraph.Proofs.Parts

/-!
# ApiGraph.Proofs.Nesting

A reflection brings its own parts along. Wherever a reflection is among the parts of a document, so is
everything that it owns there, in the role and below the owner that its place in the reflection gives
it.

* `Includes` — parts that include those of each reflection among them.
* `WireType.includes`, `WireReflection.includes` — the parts of every document do.
* `WireReflection.includes_rootParts` — so do the parts of a whole document.
-/

namespace ApiGraph

/-- Parts that include the parts of each reflection among them. -/
def Includes (parts : List Part) : Prop :=
  ∀ q, .object q ∈ parts → q.object.parts q.role q.owner ⊆ parts

namespace Includes

variable {parts parts' : List Part}

theorem nil : Includes [] := fun _ mem => absurd mem List.not_mem_nil

theorem append (h : Includes parts) (h' : Includes parts') : Includes (parts ++ parts') := by
  intro q mem
  rcases List.mem_append.1 mem with mem | mem
  · exact List.subset_append_of_subset_left parts' (h q mem)
  · exact List.subset_append_of_subset_right parts (h' q mem)

/-- A part that is no reflection may stand in front. -/
theorem skip {part : Part} (h : Includes parts) (none : part.object? = none) :
    Includes (part :: parts) := by
  intro q mem
  rcases List.mem_cons.1 mem with rfl | mem
  · cases none
  · exact List.subset_cons_of_subset part (h q mem)

/-- A reflection may stand after what it owns. -/
theorem object {q : Placement} (h : Includes parts)
    (own : q.object.parts q.role q.owner = parts ++ [.object q]) :
    Includes (parts ++ [.object q]) := by
  intro q' mem
  rcases List.mem_append.1 mem with mem | mem
  · exact List.subset_append_of_subset_left [.object q] (h q' mem)
  · obtain rfl := Part.object.inj (List.mem_singleton.1 mem)
    exact own ▸ List.Subset.refl _

end Includes

mutual
/-- The parts of a type include those of the reflections in it. -/
theorem WireType.includes : ∀ t : WireType, Includes t.parts
  | .array elementType => elementType.includes.skip rfl
  | .conditional checkType extendsType trueType falseType =>
      .skip (checkType.includes.append (extendsType.includes.append
        (trueType.includes.append falseType.includes))) rfl
  | .indexedAccess indexType objectType => .skip (objectType.includes.append indexType.includes) rfl
  | .intersection types => (includes_types types).skip rfl
  | .mapped _ parameterType templateType _ _ nameType =>
      .skip (parameterType.includes.append
        (templateType.includes.append (includes_type? nameType))) rfl
  | .optional elementType => elementType.includes.skip rfl
  | .predicate _ _ targetType => (includes_type? targetType).skip rfl
  | .query queryType => (queryType.includes.skip rfl).skip rfl
  | .reference _ typeArguments _ _ _ => (includes_types? typeArguments).skip rfl
  | .reflection declaration => (declaration.includes .declaration none).skip rfl
  | .rest elementType => elementType.includes.skip rfl
  | .templateLiteral _ tail => (includes_spans tail).skip rfl
  | .tuple elements => (includes_types? elements).skip rfl
  | .namedTupleMember _ _ element => element.includes.skip rfl
  | .typeOperator target _ => target.includes.skip rfl
  | .union types => (includes_types types).skip rfl
  | .inferred _ | .intrinsic _ | .literal _ | .unknown _ => Includes.nil.skip rfl

theorem includes_types : ∀ ts, Includes (partsOfTypes ts)
  | [] => .nil
  | t :: ts => t.includes.append (includes_types ts)

theorem includes_types? : ∀ ts, Includes (partsOfTypes? ts)
  | none => .nil
  | some ts => includes_types ts

theorem includes_type? : ∀ t, Includes (partsOfType? t)
  | none => .nil
  | some t => t.includes

theorem includes_link? : ∀ t, Includes (partsOfLink? t)
  | none => .nil
  | some t => t.includes.skip rfl

theorem includes_spans : ∀ spans, Includes (partsOfSpans spans)
  | [] => .nil
  | (t, _) :: spans => t.includes.append (includes_spans spans)

/-- The parts of a reflection include those of the reflections that it owns. -/
theorem WireReflection.includes (role : Role) (owner : Option Id) :
    ∀ r : WireReflection, Includes (r.parts role owner)
  | .mk header children signatures indexSignature getSignature setSignature typeParameters
      parameters type default _ overwrites inheritedFrom implementationOf _ _ => by
      refine .object ?_ rfl
      cases role with
      | declaration =>
          refine (includes_reflections? _ _ typeParameters).append ?_
          refine (includes_type? type).append ?_
          refine (includes_link? overwrites).append ?_
          refine (includes_link? inheritedFrom).append ?_
          refine (includes_link? implementationOf).append ?_
          refine (includes_reflections? _ _ signatures).append ?_
          refine (includes_reflection? _ _ indexSignature).append ?_
          refine (includes_reflection? _ _ getSignature).append ?_
          refine (includes_reflection? _ _ setSignature).append ?_
          exact includes_reflections? _ _ children
      | signature =>
          refine (includes_reflections? _ _ typeParameters).append ?_
          refine (includes_reflections? _ _ parameters).append ?_
          refine (includes_type? type).append ?_
          refine (includes_link? overwrites).append ?_
          refine (includes_link? inheritedFrom).append ?_
          exact includes_link? implementationOf
      | parameter => exact includes_type? type
      | typeParameter => exact (includes_type? type).append (includes_type? default)

theorem includes_reflections (role : Role) (owner : Option Id) :
    ∀ rs, Includes (partsOfReflections role owner rs)
  | [] => .nil
  | r :: rs => (r.includes role owner).append (includes_reflections role owner rs)

theorem includes_reflections? (role : Role) (owner : Option Id) :
    ∀ rs, Includes (partsOfReflections? role owner rs)
  | none => .nil
  | some rs => includes_reflections role owner rs

theorem includes_reflection? (role : Role) (owner : Option Id) :
    ∀ r, Includes (partsOfReflection? role owner r)
  | none => .nil
  | some r => r.includes role owner
end

/-- A reflection is among its own parts. -/
theorem WireReflection.object_mem_parts (role : Role) (owner : Option Id) (r : WireReflection) :
    .object ⟨role, owner, r⟩ ∈ r.parts role owner := by
  cases r
  exact List.mem_append_right _ List.mem_cons_self

/-- The parts of a reflection are among those of a list that has it. -/
theorem parts_subset_partsOfReflections {role : Role} {owner : Option Id} {r : WireReflection} :
    ∀ {rs : List WireReflection}, r ∈ rs → r.parts role owner ⊆ partsOfReflections role owner rs
  | r' :: rs, mem => by
      rcases List.mem_cons.1 mem with rfl | mem
      · exact List.subset_append_left _ _
      · exact List.subset_append_of_subset_right _ (parts_subset_partsOfReflections mem)

/-- The parts of a whole document include those of each reflection among them. -/
theorem WireReflection.includes_rootParts (root : WireReflection) : Includes root.rootParts :=
  includes_reflections? .declaration none root.rootReflections

end ApiGraph
