import ApiGraph.Proofs.PostOrder
import ApiGraph.Proofs.Registered
import ApiGraph.Proofs.Unions

/-!
# ApiGraph.Proofs.Decoded

A decoded project is a forest. The reflections of a document stand in it after everything that they
own, so the order in which a document is read is the post-order of the project that it means.

* `Project.Orders` — parts that are in the post-order of places, put together like the parts.
* `WireType.orders`, `WireReflection.orders` — every document orders what it holds.
* `WireReflection.isOrder_project` — the reading order of a decoded project is all of it.
-/

namespace ApiGraph

namespace Project

variable {p : Project} {qs qs' : List Position} {parts parts' : List Part}

/-- A part that is valid, and registered in `p` if it is a reflection. -/
structure Reflects (p : Project) (part : Part) : Prop where
  valid : part.IsValid
  registered : ∀ q, part = .object q → ∃ known, p.get? q.id = some (q.reflection known)

/-- The reflections among parts that `p` reflects are in the post-order of some places. -/
def Orders (p : Project) (qs : List Position) (parts : List Part) : Prop :=
  (∀ part ∈ parts, p.Reflects part) → p.PostOrder qs ((placements parts).map Placement.position)

namespace Orders

theorem nil : p.Orders [] [] := fun _ => .nil

theorem append (h : p.Orders qs parts) (h' : p.Orders qs' parts') :
    p.Orders (qs ++ qs') (parts ++ parts') := by
  intro reflects
  rw [placements_append, List.map_append]
  exact (h fun part mem => reflects part (List.mem_append_left _ mem)).append
    (h' fun part mem => reflects part (List.mem_append_right _ mem))

/-- A part that registers nothing may stand in front. -/
theorem skip {part : Part} (h : p.Orders qs parts) (none : part.object? = none) :
    p.Orders qs (part :: parts) := by
  intro reflects
  have same : placements (part :: parts) = placements parts := List.filterMap_cons_none none
  rw [same]
  exact h fun part mem => reflects part (List.mem_cons_of_mem _ mem)

theorem of_invalid {part : Part} (h : ¬part.IsValid) : p.Orders qs (part :: parts) :=
  fun reflects => absurd (reflects part List.mem_cons_self).valid h

/-- A reflection stands after everything that it holds. -/
theorem object {q : Placement} (h : p.Orders q.positions parts) :
    p.Orders [q.position] (parts ++ [.object q]) := by
  intro reflects
  obtain ⟨known, found⟩ := (reflects (.object q) (by simp)).registered q rfl
  have below := h fun part mem => reflects part (List.mem_append_left _ mem)
  rw [← Placement.positions_reflection known] at below
  rw [placements_append, List.map_append]
  exact .single found (Placement.position_reflection known q) below

end Orders

end Project

open TypeExpr
open Project (Orders)

variable {p : Project}

mutual
/-- A type orders the declarations that it embeds. -/
theorem WireType.orders : ∀ t : WireType, p.Orders (t.read.anonymous.map .free) t.parts
  | .array elementType => by
      simp only [WireType.read, anonymous, WireType.parts]
      exact elementType.orders.skip rfl
  | .conditional checkType extendsType trueType falseType => by
      simp only [WireType.read, anonymous, WireType.parts, List.map_append]
      refine .skip ?_ rfl
      exact checkType.orders.append (extendsType.orders.append
        (trueType.orders.append falseType.orders))
  | .indexedAccess indexType objectType => by
      simp only [WireType.read, anonymous, WireType.parts, List.map_append]
      exact (objectType.orders.append indexType.orders).skip rfl
  | .inferred _ => Orders.nil.skip rfl
  | .intersection types => by
      simp only [WireType.read, anonymous, WireType.parts]
      exact (orders_types types).skip rfl
  | .intrinsic _ => Orders.nil.skip rfl
  | .literal _ => Orders.nil.skip rfl
  | .mapped _ parameterType templateType _ _ nameType => by
      simp only [WireType.read, anonymous, WireType.parts, List.map_append]
      refine .skip ?_ rfl
      exact parameterType.orders.append (templateType.orders.append (orders_type? nameType))
  | .optional elementType => by
      simp only [WireType.read, anonymous, WireType.parts]
      exact elementType.orders.skip rfl
  | .predicate _ _ targetType => by
      simp only [WireType.read, anonymous, WireType.parts]
      exact (orders_type? targetType).skip rfl
  | .query queryType => by
      simp only [WireType.read, Reference.toQuery, anonymous, WireType.parts]
      exact queryType.orders_link.skip rfl
  | .reference _ typeArguments _ _ _ => by
      simp only [WireType.read, anonymous, WireType.parts]
      exact (orders_types? typeArguments).skip rfl
  | .reflection declaration => by
      simp only [WireType.read, anonymous, WireType.parts]
      exact (declaration.orders .declaration none).skip rfl
  | .rest elementType => by
      simp only [WireType.read, anonymous, WireType.parts]
      exact elementType.orders.skip rfl
  | .templateLiteral _ tail => by
      simp only [WireType.read, anonymous, WireType.parts]
      exact (orders_spans tail).skip rfl
  | .tuple elements => by
      simp only [WireType.read, anonymous, WireType.parts]
      exact (orders_types? elements).skip rfl
  | .namedTupleMember _ _ element => by
      simp only [WireType.read, anonymous, WireType.parts]
      exact element.orders.skip rfl
  | .typeOperator target _ => by
      simp only [WireType.read, anonymous, WireType.parts]
      exact target.orders.skip rfl
  | .union types => by
      simp only [WireType.read, unionOf, anonymous, anonymousList_mergeBools, WireType.parts]
      exact (orders_types types).skip rfl
  | .unknown _ => Orders.nil.skip rfl

/-- A reference orders the declarations in its type arguments. -/
theorem WireType.orders_link :
    ∀ t : WireType, p.Orders ((anonymousList t.readReference.arguments).map .free)
      (.link t :: t.parts)
  | .reference _ typeArguments _ _ _ => by
      simp only [WireType.readReference, WireType.parts]
      exact ((orders_types? typeArguments).skip rfl).skip rfl
  | .array _ | .conditional .. | .indexedAccess .. | .inferred _ | .intersection _ | .intrinsic _
  | .literal _ | .mapped .. | .optional _ | .predicate .. | .query _ | .reflection _ | .rest _
  | .templateLiteral .. | .tuple _ | .namedTupleMember .. | .typeOperator .. | .union _
  | .unknown _ => .of_invalid (by simp [Part.IsValid, WireType.form])

theorem orders_types : ∀ ts, p.Orders ((anonymousList (readTypes ts)).map .free) (partsOfTypes ts)
  | [] => .nil
  | t :: ts => by
      simp only [readTypes, anonymousList, partsOfTypes, List.map_append]
      exact t.orders.append (orders_types ts)

theorem orders_types? : ∀ ts, p.Orders ((anonymousList (readTypes? ts)).map .free) (partsOfTypes? ts)
  | none => .nil
  | some ts => orders_types ts

theorem orders_type? : ∀ t, p.Orders ((anonymousOption (readType? t)).map .free) (partsOfType? t)
  | none => .nil
  | some t => t.orders

theorem orders_link? :
    ∀ t, p.Orders ((Reference.anonymousOption (readReference? t)).map .free) (partsOfLink? t)
  | none => .nil
  | some t => t.orders_link

theorem orders_spans :
    ∀ spans, p.Orders ((anonymousSpans (readSpans spans)).map .free) (partsOfSpans spans)
  | [] => .nil
  | (t, _) :: spans => by
      simp only [readSpans, anonymousSpans, partsOfSpans, List.map_append]
      exact t.orders.append (orders_spans spans)

/-- A reflection orders what it holds before itself. -/
theorem WireReflection.orders (role : Role) (owner : Option Id) :
    ∀ r : WireReflection, p.Orders [⟨role, owner, r.header.id⟩] (r.parts role owner)
  | .mk header children signatures indexSignature getSignature setSignature typeParameters
      parameters type default defaultValue overwrites inheritedFrom implementationOf categories
      hasOwnDocument => by
      simp only [WireReflection.parts]
      refine .object ?_
      cases role with
      | declaration =>
          simp only [Placement.positions, WireReflection.body, Body.positions, Lineage.anonymous,
            readLineage, List.map_append, List.append_assoc]
          refine (orders_reflections? _ _ typeParameters).append ?_
          refine (orders_type? type).append ?_
          refine (orders_link? overwrites).append ?_
          refine (orders_link? inheritedFrom).append ?_
          refine (orders_link? implementationOf).append ?_
          refine (orders_reflections? _ _ signatures).append ?_
          refine (orders_reflection? _ _ indexSignature).append ?_
          refine (orders_reflection? _ _ getSignature).append ?_
          refine (orders_reflection? _ _ setSignature).append ?_
          exact orders_reflections? _ _ children
      | signature =>
          simp only [Placement.positions, WireReflection.body, Body.positions, Lineage.anonymous,
            readLineage, List.map_append]
          refine (orders_reflections? _ _ typeParameters).append ?_
          refine (orders_reflections? _ _ parameters).append ?_
          refine (orders_type? type).append ?_
          refine (orders_link? overwrites).append ?_
          refine (orders_link? inheritedFrom).append ?_
          exact orders_link? implementationOf
      | parameter => exact orders_type? type
      | typeParameter => exact (orders_type? type).append (orders_type? default)

theorem orders_reflections (role : Role) (owner : Option Id) :
    ∀ rs : List WireReflection, p.Orders (rs.map fun r => ⟨role, owner, r.header.id⟩)
      (partsOfReflections role owner rs)
  | [] => .nil
  | r :: rs => (r.orders role owner).append (orders_reflections role owner rs)

theorem orders_reflections? (role : Role) (owner : Option Id) :
    ∀ rs, p.Orders ((idsOf rs).map (Position.mk role owner)) (partsOfReflections? role owner rs)
  | none => .nil
  | some rs => by
      rw [idsOf, List.map_map]
      exact orders_reflections role owner rs

theorem orders_reflection? (role : Role) (owner : Option Id) :
    ∀ r, p.Orders ((idOf? r).toList.map (Position.mk role owner)) (partsOfReflection? role owner r)
  | none => .nil
  | some r => r.orders role owner
end

/-! ### Whole projects -/

namespace WireReflection

variable {root : WireReflection}

/-- The reading order of a document is the post-order of the project that it means. -/
theorem isOrder_project (h : root.IsProject) :
    root.project.IsOrder (root.rootPlacements.map Placement.position) where
  postOrder := by
    refine orders_reflections? .declaration none root.rootReflections fun part mem => ?_
    refine ⟨h.valid part mem, ?_⟩
    rintro q rfl
    obtain ⟨pre, post, split⟩ := List.append_of_mem (mem_placements.2 mem)
    exact ⟨_, get?_project h split⟩
  distinct := by
    rw [List.map_map]
    exact h.distinct
  covers id known := by
    rw [List.map_map]
    exact contains_project.1 known

/-- **What a document means is a forest.** -/
theorem isForest_project (h : root.IsProject) : root.project.IsForest :=
  (isOrder_project h).isForest

end WireReflection

end ApiGraph
