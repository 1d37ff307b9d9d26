import Mathlib.Data.List.Nodup
import ApiGraph.TypeExpr.Walk

/-!
# ApiGraph.Proofs.Tour

A walk over a type as a **tour** of its nodes. Equal types may stand in several places of a type, so a
node is told by its address, the numbers of the children on the way to it.

* `children`, `at?` — the types right below a type, and the node at an address.
* `visited`, `order` — the order in which a walk goes to the children.
* `visit_eq`, `walk_eq` — one step of a walk: the hook of the node, then one child after the other.
* `children_induction` — a fact about all types, from the types below to the type.
* `IsTour`, `exists_isTour` — every node once, each before those below it, without a gap.
-/

namespace ApiGraph.TypeExpr

/-! ### The types below a type -/

/-- The types right below a type, in the order in which the fields that hold them are declared. Below a
query stands its reference; below a reflection type stands nothing. -/
def children : TypeExpr → List TypeExpr
  | .array element => [element]
  | .conditional check bound whenTrue whenFalse => [check, bound, whenTrue, whenFalse]
  | .indexedAccess object index => [object, index]
  | .intersection members => members
  | .mapped _ parameterType template _ _ nameType => parameterType :: template :: nameType.toList
  | .optional element => [element]
  | .predicate _ _ target => target.toList
  | .query link arguments => [.reference link arguments]
  | .reference _ arguments => arguments
  | .rest element => [element]
  | .templateLiteral _ tail => tail.map Prod.fst
  | .tuple elements => elements
  | .namedTupleMember _ _ element => [element]
  | .typeOperator _ target => [target]
  | .union members => members
  | .inferred _ | .intrinsic _ | .literal _ | .reflection _ | .unknown _ => []

/-- The children in the order in which a walk goes to them: the index of an indexed access before its
object, the name type of a mapped type before everything else, and the rest as declared. -/
def visited : TypeExpr → List TypeExpr
  | .indexedAccess object index => [index, object]
  | .mapped _ parameterType template _ _ (some nameType) => [nameType, parameterType, template]
  | t => t.children

/-- The numbers of the children in the order in which a walk goes to them. -/
def order : TypeExpr → List Nat
  | .indexedAccess _ _ => [1, 0]
  | .mapped _ _ _ _ _ (some _) => [2, 0, 1]
  | t => List.range t.children.length

private theorem filterMap_range (ts : List TypeExpr) :
    (List.range ts.length).filterMap (ts[·]?) = ts := by
  induction ts with
  | nil => rfl
  | cons t ts ih =>
      rw [List.length_cons, List.range_succ_eq_map, List.filterMap_cons, List.filterMap_map]
      exact congrArg (t :: ·) ih

theorem visited_eq (t : TypeExpr) : t.visited = t.order.filterMap (t.children[·]?) := by
  cases t with
  | indexedAccess object index => rfl
  | mapped parameter parameterType template readonlyModifier optionalModifier nameType =>
      cases nameType <;> rfl
  | _ => exact (filterMap_range _).symm

/-- A walk goes to each child once. -/
theorem order_perm (t : TypeExpr) : t.order.Perm (List.range t.children.length) := by
  cases t with
  | indexedAccess object index => exact .swap 0 1 []
  | mapped parameter parameterType template readonlyModifier optionalModifier nameType =>
      cases nameType with
      | none => exact .refl _
      | some name => exact (List.Perm.swap 0 2 [1]).trans (.cons 0 (.swap 1 2 []))
  | _ => exact .refl _

theorem mem_order {t : TypeExpr} {i : Nat} : i ∈ t.order ↔ i < t.children.length := by
  rw [t.order_perm.mem_iff, List.mem_range]

theorem nodup_order (t : TypeExpr) : t.order.Nodup :=
  t.order_perm.nodup_iff.2 List.nodup_range

theorem visited_perm (t : TypeExpr) : t.visited.Perm t.children := by
  rw [visited_eq]
  exact (t.order_perm.filterMap _).trans (.of_eq (filterMap_range t.children))

/-! ### One step of a walk -/

section

variable {σ : Type} (hooks : Hooks σ)

theorem visitList_eq (ts : List TypeExpr) (s : σ) :
    visitList hooks ts s = ts.foldl (fun s t => visit hooks t s) s := by
  induction ts generalizing s with
  | nil => rfl
  | cons t ts ih => exact ih _

theorem visitSpans_eq (spans : List (TypeExpr × String)) (s : σ) :
    visitSpans hooks spans s = (spans.map Prod.fst).foldl (fun s t => visit hooks t s) s := by
  induction spans generalizing s with
  | nil => rfl
  | cons span spans ih => exact ih _

/-- **One step of a walk**: the hook of the node's own form, and then the children one after the other. -/
theorem visit_eq (t : TypeExpr) (s : σ) :
    visit hooks t s = t.visited.foldl (fun s child => visit hooks child s) (hooks t.form t s) := by
  cases t with
  | intersection members | tuple members | union members | reference link members =>
      exact visitList_eq hooks members _
  | templateLiteral head tail => exact visitSpans_eq hooks tail _
  | mapped parameter parameterType template readonlyModifier optionalModifier nameType =>
      cases nameType <;> rfl
  | predicate name asserts target => cases target <;> rfl
  | _ => rfl

end

theorem walkList_eq (ts : List TypeExpr) : walkList ts = ts.flatMap walk := by
  induction ts with
  | nil => rfl
  | cons t ts ih => exact congrArg (walk t ++ ·) ih

theorem walkSpans_eq (spans : List (TypeExpr × String)) :
    walkSpans spans = (spans.map Prod.fst).flatMap walk := by
  induction spans with
  | nil => rfl
  | cons span spans ih => exact congrArg (walk span.1 ++ ·) ih

/-- The list of a walk: the node, and then the lists of the children one after the other. -/
theorem walk_eq (t : TypeExpr) : walk t = t :: t.visited.flatMap walk := by
  cases t with
  | intersection members | tuple members | union members | reference link members =>
      exact congrArg (_ :: ·) (walkList_eq members)
  | templateLiteral head tail => exact congrArg (_ :: ·) (walkSpans_eq tail)
  | mapped parameter parameterType template readonlyModifier optionalModifier nameType =>
      cases nameType <;> simp [walk, walkOption, visited, children]
  | predicate name asserts target => cases target <;> simp [walk, walkOption, visited, children]
  | _ => simp [walk, visited, children]

/-! ### A whole walk -/

/-- Below a child stand fewer nodes than below its parent. -/
theorem length_walk_lt {t child : TypeExpr} (mem : child ∈ t.children) :
    (walk child).length < (walk t).length := by
  obtain ⟨before, after, split⟩ := List.append_of_mem (t.visited_perm.mem_iff.2 mem)
  rw [walk_eq t, split, List.flatMap_append, List.flatMap_cons]
  simp only [List.length_cons, List.length_append]
  omega

/-- A fact about all types, from the types below to the type. -/
theorem children_induction {motive : TypeExpr → Prop}
    (step : ∀ t, (∀ child ∈ t.children, motive child) → motive t) (t : TypeExpr) : motive t :=
  step t fun child _ => children_induction step child
termination_by (walk t).length
decreasing_by exact length_walk_lt ‹_›

/-- **A walk calls the hooks of its nodes one after the other**, for each the hook of its form. -/
theorem visit_eq_foldl {σ : Type} (hooks : Hooks σ) (t : TypeExpr) (s : σ) :
    visit hooks t s = (walk t).foldl (fun s node => hooks node.form node s) s := by
  induction t using children_induction generalizing s with
  | step t ih =>
      rw [visit_eq, walk_eq, List.foldl_cons, List.foldl_flatMap]
      refine List.foldl_ext _ _ _ fun s child mem => ?_
      exact ih child (t.visited_perm.mem_iff.1 mem) s

/-! ### Addresses -/

/-- Where a node stands in a type: on each level from the top, the number of the child to go to. -/
abbrev Address := List Nat

/-- The node at an address. -/
def at? : TypeExpr → Address → Option TypeExpr
  | t, [] => some t
  | t, i :: below => t.children[i]?.bind (at? · below)

theorem at?_append (t : TypeExpr) (above below : Address) :
    t.at? (above ++ below) = (t.at? above).bind (at? · below) := by
  induction above generalizing t with
  | nil => rfl
  | cons i above ih =>
      rw [List.cons_append, at?, at?]
      cases t.children[i]? with
      | none => rfl
      | some child => exact ih child

/-- **A tour of the nodes of a type**: the addresses in the order in which a walk calls a hook there. -/
structure IsTour (t : TypeExpr) (places : List Address) : Prop where
  /-- No node is called twice. -/
  nodup : places.Nodup
  /-- Every node of the type is called, and nothing else. -/
  mem_iff (place : Address) : place ∈ places ↔ (t.at? place).isSome
  /-- At each address the hook of the node's form is called with the node. -/
  calls {σ : Type} (hooks : Hooks σ) (s : σ) : t.visit hooks s =
    (places.filterMap t.at?).foldl (fun s node => hooks node.form node s) s
  /-- A node is called before those below it. -/
  above_first {above below : Address} : below ∈ places → above <+: below → above ≠ below →
    [above, below].Sublist places
  /-- Between a node and the last one below it, nothing else is called. -/
  contiguous {place : Address} : place ∈ places → ∃ before subtree after,
    places = before ++ subtree ++ after ∧ ∀ below, below ∈ subtree ↔ below ∈ places ∧ place <+: below
  /-- Nothing is called for what a reflection type names. -/
  reflection {place : Address} {id : Id} : t.at? place = some (.reflection id) →
    ∀ below ∈ places, place <+: below → below = place

/-! ### Tours from the tours of the children -/

section

variable {t : TypeExpr} {tours : Nat → List Address} {i : Nat} {above below place : Address}

/-- The tour of a child, seen from its parent. -/
def seenFrom (tours : Nat → List Address) (i : Nat) : List Address :=
  (tours i).map (i :: ·)

/-- The node first, and then the tours of its children in the order in which a walk goes to them. -/
def joinTours (t : TypeExpr) (tours : Nat → List Address) : List Address :=
  [] :: t.order.flatMap (seenFrom tours)

theorem cons_mem_seenFrom {j : Nat} : j :: below ∈ seenFrom tours i ↔ i = j ∧ below ∈ tours i := by
  simp [seenFrom, and_comm]

theorem cons_mem_joinTours : i :: below ∈ t.joinTours tours ↔ i ∈ t.order ∧ below ∈ tours i := by
  simp [joinTours, cons_mem_seenFrom]

theorem sublist_joinTours (mem : i ∈ t.order) : (seenFrom tours i).Sublist (t.joinTours tours) :=
  .cons _ (List.sublist_flatten_of_mem (List.mem_map_of_mem mem))

variable (inner : ∀ i (child : TypeExpr), t.children[i]? = some child → child.IsTour (tours i))

include inner

theorem isTour_of_mem (mem : i ∈ t.order) : ∃ child, t.children[i]? = some child ∧
    child.IsTour (tours i) :=
  have known := List.getElem?_eq_getElem (mem_order.1 mem)
  ⟨_, known, inner i _ known⟩

theorem nodup_joinTours : (t.joinTours tours).Nodup := by
  refine List.nodup_cons.2 ⟨by simp [seenFrom], List.nodup_flatMap.2 ⟨fun i mem => ?_, ?_⟩⟩
  · obtain ⟨child, -, tour⟩ := isTour_of_mem inner mem
    exact tour.nodup.map List.cons_injective
  · -- the tours of two children differ in the first number
    refine t.nodup_order.imp fun {i j} differ place first second => differ ?_
    obtain ⟨below, -, rfl⟩ := List.mem_map.1 first
    exact (cons_mem_seenFrom.1 second).1.symm

theorem mem_joinTours_iff : place ∈ t.joinTours tours ↔ (t.at? place).isSome := by
  cases place with
  | nil => simp [joinTours, at?]
  | cons i below =>
      rw [cons_mem_joinTours, mem_order, at?]
      cases known : t.children[i]? with
      | none =>
          refine iff_of_false (fun inside => ?_) (by simp)
          exact absurd inside.1 (Nat.not_lt.2 (List.getElem?_eq_none_iff.1 known))
      | some child =>
          rw [(inner i child known).mem_iff, Option.bind_some, and_iff_right]
          exact (List.getElem?_eq_some_iff.1 known).1

theorem calls_joinTours {σ : Type} (hooks : Hooks σ) (s : σ) : t.visit hooks s =
    ((t.joinTours tours).filterMap t.at?).foldl (fun s node => hooks node.form node s) s := by
  have root : t.at? [] = some t := rfl
  rw [visit_eq, joinTours, List.filterMap_cons_some root, List.foldl_cons, List.filterMap_flatMap,
    List.foldl_flatMap, visited_eq, List.foldl_filterMap]
  refine List.foldl_ext _ _ _ fun s i mem => ?_
  obtain ⟨child, known, tour⟩ := isTour_of_mem inner mem
  have seen : (seenFrom tours i).filterMap t.at? = (tours i).filterMap child.at? := by
    rw [seenFrom, List.filterMap_map]
    refine List.filterMap_congr fun below _ => ?_
    rw [Function.comp_apply, at?, known, Option.bind_some]
  rw [known, seen]
  exact tour.calls hooks s

theorem above_first_joinTours (mem : below ∈ t.joinTours tours) (le : above <+: below)
    (differ : above ≠ below) : [above, below].Sublist (t.joinTours tours) := by
  cases above with
  | nil =>
      refine .cons_cons _ (List.singleton_sublist.2 ?_)
      exact (List.mem_cons.1 mem).resolve_left differ.symm
  | cons i above =>
      obtain ⟨below, rfl⟩ := le
      obtain ⟨here, mem⟩ := cons_mem_joinTours.1 mem
      obtain ⟨child, -, tour⟩ := isTour_of_mem inner here
      have inside := tour.above_first mem (List.prefix_append above below) fun same =>
        differ (congrArg (i :: ·) same)
      exact (inside.map (i :: ·)).trans (sublist_joinTours here)

theorem contiguous_joinTours (mem : place ∈ t.joinTours tours) : ∃ before subtree after,
    t.joinTours tours = before ++ subtree ++ after ∧
      ∀ below, below ∈ subtree ↔ below ∈ t.joinTours tours ∧ place <+: below := by
  cases place with
  | nil => exact ⟨[], t.joinTours tours, [], by simp, fun below => by simp⟩
  | cons i place =>
      obtain ⟨here, mem⟩ := cons_mem_joinTours.1 mem
      obtain ⟨child, -, tour⟩ := isTour_of_mem inner here
      obtain ⟨before, subtree, after, split, mem_iff⟩ := tour.contiguous mem
      obtain ⟨earlier, later, order⟩ := List.append_of_mem here
      refine ⟨[] :: earlier.flatMap (seenFrom tours) ++ before.map (i :: ·), subtree.map (i :: ·),
        after.map (i :: ·) ++ later.flatMap (seenFrom tours), ?_, fun below => ?_⟩
      · rw [joinTours, order, List.flatMap_append, List.flatMap_cons, seenFrom, split]
        simp only [List.map_append, List.append_assoc, List.cons_append]
      · cases below with
        | nil => simp
        | cons j below =>
            rw [cons_mem_joinTours, List.cons_prefix_cons]
            simp only [List.mem_map, List.cons.injEq, mem_iff]
            constructor
            · rintro ⟨_, ⟨inside, le⟩, rfl, rfl⟩
              exact ⟨⟨here, inside⟩, rfl, le⟩
            · rintro ⟨⟨-, inside⟩, rfl, le⟩
              exact ⟨below, ⟨inside, le⟩, rfl, rfl⟩

omit inner in
/-- Below a reflection type there is no address. -/
theorem eq_of_at?_reflection {id : Id} (named : t.at? place = some (.reflection id))
    (some : (t.at? below).isSome) (le : place <+: below) : below = place := by
  obtain ⟨rest, rfl⟩ := le
  rw [at?_append, named] at some
  cases rest with
  | nil => exact List.append_nil place
  | cons i rest => simp [at?, children] at some

/-- The tours of the children make up a tour of the whole. -/
theorem isTour_joinTours : t.IsTour (t.joinTours tours) where
  nodup := nodup_joinTours inner
  mem_iff _ := mem_joinTours_iff inner
  calls := calls_joinTours inner
  above_first := above_first_joinTours inner
  contiguous := contiguous_joinTours inner
  reflection named _ mem := eq_of_at?_reflection named ((mem_joinTours_iff inner).1 mem)

end

/-- **A walk is a tour.** It calls the hook of every node of a type exactly once, the node before those
below it and a subtree without a gap, and nothing for the declaration that a reflection type names. -/
theorem exists_isTour (t : TypeExpr) : ∃ places, t.IsTour places := by
  induction t using children_induction with
  | step t ih =>
      have each (i : Nat) : ∃ places, ∀ child, t.children[i]? = some child → child.IsTour places := by
        cases known : t.children[i]? with
        | none => exact ⟨[], fun child absent => nomatch absent⟩
        | some child =>
            obtain ⟨places, tour⟩ := ih child (List.mem_of_getElem? known)
            exact ⟨places, fun _ same => Option.some.inj same ▸ tour⟩
      obtain ⟨tours, inner⟩ := Classical.skolem.1 each
      exact ⟨t.joinTours tours, isTour_joinTours inner⟩

end ApiGraph.TypeExpr
