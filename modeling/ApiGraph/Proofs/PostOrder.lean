import Mathlib.Data.Fintype.EquivFin
import Mathlib.Data.List.Pairwise
import Mathlib.Order.WellFounded
import ApiGraph.Proofs.Ownership

/-!
# ApiGraph.Proofs.PostOrder

The **post-order** of a project: every place after the places that its reflection holds. It is the
order in which a document registers its reflections.

* `Project.PostOrder` — the post-order of what some places hold, as a derivation.
* `PostOrder.perm` — everything in it is asked for at the start or held by something in it.
* `Project.Reaches`, `PostOrder.mem_iff_reaches` — the post-order of the top level has what the top
  level holds, directly or through others.
* `Project.HoldsOnce`, `PostOrder.nodup_iff_holdsOnce` — it repeats nothing if no id is held twice.
* `Project.IsOrder` — the post-order of the top level is all of the project, once.
* `isForest_iff_exists_isOrder` — the projects that have one are those where ownership is a forest.
-/

namespace ApiGraph.Project

variable {p : Project} {qs qs' l l' : List Position}

/-! ### Post-orders -/

/-- The post-order of places: for each in turn what its reflection holds, then the place itself. -/
inductive PostOrder (p : Project) : List Position → List Position → Prop
  | nil : PostOrder p [] []
  | cons {q : Position} {r : Reflection} {below qs rest : List Position}
      (found : p.get? q.id = some r) (placed : r.position q.id = q)
      (first : PostOrder p (r.body.positions q.id) below) (later : PostOrder p qs rest) :
      PostOrder p (q :: qs) (below ++ q :: rest)

namespace PostOrder

theorem append (h : p.PostOrder qs l) (h' : p.PostOrder qs' l') :
    p.PostOrder (qs ++ qs') (l ++ l') := by
  induction h with
  | nil => exact h'
  | cons found placed first _ _ later =>
      rw [List.append_assoc]
      exact .cons found placed first later

theorem single {q : Position} {r : Reflection} (found : p.get? q.id = some r)
    (placed : r.position q.id = q) (h : p.PostOrder (r.body.positions q.id) l) :
    p.PostOrder [q] (l ++ [q]) :=
  .cons found placed h .nil

/-- Places that each have a post-order have one together. -/
theorem exists_of_forall (h : ∀ q ∈ qs, ∃ l, p.PostOrder [q] l) : ∃ l, p.PostOrder qs l := by
  induction qs with
  | nil => exact ⟨[], .nil⟩
  | cons q qs ih =>
      obtain ⟨l, here⟩ := h q List.mem_cons_self
      obtain ⟨l', rest⟩ := ih fun x hx => h x (List.mem_cons_of_mem _ hx)
      exact ⟨l ++ l', here.append rest⟩

/-- A post-order consists of registered reflections at their places. -/
theorem placed (h : p.PostOrder qs l) :
    ∀ q ∈ l, ∃ r, p.get? q.id = some r ∧ r.position q.id = q := by
  induction h with
  | nil => simp
  | cons found placed _ _ below rest =>
      intro x hx
      rcases List.mem_append.1 hx with hx | hx
      · exact below x hx
      · rcases List.mem_cons.1 hx with rfl | hx
        · exact ⟨_, found, placed⟩
        · exact rest x hx

/-- A post-order has the places asked for and what its members hold. -/
theorem perm (h : p.PostOrder qs l) : l.Perm (qs ++ l.flatMap fun q => p.held q.id) := by
  induction h with
  | nil => exact .refl _
  | cons found _ _ _ below rest =>
      refine List.perm_iff_count.2 fun x => ?_
      have inBelow := below.count_eq x
      have inRest := rest.count_eq x
      rw [← held_eq found] at inBelow
      simp only [List.count_append, List.count_cons, List.flatMap_append, List.flatMap_cons]
        at inBelow inRest ⊢
      omega

/-- Nothing in a post-order is on a cycle: whoever holds something comes after it. -/
theorem acc (h : p.PostOrder qs l) : ∀ q ∈ l, Acc (fun id owner => p.Owns owner id) q.id := by
  induction h with
  | nil => simp
  | cons found _ first _ below rest =>
      intro x hx
      rcases List.mem_append.1 hx with hx | hx
      · exact below x hx
      · rcases List.mem_cons.1 hx with rfl | hx
        · -- whatever this place holds is below it, where the claim is known already
          refine .intro _ fun id owned => ?_
          unfold Owns at owned
          rw [held_eq found] at owned
          obtain ⟨y, hy, rfl⟩ := List.mem_map.1 owned
          exact below y (first.perm.mem_iff.2 (List.mem_append_left _ hy))
        · exact rest x hx

/-- What a reflection holds stands before it. -/
theorem mem_before {q : Position} {pre post : List Position} {id : Id} (h : p.PostOrder qs l)
    (split : l = pre ++ q :: post) (owned : p.Owns q.id id) : id ∈ pre.map Position.id := by
  induction h generalizing pre post with
  | nil => simp at split
  | @cons x r below qs rest found _ first _ ih ihLater =>
      have here {y : Id} (owned : p.Owns x.id y) : y ∈ below.map Position.id := by
        rw [Owns, held_eq found] at owned
        obtain ⟨z, held, rfl⟩ := List.mem_map.1 owned
        exact List.mem_map_of_mem (first.perm.mem_iff.2 (List.mem_append_left _ held))
      -- the place stands among what `x` holds, is `x` itself, or comes later
      rcases List.append_eq_append_iff.1 split with ⟨mid, rfl, tail⟩ | ⟨mid, rfl, tail⟩
      · rw [List.map_append]
        cases mid with
        | nil =>
            obtain ⟨rfl, -⟩ := List.cons.inj tail
            exact List.mem_append_left _ (here owned)
        | cons y mid =>
            obtain ⟨-, later⟩ := List.cons.inj tail
            exact List.mem_append_right _ (List.mem_cons_of_mem _ (ihLater later))
      · cases mid with
        | nil =>
            obtain ⟨rfl, -⟩ := List.cons.inj tail
            rw [List.append_nil] at here
            exact here owned
        | cons y mid =>
            obtain ⟨rfl, -⟩ := List.cons.inj tail
            exact ih rfl

/-- So does what it owns through others. -/
theorem mem_before_of_transGen {q : Position} {pre post : List Position} {id : Id}
    (h : p.PostOrder qs l) (split : l = pre ++ q :: post) (path : Relation.TransGen p.Owns q.id id) :
    id ∈ pre.map Position.id := by
  induction path with
  | single owned => exact h.mem_before split owned
  | tail _ owned ih =>
      obtain ⟨x, mem, rfl⟩ := List.mem_map.1 ih
      obtain ⟨a, b, rfl⟩ := List.append_of_mem mem
      have earlier := h.mem_before (split.trans (List.append_assoc ..)) owned
      rw [List.map_append]
      exact List.mem_append_left _ earlier

/-- There is only one post-order. -/
theorem unique (h : p.PostOrder qs l) (h' : p.PostOrder qs l') : l = l' := by
  induction h generalizing l' with
  | nil => cases h'; rfl
  | cons found _ _ _ below rest =>
      cases h' with
      | cons found' _ first' later' =>
          obtain rfl := Option.some.inj (found.symm.trans found')
          rw [below first', rest later']

end PostOrder

/-- A post-order of the top level that is all of the project, once. -/
structure IsOrder (p : Project) (l : List Position) : Prop where
  postOrder : p.PostOrder (p.children.map .free) l
  distinct : (l.map Position.id).Nodup
  covers : ∀ id, p.contains id = true → id ∈ l.map Position.id

/-! ### From a post-order to a forest -/

theorem positions_eq (p : Project) :
    p.positions = p.children.map .free ++ p.registry.ids.flatMap p.held := by
  unfold positions Registry.ids
  rw [List.flatMap_map]
  congr 1
  refine List.flatMap_congr fun e he => ?_
  exact (held_eq (Registry.mem_entries_iff.1 he)).symm

private theorem not_self_of_acc {R : Id → Id → Prop} {id : Id} (h : Acc R id) : ¬R id id := by
  induction h with
  | intro id _ ih => exact fun self => ih id self self

namespace IsOrder

theorem contains_iff (h : p.IsOrder l) {id : Id} :
    p.contains id = true ↔ id ∈ l.map Position.id := by
  refine ⟨h.covers id, fun mem => ?_⟩
  obtain ⟨q, hq, rfl⟩ := List.mem_map.1 mem
  obtain ⟨r, found, -⟩ := h.postOrder.placed q hq
  exact Registry.contains_iff.2 ⟨r, found⟩

/-- The top level is in the order. -/
theorem free_mem (h : p.IsOrder l) {id : Id} (child : id ∈ p.children) : Position.free id ∈ l :=
  h.postOrder.perm.mem_iff.2 (List.mem_append_left _ (List.mem_map_of_mem child))

theorem perm_ids (h : p.IsOrder l) : (l.map Position.id).Perm p.registry.ids := by
  refine (List.perm_ext_iff_of_nodup h.distinct p.registry.nodup_ids).2 fun id => ?_
  rw [Registry.mem_ids_iff]
  exact h.contains_iff.symm

/-- The places of the project are those of the order. -/
theorem perm_positions (h : p.IsOrder l) : p.positions.Perm l := by
  have all : (l.flatMap fun q => p.held q.id).Perm (p.registry.ids.flatMap p.held) := by
    have both := h.perm_ids.flatMap_right p.held
    rwa [List.flatMap_map] at both
  rw [positions_eq]
  exact (all.symm.append_left _).trans h.postOrder.perm.symm

theorem isForest (h : p.IsOrder l) : p.IsForest where
  once := (h.perm_positions.map Position.id).nodup_iff.2 h.distinct
  covers id known := (h.perm_positions.map Position.id).mem_iff.2 (h.covers id known)
  placed q mem := h.postOrder.placed q (h.perm_positions.mem_iff.1 mem)
  acyclic id cycle := by
    obtain ⟨next, owned, -⟩ := Relation.TransGen.head'_iff.1 cycle
    obtain ⟨q, hq, rfl⟩ := List.mem_map.1 (h.covers id owned.contains)
    exact not_self_of_acc (h.postOrder.acc q hq).transGen (Relation.transGen_swap.2 cycle)

end IsOrder

/-! ### What the top level reaches -/

/-- The top level holds an id, directly or through others. -/
def Reaches (p : Project) (id : Id) : Prop :=
  ∃ top ∈ p.children, Relation.ReflTransGen p.Owns top id

namespace Reaches

variable {id owner : Id}

theorem top (child : id ∈ p.children) : p.Reaches id := ⟨id, child, .refl⟩

theorem step (h : p.Reaches owner) (owned : p.Owns owner id) : p.Reaches id := by
  obtain ⟨top, child, path⟩ := h
  exact ⟨top, child, path.tail owned⟩

/-- What is reached is at the top level or held by something that is reached. -/
theorem cases (h : p.Reaches id) : id ∈ p.children ∨ ∃ owner, p.Reaches owner ∧ p.Owns owner id := by
  obtain ⟨top, child, path⟩ := h
  rcases path.cases_tail with rfl | ⟨owner, before, owned⟩
  · exact .inl child
  · exact .inr ⟨owner, ⟨top, child, before⟩, owned⟩

end Reaches

/-- The post-order of some places has what they hold, directly or through others. -/
theorem PostOrder.exists_path (h : p.PostOrder qs l) :
    ∀ q ∈ l, ∃ x ∈ qs, Relation.ReflTransGen p.Owns x.id q.id := by
  induction h with
  | nil => simp
  | @cons q r below qs rest found _ _ _ ih ihLater =>
      intro x mem
      rcases List.mem_append.1 mem with mem | mem
      · obtain ⟨y, held, path⟩ := ih x mem
        refine ⟨q, List.mem_cons_self, path.head ?_⟩
        rw [Owns, held_eq found]
        exact List.mem_map_of_mem held
      · rcases List.mem_cons.1 mem with rfl | mem
        · exact ⟨x, List.mem_cons_self, .refl⟩
        · obtain ⟨y, asked, path⟩ := ihLater x mem
          exact ⟨y, List.mem_cons_of_mem _ asked, path⟩

/-- The post-order of the top level has exactly what the top level reaches. -/
theorem PostOrder.mem_iff_reaches (h : p.PostOrder (p.children.map .free) l) {id : Id} :
    id ∈ l.map Position.id ↔ p.Reaches id := by
  constructor
  · intro mem
    obtain ⟨q, inside, rfl⟩ := List.mem_map.1 mem
    obtain ⟨x, asked, path⟩ := h.exists_path q inside
    obtain ⟨top, child, rfl⟩ := List.mem_map.1 asked
    exact ⟨top, child, path⟩
  · rintro ⟨top, child, path⟩
    induction path with
    | refl =>
        have inside := h.perm.mem_iff.2 (List.mem_append_left _ (List.mem_map_of_mem child))
        exact List.mem_map_of_mem (f := Position.id) inside
    | tail _ owned before =>
        obtain ⟨q, inside, rfl⟩ := List.mem_map.1 before
        obtain ⟨x, held, rfl⟩ := List.mem_map.1 owned
        refine List.mem_map_of_mem (h.perm.mem_iff.2 (List.mem_append_right _ ?_))
        exact List.mem_flatMap.2 ⟨q, inside, held⟩

/-! ### Held once -/

/-- The owners in `S` and the top level hold no id twice. -/
structure HoldsOnce (p : Project) (S : Id → Prop) : Prop where
  top : p.children.Nodup
  apart : ∀ id ∈ p.children, ∀ owner, S owner → ¬p.Owns owner id
  each : ∀ owner, S owner → ((p.held owner).map Position.id).Nodup
  unique : ∀ id owner other, S owner → S other → p.Owns owner id → p.Owns other id → owner = other

theorem HoldsOnce.mono {S S' : Id → Prop} (h : p.HoldsOnce S) (fewer : ∀ id, S' id → S id) :
    p.HoldsOnce S' where
  top := h.top
  apart id child owner inside := h.apart id child owner (fewer owner inside)
  each owner inside := h.each owner (fewer owner inside)
  unique id owner other inside inside' :=
    h.unique id owner other (fewer owner inside) (fewer other inside')

theorem HoldsOnce.count_held {S : Id → Prop} (h : p.HoldsOnce S) {id owner other : Id}
    (inside : S owner) (inside' : S other) (owned : p.Owns owner id) :
    ((p.held other).map Position.id).count id = if other = owner then 1 else 0 := by
  split
  · next same =>
      subst same
      exact List.count_eq_one_of_mem (h.each _ inside) owned
  · next differ =>
      exact List.count_eq_zero.2 fun owned' => differ (h.unique id other owner inside' inside owned' owned)

private theorem count_flatMap_eq {f : Position → List Id} {id owner : Id}
    (h : ∀ q ∈ l, (f q).count id = if q.id = owner then 1 else 0) :
    (l.flatMap f).count id = (l.map Position.id).count owner := by
  induction l with
  | nil => rfl
  | cons q l ih =>
      rw [List.flatMap_cons, List.count_append, h q List.mem_cons_self,
        ih fun x hx => h x (List.mem_cons_of_mem _ hx), List.map_cons, List.count_cons]
      simp only [beq_iff_eq]
      omega

/-- Induction along a relation without cycles on finitely many ids. -/
private theorem acyclic_induction {R : Id → Id → Prop} {ids : List Id} {motive : Id → Prop}
    (acyclic : ∀ id ∈ ids, ¬Relation.TransGen R id id)
    (step : ∀ id ∈ ids, (∀ x ∈ ids, R id x → motive x) → motive id) : ∀ id ∈ ids, motive id := by
  -- the transitive closure is a strict order, and on a finite type such an order is well founded
  let below (a b : { id // id ∈ ids }) : Prop := Relation.TransGen R b.1 a.1
  have trans : IsTrans _ below := ⟨fun _ _ _ ab bc => bc.trans ab⟩
  have irrefl : Std.Irrefl below := ⟨fun a => acyclic a.1 a.2⟩
  have finite : Finite { id // id ∈ ids } := inferInstance
  have wf : WellFounded below := Finite.wellFounded_of_trans_of_irrefl below
  intro id mem
  refine wf.induction (C := fun a => motive a.1) ⟨id, mem⟩ fun a ih => ?_
  exact step a.1 a.2 fun x hx related => ih ⟨x, hx⟩ (.single related)

namespace PostOrder

/-- Nothing in a post-order owns itself, directly or through others. -/
theorem acyclic (h : p.PostOrder qs l) {id : Id} (mem : id ∈ l.map Position.id) :
    ¬Relation.TransGen p.Owns id id := by
  obtain ⟨q, inside, rfl⟩ := List.mem_map.1 mem
  exact fun cycle => not_self_of_acc (h.acc q inside).transGen (Relation.transGen_swap.2 cycle)

variable (h : p.PostOrder (p.children.map .free) l)
include h

/-- An id stands in the order once for each time that it is at the top level or held. -/
theorem count_eq (id : Id) : (l.map Position.id).count id =
    p.children.count id + (l.flatMap fun q => (p.held q.id).map Position.id).count id := by
  have all := (h.perm.map Position.id).count_eq id
  rw [List.map_append, List.map_map, List.map_flatMap, List.count_append] at all
  rwa [Position.id_comp_free, List.map_id'] at all

/-- Where ids are held once, each stands in the order as often as its owner: once. -/
theorem count_eq_one (once : p.HoldsOnce p.Reaches) :
    ∀ id ∈ l.map Position.id, (l.map Position.id).count id = 1 := by
  have reached {q : Position} (inside : q ∈ l) : p.Reaches q.id :=
    h.mem_iff_reaches.1 (List.mem_map_of_mem inside)
  -- the induction goes from an id to its owner
  refine acyclic_induction (R := fun id owner => p.Owns owner id)
    (fun id mem cycle => h.acyclic mem (Relation.transGen_swap.2 cycle)) fun id mem ih => ?_
  rw [h.count_eq]
  by_cases child : id ∈ p.children
  · have nowhere : (l.flatMap fun q => (p.held q.id).map Position.id).count id = 0 := by
      refine List.count_eq_zero.2 fun inside => ?_
      obtain ⟨q, hq, owned⟩ := List.mem_flatMap.1 inside
      exact once.apart id child q.id (reached hq) owned
    rw [nowhere, List.count_eq_one_of_mem once.top child]
  · obtain ⟨owner, isOwner, owned⟩ := (h.mem_iff_reaches.1 mem).cases.resolve_left child
    rw [List.count_eq_zero.2 child,
      count_flatMap_eq fun q hq => once.count_held isOwner (reached hq) owned,
      ih owner (h.mem_iff_reaches.2 isOwner) owned]

/-- **The post-order of the top level repeats nothing exactly if ids are held once.** -/
theorem nodup_iff_holdsOnce : (l.map Position.id).Nodup ↔ p.HoldsOnce p.Reaches := by
  constructor
  · intro distinct
    rw [(h.perm.map Position.id).nodup_iff, List.map_append, List.map_map, List.map_flatMap,
      List.nodup_append, List.nodup_flatMap, Position.id_comp_free, List.map_id'] at distinct
    obtain ⟨top, ⟨each, apart⟩, others⟩ := distinct
    have place {owner : Id} (reached : p.Reaches owner) : ∃ q ∈ l, q.id = owner :=
      List.mem_map.1 (h.mem_iff_reaches.2 reached)
    refine ⟨top, fun id child owner reached owned => ?_, fun owner reached => ?_, ?_⟩
    · obtain ⟨q, inside, rfl⟩ := place reached
      exact others id child id (List.mem_flatMap.2 ⟨q, inside, owned⟩) rfl
    · obtain ⟨q, inside, rfl⟩ := place reached
      exact each q inside
    · intro id owner other reached reached' owned owned'
      obtain ⟨q, inside, rfl⟩ := place reached
      obtain ⟨q', inside', rfl⟩ := place reached'
      by_contra differ
      have symm : Std.Symm
          (Function.onFun List.Disjoint fun q : Position => (p.held q.id).map Position.id) :=
        ⟨fun _ _ ab => ab.symm⟩
      exact apart.forall inside inside' (fun same => differ (same ▸ rfl)) owned owned'
  · intro once
    refine List.nodup_iff_count_le_one.2 fun id => ?_
    by_cases mem : id ∈ l.map Position.id
    · exact (h.count_eq_one once id mem).le
    · exact (List.count_eq_zero.2 mem).le.trans (Nat.zero_le 1)

end PostOrder

/-! ### From a forest to a post-order -/

/-- Every registered reflection stands at each place that has its id. -/
def IsPlaced (p : Project) : Prop :=
  ∀ q ∈ p.positions, ∀ r, p.get? q.id = some r → r.position q.id = q

theorem mem_positions_top {id : Id} (child : id ∈ p.children) : Position.free id ∈ p.positions :=
  List.mem_append_left _ (List.mem_map_of_mem child)

theorem mem_positions_of_mem_held {q : Position} {owner : Id} (held : q ∈ p.held owner) :
    q ∈ p.positions := by
  have owned : p.Owns owner q.id := List.mem_map_of_mem held
  rw [positions_eq]
  exact List.mem_append_right _
    (List.mem_flatMap.2 ⟨owner, Registry.mem_ids_iff.2 owned.contains, held⟩)

/-- Without cycles every place has a post-order whose id belongs to a set that is registered and closed
under ownership. -/
theorem IsPlaced.exists_postOrder {S : Id → Prop} (h : p.IsPlaced)
    (acyclic : ∀ id, ¬Relation.TransGen p.Owns id id) (known : ∀ id, S id → p.contains id = true)
    (closed : ∀ owner id, S owner → p.Owns owner id → S id) :
    ∀ q ∈ p.positions, S q.id → ∃ l, p.PostOrder [q] l := by
  have each : ∀ id ∈ p.registry.ids, ∀ q ∈ p.positions, S q.id → q.id = id →
      ∃ l, p.PostOrder [q] l := by
    refine acyclic_induction (fun id _ => acyclic id) fun id mem ih q hq inside same => ?_
    subst same
    obtain ⟨r, found⟩ := Registry.contains_iff.1 (known q.id inside)
    have below : ∀ x ∈ r.body.positions q.id, ∃ l, p.PostOrder [x] l := fun x hx => by
      rw [← held_eq found] at hx
      have owned : p.Owns q.id x.id := List.mem_map_of_mem hx
      have inside' := closed q.id x.id inside owned
      exact ih x.id (Registry.mem_ids_iff.2 (known x.id inside')) owned x
        (mem_positions_of_mem_held hx) inside' rfl
    obtain ⟨l, order⟩ := PostOrder.exists_of_forall below
    exact ⟨_, .single found (h q hq r found) order⟩
  intro q hq inside
  exact each q.id (Registry.mem_ids_iff.2 (known q.id inside)) q hq inside rfl

namespace IsForest

theorem isPlaced (h : p.IsForest) : p.IsPlaced := by
  intro q mem r found
  obtain ⟨r', found', placed⟩ := h.placed q mem
  exact Option.some.inj (found.symm.trans found') ▸ placed

/-- What is held is registered. -/
theorem contains_of_owns (h : p.IsForest) {owner id : Id} (owned : p.Owns owner id) :
    p.contains id = true := by
  obtain ⟨q, hq, rfl⟩ := List.mem_map.1 owned
  obtain ⟨r, found, -⟩ := h.placed q (mem_positions_of_mem_held hq)
  exact Registry.contains_iff.2 ⟨r, found⟩

/-- A forest holds every id once. -/
theorem holdsOnce (h : p.IsForest) : p.HoldsOnce fun _ => True := by
  have once := h.once
  rw [positions_eq, List.map_append, List.nodup_append, List.map_map, List.map_flatMap,
    Position.id_comp_free, List.map_id', List.nodup_flatMap] at once
  obtain ⟨top, ⟨each, apart⟩, others⟩ := once
  refine ⟨top, fun id child owner _ owned => ?_, fun owner _ => ?_, ?_⟩
  · refine others id child id (List.mem_flatMap.2 ⟨owner, ?_, owned⟩) rfl
    exact Registry.mem_ids_iff.2 owned.contains
  · by_cases known : owner ∈ p.registry.ids
    · exact each owner known
    · have absent : p.get? owner = none :=
        Option.not_isSome_iff_eq_none.1 fun some => known (Registry.mem_ids_iff.2 some)
      rw [held, absent]
      exact .nil
  · intro id owner other _ _ owned owned'
    by_contra differ
    have symm : Std.Symm
        (Function.onFun List.Disjoint fun owner => (p.held owner).map Position.id) :=
      ⟨fun _ _ ab => ab.symm⟩
    exact apart.forall (Registry.mem_ids_iff.2 owned.contains)
      (Registry.mem_ids_iff.2 owned'.contains) differ owned owned'

/-- The top level reaches all of a forest. -/
theorem reaches (h : p.IsForest) : ∀ id ∈ p.registry.ids, p.Reaches id := by
  -- the induction goes from an id to its owner
  refine acyclic_induction (R := fun id owner => p.Owns owner id)
    (fun id _ cycle => h.acyclic id (Relation.transGen_swap.2 cycle)) fun id mem ih => ?_
  obtain ⟨q, hq, rfl⟩ := List.mem_map.1 (h.covers id (Registry.mem_ids_iff.1 mem))
  rw [positions_eq] at hq
  rcases List.mem_append.1 hq with hq | hq
  · obtain ⟨top, child, rfl⟩ := List.mem_map.1 hq
    exact .top child
  · obtain ⟨owner, known, held⟩ := List.mem_flatMap.1 hq
    have owned : p.Owns owner q.id := List.mem_map_of_mem held
    exact (ih owner known owned).step owned

/-- **A forest has a post-order** that is all of it. -/
theorem exists_isOrder (h : p.IsForest) : ∃ l, p.IsOrder l := by
  have top : ∀ q ∈ p.children.map Position.free, ∃ l, p.PostOrder [q] l := by
    intro q hq
    obtain ⟨id, child, rfl⟩ := List.mem_map.1 hq
    have known : p.contains id = true := by
      obtain ⟨r, found, -⟩ := h.placed _ (mem_positions_top child)
      exact Registry.contains_iff.2 ⟨r, found⟩
    exact h.isPlaced.exists_postOrder h.acyclic (S := fun id => p.contains id = true)
      (fun _ known => known) (fun _ _ _ owned => h.contains_of_owns owned) _
      (mem_positions_top child) known
  obtain ⟨l, order⟩ := PostOrder.exists_of_forall top
  refine ⟨l, order, order.nodup_iff_holdsOnce.2 (h.holdsOnce.mono fun _ _ => trivial),
    fun id known => ?_⟩
  exact order.mem_iff_reaches.2 (h.reaches id (Registry.mem_ids_iff.2 known))

end IsForest

/-- Ownership is a forest exactly if the project has a post-order. -/
theorem isForest_iff_exists_isOrder : p.IsForest ↔ ∃ l, p.IsOrder l :=
  ⟨IsForest.exists_isOrder, fun ⟨_, h⟩ => h.isForest⟩

end ApiGraph.Project
