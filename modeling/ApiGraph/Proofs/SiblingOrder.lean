import Mathlib.Data.List.Perm.Basic
import ApiGraph.Proofs.Tour

/-!
# ApiGraph.Proofs.SiblingOrder

In which order a walk goes to the types right below a node. Of an indexed access it takes the index first,
and of a mapped type the name type; everywhere else it takes the fields as they are declared.

* `preorder` — the nodes as declared: each before those below it, and a child with all below it before the
  next child.
* `walk_perm_preorder` — a walk calls the same nodes.
* `KeepsOrder`, `visited_eq_children_iff` — a node whose children a walk takes as declared.
* `visit_eq_preorder_iff` — when a walk as a whole goes by declaration.
-/

namespace ApiGraph.TypeExpr

/-- The nodes of a type, each before those below it, the fields in the order of their declaration. -/
def preorder (t : TypeExpr) : List TypeExpr :=
  t :: t.children.attach.flatMap fun child => preorder child.1
termination_by (walk t).length
decreasing_by exact length_walk_lt child.2

theorem preorder_eq (t : TypeExpr) : preorder t = t :: t.children.flatMap preorder := by
  rw [preorder, List.flatMap_subtype (g := preorder) (by simp), List.unattach_attach]

/-- A walk calls the same nodes, each as often. -/
theorem walk_perm_preorder (t : TypeExpr) : (walk t).Perm (preorder t) := by
  induction t using children_induction with
  | step t ih =>
      rw [walk_eq, preorder_eq]
      refine .cons t (t.visited_perm.flatMap fun child mem => ?_)
      exact ih child (t.visited_perm.mem_iff.1 mem)

/-! ### Children that change places -/

/-- Whether a walk takes the children of a node as declared. Equal children may change places. -/
def KeepsOrder : TypeExpr → Prop
  | .indexedAccess object index => index = object
  | .mapped _ parameterType template _ _ (some nameType) =>
    nameType = parameterType ∧ parameterType = template
  | _ => True

theorem visited_eq_children_iff {t : TypeExpr} : t.visited = t.children ↔ t.KeepsOrder := by
  cases t with
  | indexedAccess object index => simp +contextual [visited, children, KeepsOrder]
  | mapped parameter parameterType template readonlyModifier optionalModifier nameType =>
      cases nameType with
      | none => exact iff_of_true rfl trivial
      | some nameType => simp +contextual [visited, children, KeepsOrder]
  | _ => exact iff_of_true rfl trivial

/-- From lists one after the other, which each begin with their own node and are as long as the list of
the same node elsewhere, the nodes can be told and then the lists. -/
theorem eq_of_flatMap_eq {f g : TypeExpr → List TypeExpr} (first : ∀ t, (f t).head? = some t)
    (first' : ∀ t, (g t).head? = some t) (length : ∀ t, (f t).length = (g t).length)
    {ts us : List TypeExpr} (same : ts.flatMap f = us.flatMap g) :
    ts = us ∧ ∀ t ∈ us, f t = g t := by
  have starts {h : TypeExpr → List TypeExpr} (first : ∀ t, (h t).head? = some t) (t : TypeExpr)
      (rest : List TypeExpr) : (h t ++ rest).head? = some t := by
    rw [List.head?_append, first, Option.some_or]
  induction ts generalizing us with
  | nil =>
      cases us with
      | nil => exact ⟨rfl, by simp⟩
      | cons u us =>
          have head := congrArg List.head? same
          rw [List.flatMap_cons, starts first'] at head
          cases head
  | cons t ts ih =>
      have head := congrArg List.head? same
      rw [List.flatMap_cons, starts first] at head
      cases us with
      | nil => cases head
      | cons u us =>
          rw [List.flatMap_cons, starts first'] at head
          obtain rfl := Option.some.inj head
          rw [List.flatMap_cons, List.flatMap_cons] at same
          obtain ⟨here, rest⟩ := List.append_inj same (length t)
          obtain ⟨rfl, lists⟩ := ih rest
          exact ⟨rfl, List.forall_mem_cons.2 ⟨here, lists⟩⟩

theorem walk_eq_preorder_iff {t : TypeExpr} :
    walk t = preorder t ↔ ∀ node ∈ preorder t, node.KeepsOrder := by
  induction t using children_induction with
  | step t ih =>
      rw [walk_eq, preorder_eq, List.cons.injEq, List.forall_mem_cons, ← visited_eq_children_iff]
      simp only [true_and, List.mem_flatMap, forall_exists_index, and_imp]
      constructor
      · intro same
        obtain ⟨order, lists⟩ := eq_of_flatMap_eq (fun t => by rw [walk_eq]; rfl)
          (fun t => by rw [preorder_eq]; rfl) (fun t => (walk_perm_preorder t).length_eq) same
        exact ⟨order, fun node child mem => (ih child mem).1 (lists child mem) node⟩
      · rintro ⟨order, below⟩
        rw [order]
        exact List.flatMap_congr fun child mem => (ih child mem).2 fun node => below node child mem

/-- **The order of a walk.** After the hook of a node the walk goes to its children one after the other, as
`visited` lists them. So the hooks are called in declaration order exactly if, at every node, the children
that change places are equal. -/
theorem visit_eq_preorder_iff (t : TypeExpr) :
    (∀ (σ : Type) (hooks : Hooks σ) (s : σ), t.visit hooks s =
      t.visited.foldl (fun s child => child.visit hooks s) (hooks t.form t s)) ∧
    ((∀ (σ : Type) (hooks : Hooks σ) (s : σ), t.visit hooks s =
      (preorder t).foldl (fun s node => hooks node.form node s) s) ↔
        ∀ node ∈ preorder t, node.KeepsOrder) := by
  refine ⟨fun σ hooks s => visit_eq hooks t s, ?_⟩
  rw [← walk_eq_preorder_iff]
  constructor
  · intro same
    -- hooks that note their nodes, the last one first
    have noted := same _ (fun _ node nodes => node :: nodes) []
    rw [visit_eq_foldl] at noted
    simpa using noted
  · intro same σ hooks s
    rw [visit_eq_foldl, same]

/-- The index of an access is called before its object, and the name type of a mapped type before the type
of its parameter, although they are declared the other way round. -/
theorem not_preorder_elementAccess :
    let noted (t : TypeExpr) := (t.visit (fun form _ noted => form :: noted) []).reverse
    let element := indexedAccess (.array (.unknown "T")) (.intrinsic "number")
    let renamed := mapped "K" (.array (.unknown "T")) (.literal .null) none none
      (some (.intrinsic "string"))
    noted element = [.indexedAccess, .intrinsic, .array, .unknown] ∧
      (preorder element).map form = [.indexedAccess, .array, .unknown, .intrinsic] ∧
      noted renamed = [.mapped, .intrinsic, .array, .unknown, .literal] ∧
      (preorder renamed).map form = [.mapped, .array, .unknown, .literal, .intrinsic] ∧
      ¬∀ (t : TypeExpr) (σ : Type) (hooks : Hooks σ) (s : σ), t.visit hooks s =
        (preorder t).foldl (fun s node => hooks node.form node s) s := by
  intro noted element renamed
  have declared : (preorder element).map form = [.indexedAccess, .array, .unknown, .intrinsic] := by
    simp [element, preorder_eq, children, form]
  refine ⟨rfl, declared, rfl, by simp [renamed, preorder_eq, children, form], fun asDeclared => ?_⟩
  have same := asDeclared element _ (fun form _ noted => form :: noted) []
  have called : noted element = (preorder element).map form := by
    simp only [noted, same]
    simp
  rw [declared] at called
  exact absurd called (by decide)

end ApiGraph.TypeExpr
