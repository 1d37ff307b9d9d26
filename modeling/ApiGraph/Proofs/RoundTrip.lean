import ApiGraph.Proofs.Bodies
import ApiGraph.Proofs.Decoded

/-!
# ApiGraph.Proofs.RoundTrip

Whole projects on their way into a document and back. What is read from the document of a project has
the same post-order, and under each id a reflection with the same header at the same place. If no
union is merged and no category member is dropped on the way, the same document is written again.

* `Project.IsStable` — nothing is merged or dropped.
* `IsStable.get?_reread` — the reflections that are read back.
* `IsStable.rootDocument_reread` — the document is written again.
* `Project.IsWellFormed` — nothing is lost at all.
* `roundTrip` — a well-formed project comes back the same.
-/

namespace ApiGraph.Project

variable {p : Project} {l : List Position} {config : Config}

/-- In each declaration, the members of categories stand before it in the post-order. -/
def OrdersMembers (p : Project) (l : List Position) : Prop :=
  ∀ pre q post r, l = pre ++ q :: post → p.get? q.id = some r →
    ∀ c ∈ r.body.categories, ∀ id ∈ c.children, id ∈ pre.map Position.id

/-- A project in a post-order that is written and read without merging or dropping anything. -/
structure IsStable (p : Project) (l : List Position) : Prop where
  order : p.IsOrder l
  admissible : p.IsAdmissible
  merged : ∀ id r, p.get? id = some r → Throughout TypeExpr.IsMerged r.body.nodes
  members : p.OrdersMembers l
  categories : HasMembers p.contains p.categories

/-- The project that is read from the document of a project. -/
def reread (p : Project) (config : Config) : Project :=
  (p.rootDocument config).project

/-! ### Reading back -/

namespace IsOrder

variable (h : p.IsOrder l) (admissible : p.IsAdmissible)
include h

theorem position_placement {q : Position} (mem : q ∈ l) : (p.placement config q).position = q := by
  have id := h.id_document config (h.contains_iff.2 (List.mem_map_of_mem mem))
  simp [placement, Placement.position, Placement.id, id]

include admissible

/-- What is read back has the same post-order. -/
theorem isOrder_reread (config : Config) : (p.reread config).IsOrder l := by
  have whole := WireReflection.isOrder_project (h.isProject_rootDocument admissible config)
  rw [h.rootPlacements_eq admissible, List.map_map] at whole
  have same : l.map (Placement.position ∘ p.placement config) = l :=
    (List.map_congr_left fun q mem => h.position_placement mem).trans (List.map_id l)
  rwa [same] at whole

theorem contains_reread (id : Id) : (p.reread config).contains id = p.contains id := by
  rw [Bool.eq_iff_iff, (h.isOrder_reread admissible config).contains_iff, h.contains_iff]

/-- References resolve as before. -/
theorem resolves_reread : Resolves p (p.reread config) := by
  intro target
  cases found : p.resolve? target with
  | some id =>
      rw [Option.getD_some, resolve?, h.contains_reread admissible,
        if_pos (contains_of_resolve? found)]
  | none =>
      -- a target that does not resolve is read back as one that never will
      have broken : p.contains brokenId = false := by
        rw [← Bool.not_eq_true]
        intro known
        obtain ⟨r, found⟩ := Registry.contains_iff.1 known
        have := (admissible brokenId r found).positive
        simp [brokenId] at this
      simp [resolve?, h.contains_reread admissible, broken]

end IsOrder

/-- What was decoded before a reflection of the document. -/
def knownBefore (p : Project) (config : Config) (pre : List Position) (id : Id) : Bool :=
  ((p.rootDocument config).start.fill (pre.map (p.placement config))).project.contains id

namespace IsStable

variable (h : p.IsStable l)
include h

theorem knownBefore_iff {pre post : List Position} (split : l = pre ++ post) {id : Id} :
    p.knownBefore config pre id = true ↔ id ∈ pre.map Position.id := by
  have nothing : (p.rootDocument config).start.project.contains id ≠ true := Bool.false_ne_true
  have same : (pre.map (p.placement config)).map Placement.id = pre.map Position.id := by
    rw [List.map_map]
    refine List.map_congr_left fun q mem => ?_
    have inside : q ∈ l := split ▸ List.mem_append_left _ mem
    exact h.order.id_document config (h.order.contains_iff.2 (List.mem_map_of_mem inside))
  rw [knownBefore, Decoding.contains_fill, or_iff_right nothing, same]

theorem hasMembers {pre post : List Position} {q : Position} {r : Reflection}
    (split : l = pre ++ q :: post) (found : p.get? q.id = some r) :
    HasMembers (p.knownBefore config pre) r.body.categories :=
  fun c mem id child => (h.knownBefore_iff split).2 (h.members pre q post r split found c mem id child)

/-- Under each id a reflection is read back that differs at most in its body, and there holds what
its document says. -/
theorem get?_reread {pre post : List Position} {q : Position} {r : Reflection}
    (split : l = pre ++ q :: post) (found : p.get? q.id = some r) :
    (p.reread config).get? q.id = some { r with
      body := (r.body.written p (p.document config)
        (headerToWire config q.id r.name r.kind r.flags)).body (p.knownBefore config pre)
        r.body.role } := by
  have mem : q ∈ l := by rw [split]; simp
  have parts := h.order.rootPlacements_eq h.admissible config
  rw [split, List.map_append, List.map_cons] at parts
  have read := WireReflection.get?_project (h.order.isProject_rootDocument h.admissible config) parts
  have known := h.order.contains_iff.2 (List.mem_map_of_mem mem)
  have id : (p.placement config q).id = q.id := h.order.id_document config known
  obtain ⟨r', found', placed⟩ := h.order.postOrder.placed q mem
  obtain rfl := Option.some.inj (found.symm.trans found')
  have role : r.body.role = q.role := congrArg Position.role placed
  have owner : r.parent = q.owner := congrArg Position.owner placed
  rw [id] at read
  refine read.trans (congrArg some ?_)
  have kind : Kind.ofBits? r.kind.bits = some r.kind := Kind.ofBits?_eq_some_iff.2 rfl
  simp only [Placement.reflection, placement, h.order.document_eq found, Body.header_written,
    headerToWire, kind, Option.getD_some, role, owner]
  rfl

/-- Each reflection is written again. -/
theorem document_reread {qs below : List Position} (order : p.PostOrder qs below)
    (inside : ∀ q ∈ below, q ∈ l) :
    ∀ q ∈ below, (p.reread config).document config q.id = p.document config q.id := by
  have order' := h.order.isOrder_reread h.admissible config
  induction order with
  | nil => simp
  | @cons q r below qs rest found _ first _ ih ihLater =>
      intro x mem
      rcases List.mem_append.1 mem with mem | mem
      · exact ih (fun y hy => inside y (List.mem_append_left _ hy)) x mem
      rcases List.mem_cons.1 mem with rfl | mem
      · obtain ⟨pre, post, split⟩ := List.append_of_mem (inside x (by simp))
        -- what it holds stands before it and is written again already
        have agrees : Agrees (p.document config) ((p.reread config).document config)
            ((r.body.positions x.id).map Position.id) := fun id held => by
          obtain ⟨y, hy, rfl⟩ := List.mem_map.1 held
          have member : y ∈ below := first.perm.mem_iff.2 (List.mem_append_left _ hy)
          have there := inside y (List.mem_append_left _ member)
          rw [h.order.id_document config (h.order.contains_iff.2 (List.mem_map_of_mem there))]
          exact ih (fun z hz => inside z (List.mem_append_left _ hz)) y member
        rw [order'.document_eq (h.get?_reread split found), h.order.document_eq found]
        exact r.body.written_read (h.order.resolves_reread h.admissible) (h.merged _ _ found)
          (h.hasMembers split found) agrees
      · exact ihLater (fun y hy => inside y (by simp [hy])) x mem

theorem children_reread : (p.reread config).children = p.children := by
  have top : Named (p.document config) p.children := fun id child =>
    h.order.id_document config (h.order.contains_iff.2 (List.mem_map_of_mem (h.order.free_mem child)))
  exact top.idsOf_eq

theorem categories_reread : (p.reread config).categories = p.categories := by
  have known : (p.reread config).contains = p.contains :=
    funext fun id => h.order.contains_reread h.admissible id
  have kept := h.categories
  rw [← known] at kept
  exact kept.readCategories_eq

/-- **The same document is written again.** -/
theorem rootDocument_reread : (p.reread config).rootDocument config = p.rootDocument config := by
  have name : (p.reread config).name = p.name := WireReflection.name_project _
  have documents : p.children.map ((p.reread config).document config) =
      p.children.map (p.document config) := by
    refine List.map_congr_left fun id child => ?_
    exact h.document_reread h.order.postOrder (fun _ mem => mem) _ (h.order.free_mem child)
  rw [rootDocument, h.children_reread, documents, h.categories_reread, name]
  rfl

end IsStable

/-! ### Well-formed projects -/

/-- A project that a document can hold without loss: ids and kinds are admissible, ownership is a
forest, every node of every type keeps what it says, and members of categories are registered, those
of a declaration before it. -/
structure IsWellFormed (p : Project) : Prop where
  admissible : p.IsAdmissible
  forest : p.IsForest
  keeps : ∀ id r, p.get? id = some r → Throughout p.Keeps r.body.nodes
  categories : HasMembers p.contains p.categories
  members : ∀ l, p.PostOrder (p.children.map .free) l → p.OrdersMembers l

theorem IsWellFormed.exists_isStable (h : p.IsWellFormed) : ∃ l, p.IsStable l := by
  obtain ⟨l, order⟩ := h.forest.exists_isOrder
  exact ⟨l, order, h.admissible, fun id r found => (h.keeps id r found).imp fun _ => Keeps.isMerged,
    h.members l order.postOrder, h.categories⟩

/-- **A well-formed project comes back from its document**: with the same name, top level and
categories, with the same reflections under the same ids, their references settled, and it is written
as the same document. -/
theorem roundTrip (p : Project) (wellFormed : p.IsWellFormed) (config : Config) :
    ∃ document q, p.toWire config = .ok document ∧ Project.ofWire document = .ok q ∧
      q.name = p.name ∧ q.children = p.children ∧ q.categories = p.categories ∧
      (∀ id, q.contains id = p.contains id) ∧
      (∀ id r, p.get? id = some r → ∃ r', q.get? id = some r' ∧ (r.settle p).Same r') ∧
      q.toWire config = .ok document := by
  obtain ⟨l, stable⟩ := wellFormed.exists_isStable
  have order := stable.order
  have order' := order.isOrder_reread stable.admissible config
  have isProject := order.isProject_rootDocument stable.admissible config
  refine ⟨p.rootDocument config, p.reread config, order.toWire_eq config,
    ofWire_eq_ok_iff.2 ⟨isProject, rfl⟩, WireReflection.name_project _, stable.children_reread,
    stable.categories_reread, order.contains_reread stable.admissible, fun id r found => ?_, ?_⟩
  · -- the place of the reflection in the order tells what was known when it was read
    obtain ⟨q, mem, rfl⟩ := List.mem_map.1 (order.covers id (Registry.contains_iff.2 ⟨r, found⟩))
    obtain ⟨pre, post, split⟩ := List.append_of_mem mem
    refine ⟨_, stable.get?_reread split found, ?_, rfl⟩
    refine r.body.same_read q.id (wellFormed.keeps _ _ found) (stable.hasMembers split found)
      fun id held => ?_
    have owned : p.Owns q.id id := by rwa [Owns, held_eq found]
    exact order.id_document config (order.contains_of_owns owned)
  · rw [order'.toWire_eq, stable.rootDocument_reread]

/-- A variable whose type is an anonymous declaration. -/
def settings : Reflection where
  name := "settings"
  kind := .variable
  body := .declaration { type := some (.reflection 2) }

/-- An anonymous declaration that refers to the variable by its symbol. -/
def settingsLiteral : Reflection where
  name := "__type"
  kind := .typeLiteral
  body := .declaration { type := some (.reference { name := "settings", target := .symbol 7 } []) }

/-- A project of the two. -/
def settingsProject : Project where
  name := "library"
  registry := (Registry.empty.insert 2 settingsLiteral).insert 1 settings
  symbols := [(7, 1)]
  nextId := 3
  children := [1]

theorem isOrder_settingsProject : settingsProject.IsOrder [.free 2, .free 1] where
  postOrder := .single (r := settings) rfl rfl (.single (r := settingsLiteral) rfl rfl .nil)
  distinct := by decide
  covers id known := by
    obtain ⟨r, found⟩ := Registry.contains_iff.1 known
    simp only [settingsProject, Registry.get?_insert, Registry.get?_empty] at found
    split at found
    · next same => simp [same]
    · split at found
      · next same => simp [same]
      · cases found

/-- The variable and its type come back with the reference settled. -/
theorem roundTrip_settingsProject : ∃ document q r, settingsProject.toWire {} = .ok document ∧
    Project.ofWire document = .ok q ∧ q.get? 2 = some r ∧
    (settingsLiteral.settle settingsProject).Same r ∧ q.toWire {} = .ok document := by
  have each {motive : Id → Reflection → Prop} (first : motive 1 settings)
      (second : motive 2 settingsLiteral) (id : Id) (r : Reflection)
      (found : settingsProject.get? id = some r) : motive id r := by
    simp only [Project.get?, settingsProject, Registry.get?_insert, Registry.get?_empty] at found
    split at found
    · next same => cases found; exact same ▸ first
    · split at found
      · next same => cases found; exact same ▸ second
      · cases found
  have wellFormed : settingsProject.IsWellFormed :=
    { admissible := each ⟨by decide, by decide, rfl⟩ ⟨by decide, by decide, rfl⟩
      forest := isOrder_settingsProject.isForest
      keeps := by
        refine each ?_ ?_
        · intro t mem
          obtain rfl : t = .reflection 2 := List.mem_singleton.1 mem
          trivial
        · intro t mem
          obtain rfl : t = .reference { name := "settings", target := .symbol 7 } [] :=
            List.mem_singleton.1 mem
          exact .inl ⟨1, rfl⟩
      categories := fun _ mem => (List.not_mem_nil mem).elim
      members := by
        intro l _ pre q post r _ found c mem
        have bare : r.body.categories = [] :=
          each (motive := fun _ r => r.body.categories = []) rfl rfl q.id r found
        rw [bare] at mem
        cases mem }
  obtain ⟨document, q, written, read, -, -, -, -, same, again⟩ :=
    roundTrip settingsProject wellFormed {}
  obtain ⟨r, found, equal⟩ := same 2 settingsLiteral rfl
  exact ⟨document, q, r, written, read, found, equal, again⟩

end ApiGraph.Project
