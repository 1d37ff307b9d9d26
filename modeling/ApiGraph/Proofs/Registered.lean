import ApiGraph.Proofs.Ownership
import ApiGraph.Proofs.Reading

/-!
# ApiGraph.Proofs.Registered

What a decoded project has registered. The reflections of a document are registered one by one, each
under the id that it brings along and below the owner that its place gives it; only the category
members that it keeps depend on what was registered before it.

* `Placement.position`, `Placement.positions` — where a reflection of a document stands, and the
  places that it holds itself.
* `Decoding.get?_fill` — the reflection under an id is the one that the document places there.
* `Project.IsAdmissible` — ids and kinds as a document has them.
* `WireReflection.get?_project`, `WireReflection.contains_project` — the registry of a document.
* `ofWire_registers` — which documents are accepted, and what they register.
-/

namespace ApiGraph

namespace Placement

/-- The place where a document puts a reflection. -/
def position (q : Placement) : Position :=
  { role := q.role, owner := q.owner, id := q.id }

/-- The places that a reflection of a document holds. -/
def positions (q : Placement) : List Position :=
  (q.object.body (fun _ => true) q.role).positions q.id

/-- A reflection is registered at its place. -/
@[simp] theorem position_reflection (known : Id → Bool) (q : Placement) :
    (q.reflection known).position q.id = q.position := by
  simp [Reflection.position, reflection, position]

/-- Which category members are known does not change what a reflection holds. -/
@[simp] theorem positions_reflection (known : Id → Bool) (q : Placement) :
    (q.reflection known).body.positions q.id = q.positions := by
  obtain ⟨role, owner, object⟩ := q
  cases object
  cases role <;> rfl

/-- A valid reflection is registered with a kind that fits its role. -/
theorem accepts_reflection {q : Placement} (valid : q.IsValid) (known : Id → Bool) :
    q.role.accepts (q.reflection known).kind = true ∧
      (q.reflection known).kind.bits = q.object.header.kind := by
  obtain ⟨kind, bits, fits⟩ := valid.kind
  have same : (q.reflection known).kind = kind := by simp [reflection, bits]
  rw [same]
  exact ⟨fits, Kind.ofBits?_eq_some_iff.1 bits⟩

end Placement

/-- A reflection has an id that leaves room for a next one and a kind that fits its role. -/
structure Reflection.IsAdmissible (id : Id) (r : Reflection) : Prop where
  positive : 1 ≤ id
  bounded : id ≤ maxId - 1
  fits : r.body.role.accepts r.kind = true

/-- Every registered reflection is as a document may have it. -/
def Project.IsAdmissible (p : Project) : Prop :=
  ∀ id r, p.get? id = some r → r.IsAdmissible id

namespace Decoding

variable {s : Decoding} {q : Placement} {pre post qs : List Placement} {id : Id}

@[simp] theorem get?_place (s : Decoding) (q : Placement) (id : Id) :
    (s.place q).project.get? id =
      if id = q.id then some (q.reflection s.project.contains) else s.project.get? id :=
  Registry.get?_insert _ _ _ _

/-- Registering touches no id but those of the new reflections. -/
theorem get?_fill_of_notMem (other : id ∉ qs.map Placement.id) :
    (s.fill qs).project.get? id = s.project.get? id := by
  induction qs generalizing s with
  | nil => rfl
  | cons q qs ih =>
      rw [List.map_cons, List.mem_cons, not_or] at other
      rw [fill_cons, ih other.2, get?_place, if_neg other.1]

/-- Each reflection is registered under its id, in the light of those before it. -/
theorem get?_fill (distinct : ((pre ++ q :: post).map Placement.id).Nodup) :
    (s.fill (pre ++ q :: post)).project.get? q.id =
      some (q.reflection (s.fill pre).project.contains) := by
  rw [List.map_append, List.map_cons, List.nodup_append] at distinct
  obtain ⟨-, tail, -⟩ := distinct
  -- the ones after it have other ids
  rw [fill_append, fill_cons, get?_fill_of_notMem (List.nodup_cons.1 tail).1, get?_place, if_pos rfl]

/-- Registering changes nothing but the registry and the next id. -/
theorem exists_project_fill (s : Decoding) (qs : List Placement) :
    ∃ nextId registry, (s.fill qs).project = { s.project with nextId, registry } := by
  induction qs generalizing s with
  | nil => exact ⟨_, _, rfl⟩
  | cons q qs ih =>
      obtain ⟨nextId, registry, same⟩ := ih (s.place q)
      exact ⟨nextId, registry, same⟩

theorem name_fill (s : Decoding) (qs : List Placement) :
    (s.fill qs).project.name = s.project.name := by
  obtain ⟨nextId, registry, same⟩ := exists_project_fill s qs
  rw [same]

theorem symbols_fill (s : Decoding) (qs : List Placement) :
    (s.fill qs).project.symbols = s.project.symbols := by
  obtain ⟨nextId, registry, same⟩ := exists_project_fill s qs
  rw [same]

/-- The next id is the greatest of the one before and those right after the new ids. -/
theorem nextId_fill_le {bound : Id} (before : s.project.nextId ≤ bound)
    (below : ∀ q ∈ qs, q.id + 1 ≤ bound) : (s.fill qs).project.nextId ≤ bound := by
  induction qs generalizing s with
  | nil => exact before
  | cons q qs ih =>
      refine ih ?_ fun q hq => below q (List.mem_cons_of_mem _ hq)
      exact Int.max_le.2 ⟨before, below q List.mem_cons_self⟩

theorem le_nextId_fill (s : Decoding) (qs : List Placement) :
    s.project.nextId ≤ (s.fill qs).project.nextId := by
  induction qs generalizing s with
  | nil => exact Int.le_refl _
  | cons q qs ih => exact Int.le_trans (Int.le_max_left _ _) (ih (s.place q))

theorem lt_nextId_fill (h : q ∈ qs) : q.id + 1 ≤ (s.fill qs).project.nextId := by
  induction qs generalizing s with
  | nil => cases h
  | cons q' qs ih =>
      rcases List.mem_cons.1 h with rfl | h
      · exact Int.le_trans (Int.le_max_right _ _) (le_nextId_fill (s.place q) qs)
      · exact ih h

end Decoding

namespace WireReflection

variable {root : WireReflection} {q : Placement} {pre post : List Placement} {id : Id}

@[simp] theorem name_project (root : WireReflection) : root.project.name = root.header.name :=
  Decoding.name_fill _ _

@[simp] theorem symbols_project (root : WireReflection) : root.project.symbols = [] :=
  Decoding.symbols_fill _ _

@[simp] theorem children_project (root : WireReflection) :
    root.project.children = idsOf root.rootReflections := rfl

/-- Registered are exactly the ids of the document's reflections. -/
theorem contains_project :
    root.project.contains id = true ↔ id ∈ root.rootPlacements.map Placement.id := by
  have nothing : root.start.project.contains id ≠ true := Bool.false_ne_true
  exact Decoding.contains_fill.trans (or_iff_right nothing)

/-- Under each id stands the reflection that the document places there. -/
theorem get?_project (h : root.IsProject) (split : root.rootPlacements = pre ++ q :: post) :
    root.project.get? q.id = some (q.reflection (root.start.fill pre).project.contains) := by
  have distinct := h.distinct
  rw [split] at distinct
  have filled := Decoding.get?_fill (s := root.start) distinct
  rwa [← split] at filled

/-- What is registered under an id was placed by the document. -/
theorem exists_of_get?_project (h : root.IsProject) {r : Reflection}
    (found : root.project.get? id = some r) : ∃ pre q post, root.rootPlacements = pre ++ q :: post ∧
      q.id = id ∧ r = q.reflection (root.start.fill pre).project.contains := by
  have known : root.project.contains id = true := Registry.contains_iff.2 ⟨r, found⟩
  obtain ⟨q, mem, rfl⟩ := List.mem_map.1 (contains_project.1 known)
  obtain ⟨pre, post, split⟩ := List.append_of_mem mem
  refine ⟨pre, q, post, split, rfl, ?_⟩
  rw [get?_project h split] at found
  exact (Option.some.inj found).symm

/-- Registered are reflections with admissible ids and kinds. -/
theorem isAdmissible_project (h : root.IsProject) : root.project.IsAdmissible := by
  intro id r found
  obtain ⟨pre, q, post, split, rfl, rfl⟩ := exists_of_get?_project h found
  have mem : q ∈ root.rootPlacements := by rw [split]; simp
  have valid : q.IsValid := h.valid (.object q) (mem_placements.1 mem)
  refine ⟨valid.positive, valid.bounded, ?_⟩
  have fits := (Placement.accepts_reflection valid (root.start.fill pre).project.contains).1
  rwa [Placement.reflection, role_body]

end WireReflection

/-- **Decoding accepts exactly the valid documents and registers exactly their reflections**, each
under its own id, as its header and its place say. -/
theorem ofWire_registers (root : WireReflection) :
    ((∃ p, Project.ofWire root = .ok p) ↔ root.IsProject) ∧
      ∀ p, Project.ofWire root = .ok p →
        (∀ id, p.contains id = true ↔ id ∈ root.rootPlacements.map Placement.id) ∧
        ∀ q ∈ root.rootPlacements, ∃ r, p.get? q.id = some r ∧ r.position q.id = q.position ∧
          r.name = q.object.header.name ∧ r.kind.bits = q.object.header.kind ∧
          r.flags = q.object.header.flags := by
  refine ⟨?_, fun p decoded => ?_⟩
  · simp [ofWire_eq_ok_iff]
  · obtain ⟨valid, rfl⟩ := ofWire_eq_ok_iff.1 decoded
    refine ⟨fun id => WireReflection.contains_project, fun q mem => ?_⟩
    obtain ⟨pre, post, split⟩ := List.append_of_mem mem
    have fits : q.IsValid := valid.valid (.object q) (mem_placements.1 mem)
    exact ⟨_, WireReflection.get?_project valid split, Placement.position_reflection _ _, rfl,
      (Placement.accepts_reflection fits _).2, rfl⟩

/-- An anonymous declaration. -/
def typeLiteral : WireReflection :=
  .ofHeader { id := 2, name := "__type", kind := 0x10000 }

/-- A variable whose type is the anonymous declaration. -/
def options : WireReflection :=
  .mk { id := 1, name := "options", kind := 0x20 } none none none none none none none
    (some (.reflection typeLiteral)) none none none none none none false

/-- A document of that variable only. -/
def optionsDocument : WireReflection :=
  .mk { id := 0, name := "library", kind := 0 } (some [options]) none none none none none none none
    none none none none none none false

theorem parts_optionsDocument : optionsDocument.rootParts = [.type (.reflection typeLiteral),
    .object ⟨.declaration, none, typeLiteral⟩, .object ⟨.declaration, none, options⟩] := rfl

theorem isProject_optionsDocument : optionsDocument.IsProject := by
  refine ⟨rfl, fun part mem => ?_, by decide⟩
  rw [parts_optionsDocument] at mem
  simp only [List.mem_cons, List.not_mem_nil, or_false] at mem
  rcases mem with rfl | rfl | rfl
  · trivial
  · exact ⟨⟨.typeLiteral, rfl, rfl⟩, by decide, by decide⟩
  · exact ⟨⟨.variable, rfl, rfl⟩, by decide, by decide⟩

/-- The anonymous declaration is registered without parent. -/
theorem ofWire_registers_anonymous : ∃ p r, Project.ofWire optionsDocument = .ok p ∧
    (∀ id, p.contains id = true ↔ id ∈ [2, 1]) ∧ p.get? 2 = some r ∧ r.parent = none := by
  obtain ⟨accepted, registers⟩ := ofWire_registers optionsDocument
  obtain ⟨p, decoded⟩ := accepted.2 isProject_optionsDocument
  obtain ⟨ids, each⟩ := registers p decoded
  obtain ⟨r, found, placed, -⟩ := each ⟨.declaration, none, typeLiteral⟩ <| by
    rw [WireReflection.rootPlacements, parts_optionsDocument]
    exact List.mem_cons_self
  exact ⟨p, r, decoded, ids, found, congrArg Position.owner placed⟩

end ApiGraph
