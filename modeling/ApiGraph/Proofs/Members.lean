import ApiGraph.Proofs.Bodies
import ApiGraph.Proofs.Decoded

/-!
# ApiGraph.Proofs.Members

Which category members survive decoding. The project's categories are read last and keep every member
that is registered. Those of a declaration are read when the declaration is registered and keep what
was registered before it: all that it owns, and whatever else comes earlier in the document, but
nothing that comes later.

* `membersOf`, `readCategories_eq_iff` — when two ways of knowing ids keep the same members.
* `WireReflection.categories_body` — the categories that a declaration is registered with.
* `categories_of_ofWire` — the members that a decoded project has kept.
-/

namespace ApiGraph

variable {known known' : Id → Bool} {cs : Option (List WireCategory)} {id : Id}

/-- The ids that the categories of a document list. -/
def membersOf (cs : Option (List WireCategory)) : List Id :=
  (cs.getD []).flatMap fun c => c.children.getD []

/-- The same members are kept exactly if the same ones are known. -/
theorem readCategories_eq_iff : readCategories known cs = readCategories known' cs ↔
    ∀ id ∈ membersOf cs, known id = known' id := by
  simp only [readCategories, List.map_inj_left, Category.mk.injEq, true_and, membersOf,
    List.mem_flatMap]
  constructor
  · rintro same id ⟨c, mem, inside⟩
    have kept : id ∈ (c.children.getD []).filter known ↔ id ∈ (c.children.getD []).filter known' := by
      rw [same c mem]
    rw [List.mem_filter, List.mem_filter] at kept
    rw [Bool.eq_iff_iff]
    exact ⟨fun h => (kept.1 ⟨inside, h⟩).2, fun h => (kept.2 ⟨inside, h⟩).2⟩
  · intro same c mem
    exact List.filter_congr fun id inside => same id ⟨c, mem, inside⟩

/-- A declaration is registered with the categories that its place in the document has. -/
theorem WireReflection.categories_body (known : Id → Bool) (r : WireReflection) :
    (r.body known .declaration).categories = readCategories known r.rootCategories := by
  cases r
  rfl

/-- **The members that decoding keeps.** In the categories of the project these are the ones that are
registered; in those of a declaration, the ones that were registered before it. So a declaration keeps
all registered members exactly if these come before it, as everything does that it owns. -/
theorem categories_of_ofWire (root : WireReflection) (p : Project)
    (decoded : Project.ofWire root = .ok p) :
    p.categories = readCategories p.contains root.rootCategories ∧
      ∀ pre q post, root.rootPlacements = pre ++ q :: post → q.role = .declaration →
        ∃ r, p.get? q.id = some r ∧
          r.body.categories =
            readCategories (fun id => decide (id ∈ pre.map Placement.id)) q.object.rootCategories ∧
          (r.body.categories = readCategories p.contains q.object.rootCategories ↔
            ∀ id ∈ membersOf q.object.rootCategories, p.contains id = true →
              id ∈ pre.map Placement.id) ∧
          ∀ id, Relation.TransGen p.Owns q.id id → id ∈ pre.map Placement.id := by
  obtain ⟨valid, rfl⟩ := ofWire_eq_ok_iff.1 decoded
  refine ⟨rfl, fun pre q post split role => ?_⟩
  have before : (root.start.fill pre).project.contains =
      fun id => decide (id ∈ pre.map Placement.id) := by
    have nothing (id : Id) : root.start.project.contains id ≠ true := Bool.false_ne_true
    funext id
    rw [Bool.eq_iff_iff, Decoding.contains_fill, or_iff_right (nothing id), decide_eq_true_iff]
  have categories : (q.reflection (root.start.fill pre).project.contains).body.categories =
      readCategories (fun id => decide (id ∈ pre.map Placement.id)) q.object.rootCategories := by
    rw [Placement.reflection, role, WireReflection.categories_body, before]
  refine ⟨_, WireReflection.get?_project valid split, categories, ?_, fun id path => ?_⟩
  · rw [categories, readCategories_eq_iff]
    refine forall₂_congr fun id _ => ?_
    have registered : id ∈ pre.map Placement.id → root.project.contains id = true := by
      intro mem
      rw [WireReflection.contains_project, split, List.map_append]
      exact List.mem_append_left _ mem
    rw [Bool.eq_iff_iff, decide_eq_true_iff]
    exact ⟨fun same => same.2, fun known => ⟨registered, known⟩⟩
  · have order := (WireReflection.isOrder_project valid).postOrder
    rw [split, List.map_append, List.map_cons] at order
    have earlier := order.mem_before_of_transGen rfl path
    rwa [List.map_map] at earlier

/-! ### An example -/

/-- A namespace with a category of related declarations. -/
def tools : WireReflection :=
  .mk { id := 1, name := "tools", kind := 2 } none none none none none none none none none none none
    none none (some [{ title := "Related", children := some [2] }]) false

/-- A variable. -/
def settings : WireReflection :=
  .ofHeader { id := 2, name := "settings", kind := 0x20 }

/-- A document of some declarations. -/
def libraryOf (children : List WireReflection) : WireReflection :=
  .mk { id := 0, name := "library", kind := 0 } (some children) none none none none none none none
    none none none none none none false

/-- The member that comes first is kept. -/
theorem categories_settingsFirst : ∃ p r, Project.ofWire (libraryOf [settings, tools]) = .ok p ∧
    p.get? 1 = some r ∧ r.body.categories = [{ title := "Related", children := [2] }] := by
  obtain ⟨p, decoded⟩ : ∃ p, Project.ofWire (libraryOf [settings, tools]) = .ok p := ⟨_, rfl⟩
  obtain ⟨-, each⟩ := categories_of_ofWire (libraryOf [settings, tools]) p decoded
  obtain ⟨r, found, categories, -⟩ :=
    each [⟨.declaration, none, settings⟩] ⟨.declaration, none, tools⟩ [] rfl rfl
  exact ⟨p, r, decoded, found, categories⟩

/-- The same member is dropped where it comes last, although it is registered in the end. -/
theorem categories_toolsFirst : ∃ p r, Project.ofWire (libraryOf [tools, settings]) = .ok p ∧
    p.contains 2 = true ∧ p.get? 1 = some r ∧
      r.body.categories = [{ title := "Related", children := [] }] :=
  ⟨_, _, rfl, rfl, rfl, rfl⟩

end ApiGraph
