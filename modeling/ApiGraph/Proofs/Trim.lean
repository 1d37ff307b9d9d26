import ApiGraph.Proofs.Everywhere

/-!
# ApiGraph.Proofs.Trim

A document is **trim** if no optional collection in it is there and empty: no type arguments, tuple
elements, owned reflections, categories or category members. What a project writes is trim.

* `WireReflection.IsTrim` — at any depth, whether it is read or not.
* `IsOrder.isTrim_rootDocument` — the document of a project.
-/

namespace ApiGraph

/-- No optional collection of a type is empty. -/
def WireType.HasNoEmpty : WireType → Prop
  | .reference _ typeArguments _ _ _ => typeArguments ≠ some []
  | .tuple elements => elements ≠ some []
  | _ => True

/-- No optional collection of a reflection is empty. -/
def WireReflection.HasNoEmpty : WireReflection → Prop
  | .mk _ children signatures _ _ _ typeParameters parameters _ _ _ _ _ _ categories _ =>
    children ≠ some [] ∧ signatures ≠ some [] ∧ typeParameters ≠ some [] ∧ parameters ≠ some [] ∧
      categories ≠ some [] ∧ ∀ c ∈ categories.getD [], c.children ≠ some []

/-- No optional collection in a reflection is empty, at any depth. -/
def WireReflection.IsTrim (r : WireReflection) : Prop :=
  r.Everywhere WireType.HasNoEmpty WireReflection.HasNoEmpty

variable {p : Project} {tree : Id → WireReflection}

theorem nonEmpty?_ne_some_nil {α : Type} (items : List α) : nonEmpty? items ≠ some [] := by
  cases items <;> simp [nonEmpty?]

theorem hasNoEmpty_listToWire (categories : List Category) :
    Category.listToWire categories ≠ some [] ∧
      ∀ c ∈ (Category.listToWire categories).getD [], c.children ≠ some [] := by
  refine ⟨nonEmpty?_ne_some_nil _, fun c mem => ?_⟩
  rw [getD_listToWire] at mem
  obtain ⟨c', -, rfl⟩ := List.mem_map.1 mem
  exact nonEmpty?_ne_some_nil _

theorem TypeExpr.hasNoEmpty_written (t : TypeExpr) : (t.written p tree).HasNoEmpty := by
  cases t with
  | reference link arguments => exact nonEmpty?_ne_some_nil _
  | tuple elements => exact nonEmpty?_ne_some_nil _
  | _ => trivial

theorem Body.hasNoEmpty_written (header : WireHeader) (b : Body) :
    (b.written p tree header).HasNoEmpty := by
  have none {α : Type} : (none : Option (List α)) ≠ some [] := nofun
  cases b with
  | declaration d =>
      exact ⟨nonEmpty?_ne_some_nil _, nonEmpty?_ne_some_nil _, nonEmpty?_ne_some_nil _, none,
        hasNoEmpty_listToWire d.categories⟩
  | signature s =>
      exact ⟨none, none, nonEmpty?_ne_some_nil _, nonEmpty?_ne_some_nil _, none, nofun⟩
  | parameter q => exact ⟨none, none, none, none, none, nofun⟩
  | typeParameter q => exact ⟨none, none, none, none, none, nofun⟩

/-- The document of a project is trim. -/
theorem Project.IsOrder.isTrim_rootDocument {l : List Position} (h : p.IsOrder l) (config : Config) :
    (p.rootDocument config).IsTrim := by
  have none {α : Type} : (none : Option (List α)) ≠ some [] := nofun
  refine h.everywhere_rootDocument TypeExpr.hasNoEmpty_written (fun id r found => ?_) ?_
  · rw [h.document_eq found]
    exact Body.hasNoEmpty_written _ r.body
  · exact ⟨nonEmpty?_ne_some_nil _, none, none, none, hasNoEmpty_listToWire p.categories⟩

end ApiGraph
