import ApiGraph.Proofs.Codec
import ApiGraph.Proofs.RoundTrip

/-!
# ApiGraph.Proofs.Representable

What a project writes is representable: ids of registered reflections, kinds, and numbers that are
finite or safe integers.

* `IsOrder.isRepresentable_rootDocument` — the document of a project.
-/

namespace ApiGraph

variable {p : Project} {tree : Id → WireReflection}

/-! ### Numbers -/

/-- Ids that are registered have 32 bits. -/
theorem Project.IsAdmissible.isId (h : p.IsAdmissible) {id : Id} (known : p.contains id = true) :
    IsId id := by
  obtain ⟨r, found⟩ := Registry.contains_iff.1 known
  obtain ⟨positive, bounded, -⟩ := h id r found
  unfold maxId at bounded
  exact ⟨by grind, by grind⟩

theorem Kind.bits_lt (kind : Kind) : kind.bits < 4294967296 := by
  cases kind <;> decide

/-- What a literal is written as is in range. -/
theorem Literal.inRange_toWire (l : Literal) : (WireType.literal l.toWire).InRange := by
  cases l with
  | number x =>
      rcases x.toWire_cases with ⟨-, written⟩ | ⟨finite, written⟩ | ⟨n, -, safe, written⟩
      · rw [toWire, written]
        trivial
      · rw [toWire, written]
        exact finite
      · rw [toWire, written]
        exact ⟨by omega, by omega⟩
  | _ => trivial

theorem categoriesInRange_listToWire {categories : List Category}
    (h : ∀ c ∈ categories, ∀ id ∈ c.children, IsId id) :
    CategoriesInRange (Category.listToWire categories) := by
  intro cs written c mem ids children id child
  have inside : c ∈ (Category.listToWire categories).getD [] := by
    rw [Option.mem_def.1 written]
    exact mem
  rw [getD_listToWire] at inside
  obtain ⟨c', mem', rfl⟩ := List.mem_map.1 inside
  refine h c' mem' id ?_
  cases empty : c'.children with
  | nil => simp [empty, nonEmpty?] at children
  | cons x xs => simp_all [nonEmpty?]

/-! ### Written nodes -/

theorem TypeExpr.inRange_written (admissible : p.IsAdmissible) (t : TypeExpr) :
    (t.written p tree).InRange := by
  cases t with
  | literal value => exact value.inRange_toWire
  | reference link arguments =>
      exact fun id resolved => admissible.isId (Project.contains_of_resolve? resolved)
  | _ => trivial

theorem Body.inRange_written {header : WireHeader} (b : Body) (id : IsId header.id)
    (kind : header.kind < 4294967296) (members : ∀ c ∈ b.categories, ∀ id ∈ c.children, IsId id) :
    (b.written p tree header).InRange := by
  cases b with
  | declaration d => exact ⟨id, kind, categoriesInRange_listToWire members⟩
  | _ => exact ⟨id, kind, nofun⟩

/-- The document of a project is representable, if the members of its categories are registered. -/
theorem Project.IsOrder.isRepresentable_rootDocument {l : List Position} (h : p.IsOrder l)
    (admissible : p.IsAdmissible) (members : p.OrdersMembers l)
    (categories : HasMembers p.contains p.categories) (config : Config) :
    (p.rootDocument config).IsRepresentable := by
  refine h.everywhere_rootDocument (TypeExpr.inRange_written admissible) (fun id r found => ?_) ?_
  · -- members of categories stand before the declaration, so they are registered
    have known : p.contains id = true := Registry.contains_iff.2 ⟨r, found⟩
    obtain ⟨q, mem, rfl⟩ := List.mem_map.1 (h.covers id known)
    obtain ⟨pre, post, split⟩ := List.append_of_mem mem
    rw [h.document_eq found]
    refine r.body.inRange_written (admissible.isId known) r.kind.bits_lt fun c mem id child => ?_
    have before := members pre q post r split found c mem id child
    refine admissible.isId (h.contains_iff.2 ?_)
    rw [split, List.map_append]
    exact List.mem_append_left _ before
  · have root : IsId 0 := ⟨by decide, by decide⟩
    refine ⟨root, Kind.bits_lt .project, categoriesInRange_listToWire ?_⟩
    exact fun c mem id child => admissible.isId (categories c mem id child)

theorem Project.IsStable.isRepresentable_rootDocument {l : List Position} (h : p.IsStable l)
    (config : Config) : (p.rootDocument config).IsRepresentable :=
  h.order.isRepresentable_rootDocument h.admissible h.members h.categories config

end ApiGraph
