import ApiGraph.Reflection

/-!
# ApiGraph.Project.Registry

The registered reflections of a project, by ascending id. The order is part of the type, so a
registry is determined by what `get?` says.

* `get?`, `contains`, `size` — the views.
* `insert`, `erase`, `modify`, `mapValues` — the changes.
* `size_erase_lt` — erasing a registered id makes a registry smaller.
-/

namespace ApiGraph

/-- Reflections by ascending id. -/
structure Registry where
  entries : List (Id × Reflection)
  ascending : entries.Pairwise (fun a b => a.1 < b.1)

namespace Registry

/-! ### Views -/

/-- The registry without any reflection. -/
def empty : Registry := ⟨[], .nil⟩

instance : Inhabited Registry := ⟨empty⟩

/-- The reflection registered under an id. -/
def get? (reg : Registry) (id : Id) : Option Reflection :=
  (reg.entries.find? (·.1 == id)).map (·.2)

/-- Whether a reflection is registered under an id. -/
def contains (reg : Registry) (id : Id) : Bool :=
  (reg.get? id).isSome

/-- The number of registered reflections. -/
def size (reg : Registry) : Nat :=
  reg.entries.length

/-- The registered ids, ascending. -/
def ids (reg : Registry) : List Id :=
  reg.entries.map (·.1)

/-! ### Changes -/

/-- Puts an entry in its place, in place of one with the same id. -/
def insertEntry (id : Id) (r : Reflection) : List (Id × Reflection) → List (Id × Reflection)
  | [] => [(id, r)]
  | e :: es =>
    if id < e.1 then (id, r) :: e :: es
    else if id = e.1 then (id, r) :: es
    else e :: insertEntry id r es

theorem mem_insertEntry {id : Id} {r : Reflection} {x : Id × Reflection}
    {es : List (Id × Reflection)} (h : x ∈ insertEntry id r es) : x = (id, r) ∨ x ∈ es := by
  induction es with
  | nil => simpa [insertEntry] using h
  | cons e es ih =>
    unfold insertEntry at h
    split at h
    · simpa using h
    · split at h
      · rcases List.mem_cons.1 h with h | h
        · exact .inl h
        · exact .inr (List.mem_cons_of_mem _ h)
      · rcases List.mem_cons.1 h with h | h
        · exact .inr (h ▸ List.mem_cons_self)
        · exact (ih h).imp (fun h => h) (List.mem_cons_of_mem _)

theorem ascending_insertEntry (id : Id) (r : Reflection) {es : List (Id × Reflection)}
    (h : es.Pairwise (fun a b => a.1 < b.1)) :
    (insertEntry id r es).Pairwise (fun a b => a.1 < b.1) := by
  induction es with
  | nil => exact List.pairwise_singleton _ _
  | cons e es ih =>
    have ⟨below, tail⟩ := List.pairwise_cons.1 h
    unfold insertEntry
    split
    · next first =>
      refine List.pairwise_cons.2 ⟨fun x hx => ?_, h⟩
      rcases List.mem_cons.1 hx with rfl | hx
      · exact first
      · exact Int.lt_trans first (below x hx)
    · split
      · next same => exact List.pairwise_cons.2 ⟨fun x hx => same ▸ below x hx, tail⟩
      · next later other =>
        refine List.pairwise_cons.2 ⟨fun x hx => ?_, ih tail⟩
        rcases mem_insertEntry hx with rfl | hx
        · show e.1 < id
          grind
        · exact below x hx

/-- Registers a reflection, in place of one with the same id. -/
def insert (id : Id) (r : Reflection) (reg : Registry) : Registry :=
  ⟨insertEntry id r reg.entries, ascending_insertEntry id r reg.ascending⟩

/-- Unregisters an id. -/
def erase (id : Id) (reg : Registry) : Registry :=
  ⟨reg.entries.filter (·.1 != id), reg.ascending.filter _⟩

/-- Replaces every reflection by what `f` makes of it. -/
def mapValues (f : Id → Reflection → Reflection) (reg : Registry) : Registry :=
  ⟨reg.entries.map fun e => (e.1, f e.1 e.2), List.pairwise_map.2 reg.ascending⟩

/-- Replaces the reflection registered under an id, if there is one. -/
def modify (id : Id) (f : Reflection → Reflection) (reg : Registry) : Registry :=
  reg.mapValues fun key r => if key = id then f r else r

/-! ### Size -/

theorem size_erase_lt {reg : Registry} {id : Id} {r : Reflection} (h : reg.get? id = some r) :
    (reg.erase id).size < reg.size := by
  obtain ⟨entry, found, -⟩ := Option.map_eq_some_iff.1 h
  have mem := List.mem_of_find?_eq_some found
  have key := List.find?_some found
  refine List.length_filter_lt_length_iff_exists.2 ⟨entry, mem, ?_⟩
  simpa using key

end Registry

end ApiGraph
