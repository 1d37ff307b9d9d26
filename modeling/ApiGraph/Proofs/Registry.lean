import Mathlib.Data.List.Nodup
import Mathlib.Data.List.Perm.Basic
import ApiGraph.Project.Basic

/-!
# ApiGraph.Proofs.Registry

The laws of the registry: what `get?` says after each change, and the entries as a duplicate-free
list of everything that `get?` knows.

* `get?_insert`, `get?_erase`, `get?_mapValues`, `get?_modify` — one law for each change.
* `mem_entries_iff` — an entry is what `get?` returns, and `eq_of_get?_eq` — nothing else counts.
* `Project.contains_of_resolve?` — a reference leads to a registered reflection.
-/

namespace ApiGraph.Registry

variable {reg : Registry} {id key : Id} {r : Reflection}

/-! ### Entries -/

/-- No id is registered twice. -/
theorem nodup_ids (reg : Registry) : reg.ids.Nodup := by
  refine List.Pairwise.map _ (fun a b h => ?_) reg.ascending
  exact Int.ne_of_lt h

/-- The entries are exactly what `get?` returns. -/
theorem mem_entries_iff : (id, r) ∈ reg.entries ↔ reg.get? id = some r := by
  constructor
  · intro h
    unfold get?
    cases found : reg.entries.find? (·.1 == id) with
    | none => simpa using List.find?_eq_none.1 found _ h
    | some entry =>
        -- the first hit is the only one, since no key is repeated
        have same : entry.1 = id := by simpa using List.find?_some found
        have mem := List.mem_of_find?_eq_some found
        obtain rfl : entry = (id, r) :=
          List.inj_on_of_nodup_map reg.nodup_ids mem h same
        rfl
  · intro h
    obtain ⟨entry, found, rfl⟩ := Option.map_eq_some_iff.1 h
    have same : entry.1 = id := by simpa using List.find?_some found
    have mem := List.mem_of_find?_eq_some found
    rwa [← same]

/-- A registry is determined by what `get?` says. -/
theorem eq_of_get?_eq {a b : Registry} (same : ∀ id, a.get? id = b.get? id) : a = b := by
  have distinct (reg : Registry) : reg.entries.Nodup := .of_map _ reg.nodup_ids
  have perm : a.entries.Perm b.entries := by
    refine (List.perm_ext_iff_of_nodup (distinct a) (distinct b)).2 fun (id, r) => ?_
    rw [mem_entries_iff, mem_entries_iff, same]
  have entries := perm.eq_of_pairwise (fun x y _ _ before after => absurd before (Int.lt_asymm after))
    a.ascending b.ascending
  cases a
  cases b
  subst entries
  rfl

theorem contains_iff : reg.contains id = true ↔ ∃ r, reg.get? id = some r :=
  Option.isSome_iff_exists

/-- The registered ids are those of the entries. -/
theorem mem_ids_iff : id ∈ reg.ids ↔ reg.contains id = true := by
  simp [ids, contains_iff, ← mem_entries_iff]

/-! ### Changes -/

@[simp] theorem get?_empty (id : Id) : empty.get? id = none := rfl

private theorem find?_insertEntry (key id : Id) (r : Reflection) (es : List (Id × Reflection)) :
    (insertEntry id r es).find? (·.1 == key) =
      if key = id then some (id, r) else es.find? (·.1 == key) := by
  induction es with
  | nil => by_cases h : key = id <;> simp [insertEntry, h, Ne.symm]
  | cons e es ih =>
      unfold insertEntry
      split
      · by_cases h : key = id
        · simp [h]
        · simp [h, Ne.symm h]
      · split
        · next same =>
            by_cases h : key = id
            · simp [h]
            · have other : ¬e.1 = key := fun he => h (he ▸ same.symm)
              simp [h, Ne.symm h, other]
        · next _ other =>
            by_cases h : key = id
            · have later : ¬e.1 = id := fun he => other he.symm
              rw [List.find?_cons_of_neg (by simpa [h] using later), ih, if_pos h]
              simp [h]
            · simp [List.find?_cons, ih, h]

@[simp] theorem get?_insert (reg : Registry) (id : Id) (r : Reflection) (key : Id) :
    (reg.insert id r).get? key = if key = id then some r else reg.get? key := by
  unfold get? insert
  rw [find?_insertEntry]
  split <;> rfl

@[simp] theorem get?_erase (reg : Registry) (id key : Id) :
    (reg.erase id).get? key = if key = id then none else reg.get? key := by
  refine Option.ext fun r => ?_
  rw [← mem_entries_iff]
  by_cases h : key = id
  · simp [erase, h]
  · simp [erase, h, mem_entries_iff]

@[simp] theorem get?_mapValues (f : Id → Reflection → Reflection) (reg : Registry) (key : Id) :
    (reg.mapValues f).get? key = (reg.get? key).map (f key) := by
  refine Option.ext fun r => ?_
  rw [← mem_entries_iff, Option.map_eq_some_iff]
  constructor
  · intro h
    obtain ⟨⟨k, r'⟩, mem, same⟩ := List.mem_map.1 h
    obtain ⟨rfl, rfl⟩ := Prod.mk.inj same
    exact ⟨r', mem_entries_iff.1 mem, rfl⟩
  · rintro ⟨r', found, rfl⟩
    exact List.mem_map.2 ⟨(key, r'), mem_entries_iff.2 found, rfl⟩

@[simp] theorem get?_modify (reg : Registry) (id : Id) (f : Reflection → Reflection) (key : Id) :
    (reg.modify id f).get? key = if key = id then (reg.get? key).map f else reg.get? key := by
  unfold modify
  rw [get?_mapValues]
  split
  · rfl
  · cases reg.get? key <;> rfl

@[simp] theorem contains_insert (reg : Registry) (id : Id) (r : Reflection) (key : Id) :
    (reg.insert id r).contains key = (decide (key = id) || reg.contains key) := by
  by_cases h : key = id <;> simp [contains, h]

@[simp] theorem contains_mapValues (f : Id → Reflection → Reflection) (reg : Registry) (key : Id) :
    (reg.mapValues f).contains key = reg.contains key := by
  simp [contains]

@[simp] theorem contains_modify (reg : Registry) (id : Id) (f : Reflection → Reflection) (key : Id) :
    (reg.modify id f).contains key = reg.contains key :=
  contains_mapValues _ _ _

end ApiGraph.Registry

/-! ### References -/

namespace ApiGraph.Project

theorem contains_of_resolve? {p : Project} {target : Target} {id : Id}
    (h : p.resolve? target = some id) : p.contains id = true := by
  cases target with
  | symbol s => exact (Option.filter_eq_some_iff.1 h).2
  | reflection id' =>
      simp only [resolve?] at h
      split at h
      · next known =>
          cases h
          exact known
      · cases h

end ApiGraph.Project
