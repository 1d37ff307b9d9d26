import ApiGraph.Project.Listing
import ApiGraph.Proofs.Traversal

/-!
# ApiGraph.Proofs.Listing

What the listing of a project leaves out. It has a line for each reflection that walks from the top
level enter, indented below the line of its owner. A declaration that is named deeper inside a type, or
by a type parameter, is entered by no walk, so it has no line, and neither has anything that it owns.

* `Project.entries`, `Project.listing_eq` — the lines as data.
* `Project.Hides`, `Project.IsForest.owns_iff` — what an owner holds and no walk enters.
* `Project.IsForest.nodup_descend` — a walk meets everything once.
* `Project.IsOutline` — each line stands below the line of its owner.
* `listing_of_ofWire` — the listing of a decoded project, and when it is complete.
-/

namespace ApiGraph

/-! ### Lines -/

/-- A line of the listing, as data. -/
structure Entry where
  depth : Nat
  id : Id
  reflection : Reflection

/-- The line of something below a top-level declaration. -/
def Visit.entry (v : Visit) : Entry :=
  { depth := v.depth + 2, id := v.id, reflection := v.reflection }

namespace Project

variable {p : Project} {owner id x y : Id} {r : Reflection} {levels depth : Nat}

/-- The lines of a top-level declaration and everything that a walk below it enters. -/
def entriesOf (p : Project) (id : Id) : List Entry :=
  match p.get? id with
  | none => []
  | some r => { depth := 1, id, reflection := r } :: (p.descendants id).map Visit.entry

/-- The lines below the project's own. -/
def entries (p : Project) : List Entry :=
  p.children.flatMap p.entriesOf

theorem listingOf_eq (p : Project) (id : Id) :
    p.listingOf id = String.join ((p.entriesOf id).map fun e => p.line e.depth e.reflection) := by
  unfold listingOf entriesOf
  cases p.get? id with
  | none => rfl
  | some r => rw [List.map_cons, List.map_map, String.join_cons]; rfl

/-- The listing is the project's line and those of its entries. -/
theorem listing_eq (p : Project) : p.listing = "Project " ++ p.name ++ "\n" ++
    String.join (p.entries.map fun e => p.line e.depth e.reflection) := by
  unfold listing entries
  congr 1
  induction p.children with
  | nil => rfl
  | cons id ids ih =>
      rw [List.map_cons, String.join_cons, List.flatMap_cons, List.map_append, String.join_append, ih,
        listingOf_eq]

/-! ### What no walk enters -/

/-- The types of a reflection name a declaration, but not as its whole main type, or it is a type
parameter. -/
def Hides (p : Project) (owner y : Id) : Prop :=
  ∃ o, p.get? owner = some o ∧ y ∈ o.body.anonymous ∧
    (o.typeLiteral? = some y → ∃ t, o.body = .typeParameter t)

namespace IsForest

variable (h : p.IsForest)
include h

/-- What is hidden is owned, and no walk goes there. -/
theorem not_walks_of_hides (hides : p.Hides owner x) : ¬p.Walks owner x := by
  intro walks
  obtain ⟨o, found, named, literal⟩ := hides
  obtain ⟨-, o', found', mem⟩ := walks_iff.1 walks
  obtain rfl := Option.some.inj (found.symm.trans found')
  obtain ⟨owned, noParameter⟩ := Reflection.mem_slots.1 mem
  rcases (Reflection.mem_owned owner).1 owned with same | listed
  · obtain ⟨t, body⟩ := literal same
    exact noParameter t body
  · exact h.notMem_listed (mem_anonymous.2 ⟨owner, o, found, named⟩)
      (mem_ids_listed.2 (.inr ⟨owner, o, found, listed⟩))

/-- An owner's walk enters what it does not hide. -/
theorem owns_iff_walks_or_hides : p.Owns owner x ↔ p.Walks owner x ∨ p.Hides owner x := by
  constructor
  · intro owned
    have known := h.contains_of_owns owned
    rcases owns_iff.1 owned with ⟨o, found, listed⟩ | named
    · refine .inl (walks_iff.2 ⟨known, o, found, Reflection.mem_slots.2 ⟨?_, ?_⟩⟩)
      · exact (Reflection.mem_owned owner).2 (.inr listed)
      · intro t body
        simp [body, Body.listed] at listed
    · obtain ⟨o, found, named⟩ := exists_of_mem_named named
      by_cases literal : o.typeLiteral? = some x ∧ ∀ t, o.body ≠ .typeParameter t
      · refine .inl (walks_iff.2 ⟨known, o, found, Reflection.mem_slots.2 ⟨?_, literal.2⟩⟩)
        exact (Reflection.mem_owned owner).2 (.inl literal.1)
      · exact .inr ⟨o, found, named, fun same => by simpa [same] using literal⟩
  · rintro (walks | ⟨o, found, named, -⟩)
    · exact walks.takesAlong.owns
    · exact owns_iff.2 (.inr (named_eq found ▸ named))

/-! ### One way up -/

/-- Of two that own something, directly or through others, one owns the other. -/
theorem path_total {a b : Id} (above : Relation.ReflTransGen p.Owns a x)
    (above' : Relation.ReflTransGen p.Owns b x) :
    Relation.ReflTransGen p.Owns a b ∨ Relation.ReflTransGen p.Owns b a := by
  have unique : Relator.RightUnique (Function.swap p.Owns) :=
    fun x owner other owned owned' => h.holdsOnce.unique x owner other trivial trivial owned owned'
  have total := Relation.ReflTransGen.total_of_right_unique unique (Relation.reflTransGen_swap.2 above)
    (Relation.reflTransGen_swap.2 above')
  simpa only [Relation.reflTransGen_swap, or_comm] using total

/-- Nothing owns what stands at the top level. -/
theorem eq_of_path_top {a top : Id} (child : top ∈ p.children)
    (above : Relation.ReflTransGen p.Owns a top) : a = top := by
  rcases above.cases_tail with rfl | ⟨owner, -, owned⟩
  · rfl
  · exact absurd owned (h.holdsOnce.apart top child owner trivial)

theorem eq_of_tops {top top' : Id} (child : top ∈ p.children) (child' : top' ∈ p.children)
    (above : Relation.ReflTransGen p.Owns top x) (above' : Relation.ReflTransGen p.Owns top' x) :
    top = top' := by
  rcases h.path_total above above' with path | path
  · exact h.eq_of_path_top child' path
  · exact (h.eq_of_path_top child path).symm

/-- What stands below two reflections of one owner stands below one of them only. -/
theorem eq_of_siblings {y' : Id} (owned : p.Owns owner y) (owned' : p.Owns owner y')
    (above : Relation.ReflTransGen p.Owns y x) (above' : Relation.ReflTransGen p.Owns y' x) :
    y = y' := by
  -- a sibling above the other would be above their owner, which owns it
  have apart {a b : Id} (first : p.Owns owner a) (second : p.Owns owner b)
      (path : Relation.ReflTransGen p.Owns a b) : a = b := by
    rcases path.cases_tail with rfl | ⟨z, path, last⟩
    · rfl
    · obtain rfl := h.holdsOnce.unique b z owner trivial trivial last second
      exact absurd (.tail' path first) (h.acyclic a)
  rcases h.path_total above above' with path | path
  · exact apart owned owned' path
  · exact (apart owned' owned path).symm

/-! ### Each line once -/

omit h in
theorem path_of_walks (path : Relation.ReflTransGen p.Walks id x) :
    Relation.ReflTransGen p.Owns id x :=
  Relation.ReflTransGen.mono (fun _ _ walks => walks.takesAlong.owns) id x path

omit h in
/-- A reflection has no more slots than it holds ids. -/
theorem count_slots_le (r : Reflection) (self x : Id) :
    (r.slots.map Prod.fst).count x ≤ ((r.body.positions self).map Position.id).count x := by
  have literal : r.typeLiteral?.toList.count x ≤ (TypeExpr.anonymousOption r.body.type).count x := by
    rcases literal : r.typeLiteral? with _ | y
    · exact Nat.zero_le _
    · obtain ⟨t, type, declaration⟩ := Option.bind_eq_some_iff.1 literal
      rw [show r.body.type = some t from type]
      cases t with
      | reflection z =>
          obtain rfl := Option.some.inj declaration
          exact Nat.le_refl _
      | _ => cases declaration
  cases body : r.body with
  | declaration d =>
      simp [Reflection.slots, body, Body.positions, Function.comp_def, Body.type] at literal ⊢
      omega
  | signature s =>
      simp [Reflection.slots, body, Body.positions, Function.comp_def, Body.type] at literal ⊢
      omega
  | parameter q =>
      simpa [Reflection.slots, body, Body.positions, Function.comp_def, Body.type] using literal
  | typeParameter q => simp [Reflection.slots, body]

/-- The steps of a walk lead to different reflections. -/
theorem nodup_steps (id : Id) : ((p.steps id).map Visit.id).Nodup := by
  unfold steps
  cases found : p.get? id with
  | none => exact .nil
  | some o =>
      have held := h.holdsOnce.each id trivial
      rw [held_eq found, List.nodup_iff_count_le_one] at held
      have slots : (o.slots.map Prod.fst).Nodup :=
        List.nodup_iff_count_le_one.2 fun x => (count_slots_le o id x).trans (held x)
      have part (l : List (Id × Slot)) : ((l.filterMap fun s => (p.get? s.1).map fun reflection =>
          ({ id := s.1, reflection, slot := s.2 } : Visit)).map Visit.id).Sublist (l.map Prod.fst) := by
        induction l with
        | nil => exact .slnil
        | cons s l ih =>
            cases known : p.get? s.1 with
            | none => simpa [known] using ih.cons s.1
            | some r => simpa [known] using ih.cons_cons s.1
      exact (part o.slots).nodup slots

omit h in
theorem walks_of_mem_steps {v : Visit} (mem : v ∈ p.steps id) : p.Walks id v.id :=
  List.mem_map_of_mem mem

/-- **A walk meets everything once.** -/
theorem nodup_descend : ((p.descend levels depth id).map Visit.id).Nodup := by
  induction levels generalizing depth id with
  | zero => exact .nil
  | succ levels ih =>
      have each : (p.descend (levels + 1) depth id).map Visit.id = (p.steps id).flatMap fun v =>
          v.id :: (p.descend levels (depth + 1) v.id).map Visit.id := by
        simp only [descend, List.map_flatMap, List.map_cons]
      have below {v x : Id} (mem : x ∈ v :: (p.descend levels (depth + 1) v).map Visit.id) :
          Relation.ReflTransGen p.Owns v x := by
        rcases List.mem_cons.1 mem with rfl | mem
        · exact .refl
        · exact path_of_walks (path_of_mem_descend mem).to_reflTransGen
      rw [each, List.nodup_flatMap]
      constructor
      · intro v _
        exact List.nodup_cons.2 ⟨fun mem => h.not_walks_self v.id (path_of_mem_descend mem), ih⟩
      · have distinct := List.pairwise_map.1 (h.nodup_steps id)
        refine List.Pairwise.imp_of_mem (fun {v w} mem mem' differ x inside inside' => ?_) distinct
        exact differ (h.eq_of_siblings (walks_of_mem_steps mem).takesAlong.owns
          (walks_of_mem_steps mem').takesAlong.owns (below inside) (below inside'))

/-- An entry stands for what a walk from a top-level declaration enters. -/
theorem mem_entriesOf_iff (known : p.contains id = true) :
    x ∈ (p.entriesOf id).map Entry.id ↔ Relation.ReflTransGen p.Walks id x := by
  obtain ⟨r, found⟩ := Registry.contains_iff.1 known
  have visited : x ∈ p.visited id ↔ Relation.TransGen p.Walks id x := h.mem_visited_iff
  have found : p.get? id = some r := found
  rw [entriesOf, found, List.map_cons, List.map_map, List.mem_cons,
    Relation.reflTransGen_iff_eq_or_transGen, ← visited, visited_eq]
  rfl

theorem contains_top (child : id ∈ p.children) : p.contains id = true := by
  obtain ⟨r, found, -⟩ := h.placed _ (mem_positions_top child)
  exact Registry.contains_iff.2 ⟨r, found⟩

theorem mem_entries_iff : x ∈ p.entries.map Entry.id ↔
    ∃ top ∈ p.children, Relation.ReflTransGen p.Walks top x := by
  rw [entries, List.map_flatMap, List.mem_flatMap]
  exact exists_congr fun top => and_congr_right fun child => h.mem_entriesOf_iff (h.contains_top child)

/-- **No reflection has two lines.** -/
theorem nodup_entries : (p.entries.map Entry.id).Nodup := by
  rw [entries, List.map_flatMap, List.nodup_flatMap]
  constructor
  · intro top child
    cases found : p.get? top with
    | none => simp [entriesOf, found]
    | some r =>
        have below : top ∉ (p.descendants top).map Visit.id := fun mem =>
          h.not_walks_self top (path_of_mem_descend mem)
        rw [entriesOf, found, List.map_cons, List.map_map]
        exact List.nodup_cons.2 ⟨below, h.nodup_descend⟩
  · refine List.Pairwise.imp_of_mem (fun {a b} child child' differ x mem mem' => ?_) h.holdsOnce.top
    have path := (h.mem_entriesOf_iff (h.contains_top child)).1 mem
    have path' := (h.mem_entriesOf_iff (h.contains_top child')).1 mem'
    exact differ (h.eq_of_tops child child' (path_of_walks path) (path_of_walks path'))

/-- **What has a line** is what stands below nothing hidden. -/
theorem mem_entries_iff_not_hidden : x ∈ p.entries.map Entry.id ↔
    p.contains x = true ∧ ∀ owner y, p.Hides owner y → ¬Relation.ReflTransGen p.Owns y x := by
  have once := h.holdsOnce
  rw [h.mem_entries_iff]
  constructor
  · rintro ⟨top, child, path⟩
    refine ⟨?_, fun owner y hides below => ?_⟩
    · rcases path.cases_tail with rfl | ⟨z, -, last⟩
      · exact h.contains_top child
      · exact (walks_iff.1 last).1
    · have owned : p.Owns owner y := h.owns_iff_walks_or_hides.2 (.inr hides)
      -- upwards there is one way only, and it meets the step that no walk takes
      induction below with
      | refl =>
          rcases path.cases_tail with rfl | ⟨z, -, last⟩
          · exact once.apart y child owner trivial owned
          · obtain rfl := once.unique y z owner trivial trivial last.takesAlong.owns owned
            exact h.not_walks_of_hides hides last
      | @tail z x _ step ih =>
          rcases path.cases_tail with rfl | ⟨w, path, last⟩
          · exact once.apart x child z trivial step
          · obtain rfl := once.unique x w z trivial trivial last.takesAlong.owns step
            exact ih path
  · rintro ⟨known, seen⟩
    obtain ⟨top, child, path⟩ := h.reaches x (Registry.mem_ids_iff.2 known)
    refine ⟨top, child, ?_⟩
    clear known
    induction path with
    | refl => exact .refl
    | @tail z x _ owned ih =>
        refine (ih fun owner y hides below => seen owner y hides (below.tail owned)).tail ?_
        exact (h.owns_iff_walks_or_hides.1 owned).resolve_right fun hides => seen z x hides .refl

/-- Everything has a line exactly if nothing is hidden. -/
theorem forall_mem_entries_iff : (∀ x, p.contains x = true → x ∈ p.entries.map Entry.id) ↔
    ∀ owner y, ¬p.Hides owner y := by
  constructor
  · intro all owner y hides
    have owned : p.Owns owner y := h.owns_iff_walks_or_hides.2 (.inr hides)
    exact (h.mem_entries_iff_not_hidden.1 (all y (h.contains_of_owns owned))).2 owner y hides .refl
  · intro free x known
    exact h.mem_entries_iff_not_hidden.2 ⟨known, fun owner y hides => absurd hides (free owner y)⟩

end IsForest

/-! ### Indentation -/

/-- Each line that is not one of `tops` stands below the line of its owner: that one is a level less
deep, and only deeper lines stand between. -/
def IsOutline (p : Project) (tops : Entry → Prop) (l : List Entry) : Prop :=
  ∀ pre e post, l = pre ++ e :: post → tops e ∨
    ∃ above o between, pre = above ++ o :: between ∧ p.Owns o.id e.id ∧ e.depth = o.depth + 1 ∧
      ∀ m ∈ between, o.depth < m.depth

namespace IsOutline

variable {tops : Entry → Prop} {l l' : List Entry} {o : Entry}

theorem nil : p.IsOutline tops [] := by
  intro pre e post split
  cases pre <;> cases split

theorem append (h : p.IsOutline tops l) (h' : p.IsOutline tops l') : p.IsOutline tops (l ++ l') := by
  intro pre e post split
  rcases List.append_eq_append_iff.1 split with ⟨before, rfl, later⟩ | ⟨after, rfl, later⟩
  · refine (h' before e post later).imp_right ?_
    rintro ⟨above, o, between, rfl, line⟩
    exact ⟨l ++ above, o, between, (List.append_assoc ..).symm, line⟩
  · cases after with
    | nil =>
        refine (h' [] e post later.symm).imp_right ?_
        rintro ⟨above, o, between, empty, -⟩
        exact absurd empty.symm (by simp)
    | cons a after =>
        obtain rfl : e = a := (List.cons.inj later).1
        exact h pre e after rfl

theorem flatMap {α : Type} {f : α → List Entry} {items : List α}
    (each : ∀ a ∈ items, p.IsOutline tops (f a)) : p.IsOutline tops (items.flatMap f) := by
  induction items with
  | nil => exact .nil
  | cons a items ih =>
      rw [List.flatMap_cons]
      exact (each a List.mem_cons_self).append (ih fun b mem => each b (List.mem_cons_of_mem _ mem))

/-- A line with the lines of what it owns below it. -/
theorem cons (h : p.IsOutline (fun e => p.Owns o.id e.id ∧ e.depth = o.depth + 1) l)
    (deeper : ∀ m ∈ l, o.depth < m.depth) (top : tops o) : p.IsOutline tops (o :: l) := by
  intro pre e post split
  cases pre with
  | nil =>
      obtain rfl : o = e := (List.cons.inj split).1
      exact .inl top
  | cons a pre =>
      obtain ⟨rfl, rfl⟩ := List.cons.inj split
      rcases h pre e post rfl with ⟨owned, depth⟩ | ⟨above, o', between, rfl, line⟩
      · refine .inr ⟨[], o, pre, rfl, owned, depth, fun m mem => ?_⟩
        exact deeper m (List.mem_append_left _ mem)
      · exact .inr ⟨o :: above, o', between, rfl, line⟩

end IsOutline

theorem get?_of_mem_descend {v : Visit} (mem : v ∈ p.descend levels depth id) :
    p.get? v.id = some v.reflection := by
  induction levels generalizing depth id with
  | zero => cases mem
  | succ levels ih =>
      obtain ⟨w, step, inside⟩ := List.mem_flatMap.1 mem
      rcases List.mem_cons.1 inside with rfl | inside
      · unfold steps at step
        split at step
        · cases step
        · obtain ⟨⟨child, slot⟩, -, known⟩ := List.mem_filterMap.1 step
          obtain ⟨r, found, rfl⟩ := Option.map_eq_some_iff.1 known
          exact found
      · exact ih inside

/-- An entry shows the reflection that is registered under its id. -/
theorem get?_of_mem_entries {e : Entry} (mem : e ∈ p.entries) : p.get? e.id = some e.reflection := by
  obtain ⟨top, -, inside⟩ := List.mem_flatMap.1 mem
  unfold entriesOf at inside
  split at inside
  · cases inside
  · next found =>
      rcases List.mem_cons.1 inside with rfl | inside
      · exact found
      · obtain ⟨v, below, rfl⟩ := List.mem_map.1 inside
        exact get?_of_mem_descend below

theorem depth_le_of_mem_descend {v : Visit} (mem : v ∈ p.descend levels depth id) :
    depth ≤ v.depth := by
  induction levels generalizing depth id with
  | zero => cases mem
  | succ levels ih =>
      obtain ⟨w, -, inside⟩ := List.mem_flatMap.1 mem
      rcases List.mem_cons.1 inside with rfl | inside
      · exact Nat.le_refl _
      · exact Nat.le_of_succ_le (ih inside)

/-- The lines of what a walk enters, below the line of where it starts. -/
theorem isOutline_descend :
    p.IsOutline (fun e => p.Owns id e.id ∧ e.depth = depth + 2)
      ((p.descend levels depth id).map Visit.entry) := by
  induction levels generalizing depth id with
  | zero => exact .nil
  | succ levels ih =>
      rw [descend, List.map_flatMap]
      refine .flatMap fun v mem => ?_
      have owned := (IsForest.walks_of_mem_steps mem).takesAlong.owns
      refine .cons ih (fun m mem => ?_) ⟨owned, rfl⟩
      obtain ⟨w, inside, rfl⟩ := List.mem_map.1 mem
      exact Nat.add_lt_add_right (depth_le_of_mem_descend inside) 2

/-- **The listing is an outline** of the top level. -/
theorem isOutline_entries (p : Project) :
    p.IsOutline (fun e => e.id ∈ p.children ∧ e.depth = 1) p.entries := by
  refine .flatMap fun top child => ?_
  unfold entriesOf
  cases p.get? top with
  | none => exact .nil
  | some r =>
      refine .cons isOutline_descend (fun m mem => ?_) ⟨child, rfl⟩
      obtain ⟨v, -, rfl⟩ := List.mem_map.1 mem
      exact Nat.lt_add_of_pos_left (Nat.succ_pos _)

end Project

/-- **What the listing of a decoded project holds.** Below the project's line it is one line for each
of its entries; no reflection has two, and each stands below the line of its owner. A registered
reflection has a line exactly if nothing above it is hidden, so the listing is complete exactly if
nothing is hidden at all. -/
theorem listing_of_ofWire (root : WireReflection) (p : Project)
    (decoded : Project.ofWire root = .ok p) :
    p.listing = "Project " ++ p.name ++ "\n" ++
        String.join (p.entries.map fun e => p.line e.depth e.reflection) ∧
      (∀ e ∈ p.entries, p.get? e.id = some e.reflection) ∧ (p.entries.map Entry.id).Nodup ∧
      p.IsOutline (fun e => e.id ∈ p.children ∧ e.depth = 1) p.entries ∧
      (∀ x, x ∈ p.entries.map Entry.id ↔ p.contains x = true ∧
        ∀ owner y, p.Hides owner y → ¬Relation.ReflTransGen p.Owns y x) ∧
      ((∀ x, p.contains x = true → x ∈ p.entries.map Entry.id) ↔
        ∀ owner y, ¬p.Hides owner y) := by
  obtain ⟨valid, rfl⟩ := ofWire_eq_ok_iff.1 decoded
  have forest := WireReflection.isForest_project valid
  exact ⟨root.project.listing_eq, fun e mem => Project.get?_of_mem_entries mem, forest.nodup_entries,
    root.project.isOutline_entries, fun x => forest.mem_entries_iff_not_hidden,
    forest.forall_mem_entries_iff⟩

/-- The type of the example document's variable is a declaration as a whole, which has a line. -/
theorem listing_optionsDocument : ∃ p, Project.ofWire optionsDocument = .ok p ∧
    (∀ x, p.contains x = true → x ∈ p.entries.map Entry.id) ∧
    p.listing = "Project library\n  Variable options: Object\n    TypeLiteral __type\n" := by
  have decoded : Project.ofWire optionsDocument = .ok optionsDocument.project :=
    ofWire_eq_ok_iff.2 ⟨isProject_optionsDocument, rfl⟩
  obtain ⟨-, -, -, -, -, complete⟩ := listing_of_ofWire optionsDocument _ decoded
  refine ⟨_, decoded, complete.2 ?_, rfl⟩
  have whole : ∀ e ∈ optionsDocument.project.registry.entries, ∀ y ∈ e.2.body.anonymous,
      e.2.typeLiteral? = some y ∧ e.2.body.role = .declaration := by decide
  rintro owner y ⟨o, found, named, parameter⟩
  obtain ⟨literal, role⟩ := whole (owner, o) (Registry.mem_entries_iff.2 found) y named
  obtain ⟨t, body⟩ := parameter literal
  rw [body] at role
  cases role

/-- Inside an array the same declaration has none. -/
theorem listing_optionsList : ∃ p, Project.ofWire (libraryOf [optionsList]) = .ok p ∧
    p.contains 2 = true ∧ 2 ∉ p.entries.map Entry.id ∧
    p.listing = "Project library\n  Variable options: Object[]\n" :=
  ⟨_, rfl, rfl, by decide, rfl⟩

end ApiGraph
