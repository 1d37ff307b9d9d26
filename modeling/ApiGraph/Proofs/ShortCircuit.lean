import ApiGraph.Proofs.Listing

/-!
# ApiGraph.Proofs.ShortCircuit

What a visitor is shown. A walk goes down as nested loops, one for each level, and a visitor may end it
from any of them. Whatever it answers, it is shown the visits of one list up to the first one where it
ends the walk.

* `Visit.noting`, `Visit.log` — the visits that a visitor was shown, with its answers.
* `Visit.log_cases` — all of them, or those up to the first that ends the walk.
* `Project.traverseDescendants_eq` — the nested loops go through one list.
* `Project.descend_succ_eq` — where no steps lead back, a walk has levels enough.
* `Project.calls` — what a visitor is shown by a walk.
* `Project.preorder`, `Project.preorder_eq` — the list of a walk, by its recursion.
* `calls_of_acyclic` — what a visitor is shown, and what comes of the walk.
-/

namespace ApiGraph

namespace Flow

variable {σ τ : Type}

/-- The same answer with another state. -/
def map (f : σ → τ) : Flow σ → Flow τ
  | .continue s => .continue (f s)
  | .break s => .break (f s)

@[simp] theorem state_map (f : σ → τ) (flow : Flow σ) : (flow.map f).state = f flow.state := by
  cases flow <;> rfl

@[simp] theorem continue_andThen (s : σ) (next : σ → Flow σ) :
    (Flow.continue s).andThen next = next s :=
  rfl

end Flow

/-! ### What a visitor is shown -/

namespace Visit

variable {σ : Type} {visit : σ → Visit → Flow σ} {vs ws : List Visit} {s : σ}

theorem run_cons (v : Visit) : run visit (v :: vs) s = (visit s v).andThen (run visit vs) :=
  rfl

theorem run_append : run visit (vs ++ ws) s = (run visit vs s).andThen (run visit ws) := by
  induction vs generalizing s with
  | nil => rfl
  | cons v vs ih =>
      rw [List.cons_append, run_cons, run_cons]
      cases visit s v with
      | «continue» next => exact ih
      | «break» last => rfl

/-- A loop inside a loop goes through one list. -/
theorem run_flatMap (below : Visit → List Visit) :
    run visit (vs.flatMap below) s = run (fun s v => run visit (below v) s) vs s := by
  induction vs generalizing s with
  | nil => rfl
  | cons v vs ih =>
      rw [List.flatMap_cons, run_append, run_cons]
      exact congrArg _ (funext fun s => ih)

/-- A visitor that answers as before, and notes every visit with whether it ended the walk there. -/
def noting (visit : σ → Visit → Flow σ) (noted : List (Visit × Bool) × σ) (v : Visit) :
    Flow (List (Visit × Bool) × σ) :=
  (visit noted.2 v).map fun s => (noted.1 ++ [(v, (visit noted.2 v).isBreak)], s)

/-- What a visitor is shown of a list, each visit with whether it ended the walk there. -/
def log (visit : σ → Visit → Flow σ) : List Visit → σ → List (Visit × Bool)
  | [], _ => []
  | v :: vs, s =>
    (v, (visit s v).isBreak) :: match visit s v with
      | .continue s => log visit vs s
      | .break _ => []

theorem log_of_continue {v : Visit} {next : σ} (answer : visit s v = .continue next) :
    log visit (v :: vs) s = (v, false) :: log visit vs next := by
  rw [log, answer]
  rfl

theorem log_of_break {v : Visit} {last : σ} (answer : visit s v = .break last) :
    log visit (v :: vs) s = [(v, true)] := by
  rw [log, answer]
  rfl

/-- Notes change nothing, and in the end they are the log. -/
theorem run_noting (noted : List (Visit × Bool)) : run (noting visit) vs (noted, s) =
    (run visit vs s).map fun last => (noted ++ log visit vs s, last) := by
  induction vs generalizing noted s with
  | nil => rw [log, List.append_nil]; rfl
  | cons v vs ih =>
      rw [run_cons, run_cons, noting]
      cases answer : visit s v with
      | «continue» next =>
          have later := ih (s := next) (noted ++ [(v, false)])
          rw [List.append_assoc, List.singleton_append] at later
          rw [log_of_continue answer]
          exact later
      | «break» last => rw [log_of_break answer]; rfl

/-- Either a visitor goes on to the end, or it is shown what stands before the visit where it ends the walk,
and that visit. -/
theorem log_cases (visit : σ → Visit → Flow σ) (vs : List Visit) (s : σ) :
    (log visit vs s = vs.map (·, false) ∧ (run visit vs s).isBreak = false) ∨
      ∃ seen v rest, vs = seen ++ v :: rest ∧ log visit vs s = seen.map (·, false) ++ [(v, true)] ∧
        (run visit vs s).isBreak = true := by
  induction vs generalizing s with
  | nil => exact .inl ⟨rfl, rfl⟩
  | cons v vs ih =>
      rw [run_cons]
      cases answer : visit s v with
      | «continue» next =>
          rw [log_of_continue answer, Flow.continue_andThen]
          rcases ih next with ⟨shown, run⟩ | ⟨seen, w, rest, split, shown, run⟩
          · exact .inl ⟨congrArg (_ :: ·) shown, run⟩
          · exact .inr ⟨v :: seen, w, rest, congrArg (v :: ·) split, congrArg (_ :: ·) shown, run⟩
      | «break» last => exact .inr ⟨[], v, vs, rfl, log_of_break answer, rfl⟩

theorem log_prefix : (log visit vs s).map Prod.fst <+: vs := by
  rcases log_cases visit vs s with ⟨shown, -⟩ | ⟨seen, v, rest, split, shown, -⟩
  · simp [shown, Function.comp_def]
  · refine ⟨rest, ?_⟩
    rw [shown, split]
    simp [Function.comp_def]

/-- Before its last visit a visitor did not end the walk. -/
theorem goesOn_of_mem_dropLast_log {call : Visit × Bool} (mem : call ∈ (log visit vs s).dropLast) :
    call.2 = false := by
  have goesOn (seen : List Visit) (mem : call ∈ seen.map (·, false)) : call.2 = false := by
    obtain ⟨v, -, rfl⟩ := List.mem_map.1 mem
    rfl
  rcases log_cases visit vs s with ⟨shown, -⟩ | ⟨seen, v, rest, -, shown, -⟩
  · exact goesOn vs (shown ▸ List.mem_of_mem_dropLast mem)
  · rw [shown, List.dropLast_concat] at mem
    exact goesOn seen mem

/-- A walk is ended by one of its visits. -/
theorem isBreak_run_iff :
    (run visit vs s).isBreak = true ↔ ∃ call ∈ log visit vs s, call.2 = true := by
  rcases log_cases visit vs s with ⟨shown, run⟩ | ⟨seen, v, rest, -, shown, run⟩ <;>
    simp [shown, run]

/-- A visitor that nowhere ends the walk is shown everything. -/
theorem map_log_eq (goesOn : ∀ call ∈ log visit vs s, call.2 = false) :
    (log visit vs s).map Prod.fst = vs := by
  rcases log_cases visit vs s with ⟨shown, -⟩ | ⟨seen, v, rest, -, shown, -⟩
  · simp [shown, Function.comp_def]
  · have ended := goesOn (v, true) (shown ▸ List.mem_concat_self)
    cases ended

/-- The same visit, one level further down. -/
def deeper (v : Visit) : Visit :=
  { v with depth := v.depth + 1 }

end Visit

namespace Project

variable {σ : Type} {p : Project} {visit : σ → Visit → Flow σ} {id : Id} {s : σ}
  {levels depth : Nat}

/-- **The nested loops of a walk go through one list.** -/
theorem traverseDown_eq :
    p.traverseDown visit levels depth id s = Visit.run visit (p.descend levels depth id) s := by
  induction levels generalizing depth id s with
  | zero => rfl
  | succ levels ih =>
      rw [descend, Visit.run_flatMap, traverseDown, traverse]
      congr 1
      funext s v
      rw [Visit.run_cons]
      exact congrArg _ (funext fun s => ih)

theorem traverseDescendants_eq :
    p.traverseDescendants visit id s = Visit.run visit (p.descendants id) s :=
  traverseDown_eq

/-- Notes change nothing about a walk. -/
theorem traverseDescendants_noting : p.traverseDescendants (Visit.noting visit) id ([], s) =
    (p.traverseDescendants visit id s).map fun last => (Visit.log visit (p.descendants id) s, last) := by
  rw [traverseDescendants_eq, traverseDescendants_eq, Visit.run_noting, List.nil_append]

/-- The calls of a visitor below a reflection, each with whether it ended the walk. -/
def calls (p : Project) (visit : σ → Visit → Flow σ) (id : Id) (s : σ) : List (Visit × Bool) :=
  (p.traverseDescendants (Visit.noting visit) id ([], s)).state.1

theorem calls_eq : p.calls visit id s = Visit.log visit (p.descendants id) s := by
  rw [calls, traverseDescendants_noting, Flow.state_map]

/-- The visits that are shown to a visitor who never ends the walk. -/
def preorder (p : Project) (id : Id) : List Visit :=
  (p.calls (fun _ _ => .continue ()) id ()).map Prod.fst

theorem preorder_eq_descendants (p : Project) (id : Id) : p.preorder id = p.descendants id := by
  rw [preorder, calls_eq]
  refine Visit.map_log_eq fun call mem => Bool.eq_false_iff.2 fun ended => ?_
  have broken := Visit.isBreak_run_iff.2 ⟨call, mem, ended⟩
  rw [Visit.run_continue] at broken
  cases broken

theorem calls_prefix (p : Project) (visit : σ → Visit → Flow σ) (id : Id) (s : σ) :
    (p.calls visit id s).map Prod.fst <+: p.preorder id := by
  rw [calls_eq, preorder_eq_descendants]
  exact Visit.log_prefix

theorem IsForest.nodup_calls (h : p.IsForest) (visit : σ → Visit → Flow σ) (id : Id) (s : σ) :
    ((p.calls visit id s).map fun call => call.1.id).Nodup := by
  have shown := (p.calls_prefix visit id s).sublist.map Visit.id
  rw [List.map_map, preorder_eq_descendants] at shown
  exact shown.nodup h.nodup_descend

/-! ### Levels enough -/

/-- A walk with a level for everything that is to come is not changed by another level. -/
theorem descend_succ_eq (acyclic : ∀ x, ¬Relation.TransGen p.Walks x x)
    (enough : (p.below id).card ≤ levels) :
    p.descend (levels + 1) depth id = p.descend levels depth id := by
  induction levels generalizing depth id with
  | zero =>
      refine List.flatMap_eq_nil_iff.2 fun v mem => ?_
      have fewer := card_below_lt acyclic (IsForest.walks_of_mem_steps mem)
      omega
  | succ levels ih =>
      rw [descend, descend]
      refine List.flatMap_congr fun v mem => congrArg _ (ih ?_)
      have fewer := card_below_lt acyclic (IsForest.walks_of_mem_steps mem)
      omega

theorem descend_deeper :
    p.descend levels (depth + 1) id = (p.descend levels depth id).map Visit.deeper := by
  induction levels generalizing depth id with
  | zero => rfl
  | succ levels ih =>
      rw [descend, descend, List.map_flatMap]
      exact List.flatMap_congr fun v _ => congrArg _ ih

/-- Steps lead to what is registered of the owner's slots; what is not registered is passed over. -/
theorem flatMap_steps {α : Type} (f : Visit → List α) : (p.steps id).flatMap f =
    ((p.get? id).elim [] Reflection.slots).flatMap fun (child, slot) =>
      (p.get? child).elim [] fun reflection => f { id := child, reflection, slot } := by
  unfold steps
  cases p.get? id with
  | none => rfl
  | some owner =>
      simp only [Option.elim_some]
      induction owner.slots with
      | nil => rfl
      | cons entry entries ih =>
          rw [List.flatMap_cons, ← ih]
          cases known : p.get? entry.1 with
          | none => simp [known]
          | some r => simp [known]

/-- **The list of a walk, by its recursion**: each registered reflection of the owner's slots, followed by
its own list. -/
theorem preorder_eq (acyclic : ∀ x, ¬Relation.TransGen p.Walks x x) (id : Id) : p.preorder id =
    ((p.get? id).elim [] Reflection.slots).flatMap fun (child, slot) =>
      (p.get? child).elim [] fun reflection =>
        { id := child, reflection, slot } :: (p.preorder child).map Visit.deeper := by
  simp only [preorder_eq_descendants]
  rw [descendants, ← descend_succ_eq acyclic (p.card_below_le id), descend, flatMap_steps]
  simp only [descend_deeper]
  rfl

end Project

/-- **A visitor ends the whole walk at once.** Where nothing owns itself, the list of a walk follows the
slots of each owner and passes over what is not registered. Any visitor is shown a first part of it, ends
the walk at none of these visits but the last, and is shown all of the list if it ends the walk nowhere.
The walk is ended exactly if one of the visits ended it. In a decoded project nothing owns itself, and no
reflection is shown twice. -/
theorem calls_of_acyclic {σ : Type} (p : Project) (visit : σ → Visit → Flow σ) (id : Id) (s : σ) :
    ((∀ x, ¬Relation.TransGen p.TakesAlong x x) →
      p.preorder id = ((p.get? id).elim [] Reflection.slots).flatMap (fun (child, slot) =>
        (p.get? child).elim [] fun reflection =>
          { id := child, reflection, slot } :: (p.preorder child).map Visit.deeper) ∧
      (p.calls visit id s).map Prod.fst <+: p.preorder id ∧
      (∀ call ∈ (p.calls visit id s).dropLast, call.2 = false) ∧
      ((∀ call ∈ p.calls visit id s, call.2 = false) →
        (p.calls visit id s).map Prod.fst = p.preorder id) ∧
      ((p.traverseDescendants visit id s).isBreak = true ↔
        ∃ call ∈ p.calls visit id s, call.2 = true)) ∧
    ∀ root, Project.ofWire root = .ok p →
      (∀ x, ¬Relation.TransGen p.TakesAlong x x) ∧
        ((p.calls visit id s).map fun call => call.1.id).Nodup := by
  constructor
  · intro acyclic
    have apart (x : Id) : ¬Relation.TransGen p.Walks x x := fun path =>
      acyclic x (Relation.TransGen.mono (fun _ _ walks => walks.takesAlong) x x path)
    refine ⟨Project.preorder_eq apart id, p.calls_prefix visit id s, ?_⟩
    rw [Project.calls_eq, Project.preorder_eq_descendants, Project.traverseDescendants_eq]
    exact ⟨fun call => Visit.goesOn_of_mem_dropLast_log, Visit.map_log_eq, Visit.isBreak_run_iff⟩
  · intro root decoded
    obtain ⟨valid, rfl⟩ := ofWire_eq_ok_iff.1 decoded
    have forest := WireReflection.isForest_project valid
    refine ⟨fun x path => forest.acyclic x ?_, forest.nodup_calls visit id s⟩
    exact Relation.TransGen.mono (fun _ _ taken => taken.owns) x x path

/-- A namespace with a class, whose getter has a type parameter, and a variable. -/
def widgets : WireReflection :=
  let getter := WireReflection.mk { id := 3, name := "size", kind := 0x80000 } none none none none
    none (some [.ofHeader { id := 4, name := "T", kind := 0x20000 }]) none none none none none none
    none none false
  let box := WireReflection.mk { id := 2, name := "Box", kind := 0x80 } none none none (some getter)
    none none none none none none none none none none false
  .mk { id := 1, name := "widgets", kind := 2 }
    (some [box, .ofHeader { id := 5, name := "settings", kind := 0x20 }]) none none none none none
    none none none none none none none none false

/-- A visitor that has had enough at its third visit does not see the variable, which is two levels above
that visit. -/
theorem calls_widgets : ∃ p, Project.ofWire (libraryOf [widgets]) = .ok p ∧
    (p.preorder 1).map Visit.id = [2, 3, 4, 5] ∧
    let visit (n : Nat) (_ : Visit) : Flow Nat := if n = 2 then .break 3 else .continue (n + 1)
    (p.calls visit 1 0).map (fun call => (call.1.id, call.2)) = [(2, false), (3, false), (4, true)] ∧
    (p.calls visit 1 0).map Prod.fst <+: p.preorder 1 ∧
    (p.traverseDescendants visit 1 0).isBreak = true := by
  refine ⟨_, rfl, rfl, ?_⟩
  intro visit
  obtain ⟨walk, decoded⟩ := calls_of_acyclic (libraryOf [widgets]).project visit 1 0
  obtain ⟨acyclic, -⟩ := decoded (libraryOf [widgets]) rfl
  obtain ⟨-, first, -, -, ended⟩ := walk acyclic
  exact ⟨rfl, first, ended.2 ⟨_, .tail _ (.tail _ (.head _)), rfl⟩⟩

end ApiGraph
