import ApiGraph.Proofs.Decoded
import ApiGraph.Proofs.Depths

/-!
# ApiGraph.Proofs.WrittenDepths

Nesting in documents that are written again. What a document means is written part by part from the
parts of the document: some are left out, one `boolean` stands for two members of a union, but nothing
is put around anything. So what is written of a document is not nested deeper than the document.

* `Wire.Shallower` — records with fields that are not deeper.
* `Rewritten` — parts whose reflections have a document that is written from what they mean.
* `WireType.depth_written_le`, `WireReflection.depth_tree_le` — types and reflections.
* `WireReflection.depth_rootDocument_le` — whole documents.
-/

namespace ApiGraph

open Wire

/-! ### Fields -/

/-- The depth of a part that may be missing. -/
def Json.depth? (j : Option Json) : Nat :=
  j.elim 0 depth

namespace Wire

variable {fields fields' : List (String × Option Json)}

/-- Field by field not deeper. -/
def Shallower : List (String × Option Json) → List (String × Option Json) → Prop
  | [], _ => True
  | (_, j) :: fields, (_, j') :: fields' => Json.depth? j ≤ Json.depth? j' ∧ Shallower fields fields'
  | _ :: _, [] => False

theorem depthMembers_le_of_shallower (h : Shallower fields fields') :
    Json.depthMembers (members fields) ≤ Json.depthMembers (members fields') := by
  have members_cons (f : String × Option Json) (rest : List (String × Option Json)) :
      Json.depthMembers (members (f :: rest)) =
        max (Json.depth? f.2) (Json.depthMembers (members rest)) := by
    obtain ⟨name, _ | j⟩ := f
    · exact (Nat.zero_max _).symm
    · rfl
  induction fields generalizing fields' with
  | nil => exact Nat.zero_le _
  | cons f fields ih =>
      cases fields' with
      | nil => exact h.elim
      | cons f' fields' =>
          rw [members_cons, members_cons]
          exact max_le_max h.1 (ih h.2)

theorem depth_present_mono (h : Shallower fields fields') :
    (present fields).depth ≤ (present fields').depth :=
  Nat.succ_le_succ (depthMembers_le_of_shallower h)

theorem depth_typed_mono {form : TypeExpr.Form} (h : Shallower fields fields') :
    (typed form fields).depth ≤ (typed form fields').depth :=
  depth_present_mono ⟨Nat.le_refl _, h⟩

/-- A part without arrays and objects is not deeper than anything. -/
theorem depth?_map_flat {α : Type} {write : α → Json} (flat : ∀ a, (write a).depth = 0) (a : Option α)
    (room : Nat) : Json.depth? (a.map write) ≤ room := by
  cases a with
  | none => exact Nat.zero_le _
  | some a => exact (flat a).le.trans (Nat.zero_le _)

end Wire

/-! ### Types and reflections -/

/-- Parts that are valid, and whose reflections have a document that is written from what they mean. -/
structure Rewritten (p : Project) (tree : Id → WireReflection) (parts : List Part) : Prop where
  valid : ∀ part ∈ parts, part.IsValid
  written : ∀ q, .object q ∈ parts → ∃ known header, header.flags = q.object.header.flags ∧
    tree q.id = (q.object.body known q.role).written p tree header

variable {p : Project} {tree : Id → WireReflection} {parts parts' : List Part}
  {fields fields' : List (String × Option Json)}

namespace Rewritten

theorem of_subset (h : Rewritten p tree parts) (sub : parts' ⊆ parts) : Rewritten p tree parts' where
  valid part mem := h.valid part (sub mem)
  written q mem := h.written q (sub mem)

theorem left (h : Rewritten p tree (parts ++ parts')) : Rewritten p tree parts :=
  h.of_subset (List.subset_append_left _ _)

theorem right (h : Rewritten p tree (parts ++ parts')) : Rewritten p tree parts' :=
  h.of_subset (List.subset_append_right _ _)

theorem tail {part : Part} (h : Rewritten p tree (part :: parts)) : Rewritten p tree parts :=
  h.of_subset (List.subset_cons_self _ _)

end Rewritten

open TypeExpr

/-- The members of a union are not deeper when `boolean` stands for two of them. -/
theorem depth_mergeBools_le (members : List TypeExpr) :
    Json.depthItems (typesJson (writtenList p tree (mergeBools members))) ≤
      Json.depthItems (typesJson (writtenList p tree members)) := by
  have each (ts : List TypeExpr) (room : Nat) :
      Json.depthItems (typesJson (writtenList p tree ts)) ≤ room ↔
        ∀ t ∈ ts, (t.written p tree).toJson.depth ≤ room := by
    induction ts with
    | nil => simp [writtenList, typesJson, Json.depthItems]
    | cons t ts ih => rw [writtenList, typesJson, Json.depthItems, Nat.max_le, ih, List.forall_mem_cons]
  have fits := (each members _).1 (Nat.le_refl _)
  refine (each _ _).2 fun t mem => ?_
  rcases mem_of_mem_mergeBools mem with inside | ⟨rfl, value, inside⟩
  · exact fits t inside
  · -- the `boolean` is as flat as the member that it stands for
    exact fits (bool value) inside

/-- Categories only lose members. -/
theorem depth_readCategories_le (known : Id → Bool) (cs : Option (List WireCategory)) :
    Json.depth? ((Category.listToWire (readCategories known cs)).map fun cs =>
        .array (cs.map categoryJson)) ≤
      Json.depth? (cs.map fun cs => .array (cs.map categoryJson)) := by
  have flat (ids : List Id) : (Json.array (ids.map idJson)).depth ≤ 1 :=
    Nat.succ_le_succ (Json.depthItems_le_iff.2 (List.forall_mem_map.2 fun _ _ => Nat.le_refl 0))
  have category (c : WireCategory) :
      (categoryJson ⟨c.title, nonEmpty? ((c.children.getD []).filter known)⟩).depth ≤
        (categoryJson c).depth := by
    refine depth_present_mono ⟨Nat.le_refl _, ?_, trivial⟩
    obtain ⟨title, _ | ids⟩ := c
    · exact Nat.le_refl _
    · show Json.depth? ((nonEmpty? (ids.filter known)).map _) ≤ _
      cases ids.filter known with
      | nil => exact Nat.zero_le _
      | cons id ids' => exact (flat (id :: ids')).trans (Nat.succ_le_succ (Nat.zero_le _))
  have each (cs : List WireCategory) :
      Json.depthItems ((readCategories known (some cs)).map fun c =>
        categoryJson ⟨c.title, nonEmpty? c.children⟩) ≤ Json.depthItems (cs.map categoryJson) := by
    induction cs with
    | nil => exact Nat.le_refl _
    | cons c cs ih => exact max_le_max (category c) ih
  match cs with
  | none | some [] => exact Nat.zero_le _
  | some (c :: cs) =>
      refine Nat.succ_le_succ (le_of_eq_of_le ?_ (each (c :: cs)))
      exact congrArg Json.depthItems List.map_map

/-- A reference is as deep as its type arguments make it. -/
theorem depth_toWire_le (link : Link) {arguments : List WireType} {id : Option Id}
    {typeArguments : Option (List WireType)} {name : String} {qualifiedName package : Option String}
    (h : Json.depth? (typesJson? (nonEmpty? arguments)) ≤ Json.depth? (typesJson? typeArguments)) :
    (link.toWire p arguments).toJson.depth ≤
      (WireType.reference id typeArguments name qualifiedName package).toJson.depth :=
  depth_typed_mono ⟨depth?_map_flat (fun _ => rfl) _ _, h, Nat.le_refl _,
    depth?_map_flat (fun _ => rfl) _ _, depth?_map_flat (fun _ => rfl) _ _, trivial⟩

/-- What a reflection begins with is flat, but for its flags. -/
theorem depth_header_mono {header header' : WireHeader} (flags : header'.flags = header.flags)
    (h : Shallower fields fields') :
    (present (field "id" (idJson header'.id) :: field "name" (.string header'.name) ::
        field "kind" (.number (.integer header'.kind)) :: ("kindString", header'.kindString.map .string) ::
        ("flags", flagsJson? header'.flags) :: fields)).depth ≤
      (present (field "id" (idJson header.id) :: field "name" (.string header.name) ::
        field "kind" (.number (.integer header.kind)) :: ("kindString", header.kindString.map .string) ::
        ("flags", flagsJson? header.flags) :: fields')).depth :=
  depth_present_mono ⟨Nat.le_refl _, Nat.le_refl _, Nat.le_refl _, depth?_map_flat (fun _ => rfl) _ _,
    flags ▸ Nat.le_refl _, h⟩

mutual
/-- A type is not written deeper than it was. -/
theorem WireType.depth_written_le : ∀ t : WireType, Rewritten p tree t.parts →
    (t.read.written p tree).toJson.depth ≤ t.toJson.depth
  | .array elementType, h => depth_typed_mono ⟨elementType.depth_written_le h.tail, trivial⟩
  | .conditional checkType extendsType trueType falseType, h =>
      depth_typed_mono ⟨checkType.depth_written_le h.tail.left,
        extendsType.depth_written_le h.tail.right.left, trueType.depth_written_le h.tail.right.right.left,
        falseType.depth_written_le h.tail.right.right.right, trivial⟩
  | .indexedAccess indexType objectType, h =>
      depth_typed_mono ⟨indexType.depth_written_le h.tail.right,
        objectType.depth_written_le h.tail.left, trivial⟩
  | .inferred _, _ | .intrinsic _, _ | .unknown _, _ => Nat.le_refl _
  | .intersection types, h =>
      depth_typed_mono ⟨Nat.succ_le_succ (depth_writtenList_le types h.tail), trivial⟩
  | .literal value, _ => by
      refine depth_typed_mono ⟨?_, trivial⟩
      cases value with
      | number n =>
          show (literalJson n.toBinary64.toWire).depth ≤ 0
          rcases n.toBinary64.toWire_cases with ⟨-, written⟩ | ⟨-, written⟩ | ⟨_, -, -, written⟩
          all_goals rw [written]; exact Nat.le_refl _
      | _ => exact Nat.le_refl _
  | .mapped _ parameterType templateType readonlyModifier optionalModifier nameType, h =>
      depth_typed_mono ⟨Nat.le_refl _, parameterType.depth_written_le h.tail.left,
        templateType.depth_written_le h.tail.right.left, Nat.le_refl _, Nat.le_refl _,
        depth_writtenOption_le nameType h.tail.right.right, trivial⟩
  | .optional elementType, h => depth_typed_mono ⟨elementType.depth_written_le h.tail, trivial⟩
  | .predicate _ _ targetType, h =>
      depth_typed_mono ⟨Nat.le_refl _, Nat.le_refl _, depth_writtenOption_le targetType h.tail, trivial⟩
  | .query queryType, h => depth_typed_mono ⟨queryType.depth_link_le h.tail, trivial⟩
  | .reference _ typeArguments _ _ _, h => depth_toWire_le _ (depth_writtenTypes?_le typeArguments h.tail)
  | .reflection declaration, h =>
      depth_typed_mono ⟨declaration.depth_tree_le .declaration none h.tail, trivial⟩
  | .rest elementType, h => depth_typed_mono ⟨elementType.depth_written_le h.tail, trivial⟩
  | .templateLiteral _ tail, h =>
      depth_typed_mono ⟨Nat.le_refl _, Nat.succ_le_succ (depth_writtenSpans_le tail h.tail), trivial⟩
  | .tuple elements, h => depth_typed_mono ⟨depth_writtenTypes?_le elements h.tail, trivial⟩
  | .namedTupleMember _ _ element, h =>
      depth_typed_mono ⟨Nat.le_refl _, Nat.le_refl _, element.depth_written_le h.tail, trivial⟩
  | .typeOperator target _, h =>
      depth_typed_mono ⟨target.depth_written_le h.tail, Nat.le_refl _, trivial⟩
  | .union types, h => depth_typed_mono
      ⟨Nat.succ_le_succ ((depth_mergeBools_le _).trans (depth_writtenList_le types h.tail)), trivial⟩

/-- Nor is a reference. -/
theorem WireType.depth_link_le : ∀ t : WireType, Rewritten p tree (.link t :: t.parts) →
    (t.readReference.link.toWire p (writtenList p tree t.readReference.arguments)).toJson.depth ≤
      t.toJson.depth
  | .reference _ typeArguments _ _ _, h =>
      depth_toWire_le _ (depth_writtenTypes?_le typeArguments h.tail.tail)
  | .array _, h | .conditional .., h | .indexedAccess .., h | .inferred _, h | .intersection _, h
  | .intrinsic _, h | .literal _, h | .mapped .., h | .optional _, h | .predicate .., h | .query _, h
  | .reflection _, h | .rest _, h | .templateLiteral .., h | .tuple _, h | .namedTupleMember .., h
  | .typeOperator .., h | .union _, h | .unknown _, h => by
      simpa [Part.IsValid, WireType.form] using h.valid _ List.mem_cons_self

theorem depth_writtenList_le : ∀ ts, Rewritten p tree (partsOfTypes ts) →
    Json.depthItems (typesJson (writtenList p tree (readTypes ts))) ≤ Json.depthItems (typesJson ts)
  | [], _ => Nat.le_refl _
  | t :: ts, h => max_le_max (t.depth_written_le h.left) (depth_writtenList_le ts h.right)

theorem depth_writtenTypes?_le : ∀ ts, Rewritten p tree (partsOfTypes? ts) →
    Json.depth? (typesJson? (nonEmpty? (writtenList p tree (readTypes? ts)))) ≤ Json.depth? (typesJson? ts)
  | none, _ => Nat.le_refl _
  | some [], _ => Nat.zero_le _
  | some (t :: ts), h => Nat.succ_le_succ (depth_writtenList_le (t :: ts) h)

theorem depth_writtenOption_le : ∀ t, Rewritten p tree (partsOfType? t) →
    Json.depth? (typeJson? (writtenOption p tree (readType? t))) ≤ Json.depth? (typeJson? t)
  | none, _ => Nat.le_refl _
  | some t, h => t.depth_written_le h

theorem depth_writtenReference_le : ∀ t, Rewritten p tree (partsOfLink? t) →
    Json.depth? (typeJson? (Reference.writtenOption p tree (readReference? t))) ≤ Json.depth? (typeJson? t)
  | none, _ => Nat.le_refl _
  | some t, h => t.depth_link_le h

theorem depth_writtenSpans_le : ∀ spans, Rewritten p tree (partsOfSpans spans) →
    Json.depthItems (spansJson (writtenSpans p tree (readSpans spans))) ≤ Json.depthItems (spansJson spans)
  | [], _ => Nat.le_refl _
  | (t, _) :: spans, h =>
      max_le_max (Nat.succ_le_succ (max_le_max (t.depth_written_le h.left) (Nat.le_refl _)))
        (depth_writtenSpans_le spans h.right)

/-- Nor is a reflection, in whatever role. -/
theorem WireReflection.depth_tree_le (role : Role) (owner : Option Id) :
    ∀ r : WireReflection, Rewritten p tree (r.parts role owner) →
      (tree r.header.id).toJson.depth ≤ r.toJson.depth
  | .mk header children signatures indexSignature getSignature setSignature typeParameters
      parameters type default defaultValue overwrites inheritedFrom implementationOf categories
      hasOwnDocument, h => by
      obtain ⟨known, header', flags, written⟩ :=
        h.written ⟨role, owner, _⟩ (List.mem_append_right _ List.mem_cons_self)
      refine (congrArg (Json.depth ∘ WireReflection.toJson) written).le.trans ?_
      have held := h.left
      -- what does not belong to the role is left out, and then it has no depth
      cases role with
      | declaration =>
          have signatureParts := held.right.right.right.right.right
          exact depth_header_mono flags ⟨
            depth_trees?_le _ _ children signatureParts.right.right.right.right,
            depth_trees?_le _ _ signatures signatureParts.left,
            depth_tree?_le _ _ indexSignature signatureParts.right.left,
            depth_tree?_le _ _ getSignature signatureParts.right.right.left,
            depth_tree?_le _ _ setSignature signatureParts.right.right.right.left,
            depth_trees?_le _ _ typeParameters held.left, Nat.zero_le _,
            depth_writtenOption_le type held.right.left, Nat.zero_le _, Nat.le_refl _,
            depth_writtenReference_le overwrites held.right.right.left,
            depth_writtenReference_le inheritedFrom held.right.right.right.left,
            depth_writtenReference_le implementationOf held.right.right.right.right.left,
            depth_readCategories_le known categories, Nat.le_refl _, trivial⟩
      | signature =>
          have typeParts := held.right.right
          exact depth_header_mono flags ⟨
            Nat.zero_le _, Nat.zero_le _, Nat.zero_le _, Nat.zero_le _, Nat.zero_le _,
            depth_trees?_le _ _ typeParameters held.left, depth_trees?_le _ _ parameters held.right.left,
            depth_writtenOption_le type typeParts.left, Nat.zero_le _, Nat.zero_le _,
            depth_writtenReference_le overwrites typeParts.right.left,
            depth_writtenReference_le inheritedFrom typeParts.right.right.left,
            depth_writtenReference_le implementationOf typeParts.right.right.right,
            Nat.zero_le _, Nat.zero_le _, trivial⟩
      | parameter =>
          exact depth_header_mono flags ⟨
            Nat.zero_le _, Nat.zero_le _, Nat.zero_le _, Nat.zero_le _, Nat.zero_le _, Nat.zero_le _,
            Nat.zero_le _, depth_writtenOption_le type held, Nat.zero_le _, Nat.le_refl _,
            Nat.zero_le _, Nat.zero_le _, Nat.zero_le _, Nat.zero_le _, Nat.zero_le _, trivial⟩
      | typeParameter =>
          exact depth_header_mono flags ⟨
            Nat.zero_le _, Nat.zero_le _, Nat.zero_le _, Nat.zero_le _, Nat.zero_le _, Nat.zero_le _,
            Nat.zero_le _, depth_writtenOption_le type held.left, depth_writtenOption_le default held.right,
            Nat.zero_le _, Nat.zero_le _, Nat.zero_le _, Nat.zero_le _, Nat.zero_le _, Nat.zero_le _,
            trivial⟩

theorem depth_trees_le (role : Role) (owner : Option Id) : ∀ rs : List WireReflection,
    Rewritten p tree (partsOfReflections role owner rs) →
      Json.depthItems (reflectionsJson ((rs.map (·.header.id)).map tree)) ≤
        Json.depthItems (reflectionsJson rs)
  | [], _ => Nat.le_refl _
  | r :: rs, h => max_le_max (r.depth_tree_le role owner h.left) (depth_trees_le role owner rs h.right)

theorem depth_trees?_le (role : Role) (owner : Option Id) : ∀ rs : Option (List WireReflection),
    Rewritten p tree (partsOfReflections? role owner rs) →
      Json.depth? (reflectionsJson? (nonEmpty? ((idsOf rs).map tree))) ≤ Json.depth? (reflectionsJson? rs)
  | none, _ => Nat.le_refl _
  | some [], _ => Nat.zero_le _
  | some (r :: rs), h => Nat.succ_le_succ (depth_trees_le role owner (r :: rs) h)

theorem depth_tree?_le (role : Role) (owner : Option Id) : ∀ r : Option WireReflection,
    Rewritten p tree (partsOfReflection? role owner r) →
      Json.depth? (reflectionJson? ((idOf? r).map tree)) ≤ Json.depth? (reflectionJson? r)
  | none, _ => Nat.le_refl _
  | some r, h => r.depth_tree_le role owner h
end

/-! ### Whole documents -/

namespace WireReflection

variable {root : WireReflection}

theorem rewritten_rootParts (h : root.IsProject) (config : Config) :
    Rewritten root.project (root.project.document config) root.rootParts where
  valid := h.valid
  written q mem := by
    obtain ⟨pre, post, split⟩ := List.append_of_mem (mem_placements.2 mem)
    refine ⟨_, _, ?_, (isOrder_project h).document_eq (get?_project h split)⟩
    rfl

/-- **What is written of a document is not nested deeper than the document.** -/
theorem depth_rootDocument_le (h : root.IsProject) (config : Config) :
    (root.project.rootDocument config).toJson.depth ≤ root.toJson.depth := by
  have parts := rewritten_rootParts h config
  cases root with
  | mk header children signatures indexSignature getSignature setSignature typeParameters parameters type
      default defaultValue overwrites inheritedFrom implementationOf categories hasOwnDocument =>
    exact depth_present_mono ⟨Nat.le_refl _, Nat.le_refl _, Nat.le_refl _,
      depth?_map_flat (fun _ => rfl) _ _, Nat.zero_le _, depth_trees?_le .declaration none children parts,
      Nat.zero_le _, Nat.zero_le _, Nat.zero_le _, Nat.zero_le _, Nat.zero_le _, Nat.zero_le _,
      Nat.zero_le _, Nat.zero_le _, Nat.zero_le _, Nat.zero_le _, Nat.zero_le _, Nat.zero_le _,
      depth_readCategories_le _ categories, Nat.zero_le _, trivial⟩

end WireReflection

end ApiGraph
