import ApiGraph.Proofs.RoundTrip
import ApiGraph.Proofs.TreeNumbers

/-!
# ApiGraph.Proofs.Renumbering

Projects that differ in the numbers of their literal types only. With another number in the place of
each, a project has the same places, unions and categories. So its document has the same shape, with other
numbers in it.

* `TypeExpr.renumber`, `Body.renumber`, `Project.renumber` — another number in the place of each.
* `IsStable.renumber` — a stable project stays stable, in the same order.
* `Mirrors` — what stands for a number in a tree, where another one stands for it in the project.
* `TypeExpr.toJson_renumber`, `Body.toJson_renumber` — the trees of types and bodies.
* `IsOrder.toJson_renumber` — the tree of the renumbered project has the shape of the other.
-/

namespace ApiGraph

open Wire

variable {p : Project} {tree tree' : Id → WireReflection} {g : Binary64 → Binary64} {f : Numeral → Json}

/-! ### Other numbers -/

/-- The literal with another number. -/
def Literal.renumber (g : Binary64 → Binary64) : Literal → Literal
  | .number x => .number (g x)
  | value => value

namespace TypeExpr

mutual
/-- The type with another number in the place of each. -/
def renumber (g : Binary64 → Binary64) : TypeExpr → TypeExpr
  | .array element => .array (renumber g element)
  | .conditional check bound whenTrue whenFalse =>
    .conditional (renumber g check) (renumber g bound) (renumber g whenTrue) (renumber g whenFalse)
  | .indexedAccess object index => .indexedAccess (renumber g object) (renumber g index)
  | .inferred name => .inferred name
  | .intersection members => .intersection (renumberList g members)
  | .intrinsic name => .intrinsic name
  | .literal value => .literal (value.renumber g)
  | .mapped parameter parameterType template readonlyModifier optionalModifier nameType =>
    .mapped parameter (renumber g parameterType) (renumber g template) readonlyModifier
      optionalModifier (renumberOption g nameType)
  | .optional element => .optional (renumber g element)
  | .predicate name asserts target => .predicate name asserts (renumberOption g target)
  | .query link arguments => .query link (renumberList g arguments)
  | .reference link arguments => .reference link (renumberList g arguments)
  | .reflection id => .reflection id
  | .rest element => .rest (renumber g element)
  | .templateLiteral head tail => .templateLiteral head (renumberSpans g tail)
  | .tuple elements => .tuple (renumberList g elements)
  | .namedTupleMember name isOptional element =>
    .namedTupleMember name isOptional (renumber g element)
  | .typeOperator operator target => .typeOperator operator (renumber g target)
  | .union members => .union (renumberList g members)
  | .unknown name => .unknown name

/-- Types with other numbers. -/
def renumberList (g : Binary64 → Binary64) : List TypeExpr → List TypeExpr
  | [] => []
  | t :: ts => renumber g t :: renumberList g ts

/-- A type that may be missing, with other numbers. -/
def renumberOption (g : Binary64 → Binary64) : Option TypeExpr → Option TypeExpr
  | none => none
  | some t => some (renumber g t)

/-- Spans with other numbers in their types. -/
def renumberSpans (g : Binary64 → Binary64) : List (TypeExpr × String) → List (TypeExpr × String)
  | [] => []
  | (t, text) :: spans => (renumber g t, text) :: renumberSpans g spans
end

end TypeExpr

/-- The reference with other numbers in its type arguments. -/
def Reference.renumber (g : Binary64 → Binary64) (r : Reference) : Reference :=
  { r with arguments := TypeExpr.renumberList g r.arguments }

/-- The lineage with other numbers. -/
def Lineage.renumber (g : Binary64 → Binary64) (l : Lineage) : Lineage where
  overwrites := l.overwrites.map (Reference.renumber g)
  inheritedFrom := l.inheritedFrom.map (Reference.renumber g)
  implementationOf := l.implementationOf.map (Reference.renumber g)

/-- The body with other numbers in its types. -/
def Body.renumber (g : Binary64 → Binary64) : Body → Body
  | .declaration d => .declaration
    { d with type := TypeExpr.renumberOption g d.type, lineage := d.lineage.renumber g }
  | .signature s => .signature
    { s with type := TypeExpr.renumberOption g s.type, lineage := s.lineage.renumber g }
  | .parameter q => .parameter { q with type := TypeExpr.renumberOption g q.type }
  | .typeParameter q => .typeParameter
    { constraint := TypeExpr.renumberOption g q.constraint,
      default := TypeExpr.renumberOption g q.default }

/-- The reflection with other numbers. -/
def Reflection.renumber (g : Binary64 → Binary64) (r : Reflection) : Reflection :=
  { r with body := r.body.renumber g }

/-- The project with other numbers. -/
def Project.renumber (g : Binary64 → Binary64) (p : Project) : Project :=
  { p with registry := p.registry.mapValues fun _ r => r.renumber g }

/-! ### The same numbers -/

namespace TypeExpr

mutual
/-- A type is as it was if every number is. -/
theorem renumber_id : ∀ t : TypeExpr, t.renumber id = t
  | .array element | .optional element | .rest element | .namedTupleMember _ _ element
  | .typeOperator _ element => by rw [renumber, renumber_id element]
  | .conditional check bound whenTrue whenFalse => by
      rw [renumber, renumber_id check, renumber_id bound, renumber_id whenTrue, renumber_id whenFalse]
  | .indexedAccess object index => by rw [renumber, renumber_id object, renumber_id index]
  | .mapped _ parameterType template _ _ nameType => by
      rw [renumber, renumber_id parameterType, renumber_id template, renumberOption_id nameType]
  | .predicate _ _ target => by rw [renumber, renumberOption_id target]
  | .intersection ts | .query _ ts | .reference _ ts | .tuple ts | .union ts => by
      rw [renumber, renumberList_id ts]
  | .templateLiteral _ tail => by rw [renumber, renumberSpans_id tail]
  | .literal value => by cases value <;> rfl
  | .inferred _ | .intrinsic _ | .reflection _ | .unknown _ => rfl

theorem renumberList_id : ∀ ts, renumberList id ts = ts
  | [] => rfl
  | t :: ts => by rw [renumberList, renumber_id t, renumberList_id ts]

theorem renumberOption_id : ∀ t, renumberOption id t = t
  | none => rfl
  | some t => congrArg some (renumber_id t)

theorem renumberSpans_id : ∀ spans, renumberSpans id spans = spans
  | [] => rfl
  | (t, _) :: spans => by rw [renumberSpans, renumber_id t, renumberSpans_id spans]
end

end TypeExpr

theorem Lineage.renumber_id (l : Lineage) : l.renumber id = l := by
  have same : Reference.renumber id = fun r => r := by
    funext r
    rw [Reference.renumber, TypeExpr.renumberList_id]
  simp only [renumber, same, Option.map_id']

theorem Reflection.renumber_id (r : Reflection) : r.renumber id = r := by
  have same : r.body.renumber id = r.body := by
    cases r.body <;> simp only [Body.renumber, TypeExpr.renumberOption_id, Lineage.renumber_id]
  rw [renumber, same]

/-- A project is as it was if every number is. -/
theorem Project.renumber_id (p : Project) : p.renumber id = p := by
  have same : p.registry.mapValues (fun _ r => r.renumber id) = p.registry := by
    refine Registry.eq_of_get?_eq fun key => ?_
    simp only [Registry.get?_mapValues, Reflection.renumber_id, Option.map_id']
  rw [renumber, same]

/-! ### What stays -/

namespace TypeExpr

mutual
/-- The same declarations are named. -/
theorem anonymous_renumber : ∀ t : TypeExpr, (t.renumber g).anonymous = t.anonymous
  | .array element | .optional element | .rest element | .namedTupleMember _ _ element
  | .typeOperator _ element => anonymous_renumber element
  | .conditional check bound whenTrue whenFalse => by
      simp only [renumber, anonymous, anonymous_renumber check, anonymous_renumber bound,
        anonymous_renumber whenTrue, anonymous_renumber whenFalse]
  | .indexedAccess object index => by
      simp only [renumber, anonymous, anonymous_renumber object, anonymous_renumber index]
  | .mapped _ parameterType template _ _ nameType => by
      simp only [renumber, anonymous, anonymous_renumber parameterType, anonymous_renumber template,
        anonymousOption_renumber nameType]
  | .predicate _ _ target => anonymousOption_renumber target
  | .intersection ts | .query _ ts | .reference _ ts | .tuple ts | .union ts =>
      anonymousList_renumber ts
  | .templateLiteral _ tail => anonymousSpans_renumber tail
  | .inferred _ | .intrinsic _ | .literal _ | .reflection _ | .unknown _ => rfl

theorem anonymousList_renumber : ∀ ts, anonymousList (renumberList g ts) = anonymousList ts
  | [] => rfl
  | t :: ts => congrArg₂ List.append (anonymous_renumber t) (anonymousList_renumber ts)

theorem anonymousOption_renumber : ∀ t, anonymousOption (renumberOption g t) = anonymousOption t
  | none => rfl
  | some t => anonymous_renumber t

theorem anonymousSpans_renumber :
    ∀ spans, anonymousSpans (renumberSpans g spans) = anonymousSpans spans
  | [] => rfl
  | (t, _) :: spans => congrArg₂ List.append (anonymous_renumber t) (anonymousSpans_renumber spans)
end

mutual
/-- The nodes are the same but for the numbers. -/
theorem walk_renumber : ∀ t : TypeExpr, (t.renumber g).walk = t.walk.map (renumber g)
  | .array element | .optional element | .rest element | .namedTupleMember _ _ element
  | .typeOperator _ element => by
      simp only [renumber, walk, walk_renumber element, List.map_cons]
  | .conditional check bound whenTrue whenFalse => by
      simp only [renumber, walk, walk_renumber check, walk_renumber bound, walk_renumber whenTrue,
        walk_renumber whenFalse, List.map_append, List.map_cons]
  | .indexedAccess object index => by
      simp only [renumber, walk, walk_renumber object, walk_renumber index, List.map_append,
        List.map_cons]
  | .mapped _ parameterType template _ _ nameType => by
      simp only [renumber, walk, walk_renumber parameterType, walk_renumber template,
        walkOption_renumber nameType, List.map_append, List.map_cons]
  | .predicate _ _ target => by
      simp only [renumber, walk, walkOption_renumber target, List.map_cons]
  | .intersection ts | .query _ ts | .reference _ ts | .tuple ts | .union ts => by
      simp only [renumber, walk, walkList_renumber ts, List.map_cons]
  | .templateLiteral _ tail => by
      simp only [renumber, walk, walkSpans_renumber tail, List.map_cons]
  | .inferred _ | .intrinsic _ | .literal _ | .reflection _ | .unknown _ => rfl

theorem walkList_renumber : ∀ ts, walkList (renumberList g ts) = (walkList ts).map (renumber g)
  | [] => rfl
  | t :: ts => by
      rw [renumberList, walkList, walkList, walk_renumber t, walkList_renumber ts, List.map_append]

theorem walkOption_renumber : ∀ t, walkOption (renumberOption g t) = (walkOption t).map (renumber g)
  | none => rfl
  | some t => walk_renumber t

theorem walkSpans_renumber :
    ∀ spans, walkSpans (renumberSpans g spans) = (walkSpans spans).map (renumber g)
  | [] => rfl
  | (t, _) :: spans => by
      rw [renumberSpans, walkSpans, walkSpans, walk_renumber t, walkSpans_renumber spans, List.map_append]
end

theorem renumber_eq_bool_iff {t : TypeExpr} {value : Bool} :
    t.renumber g = bool value ↔ t = bool value := by
  cases t with
  | literal l => cases l <;> simp [renumber, Literal.renumber]
  | _ => simp [renumber]

theorem bool_mem_renumberList_iff {ts : List TypeExpr} {value : Bool} :
    bool value ∈ renumberList g ts ↔ bool value ∈ ts := by
  induction ts with
  | nil => rfl
  | cons t ts ih =>
      rw [renumberList, List.mem_cons, List.mem_cons, ih, eq_comm (a := bool value),
        renumber_eq_bool_iff, eq_comm (a := t)]

theorem IsMerged.renumber {t : TypeExpr} (h : t.IsMerged) : (t.renumber g).IsMerged := by
  cases t with
  | union members =>
      obtain ⟨value, missing⟩ := h
      exact ⟨value, mt bool_mem_renumberList_iff.1 missing⟩
  | _ => trivial

end TypeExpr

theorem Reference.anonymousOption_renumber (r : Option Reference) :
    anonymousOption (r.map (Reference.renumber g)) = anonymousOption r := by
  cases r with
  | none => rfl
  | some r => exact TypeExpr.anonymousList_renumber r.arguments

theorem Reference.nodesOption_renumber (r : Option Reference) :
    nodesOption (r.map (Reference.renumber g)) = (nodesOption r).map (TypeExpr.renumber g) := by
  cases r with
  | none => rfl
  | some r => exact TypeExpr.walk_renumber r.toType

theorem Lineage.anonymous_renumber (l : Lineage) : (l.renumber g).anonymous = l.anonymous := by
  simp only [anonymous, renumber, Reference.anonymousOption_renumber]

theorem Lineage.nodes_renumber (l : Lineage) :
    (l.renumber g).nodes = l.nodes.map (TypeExpr.renumber g) := by
  simp only [nodes, renumber, Reference.nodesOption_renumber, List.map_append]

namespace Body

@[simp] theorem role_renumber (b : Body) : (b.renumber g).role = b.role := by
  cases b <;> rfl

@[simp] theorem categories_renumber (b : Body) : (b.renumber g).categories = b.categories := by
  cases b <;> rfl

theorem positions_renumber (self : Id) (b : Body) : (b.renumber g).positions self = b.positions self := by
  cases b <;>
    simp only [renumber, positions, TypeExpr.anonymousOption_renumber, Lineage.anonymous_renumber]

theorem nodes_renumber (b : Body) : (b.renumber g).nodes = b.nodes.map (TypeExpr.renumber g) := by
  cases b <;>
    simp only [renumber, nodes, TypeExpr.walkOption_renumber, Lineage.nodes_renumber, List.map_append]

end Body

namespace Project

@[simp] theorem name_renumber (p : Project) : (p.renumber g).name = p.name := rfl

@[simp] theorem children_renumber (p : Project) : (p.renumber g).children = p.children := rfl

@[simp] theorem categories_renumber (p : Project) : (p.renumber g).categories = p.categories := rfl

@[simp] theorem get?_renumber (p : Project) (id : Id) :
    (p.renumber g).get? id = (p.get? id).map (Reflection.renumber g) :=
  Registry.get?_mapValues _ p.registry id

@[simp] theorem contains_renumber (p : Project) (id : Id) : (p.renumber g).contains id = p.contains id :=
  Registry.contains_mapValues _ p.registry id

/-- References resolve to the same ids. -/
@[simp] theorem resolve?_renumber (p : Project) (target : Target) :
    (p.renumber g).resolve? target = p.resolve? target := by
  have known : (p.renumber g).contains = p.contains := funext p.contains_renumber
  cases target with
  | symbol s =>
      simp only [resolve?, lookup, known]
      rfl
  | reflection id => simp only [resolve?, known]

theorem exists_of_get?_renumber {id : Id} {r : Reflection} (found : (p.renumber g).get? id = some r) :
    ∃ r', p.get? id = some r' ∧ r = r'.renumber g := by
  rw [get?_renumber] at found
  obtain ⟨r', here, rfl⟩ := Option.map_eq_some_iff.1 found
  exact ⟨r', here, rfl⟩

variable {qs l : List Position}

theorem PostOrder.renumber (h : p.PostOrder qs l) : (p.renumber g).PostOrder qs l := by
  induction h with
  | nil => exact .nil
  | @cons q r below qs rest found placed _ _ first later =>
      have found' : (p.renumber g).get? q.id = some (r.renumber g) := by
        rw [get?_renumber, found, Option.map_some]
      refine .cons found' ?_ ?_ later
      · rw [← placed]
        simp [Reflection.position, Reflection.renumber]
      · rwa [Reflection.renumber, Body.positions_renumber]

theorem IsOrder.renumber (h : p.IsOrder l) : (p.renumber g).IsOrder l where
  postOrder := h.postOrder.renumber
  distinct := h.distinct
  covers id known := h.covers id (by rwa [contains_renumber] at known)

/-- **What is stable stays stable**, in the same order. -/
theorem IsStable.renumber (h : p.IsStable l) : (p.renumber g).IsStable l where
  order := h.order.renumber
  admissible id r found := by
    obtain ⟨r, here, rfl⟩ := exists_of_get?_renumber found
    have admissible := h.admissible id r here
    exact ⟨admissible.positive, admissible.bounded, by simpa [Reflection.renumber] using admissible.fits⟩
  merged id r found := by
    obtain ⟨r, here, rfl⟩ := exists_of_get?_renumber found
    rw [Reflection.renumber, Body.nodes_renumber]
    exact List.forall_mem_map.2 fun t mem => (h.merged id r here t mem).renumber
  members pre q post r split found := by
    obtain ⟨r, here, rfl⟩ := exists_of_get?_renumber found
    rw [Reflection.renumber, Body.categories_renumber]
    exact h.members pre q post r split here
  categories c mem id child := by
    rw [contains_renumber]
    exact h.categories c mem id child

end Project

/-! ### Trees -/

/-- What stands for each number in a tree is what is written of the other number: an integer stays, and
in the place of a double stands whatever the other double is written as. -/
structure Mirrors (g : Binary64 → Binary64) (f : Numeral → Json) : Prop where
  integer : ∀ n, f (.integer n) = .number (.integer n)
  double : ∀ x, literalJson (g x).toWire = (literalJson x.toWire).mapNumbers f

namespace Json

@[simp] theorem mapNumbers_string (s : String) : (Json.string s).mapNumbers f = .string s := rfl

@[simp] theorem mapNumbers_bool (b : Bool) : (Json.bool b).mapNumbers f = .bool b := rfl

@[simp] theorem mapNumbers_present (fields : List (String × Option Json)) : (present fields).mapNumbers f =
    present (fields.map fun e => (e.1, e.2.map (mapNumbers f))) := by
  rw [present, mapNumbers_object, present, List.map_filterMap, List.filterMap_map]
  refine congrArg object (List.filterMap_congr fun e _ => ?_)
  obtain ⟨name, value⟩ := e
  cases value <;> rfl

@[simp] theorem map_mapNumbers_string (s : Option String) :
    (s.map Json.string).map (mapNumbers f) = s.map .string := by
  cases s <;> rfl

@[simp] theorem mapNumbers_comp_string : mapNumbers f ∘ Json.string = .string := rfl

@[simp] theorem mapNumbers_comp_modifierJson : mapNumbers f ∘ modifierJson = modifierJson := rfl

end Json

open Json (mapNumbers mapNumbers_array mapNumbers_object mapNumbers_present mapNumbers_string
  map_mapNumbers_string)

theorem flagsJson?_mapNumbers (flags : Flags) :
    (flagsJson? flags).map (mapNumbers f) = flagsJson? flags := by
  unfold flagsJson?
  split
  · rfl
  · rw [Option.map_some, mapNumbers_object, List.map_map]
    rfl

namespace Mirrors

variable (mirrors : Mirrors g f)
include mirrors

theorem number_integer (n : Int) : (Json.number (.integer n)).mapNumbers f = .number (.integer n) :=
  mirrors.integer n

theorem idJson (id : Id) : (Wire.idJson id).mapNumbers f = Wire.idJson id :=
  mirrors.integer id

theorem literal (value : Literal) :
    literalJson (value.renumber g).toWire = (literalJson value.toWire).mapNumbers f := by
  cases value with
  | number x => exact mirrors.double x
  | null | bool b | string s | bigInt n => rfl

theorem categories (cs : Option (List WireCategory)) :
    (cs.map fun cs => Json.array (cs.map categoryJson)).map (mapNumbers f) =
      cs.map fun cs => .array (cs.map categoryJson) := by
  cases cs with
  | none => rfl
  | some cs =>
      rw [Option.map_some, Option.map_some, mapNumbers_array, List.map_map]
      refine congrArg (fun items => some (Json.array items)) (List.map_congr_left fun c _ => ?_)
      obtain ⟨title, children⟩ := c
      cases children with
      | none => rfl
      | some ids =>
          simp only [categoryJson, Function.comp_apply, mapNumbers_present, List.map_cons, field,
            Option.map_some, mapNumbers_string, mapNumbers_array, List.map_map, List.map_nil]
          simp only [Function.comp_def, mirrors.idJson]

end Mirrors

/-- The trees of some ids' documents differ in the numbers only. -/
def Mirrored (f : Numeral → Json) (tree tree' : Id → WireReflection) (ids : List Id) : Prop :=
  ∀ id ∈ ids, (tree' id).toJson = (tree id).toJson.mapNumbers f

namespace Mirrored

variable {a b : List Id}

theorem left (h : Mirrored f tree tree' (a ++ b)) : Mirrored f tree tree' a :=
  fun id mem => h id (List.mem_append_left _ mem)

theorem right (h : Mirrored f tree tree' (a ++ b)) : Mirrored f tree tree' b :=
  fun id mem => h id (List.mem_append_right _ mem)

theorem list {ids : List Id} (h : Mirrored f tree tree' ids) :
    reflectionsJson? (nonEmpty? (ids.map tree')) =
      (reflectionsJson? (nonEmpty? (ids.map tree))).map (mapNumbers f) := by
  have all : reflectionsJson (ids.map tree') = (reflectionsJson (ids.map tree)).map (mapNumbers f) := by
    induction ids with
    | nil => rfl
    | cons id ids ih =>
        have here := h id List.mem_cons_self
        have later := ih fun x mem => h x (List.mem_cons_of_mem _ mem)
        simp only [List.map_cons, reflectionsJson, here, later]
  cases ids with
  | nil => rfl
  | cons id ids =>
      show some (Json.array _) = some ((Json.array _).mapNumbers f)
      rw [mapNumbers_array, all]

theorem slot {slot : Option Id} (h : Mirrored f tree tree' slot.toList) :
    reflectionJson? (slot.map tree') = (reflectionJson? (slot.map tree)).map (mapNumbers f) := by
  cases slot with
  | none => rfl
  | some id => exact congrArg some (h id List.mem_cons_self)

end Mirrored

theorem typesJson?_nonEmpty? {ts ts' : List WireType}
    (h : typesJson ts' = (typesJson ts).map (mapNumbers f)) :
    typesJson? (nonEmpty? ts') = (typesJson? (nonEmpty? ts)).map (mapNumbers f) := by
  cases ts with
  | nil =>
      cases ts' with
      | nil => rfl
      | cons t' ts' => cases h
  | cons t ts =>
      cases ts' with
      | nil => cases h
      | cons t' ts' =>
          show some (Json.array _) = some ((Json.array _).mapNumbers f)
          rw [mapNumbers_array, h]

section

-- The recursion passes the assumption on, which the linter does not see.
set_option linter.unusedSectionVars false

variable (mirrors : Mirrors g f)
include mirrors

theorem Link.toJson_renumber (link : Link) {ts ts' : List WireType}
    (h : typesJson ts' = (typesJson ts).map (mapNumbers f)) :
    (link.toWire (p.renumber g) ts').toJson = (link.toWire p ts).toJson.mapNumbers f := by
  have ids : ((p.resolve? link.target).map idJson).map (mapNumbers f) =
      (p.resolve? link.target).map idJson := by
    rw [Option.map_map]
    exact Option.map_congr fun id _ => mirrors.idJson id
  simp only [Link.toWire, Project.resolve?_renumber, WireType.toJson, typed, field, mapNumbers_present,
    List.map_cons, List.map_nil, Option.map_some, mapNumbers_string, typesJson?_nonEmpty? h, ids,
    map_mapNumbers_string]

namespace TypeExpr

mutual
/-- The tree of a renumbered type differs in the numbers only. -/
theorem toJson_renumber : ∀ t : TypeExpr, Mirrored f tree tree' t.anonymous →
    ((t.renumber g).written (p.renumber g) tree').toJson = (t.written p tree).toJson.mapNumbers f
  | .array element, h => by
      simp [renumber, written, WireType.toJson, typed, field, toJson_renumber element h]
  | .conditional check bound whenTrue whenFalse, h => by
      simp [renumber, written, WireType.toJson, typed, field, toJson_renumber check h.left,
        toJson_renumber bound h.right.left, toJson_renumber whenTrue h.right.right.left,
        toJson_renumber whenFalse h.right.right.right]
  | .indexedAccess object index, h => by
      simp [renumber, written, WireType.toJson, typed, field, toJson_renumber object h.left,
        toJson_renumber index h.right]
  | .inferred _, _ | .intrinsic _, _ | .unknown _, _ => by
      simp [renumber, written, WireType.toJson, typed, field]
  | .intersection members, h => by
      simp [renumber, written, WireType.toJson, typed, field, mapNumbers_array,
        typesJson_renumber members h]
  | .literal value, _ => by
      simp [renumber, written, WireType.toJson, typed, field, mirrors.literal value]
  | .mapped _ parameterType template _ _ nameType, h => by
      simp [renumber, written, WireType.toJson, typed, field,
        toJson_renumber parameterType h.left, toJson_renumber template h.right.left,
        typeJson?_renumber nameType h.right.right]
  | .optional element, h => by
      simp [renumber, written, WireType.toJson, typed, field, toJson_renumber element h]
  | .predicate _ _ target, h => by
      simp [renumber, written, WireType.toJson, typed, field, typeJson?_renumber target h]
  | .query link arguments, h => by
      simp [renumber, written, WireType.toJson, typed, field,
        link.toJson_renumber mirrors (typesJson_renumber arguments h)]
  | .reference link arguments, h => link.toJson_renumber mirrors (typesJson_renumber arguments h)
  | .reflection id, h => by
      simp [renumber, written, WireType.toJson, typed, field, h id List.mem_cons_self]
  | .rest element, h => by
      simp [renumber, written, WireType.toJson, typed, field, toJson_renumber element h]
  | .templateLiteral _ tail, h => by
      simp [renumber, written, WireType.toJson, typed, field, mapNumbers_array,
        spansJson_renumber tail h]
  | .tuple elements, h => by
      simp [renumber, written, WireType.toJson, typed, field,
        typesJson?_nonEmpty? (typesJson_renumber elements h)]
  | .namedTupleMember _ _ element, h => by
      simp [renumber, written, WireType.toJson, typed, field, toJson_renumber element h]
  | .typeOperator _ target, h => by
      simp [renumber, written, WireType.toJson, typed, field, toJson_renumber target h]
  | .union members, h => by
      simp [renumber, written, WireType.toJson, typed, field, mapNumbers_array,
        typesJson_renumber members h]

theorem typesJson_renumber : ∀ ts : List TypeExpr, Mirrored f tree tree' (anonymousList ts) →
    typesJson (writtenList (p.renumber g) tree' (renumberList g ts)) =
      (typesJson (writtenList p tree ts)).map (mapNumbers f)
  | [], _ => rfl
  | t :: ts, h => by
      simp only [renumberList, writtenList, typesJson, List.map_cons, toJson_renumber t h.left,
        typesJson_renumber ts h.right]

theorem typeJson?_renumber : ∀ t : Option TypeExpr, Mirrored f tree tree' (anonymousOption t) →
    typeJson? (writtenOption (p.renumber g) tree' (renumberOption g t)) =
      (typeJson? (writtenOption p tree t)).map (mapNumbers f)
  | none, _ => rfl
  | some t, h => congrArg some (toJson_renumber t h)

theorem spansJson_renumber : ∀ spans : List (TypeExpr × String),
    Mirrored f tree tree' (anonymousSpans spans) →
    spansJson (writtenSpans (p.renumber g) tree' (renumberSpans g spans)) =
      (spansJson (writtenSpans p tree spans)).map (mapNumbers f)
  | [], _ => rfl
  | (t, _) :: spans, h => by
      simp only [renumberSpans, writtenSpans, spansJson, List.map_cons, List.map_nil, mapNumbers_array,
        mapNumbers_string, toJson_renumber t h.left, spansJson_renumber spans h.right]
end

end TypeExpr

theorem Reference.toJson_renumber (r : Option Reference)
    (h : Mirrored f tree tree' (Reference.anonymousOption r)) :
    typeJson? (Reference.writtenOption (p.renumber g) tree' (r.map (Reference.renumber g))) =
      (typeJson? (Reference.writtenOption p tree r)).map (mapNumbers f) := by
  cases r with
  | none => rfl
  | some r =>
      exact congrArg some (r.link.toJson_renumber mirrors (TypeExpr.typesJson_renumber mirrors _ h))

/-- The tree of a renumbered body differs in the numbers only. -/
theorem Body.toJson_renumber {header : WireHeader} (self : Id) (b : Body)
    (h : Mirrored f tree tree' ((b.positions self).map Position.id)) :
    ((b.renumber g).written (p.renumber g) tree' header).toJson =
      (b.written p tree header).toJson.mapNumbers f := by
  rw [map_id_positions] at h
  have flag (b : Bool) : (if b then some (Json.bool true) else none).map (mapNumbers f) =
      if b then some (.bool true) else none := by
    cases b <;> rfl
  cases b with
  | declaration d =>
      have lineage := h.right.right.left
      have lists := h.right.right.right
      simp [renumber, Lineage.renumber, written, WireReflection.toJson, reflectionsJson?, typeJson?, field,
        mirrors.idJson, mirrors.number_integer, flag, flagsJson?_mapNumbers, mirrors.categories,
        h.left.list,
        TypeExpr.typeJson?_renumber mirrors d.type h.right.left,
        Reference.toJson_renumber mirrors _ lineage.left,
        Reference.toJson_renumber mirrors _ lineage.right.left,
        Reference.toJson_renumber mirrors _ lineage.right.right, lists.left.list,
        lists.right.left.slot, lists.right.right.left.slot, lists.right.right.right.left.slot,
        lists.right.right.right.right.list]
  | signature s =>
      have lineage := h.right.right.right
      simp [renumber, Lineage.renumber, written, WireReflection.toJson, reflectionsJson?,
        reflectionJson?, typeJson?, field, mirrors.idJson, mirrors.number_integer,
        flagsJson?_mapNumbers, h.left.list, h.right.left.list,
        TypeExpr.typeJson?_renumber mirrors s.type h.right.right.left,
        Reference.toJson_renumber mirrors _ lineage.left,
        Reference.toJson_renumber mirrors _ lineage.right.left,
        Reference.toJson_renumber mirrors _ lineage.right.right]
  | parameter q =>
      simp [renumber, written, WireReflection.toJson, reflectionsJson?, reflectionJson?, typeJson?, field,
        mirrors.idJson, mirrors.number_integer, flagsJson?_mapNumbers,
        TypeExpr.typeJson?_renumber mirrors q.type h]
  | typeParameter q =>
      simp [renumber, written, WireReflection.toJson, reflectionsJson?, reflectionJson?, typeJson?, field,
        mirrors.idJson, mirrors.number_integer, flagsJson?_mapNumbers,
        TypeExpr.typeJson?_renumber mirrors q.constraint h.left,
        TypeExpr.typeJson?_renumber mirrors q.default h.right]

namespace Project.IsOrder

variable {config : Config} {l : List Position}

/-- The trees of the reflections differ in the numbers only. -/
theorem mirrored_document (h : p.IsOrder l) {qs below : List Position} (order : p.PostOrder qs below) :
    Mirrored f (p.document config) ((p.renumber g).document config) (below.map Position.id) := by
  induction order with
  | nil => exact nofun
  | @cons q r below qs rest found _ first _ ih ihLater =>
      intro id mem
      rw [List.map_append, List.map_cons, List.mem_append, List.mem_cons] at mem
      rcases mem with mem | rfl | mem
      · exact ih id mem
      · have found' : (p.renumber g).get? q.id = some (r.renumber g) := by
          rw [get?_renumber, found, Option.map_some]
        rw [h.document_eq found, h.renumber.document_eq found']
        refine r.body.toJson_renumber mirrors q.id fun id held => ?_
        obtain ⟨x, inside, rfl⟩ := List.mem_map.1 held
        exact ih x.id (List.mem_map_of_mem (first.perm.mem_iff.2 (List.mem_append_left _ inside)))
      · exact ihLater id mem

/-- **The tree of the renumbered project** is that of the project, with other numbers in it. -/
theorem toJson_renumber (h : p.IsOrder l) (config : Config) :
    ((p.renumber g).rootDocument config).toJson = (p.rootDocument config).toJson.mapNumbers f := by
  have top : Mirrored f (p.document config) ((p.renumber g).document config) p.children := fun id child =>
    h.mirrored_document mirrors h.postOrder id (List.mem_map_of_mem (h.free_mem child))
  simp [rootDocument, WireReflection.toJson, reflectionsJson?, reflectionJson?, typeJson?, field,
    headerToWire, mirrors.idJson, mirrors.number_integer, flagsJson?_mapNumbers, mirrors.categories,
    top.list]

end Project.IsOrder

end

end ApiGraph
