import ApiGraph.Proofs.Unions
import ApiGraph.Proofs.WrittenParts
import ApiGraph.TypeExpr.Equality
import ApiGraph.TypeExpr.Walk
import ApiGraph.Wire.Settle

/-!
# ApiGraph.Proofs.Rereading

Types that are written and read back. A type comes back the same, with its references settled, if
each of its nodes **keeps** what it says: a number is finite, a reference resolves or is broken, and
of a union not both `true` and `false` are members. Whatever comes back is written as before, unless
a union that has both is merged.

* `Project.Keeps` — what a node must be like to come back the same.
* `TypeExpr.exists_settled` — a type comes back the same.
* `TypeExpr.written_read` — what comes back is written as before.
-/

namespace ApiGraph

/-- A property of all nodes. -/
def Throughout (P : TypeExpr → Prop) (nodes : List TypeExpr) : Prop :=
  ∀ t ∈ nodes, P t

namespace Throughout

variable {P Q : TypeExpr → Prop} {t : TypeExpr} {a b : List TypeExpr}

theorem head (h : Throughout P (t :: a)) : P t := h t List.mem_cons_self

theorem tail (h : Throughout P (t :: a)) : Throughout P a :=
  fun x mem => h x (List.mem_cons_of_mem _ mem)

theorem left (h : Throughout P (a ++ b)) : Throughout P a :=
  fun x mem => h x (List.mem_append_left _ mem)

theorem right (h : Throughout P (a ++ b)) : Throughout P b :=
  fun x mem => h x (List.mem_append_right _ mem)

theorem imp (h : Throughout P a) (all : ∀ t, P t → Q t) : Throughout Q a :=
  fun x mem => all x (h x mem)

end Throughout

/-- A node that is no union of both `true` and `false`. -/
def TypeExpr.IsMerged : TypeExpr → Prop
  | .union members => ∃ value, bool value ∉ members
  | _ => True

/-- A reference that resolves, or never will. -/
def Project.KeepsLink (p : Project) (link : Link) : Prop :=
  (∃ id, p.resolve? link.target = some id) ∨ link.target = .reflection brokenId

/-- A node that comes back from a document as it was. -/
def Project.Keeps (p : Project) : TypeExpr → Prop
  | .literal value => value.IsFinite
  | .query link _ | .reference link _ => p.KeepsLink link
  | .union members => ∃ value, TypeExpr.bool value ∉ members
  | _ => True

theorem Project.Keeps.isMerged {p : Project} {t : TypeExpr} (h : p.Keeps t) : t.IsMerged := by
  cases t with
  | union members => exact h
  | _ => trivial

variable {p q : Project} {tree tree' : Id → WireReflection}

/-! ### Literals in unions -/

namespace TypeExpr

/-- Only a boolean literal comes back as a boolean literal. -/
theorem read_written_eq_bool_iff {t : TypeExpr} {value : Bool} :
    (t.written p tree).read = bool value ↔ t = bool value := by
  cases t with
  | literal l => simp [written, WireType.read, Literal.read_toWire_eq_bool_iff]
  | _ => simp [written, Link.toWire, WireType.read, Reference.toQuery, unionOf]

theorem bool_mem_readTypes_iff {ts : List TypeExpr} {value : Bool} :
    bool value ∈ readTypes (writtenList p tree ts) ↔ bool value ∈ ts := by
  induction ts with
  | nil => rfl
  | cons t ts ih =>
      rw [writtenList, readTypes, List.mem_cons, List.mem_cons, ih, eq_comm (a := bool value),
        read_written_eq_bool_iff, eq_comm (a := t)]

/-- A union without both `true` and `false` comes back with its members one by one. -/
theorem mergeBools_readTypes {members : List TypeExpr} (h : ∃ value, bool value ∉ members) :
    mergeBools (readTypes (writtenList p tree members)) = readTypes (writtenList p tree members) := by
  obtain ⟨value, missing⟩ := h
  exact mergeBools_eq_self value (mt bool_mem_readTypes_iff.1 missing)

end TypeExpr

theorem readTypes?_nonEmpty? (ts : List WireType) : readTypes? (nonEmpty? ts) = readTypes ts := by
  cases ts <;> rfl

/-! ### Coming back the same -/

/-- Each document is the one of its id. -/
def Named (tree : Id → WireReflection) (ids : List Id) : Prop :=
  ∀ id ∈ ids, (tree id).header.id = id

theorem Named.left {a b : List Id} (h : Named tree (a ++ b)) : Named tree a :=
  fun id mem => h id (List.mem_append_left _ mem)

theorem Named.right {a b : List Id} (h : Named tree (a ++ b)) : Named tree b :=
  fun id mem => h id (List.mem_append_right _ mem)

namespace TypeExpr

/-- A pass over all of a type. -/
def Settling.whole (p : Project) : Settling :=
  { lookup := p.lookup, blocks := fun _ => false }

theorem bind_pass {α β : Type} {x : StateM Bool α} {f : α → StateM Bool β} {a : α}
    (h : x true = (a, true)) : (x >>= f) true = f a true := by
  show (match x true with | (a, s) => f a s) = f a true
  rw [h]

theorem settleLink_whole (link : Link) :
    settleLink (.whole p) link true = (link.settle p.lookup, true) := rfl

/-- A kept reference comes back settled. -/
theorem settle_link {link : Link} (h : p.KeepsLink link) : link.settle p.lookup =
    WireType.link (p.resolve? link.target) link.name (link.external.map (·.qualifiedName))
      (link.external.map (·.package)) := by
  obtain ⟨name, target, external⟩ := link
  have same : target.settle p.lookup = .reflection ((p.resolve? target).getD brokenId) := by
    rcases h with ⟨id, resolves⟩ | broken
    · cases target with
      | symbol s =>
          have known : p.lookup s = some id := resolves
          simp [Target.settle, Project.resolve?, known]
      | reflection id' =>
          have known : (if p.contains id' then some id' else none) = some id := resolves
          split at known
          · next contained => simp [Target.settle, Project.resolve?, contained]
          · cases known
    · -- a broken reference is settled to itself, whether its id is registered or not
      obtain rfl : target = .reflection brokenId := broken
      simp only [Target.settle, Project.resolve?]
      split <;> rfl
  cases external <;> simp [Link.settle, WireType.link, same]

mutual
/-- A type whose nodes are kept comes back settled and otherwise the same. -/
theorem exists_settled : ∀ t : TypeExpr, Throughout p.Keeps t.walk → Named tree t.anonymous →
    ∃ t', t.settleWhile (.whole p) true = (t', true) ∧ t'.same (t.written p tree).read = true
  | .array element, keeps, named => by
      obtain ⟨element', run, same⟩ := exists_settled element keeps.tail named
      refine ⟨.array element', ?_, by simpa [written, WireType.read, TypeExpr.same] using same⟩
      rw [settleWhile, bind_pass run]
      rfl
  | .conditional check bound whenTrue whenFalse, keeps, named => by
      have parts := keeps.tail
      obtain ⟨check', runCheck, sameCheck⟩ := exists_settled check parts.left.left.left named.left
      obtain ⟨bound', runBound, sameBound⟩ :=
        exists_settled bound parts.left.left.right named.right.left
      obtain ⟨whenTrue', runTrue, sameTrue⟩ :=
        exists_settled whenTrue parts.left.right named.right.right.left
      obtain ⟨whenFalse', runFalse, sameFalse⟩ :=
        exists_settled whenFalse parts.right named.right.right.right
      refine ⟨.conditional check' bound' whenTrue' whenFalse', ?_, ?_⟩
      · rw [settleWhile, bind_pass runCheck, bind_pass runBound, bind_pass runTrue,
          bind_pass runFalse]
        rfl
      · simp [written, WireType.read, TypeExpr.same, sameCheck, sameBound, sameTrue, sameFalse]
  | .indexedAccess object index, keeps, named => by
      obtain ⟨index', runIndex, sameIndex⟩ := exists_settled index keeps.tail.left named.right
      obtain ⟨object', runObject, sameObject⟩ := exists_settled object keeps.tail.right named.left
      refine ⟨.indexedAccess object' index', ?_, ?_⟩
      · rw [settleWhile, bind_pass runIndex, bind_pass runObject]
        rfl
      · simp [written, WireType.read, TypeExpr.same, sameIndex, sameObject]
  | .inferred name, _, _ => ⟨.inferred name, rfl, by simp [written, WireType.read, TypeExpr.same]⟩
  | .intersection members, keeps, named => by
      obtain ⟨members', run, same⟩ := exists_settled_list members keeps.tail named
      refine ⟨.intersection members', ?_, by simpa [written, WireType.read, TypeExpr.same] using same⟩
      rw [settleWhile, bind_pass run]
      rfl
  | .intrinsic name, _, _ => ⟨.intrinsic name, rfl, by simp [written, WireType.read, TypeExpr.same]⟩
  | .literal value, keeps, _ => by
      refine ⟨.literal value, rfl, ?_⟩
      simpa [written, WireType.read, TypeExpr.same] using Literal.same_read_toWire keeps.head
  | .mapped parameter parameterType template readonlyModifier optionalModifier nameType, keeps,
      named => by
      have parts := keeps.tail
      obtain ⟨parameterType', runParameter, sameParameter⟩ :=
        exists_settled parameterType parts.left.right named.left
      obtain ⟨template', runTemplate, sameTemplate⟩ :=
        exists_settled template parts.right named.right.left
      obtain ⟨nameType', runName, sameName⟩ :=
        exists_settled_option nameType parts.left.left named.right.right
      refine ⟨.mapped parameter parameterType' template' readonlyModifier optionalModifier nameType',
        ?_, ?_⟩
      · rw [settleWhile, bind_pass runParameter, bind_pass runTemplate, bind_pass runName]
        rfl
      · simp [written, WireType.read, TypeExpr.same, sameParameter, sameTemplate, sameName]
  | .optional element, keeps, named => by
      obtain ⟨element', run, same⟩ := exists_settled element keeps.tail named
      refine ⟨.optional element', ?_, by simpa [written, WireType.read, TypeExpr.same] using same⟩
      rw [settleWhile, bind_pass run]
      rfl
  | .predicate name asserts target, keeps, named => by
      obtain ⟨target', run, same⟩ := exists_settled_option target keeps.tail named
      refine ⟨.predicate name asserts target', ?_, ?_⟩
      · rw [settleWhile, bind_pass run]
        rfl
      · simp [written, WireType.read, TypeExpr.same, same]
  | .query link arguments, keeps, named => by
      obtain ⟨arguments', run, same⟩ := exists_settled_list arguments keeps.tail.tail named
      -- the queried reference is a node of its own
      refine ⟨.query (link.settle p.lookup) arguments', ?_, ?_⟩
      · rw [settleWhile, bind_pass (settleLink_whole link), bind_pass run]
        rfl
      · simp [written, Link.toWire, WireType.read, WireType.readReference, Reference.toQuery,
          TypeExpr.same, settle_link keeps.head, readTypes?_nonEmpty?, same]
  | .reference link arguments, keeps, named => by
      obtain ⟨arguments', run, same⟩ := exists_settled_list arguments keeps.tail named
      refine ⟨.reference (link.settle p.lookup) arguments', ?_, ?_⟩
      · rw [settleWhile, bind_pass (settleLink_whole link), bind_pass run]
        rfl
      · simp [written, Link.toWire, WireType.read, TypeExpr.same, settle_link keeps.head,
          readTypes?_nonEmpty?, same]
  | .reflection id, _, named => by
      refine ⟨.reflection id, rfl, ?_⟩
      simp [written, WireType.read, TypeExpr.same, named id List.mem_cons_self]
  | .rest element, keeps, named => by
      obtain ⟨element', run, same⟩ := exists_settled element keeps.tail named
      refine ⟨.rest element', ?_, by simpa [written, WireType.read, TypeExpr.same] using same⟩
      rw [settleWhile, bind_pass run]
      rfl
  | .templateLiteral head tail, keeps, named => by
      obtain ⟨tail', run, same⟩ := exists_settled_spans tail keeps.tail named
      refine ⟨.templateLiteral head tail', ?_, ?_⟩
      · rw [settleWhile, bind_pass run]
        rfl
      · simp [written, WireType.read, TypeExpr.same, same]
  | .tuple elements, keeps, named => by
      obtain ⟨elements', run, same⟩ := exists_settled_list elements keeps.tail named
      refine ⟨.tuple elements', ?_, ?_⟩
      · rw [settleWhile, bind_pass run]
        rfl
      · simp [written, WireType.read, TypeExpr.same, readTypes?_nonEmpty?, same]
  | .namedTupleMember name isOptional element, keeps, named => by
      obtain ⟨element', run, same⟩ := exists_settled element keeps.tail named
      refine ⟨.namedTupleMember name isOptional element', ?_, ?_⟩
      · rw [settleWhile, bind_pass run]
        rfl
      · simp [written, WireType.read, TypeExpr.same, same]
  | .typeOperator operator target, keeps, named => by
      obtain ⟨target', run, same⟩ := exists_settled target keeps.tail named
      refine ⟨.typeOperator operator target', ?_, ?_⟩
      · rw [settleWhile, bind_pass run]
        rfl
      · simp [written, WireType.read, TypeExpr.same, same]
  | .union members, keeps, named => by
      obtain ⟨members', run, same⟩ := exists_settled_list members keeps.tail named
      refine ⟨.union members', ?_, ?_⟩
      · rw [settleWhile, bind_pass run]
        rfl
      · simp [written, WireType.read, unionOf, TypeExpr.same, mergeBools_readTypes keeps.head, same]
  | .unknown name, _, _ => ⟨.unknown name, rfl, by simp [written, WireType.read, TypeExpr.same]⟩

theorem exists_settled_list : ∀ ts : List TypeExpr, Throughout p.Keeps (walkList ts) →
    Named tree (anonymousList ts) → ∃ ts', settleList (.whole p) ts true = (ts', true) ∧
      sameList ts' (readTypes (writtenList p tree ts)) = true
  | [], _, _ => ⟨[], rfl, by simp [writtenList, readTypes, sameList]⟩
  | t :: ts, keeps, named => by
      obtain ⟨t', runHead, sameHead⟩ := exists_settled t keeps.left named.left
      obtain ⟨ts', runTail, sameTail⟩ := exists_settled_list ts keeps.right named.right
      refine ⟨t' :: ts', ?_, by simp [writtenList, readTypes, sameList, sameHead, sameTail]⟩
      rw [settleList, bind_pass runHead, bind_pass runTail]
      rfl

theorem exists_settled_option : ∀ t : Option TypeExpr, Throughout p.Keeps (walkOption t) →
    Named tree (anonymousOption t) → ∃ t', settleOption (.whole p) t true = (t', true) ∧
      sameOption t' (readType? (writtenOption p tree t)) = true
  | none, _, _ => ⟨none, rfl, by simp [writtenOption, readType?, sameOption]⟩
  | some t, keeps, named => by
      obtain ⟨t', run, same⟩ := exists_settled t keeps named
      refine ⟨some t', ?_, by simp [writtenOption, readType?, sameOption, same]⟩
      rw [settleOption, bind_pass run]
      rfl

theorem exists_settled_spans : ∀ spans : List (TypeExpr × String),
    Throughout p.Keeps (walkSpans spans) → Named tree (anonymousSpans spans) →
    ∃ spans', settleSpans (.whole p) spans true = (spans', true) ∧
      sameSpans spans' (readSpans (writtenSpans p tree spans)) = true
  | [], _, _ => ⟨[], rfl, by simp [writtenSpans, readSpans, sameSpans]⟩
  | (t, text) :: spans, keeps, named => by
      obtain ⟨t', runHead, sameHead⟩ := exists_settled t keeps.left named.left
      obtain ⟨spans', runTail, sameTail⟩ := exists_settled_spans spans keeps.right named.right
      refine ⟨(t', text) :: spans', ?_, ?_⟩
      · rw [settleSpans, bind_pass runHead, bind_pass runTail]
        rfl
      · simp [writtenSpans, readSpans, sameSpans, sameHead, sameTail]
end

end TypeExpr

/-! ### Written as before -/

/-- References that come back resolve to what they were written with. -/
def Resolves (p q : Project) : Prop :=
  ∀ target, q.resolve? (.reflection ((p.resolve? target).getD brokenId)) = p.resolve? target

/-- The documents are those of the ids that they bring along. -/
def Agrees (tree tree' : Id → WireReflection) (ids : List Id) : Prop :=
  ∀ id ∈ ids, tree' (tree id).header.id = tree id

theorem Agrees.left {a b : List Id} (h : Agrees tree tree' (a ++ b)) : Agrees tree tree' a :=
  fun id mem => h id (List.mem_append_left _ mem)

theorem Agrees.right {a b : List Id} (h : Agrees tree tree' (a ++ b)) : Agrees tree tree' b :=
  fun id mem => h id (List.mem_append_right _ mem)

/-- A reference that comes back is written as before. -/
theorem Resolves.toWire_link (h : Resolves p q) (link : Link) (arguments : List WireType) :
    (WireType.link (p.resolve? link.target) link.name (link.external.map (·.qualifiedName))
      (link.external.map (·.package))).toWire q arguments = link.toWire p arguments := by
  obtain ⟨name, target, external⟩ := link
  simp only [WireType.link, Link.toWire, h target]
  cases external <;> rfl

namespace TypeExpr

mutual
/-- A type without merges to make comes back to be written as before. -/
theorem written_read (resolves : Resolves p q) : ∀ t : TypeExpr, Throughout IsMerged t.walk →
    Agrees tree tree' t.anonymous → (t.written p tree).read.written q tree' = t.written p tree
  | .array element, merged, agrees => by
      simp only [written, WireType.read, written_read resolves element merged.tail agrees]
  | .conditional check bound whenTrue whenFalse, merged, agrees => by
      have parts := merged.tail
      simp only [written, WireType.read,
        written_read resolves check parts.left.left.left agrees.left,
        written_read resolves bound parts.left.left.right agrees.right.left,
        written_read resolves whenTrue parts.left.right agrees.right.right.left,
        written_read resolves whenFalse parts.right agrees.right.right.right]
  | .indexedAccess object index, merged, agrees => by
      simp only [written, WireType.read,
        written_read resolves index merged.tail.left agrees.right,
        written_read resolves object merged.tail.right agrees.left]
  | .inferred _, _, _ => rfl
  | .intersection members, merged, agrees => by
      simp only [written, WireType.read, written_readTypes resolves members merged.tail agrees]
  | .intrinsic _, _, _ => rfl
  | .literal value, _, _ => by
      simp only [written, WireType.read, Literal.toWire_read_toWire]
  | .mapped _ parameterType template _ _ nameType, merged, agrees => by
      have parts := merged.tail
      simp only [written, WireType.read,
        written_read resolves parameterType parts.left.right agrees.left,
        written_read resolves template parts.right agrees.right.left,
        written_readType? resolves nameType parts.left.left agrees.right.right]
  | .optional element, merged, agrees => by
      simp only [written, WireType.read, written_read resolves element merged.tail agrees]
  | .predicate _ _ target, merged, agrees => by
      simp only [written, WireType.read, written_readType? resolves target merged.tail agrees]
  | .query link arguments, merged, agrees => by
      have list := written_readTypes resolves arguments merged.tail.tail agrees
      simp only [written, Link.toWire, WireType.read, WireType.readReference, Reference.toQuery,
        readTypes?_nonEmpty?, list]
      exact congrArg WireType.query (resolves.toWire_link link _)
  | .reference link arguments, merged, agrees => by
      have list := written_readTypes resolves arguments merged.tail agrees
      simp only [written, Link.toWire, WireType.read, readTypes?_nonEmpty?, list]
      exact resolves.toWire_link link _
  | .reflection id, _, agrees => by
      simp only [written, WireType.read, agrees id List.mem_cons_self]
  | .rest element, merged, agrees => by
      simp only [written, WireType.read, written_read resolves element merged.tail agrees]
  | .templateLiteral _ tail, merged, agrees => by
      simp only [written, WireType.read, written_readSpans resolves tail merged.tail agrees]
  | .tuple elements, merged, agrees => by
      simp only [written, WireType.read, readTypes?_nonEmpty?,
        written_readTypes resolves elements merged.tail agrees]
  | .namedTupleMember _ _ element, merged, agrees => by
      simp only [written, WireType.read, written_read resolves element merged.tail agrees]
  | .typeOperator _ target, merged, agrees => by
      simp only [written, WireType.read, written_read resolves target merged.tail agrees]
  | .union members, merged, agrees => by
      simp only [written, WireType.read, unionOf, mergeBools_readTypes merged.head,
        written_readTypes resolves members merged.tail agrees]
  | .unknown _, _, _ => rfl

theorem written_readTypes (resolves : Resolves p q) : ∀ ts : List TypeExpr,
    Throughout IsMerged (walkList ts) → Agrees tree tree' (anonymousList ts) →
    writtenList q tree' (readTypes (writtenList p tree ts)) = writtenList p tree ts
  | [], _, _ => rfl
  | t :: ts, merged, agrees => by
      simp only [writtenList, readTypes, written_read resolves t merged.left agrees.left,
        written_readTypes resolves ts merged.right agrees.right]

theorem written_readType? (resolves : Resolves p q) : ∀ t : Option TypeExpr,
    Throughout IsMerged (walkOption t) → Agrees tree tree' (anonymousOption t) →
    writtenOption q tree' (readType? (writtenOption p tree t)) = writtenOption p tree t
  | none, _, _ => rfl
  | some t, merged, agrees => by
      simp only [writtenOption, readType?, written_read resolves t merged agrees]

theorem written_readSpans (resolves : Resolves p q) : ∀ spans : List (TypeExpr × String),
    Throughout IsMerged (walkSpans spans) → Agrees tree tree' (anonymousSpans spans) →
    writtenSpans q tree' (readSpans (writtenSpans p tree spans)) = writtenSpans p tree spans
  | [], _, _ => rfl
  | (t, _) :: spans, merged, agrees => by
      simp only [writtenSpans, readSpans, written_read resolves t merged.left agrees.left,
        written_readSpans resolves spans merged.right agrees.right]
end

end TypeExpr

end ApiGraph
