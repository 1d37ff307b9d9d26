import ApiGraph.Proofs.Alike
import ApiGraph.Proofs.Allocation
import ApiGraph.Proofs.Rereading

/-!
# ApiGraph.Proofs.TypeRoundTrip

Types on their way into a document and back. A type without anonymous declarations always has a
document, which is read into any project without changing it. What comes back is **alike**: a
reference points at the reflection that it resolved to, or nowhere if it did not resolve, and a number
that is not finite is null. None of this shows in the text of the type.

* `Link.ComesBack`, `Literal.ComesBack` — what becomes of links and literals.
* `TypeExpr.alike_read` — what becomes of types.
* `typeRoundTrip` — the whole way, and the text.
-/

namespace ApiGraph

variable {p : Project} {tree : Id → WireReflection}

/-! ### Literals -/

/-- What a literal comes back as: the same, or null if it is a number that is not finite. -/
structure Literal.ComesBack (l m : Literal) : Prop where
  finite : l.IsFinite → l.same m = true
  infinite : ¬l.IsFinite → m = .null

theorem Literal.comesBack_read (l : Literal) : l.ComesBack l.toWire.read where
  finite := same_read_toWire
  infinite h := by
    cases l with
    | number x =>
        have infinite : x.isFinite = false := Bool.not_eq_true _ ▸ h
        simp [toWire, Binary64.toWire, infinite, WireLiteral.read]
    | _ => exact absurd trivial h

theorem Literal.ComesBack.chars_eq {l m : Literal} (h : l.ComesBack m) : l.chars = m.chars := by
  by_cases finite : l.IsFinite
  · exact chars_eq_of_same (h.finite finite)
  · rw [h.infinite finite]
    cases l with
    | number x => exact if_neg finite
    | _ => exact absurd trivial finite

/-! ### Links -/

/-- What a link comes back as: it points at the reflection that it resolved to, if there is one. -/
def Link.ComesBack (p : Project) (l m : Link) : Prop :=
  m = { l with target := .reflection ((p.resolve? l.target).getD brokenId) }

theorem Link.comesBack_link (l : Link) : l.ComesBack p (WireType.link (p.resolve? l.target) l.name
    (l.external.map (·.qualifiedName)) (l.external.map (·.package))) := by
  obtain ⟨name, target, external⟩ := l
  cases external <;> rfl

/-- A link comes back under its name, since nothing is registered under the id of broken links. -/
theorem Link.ComesBack.displayName_eq {l m : Link} (h : l.ComesBack p m)
    (reserved : p.contains brokenId = false) : p.displayName l = p.displayName m := by
  obtain rfl := h
  have same : p.resolve? (.reflection ((p.resolve? l.target).getD brokenId)) =
      p.resolve? l.target := by
    cases found : p.resolve? l.target with
    | none => simp [Project.resolve?, reserved]
    | some id =>
        have known := Project.contains_of_resolve? found
        simp [Project.resolve?, known]
  simp only [Project.displayName, same]

/-! ### Types -/

namespace TypeExpr

mutual
/-- A type that is written and read is alike. -/
theorem alike_read : ∀ t : TypeExpr, Throughout IsMerged t.walk → Named tree t.anonymous →
    Alike (Link.ComesBack p) Literal.ComesBack t (t.written p tree).read
  | .array element, merged, named => .array (alike_read element merged.tail named)
  | .conditional check bound whenTrue whenFalse, merged, named =>
      have parts := merged.tail
      .conditional (alike_read check parts.left.left.left named.left)
        (alike_read bound parts.left.left.right named.right.left)
        (alike_read whenTrue parts.left.right named.right.right.left)
        (alike_read whenFalse parts.right named.right.right.right)
  | .indexedAccess object index, merged, named =>
      .indexedAccess (alike_read object merged.tail.right named.left)
        (alike_read index merged.tail.left named.right)
  | .inferred name, _, _ => .inferred name
  | .intersection members, merged, named =>
      .intersection (alike_readTypes members merged.tail named)
  | .intrinsic name, _, _ => .intrinsic name
  | .literal value, _, _ => .literal value.comesBack_read
  | .mapped parameter parameterType template readonlyModifier optionalModifier nameType, merged,
      named =>
      have parts := merged.tail
      .mapped parameter readonlyModifier optionalModifier
        (alike_read parameterType parts.left.right named.left)
        (alike_read template parts.right named.right.left)
        (alike_readType? nameType parts.left.left named.right.right)
  | .optional element, merged, named => .optional (alike_read element merged.tail named)
  | .predicate name asserts target, merged, named =>
      .predicate name asserts (alike_readType? target merged.tail named)
  | .query link arguments, merged, named => by
      have list := alike_readTypes arguments merged.tail.tail named
      rw [← readTypes?_nonEmpty?] at list
      exact .query link.comesBack_link list
  | .reference link arguments, merged, named => by
      have list := alike_readTypes arguments merged.tail named
      rw [← readTypes?_nonEmpty?] at list
      exact .reference link.comesBack_link list
  | .reflection id, _, named => by
      have same : ((reflection id).written p tree).read = .reflection id :=
        congrArg TypeExpr.reflection (named id List.mem_cons_self)
      rw [same]
      exact .reflection id
  | .rest element, merged, named => .rest (alike_read element merged.tail named)
  | .templateLiteral head tail, merged, named =>
      .templateLiteral head (alike_readSpans tail merged.tail named)
  | .tuple elements, merged, named => by
      have list := alike_readTypes elements merged.tail named
      rw [← readTypes?_nonEmpty?] at list
      exact .tuple list
  | .namedTupleMember name isOptional element, merged, named =>
      .namedTupleMember name isOptional (alike_read element merged.tail named)
  | .typeOperator operator target, merged, named =>
      .typeOperator operator (alike_read target merged.tail named)
  | .union members, merged, named => by
      have list := alike_readTypes members merged.tail named
      rw [← mergeBools_readTypes merged.head] at list
      exact .union list
  | .unknown name, _, _ => .unknown name

theorem alike_readTypes : ∀ ts : List TypeExpr, Throughout IsMerged (walkList ts) →
    Named tree (anonymousList ts) →
    AlikeList (Link.ComesBack p) Literal.ComesBack ts (readTypes (writtenList p tree ts))
  | [], _, _ => .nil
  | t :: ts, merged, named =>
      .cons (alike_read t merged.left named.left) (alike_readTypes ts merged.right named.right)

theorem alike_readType? : ∀ t : Option TypeExpr, Throughout IsMerged (walkOption t) →
    Named tree (anonymousOption t) →
    AlikeOption (Link.ComesBack p) Literal.ComesBack t (readType? (writtenOption p tree t))
  | none, _, _ => .none
  | some t, merged, named => .some (alike_read t merged named)

theorem alike_readSpans : ∀ spans : List (TypeExpr × String),
    Throughout IsMerged (walkSpans spans) → Named tree (anonymousSpans spans) →
    AlikeSpans (Link.ComesBack p) Literal.ComesBack spans (readSpans (writtenSpans p tree spans))
  | [], _, _ => .nil
  | (t, text) :: spans, merged, named =>
      .cons text (alike_read t merged.left named.left)
        (alike_readSpans spans merged.right named.right)
end

/-- A written type without anonymous declarations is read into any project, which it leaves as it
is. -/
theorem decode_written (t : TypeExpr) (bare : t.anonymous = []) (s : Decoding) :
    (t.written p tree).decode.run s = .ok (t.written p tree).read s := by
  have weaves : Weaves tree [] (t.written p tree).parts := by
    have all : Weaves tree (t.anonymous.map .free) (t.written p tree).parts := t.weaves
    rwa [bare, List.map_nil] at all
  have none : placements (t.written p tree).parts = [] := weaves.order
  refine ((t.written p tree).decode_reads s _ s).2 ⟨⟨?_, ?_, ?_⟩, rfl, ?_⟩
  · intro part mem
    exact (weaves.valid part mem).resolve_right fun ⟨q, held, _⟩ => List.not_mem_nil held
  · rw [none]
    exact .nil
  · rw [none]
    exact nofun
  · rw [none]
    rfl

end TypeExpr

/-- Nothing is ever registered under the id of broken references. -/
theorem Stage.contains_brokenId_run {s : Stage} (start : s.project.IsStart) (es : List Edit) :
    (s.run es).project.contains brokenId = false := by
  rw [← Bool.not_eq_true]
  intro known
  obtain ⟨literals, sound⟩ := start.exists_isSound
  rcases (s.ran_run es).contains brokenId known with before | given
  · obtain ⟨r, found⟩ := Registry.contains_iff.1 before
    exact absurd (sound.numbered brokenId r found).1 (by decide)
  · have low := Int.le_trans sound.next.1 ((s.ran_run es).within brokenId given).1
    exact absurd low (by decide)

open TypeExpr in
/-- **A type keeps its text on the way into a document and back.** A type that names no declaration, and
no union of which has both `true` and `false`, has a document; this is read into any project, which stays
as it is; and what comes back is alike, with links to what they resolved to and null for numbers that are
not finite, and has the same text. Nothing is ever registered under the id of broken references, as
`Stage.contains_brokenId_run` says. -/
theorem typeRoundTrip (p : Project) (config : Config) (t : TypeExpr)
    (reserved : p.contains brokenId = false) (bare : t.anonymous = [])
    (merged : Throughout IsMerged t.walk) :
    ∃ w t', p.typeToWire config t = .ok w ∧ (∀ s : Decoding, w.decode.run s = .ok t' s) ∧
      Alike (Link.ComesBack p) Literal.ComesBack t t' ∧ t'.render p = t.render p := by
  let tree : Id → WireReflection := fun _ => default
  have none (P : Id → Prop) : ∀ id ∈ t.anonymous, P id := by
    rw [bare]
    exact nofun
  have alike : Alike (Link.ComesBack p) Literal.ComesBack t (t.written p tree).read :=
    t.alike_read merged (none _)
  have same : chars p t = chars p (t.written p tree).read :=
    alike.chars_eq (fun _ _ link => link.displayName_eq reserved) (fun _ _ value => value.chars_eq)
      fun _ => rfl
  exact ⟨t.written p tree, (t.written p tree).read, t.toWire_eq (none _), t.decode_written bare,
    alike, congrArg String.ofList same.symm⟩

/-- The variable of the example document, what a lost symbol stood for with a number that is none, and a
property of something broken. -/
def lostTypes : TypeExpr :=
  .union
    [.reference { name := "options", target := .reflection 1 } [],
      .query { name := "lost", target := .symbol 7 } [.literal (.number ⟨0x7ff8000000000000⟩)],
      .indexedAccess (.reference { name := "broken", target := .reflection brokenId } [])
        (.literal (.bool true))]

/-- A resolved, a lost and a broken reference and a number that is none go into a document and back, and
the text is the same. -/
theorem typeRoundTrip_lostTypes : ∃ w t',
    optionsDocument.project.typeToWire {} lostTypes = .ok w ∧
      w.decode.run { project := { name := "other" } } = .ok t' { project := { name := "other" } } ∧
      t'.render optionsDocument.project = lostTypes.render optionsDocument.project := by
  have merged : Throughout TypeExpr.IsMerged lostTypes.walk := by
    intro node mem
    simp only [lostTypes, TypeExpr.walk, TypeExpr.walkList, List.append_nil, List.cons_append,
      List.nil_append, List.mem_cons, List.not_mem_nil, or_false] at mem
    obtain rfl | rfl | rfl | rfl | rfl | rfl | rfl | rfl := mem
    · exact ⟨true, by simp [TypeExpr.bool]⟩
    all_goals trivial
  obtain ⟨w, t', written, read, -, same⟩ :=
    typeRoundTrip optionsDocument.project {} lostTypes rfl rfl merged
  exact ⟨w, t', written, read _, same⟩

end ApiGraph
