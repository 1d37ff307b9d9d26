import ApiGraph.Proofs.Alike
import ApiGraph.Proofs.Rereading

/-!
# ApiGraph.Proofs.Settling

What becomes of references when they are looked at. To resolve, render or encode a reference settles
it, and the project may be another one each time. So a target changes at most once: a symbol becomes the
reflection that the first project to know it says it is, and a reflection stays what it is, whatever is
removed or registered later.

* `Reference.link_after` — a reference on its own, exactly.
* `TypeExpr.alike_settleWhile` — what a pass makes of a type, whether or not it ends early.
* `Call`, `History` — what can happen to a type, in one project and in several.
* `History.settles` — every reference in a type, at any depth.
-/

namespace ApiGraph

/-! ### A reference on its own -/

/-- What can be done with a reference in a project. -/
inductive Use
  | resolve
  | render
  | encode

/-- The reference after one use: what rendering and encoding make of it is what they make of the type
that it is. -/
def Reference.use (p : Project) (r : Reference) : Use → Reference
  | .resolve => r.settleLink p.lookup
  | .render => (r.settleWhile (.whole p) true).1
  | .encode => (r.settleWhile p.settling true).1

/-- The reference after several uses, each in a project of its own. -/
def Reference.after (r : Reference) (uses : List (Use × Project)) : Reference :=
  uses.foldl (fun r u => r.use u.2 u.1) r

/-- Every use resolves the reference itself, before its arguments. -/
theorem Reference.link_use (p : Project) (r : Reference) (use : Use) :
    (r.use p use).link = r.link.settle p.lookup := by
  cases use <;> rfl

/-- To settle twice is to settle once, by what is found first. -/
theorem Link.settle_settle (first second : Symbol → Option Id) (l : Link) :
    (l.settle first).settle second = l.settle fun symbol => (first symbol).or (second symbol) := by
  obtain ⟨name, target, external⟩ := l
  cases target with
  | reflection id => rfl
  | symbol symbol =>
      cases found : first symbol <;> simp [Link.settle, Target.settle, found]

/-- After any uses the target is what the first project that knows its symbol says. -/
theorem Reference.link_after (r : Reference) (uses : List (Use × Project)) :
    (r.after uses).link = r.link.settle fun symbol => uses.findSome? (·.2.lookup symbol) := by
  induction uses generalizing r with
  | nil =>
      obtain ⟨⟨name, target, external⟩, arguments⟩ := r
      cases target <;> rfl
  | cons u uses ih =>
      have again := ih (r.use u.2 u.1)
      rw [link_use, Link.settle_settle] at again
      refine again.trans (congrArg (Link.settle · r.link) (funext fun symbol => ?_))
      rw [List.findSome?_cons]
      cases u.2.lookup symbol <;> rfl

/-! ### What a pass makes of a type -/

namespace TypeExpr

section

set_option linter.unusedSectionVars false

variable {L : Link → Link → Prop} {s : Settling} (keeps : ∀ l, L l l)
  (settles : ∀ l, L l (l.settle s.lookup))
include keeps settles

theorem related_settleLink (l : Link) (goesOn : Bool) : L l (settleLink s l goesOn).1 := by
  cases goesOn
  · exact keeps l
  · exact settles l

mutual
/-- A pass makes an alike type, with some links settled and some not. -/
theorem alike_settleWhile : ∀ (t : TypeExpr) (goesOn : Bool),
    Alike L Eq t (t.settleWhile s goesOn).1
  | .array element, _ => .array (alike_settleWhile element _)
  | .conditional check bound whenTrue whenFalse, _ =>
      .conditional (alike_settleWhile check _) (alike_settleWhile bound _)
        (alike_settleWhile whenTrue _) (alike_settleWhile whenFalse _)
  | .indexedAccess object index, _ =>
      .indexedAccess (alike_settleWhile object _) (alike_settleWhile index _)
  | .inferred name, _ => .inferred name
  | .intersection members, _ => .intersection (alike_settleList members _)
  | .intrinsic name, _ => .intrinsic name
  | .literal _, _ => .literal rfl
  | .mapped parameter parameterType template readonlyModifier optionalModifier nameType, _ =>
      .mapped parameter readonlyModifier optionalModifier (alike_settleWhile parameterType _)
        (alike_settleWhile template _) (alike_settleOption nameType _)
  | .optional element, _ => .optional (alike_settleWhile element _)
  | .predicate name asserts target, _ => .predicate name asserts (alike_settleOption target _)
  | .query link arguments, _ =>
      .query (related_settleLink keeps settles link _) (alike_settleList arguments _)
  | .reference link arguments, _ =>
      .reference (related_settleLink keeps settles link _) (alike_settleList arguments _)
  | .reflection id, _ => .reflection id
  | .rest element, _ => .rest (alike_settleWhile element _)
  | .templateLiteral head tail, _ => .templateLiteral head (alike_settleSpans tail _)
  | .tuple elements, _ => .tuple (alike_settleList elements _)
  | .namedTupleMember name isOptional element, _ =>
      .namedTupleMember name isOptional (alike_settleWhile element _)
  | .typeOperator operator target, _ => .typeOperator operator (alike_settleWhile target _)
  | .union members, _ => .union (alike_settleList members _)
  | .unknown name, _ => .unknown name

theorem alike_settleList : ∀ (ts : List TypeExpr) (goesOn : Bool),
    AlikeList L Eq ts (settleList s ts goesOn).1
  | [], _ => .nil
  | t :: ts, _ => .cons (alike_settleWhile t _) (alike_settleList ts _)

theorem alike_settleOption : ∀ (t : Option TypeExpr) (goesOn : Bool),
    AlikeOption L Eq t (settleOption s t goesOn).1
  | none, _ => .none
  | some t, _ => .some (alike_settleWhile t _)

theorem alike_settleSpans : ∀ (spans : List (TypeExpr × String)) (goesOn : Bool),
    AlikeSpans L Eq spans (settleSpans s spans goesOn).1
  | [], _ => .nil
  | (t, text) :: spans, _ => .cons text (alike_settleWhile t _) (alike_settleSpans spans _)
end

end

end TypeExpr

/-! ### Histories -/

/-- What a link may have become: settled, or not as yet. -/
def Link.MaySettle (p : Project) (l m : Link) : Prop :=
  m = l ∨ m = l.settle p.lookup

/-- A call that does not mutate a project, on a type and the project that it is in. The references that
it comes to are settled, those of the type and those that the project holds. -/
inductive Call : Project × TypeExpr → Project × TypeExpr → Prop
  /-- Some references of the type are resolved, one or more. -/
  | resolve {p : Project} {t t' : TypeExpr} (some : t.Alike (Link.MaySettle p) Eq t') :
      Call (p, t) (p, t')
  | render (p : Project) (t : TypeExpr) : Call (p, t) (p, t.settle p.lookup)
  | encode (p : Project) (t : TypeExpr) :
      Call (p, t) (p.settleEncoded t.declarations, p.settleEncodedType t)
  /-- The main type of a reflection is rendered. -/
  | renderHeld (p : Project) (id : Id) (t : TypeExpr) : Call (p, t) (p.settleType id, t)
  /-- Reflections are encoded, as they are with their owners and with the whole project. -/
  | encodeHeld (p : Project) (ids : List Id) (t : TypeExpr) : Call (p, t) (p.settleEncoded ids, t)

/-- What calls can make of a type, each in a project of its own: nothing is said about how one project
comes from another. -/
inductive History (t : TypeExpr) : List Project → TypeExpr → Prop
  | start : History t [] t
  | call {ps : List Project} {p p' : Project} {u u' : TypeExpr} (before : History t ps u)
      (call : Call (p, u) (p', u')) : History t (ps ++ [p]) u'

/-- A link that has settled at most once: if it points at a symbol, as what one of the projects said the
symbol is. -/
inductive Link.Settles (ps : List Project) (l : Link) : Link → Prop
  | same : l.Settles ps l
  | found {symbol : Symbol} {p : Project} {id : Id} (waits : l.target = .symbol symbol)
      (mem : p ∈ ps) (known : p.lookup symbol = some id) : l.Settles ps { l with target := .reflection id }

theorem Link.settles_settle (p : Project) (l : Link) : l.Settles [p] (l.settle p.lookup) := by
  obtain ⟨name, target, external⟩ := l
  cases target with
  | reflection id => exact .same
  | symbol symbol =>
      cases known : p.lookup symbol with
      | none =>
          have same : Link.settle p.lookup { name, target := .symbol symbol, external } =
              { name, target := .symbol symbol, external } := by
            simp [settle, Target.settle, known]
          rw [same]
          exact .same
      | some id =>
          have now : Link.settle p.lookup { name, target := .symbol symbol, external } =
              { name, target := .reflection id, external } := by
            simp [settle, Target.settle, known]
          rw [now]
          exact .found rfl (List.mem_singleton_self p) known

/-- What has settled stays. -/
theorem Link.Settles.trans {ps qs : List Project} {l m n : Link} (h : l.Settles ps m)
    (h' : m.Settles qs n) : l.Settles (ps ++ qs) n := by
  cases h with
  | same =>
      cases h' with
      | same => exact .same
      | found waits mem known => exact .found waits (List.mem_append_right ps mem) known
  | found waits mem known =>
      cases h' with
      | same => exact .found waits (List.mem_append_left qs mem) known
      | found again => cases again

theorem TypeExpr.settles_of_call {p p' : Project} {t t' : TypeExpr} (h : Call (p, t) (p', t')) :
    t.Alike (Link.Settles [p]) Eq t' := by
  have keeps (l : Link) : l.Settles [p] l := .same
  cases h with
  | resolve some =>
      refine some.mono (fun l m link => ?_) fun _ _ same => same
      rcases link with rfl | rfl
      · exact .same
      · exact l.settles_settle p
  | render => exact alike_settleWhile keeps (Link.settles_settle p) t true
  | encode => exact alike_settleWhile keeps (Link.settles_settle p) t true
  | renderHeld | encodeHeld => exact Alike.refl keeps (fun _ => rfl) t

/-- At any depth of a type, each link settles at most once, as what one of the projects says. -/
theorem History.settles {t t' : TypeExpr} {ps : List Project} (h : History t ps t') :
    t.Alike (Link.Settles ps) Eq t' := by
  induction h with
  | start => exact TypeExpr.Alike.refl (fun _ => .same) (fun _ => rfl) t
  | call _ call ih =>
      refine ih.trans (fun l m n => ?_) (fun u v w => ?_) (TypeExpr.settles_of_call call)
      · exact Link.Settles.trans
      · exact Eq.trans

end ApiGraph
