import ApiGraph.Proofs.Settling
import Mathlib.Logic.Relation

/-!
# ApiGraph.Proofs.Unseen

Settling does not show. Where a settled reference stands for the reflection that its symbol would have
been looked up as, a project answers as before: the same texts and the same documents. So calls that do
not mutate a project have no influence on each other, in whatever order they come.

* `Body.Alike` — reflections that differ in their links only.
* `Project.AnswersAs` — a project with some of its references settled.
* `Project.answersAs_settleEncoded`, `Project.answersAs_settleType` — what calls make of a project.
* `settling_once_unseen` — any reference in any history, any type in any sequence of calls.
-/

namespace ApiGraph

open TypeExpr

/-! ### Reflections that are alike -/

/-- References that are missing both, or alike. -/
inductive Reference.AlikeOption (L : Link → Link → Prop) :
    Option Reference → Option Reference → Prop
  | none : AlikeOption L none none
  | some {r r' : Reference} (link : L r.link r'.link)
      (arguments : AlikeList L Eq r.arguments r'.arguments) : AlikeOption L (some r) (some r')

/-- Lineages whose references are alike one by one. -/
structure Lineage.Alike (L : Link → Link → Prop) (l l' : Lineage) : Prop where
  overwrites : Reference.AlikeOption L l.overwrites l'.overwrites
  inheritedFrom : Reference.AlikeOption L l.inheritedFrom l'.inheritedFrom
  implementationOf : Reference.AlikeOption L l.implementationOf l'.implementationOf

/-- Bodies that hold alike types and references, and otherwise the same. -/
inductive Body.Alike (L : Link → Link → Prop) : Body → Body → Prop
  | declaration (d : Declaration) {type : Option TypeExpr} {lineage : Lineage}
      (alike : AlikeOption L Eq d.type type) (related : d.lineage.Alike L lineage) :
      Alike L (.declaration d) (.declaration { d with type, lineage })
  | signature (s : Signature) {type : Option TypeExpr} {lineage : Lineage}
      (alike : AlikeOption L Eq s.type type) (related : s.lineage.Alike L lineage) :
      Alike L (.signature s) (.signature { s with type, lineage })
  | parameter (p : Parameter) {type : Option TypeExpr} (alike : AlikeOption L Eq p.type type) :
      Alike L (.parameter p) (.parameter { p with type })
  | typeParameter (p : TypeParameter) {constraint default : Option TypeExpr}
      (alike : AlikeOption L Eq p.constraint constraint)
      (alike' : AlikeOption L Eq p.default default) :
      Alike L (.typeParameter p) (.typeParameter { constraint, default })

section

variable {L : Link → Link → Prop} {s : Settling} (keeps : ∀ l, L l l)
include keeps

theorem Reference.AlikeOption.refl : ∀ r : Option Reference, Reference.AlikeOption L r r
  | Option.none => .none
  | Option.some r => .some (keeps r.link) (AlikeList.refl keeps (fun _ => rfl) r.arguments)

theorem Lineage.Alike.refl (l : Lineage) : l.Alike L l where
  overwrites := Reference.AlikeOption.refl keeps l.overwrites
  inheritedFrom := Reference.AlikeOption.refl keeps l.inheritedFrom
  implementationOf := Reference.AlikeOption.refl keeps l.implementationOf

theorem Body.Alike.refl (b : Body) : b.Alike L b := by
  have same := TypeExpr.AlikeOption.refl (M := Eq) keeps (fun _ => rfl)
  cases b with
  | declaration d => exact .declaration d (same d.type) (.refl keeps d.lineage)
  | signature s => exact .signature s (same s.type) (.refl keeps s.lineage)
  | parameter p => exact .parameter p (same p.type)
  | typeParameter p => exact .typeParameter p (same p.constraint) (same p.default)

/-- A body with another main type is alike, if the types are. -/
theorem Body.alike_withType {b : Body} {type : Option TypeExpr}
    (alike : AlikeOption L Eq b.type type) : b.Alike L (b.withType type) := by
  cases b with
  | declaration d => exact .declaration d alike (.refl keeps d.lineage)
  | signature s => exact .signature s alike (.refl keeps s.lineage)
  | parameter p => exact .parameter p alike
  | typeParameter p =>
      exact .typeParameter p alike (TypeExpr.AlikeOption.refl keeps (fun _ => rfl) p.default)

variable (settles : ∀ l, L l (l.settle s.lookup))
include settles

theorem Reference.alike_settleWhile (r : Reference) (goesOn : Bool) :
    Reference.AlikeOption L (some r) (some (r.settleWhile s goesOn).1) :=
  .some (related_settleLink keeps settles r.link goesOn)
    (alike_settleList keeps settles r.arguments _)

theorem Lineage.alike_settleWhile (l : Lineage) (goesOn : Bool) :
    l.Alike L (l.settleWhile s goesOn).1 := by
  obtain ⟨overwrites, inheritedFrom, implementationOf⟩ := l
  refine ⟨?_, ?_, ?_⟩
  · cases overwrites with
    | none => exact .none
    | some r => exact r.alike_settleWhile keeps settles _
  · cases inheritedFrom with
    | none => exact .none
    | some r => exact r.alike_settleWhile keeps settles _
  · cases implementationOf with
    | none => exact .none
    | some r => exact r.alike_settleWhile keeps settles _

/-- A pass makes an alike body. -/
theorem Body.alike_settleWhile (b : Body) (goesOn : Bool) :
    b.Alike L (b.settleWhile s goesOn).1 := by
  have types := alike_settleOption keeps settles
  have lineage := Lineage.alike_settleWhile keeps settles
  cases b with
  | declaration d => exact .declaration d (types d.type _) (lineage d.lineage _)
  | signature sig => exact .signature sig (types sig.type _) (lineage sig.lineage _)
  | parameter p => exact .parameter p (types p.type _)
  | typeParameter p => exact .typeParameter p (types p.constraint _) (types p.default _)

end

section

variable {L : Link → Link → Prop} {p p' : Project} {embed : Id → Except Error WireReflection}
  (links : ∀ l m, L l m → ∀ arguments, l.toWire p arguments = m.toWire p' arguments)
include links

theorem Reference.AlikeOption.toWireOption_eq {r r' : Option Reference}
    (h : Reference.AlikeOption L r r') :
    Reference.toWireOption p embed r = Reference.toWireOption p' embed r' := by
  cases h with
  | none => rfl
  | some link arguments =>
      simp only [Reference.toWireOption, links _ _ link,
        arguments.toWireList_eq links fun _ _ => congrArg Literal.toWire]

/-- Alike bodies are the same in a document. -/
theorem Body.Alike.bodyToWire_eq {b b' : Body} (h : b.Alike L b') (header : WireHeader) :
    p.bodyToWire embed header b = p'.bodyToWire embed header b' := by
  have types {t t' : Option TypeExpr} (alike : TypeExpr.AlikeOption L Eq t t') :
      toWireOption p embed t = toWireOption p' embed t' :=
    alike.toWireOption_eq links fun _ _ => congrArg Literal.toWire
  have references {r r' : Option Reference} (alike : Reference.AlikeOption L r r') :
      Reference.toWireOption p embed r = Reference.toWireOption p' embed r' :=
    alike.toWireOption_eq links
  cases h with
  | declaration d alike related | signature s alike related =>
      simp only [Project.bodyToWire, types alike, references related.overwrites,
        references related.inheritedFrom, references related.implementationOf]
  | parameter p alike => simp only [Project.bodyToWire, types alike]
  | typeParameter p alike alike' => simp only [Project.bodyToWire, types alike, types alike']

end

/-! ### Projects that answer alike -/

/-- What a link shows in a project: its own names, and the reflection that it resolves to. -/
structure Link.SameIn (p : Project) (l m : Link) : Prop where
  name : m.name = l.name
  external : m.external = l.external
  resolves : p.resolve? m.target = p.resolve? l.target

theorem Link.SameIn.refl {p : Project} (l : Link) : l.SameIn p l := ⟨rfl, rfl, rfl⟩

theorem Link.SameIn.trans {p : Project} {l m n : Link} (h : l.SameIn p m) (h' : m.SameIn p n) :
    l.SameIn p n :=
  ⟨h'.name.trans h.name, h'.external.trans h.external, h'.resolves.trans h.resolves⟩

/-- To settle a link does not show, since only registered reflections are ever looked up. -/
theorem Link.sameIn_settle {p : Project} (l : Link) : l.SameIn p (l.settle p.lookup) := by
  refine ⟨rfl, rfl, ?_⟩
  cases target : l.target with
  | reflection id => simp only [settle, target, Target.settle]
  | symbol symbol =>
      cases found : p.lookup symbol with
      | none => simp [settle, target, Target.settle, Project.resolve?, found]
      | some id =>
          have resolved : p.resolve? (.symbol symbol) = some id := found
          have registered := Project.contains_of_resolve? resolved
          simp [settle, target, Target.settle, Project.resolve?, found, registered]

/-- A project that cannot be told from another one by its answers. -/
structure Project.AnswersAs (p p' : Project) : Prop where
  resolves : ∀ target, p'.resolve? target = p.resolve? target
  displayName : ∀ link, p'.displayName link = p.displayName link
  isCallable : ∀ id, p'.isCallable id = p.isCallable id
  reflectionToWire : ∀ config id, p'.reflectionToWire config id = p.reflectionToWire config id

namespace Project.AnswersAs

variable {p p' p'' : Project}

theorem refl (p : Project) : p.AnswersAs p where
  resolves _ := rfl
  displayName _ := rfl
  isCallable _ := rfl
  reflectionToWire _ _ := rfl

theorem trans (h : p.AnswersAs p') (h' : p'.AnswersAs p'') : p.AnswersAs p'' where
  resolves target := (h'.resolves target).trans (h.resolves target)
  displayName link := (h'.displayName link).trans (h.displayName link)
  isCallable id := (h'.isCallable id).trans (h.isCallable id)
  reflectionToWire config id := (h'.reflectionToWire config id).trans (h.reflectionToWire config id)

theorem displayName_eq (h : p.AnswersAs p') {l m : Link} (same : l.SameIn p m) :
    p.displayName l = p'.displayName m := by
  rw [h.displayName, Project.displayName, Project.displayName, same.name, same.resolves]

theorem toWire_eq (h : p.AnswersAs p') {l m : Link} (same : l.SameIn p m)
    (arguments : List WireType) : l.toWire p arguments = m.toWire p' arguments := by
  rw [Link.toWire, Link.toWire, h.resolves, same.name, same.external, same.resolves]

end Project.AnswersAs

namespace Project

section

variable {p : Project} {f : Id → Reflection → Reflection}

/-- The project with other values of its reflections. -/
def mapValues (p : Project) (f : Id → Reflection → Reflection) : Project :=
  { p with registry := p.registry.mapValues f }

theorem get?_mapValues (id : Id) : (p.mapValues f).get? id = (p.get? id).map (f id) :=
  Registry.get?_mapValues f p.registry id

theorem contains_mapValues : (p.mapValues f).contains = p.contains :=
  funext (Registry.contains_mapValues f p.registry)

theorem size_mapValues : (p.mapValues f).size = p.size :=
  List.length_map _

theorem resolve?_mapValues (target : Target) :
    (p.mapValues f).resolve? target = p.resolve? target := by
  cases target with
  | symbol symbol => exact congrArg ((p.symbols.lookup symbol).filter ·) contains_mapValues
  | reflection id => simp only [resolve?, contains_mapValues]

variable (alike : ∀ id r, ∃ body, r.body.Alike (Link.SameIn p) body ∧ f id r = { r with body })
include alike

theorem nestedToWire_mapValues (config : Config) (levels : Nat) (id : Id) :
    (p.mapValues f).nestedToWire config levels id = p.nestedToWire config levels id := by
  induction levels generalizing id with
  | zero => rfl
  | succ levels ih =>
      rw [nestedToWire, nestedToWire, get?_mapValues, funext ih]
      cases p.get? id with
      | none => rfl
      | some r =>
          obtain ⟨body, related, same⟩ := alike id r
          have links (l m : Link) (shown : l.SameIn p m) (arguments : List WireType) :
              l.toWire p arguments = m.toWire (p.mapValues f) arguments := by
            rw [Link.toWire, Link.toWire, resolve?_mapValues, shown.name, shown.external,
              shown.resolves]
          rw [Option.map_some, same]
          exact (related.bodyToWire_eq links _).symm

/-- A project answers as before if its reflections have alike bodies and are otherwise the same. -/
theorem answersAs_mapValues : p.AnswersAs (p.mapValues f) where
  resolves := resolve?_mapValues
  displayName link := by
    rw [displayName, displayName, resolve?_mapValues]
    cases p.resolve? link.target with
    | none => rfl
    | some id =>
        rw [Option.bind_some, Option.bind_some, get?_mapValues]
        cases p.get? id with
        | none => rfl
        | some r =>
            obtain ⟨body, -, same⟩ := alike id r
            simp only [Option.map_some, same, Option.elim_some]
  isCallable id := by
    rw [isCallable, isCallable, get?_mapValues]
    cases p.get? id with
    | none => rfl
    | some r =>
        obtain ⟨body, related, same⟩ := alike id r
        obtain ⟨name, kind, parent, flags, before⟩ := r
        rw [Option.map_some, same]
        cases related <;> rfl
  reflectionToWire config id := by
    rw [reflectionToWire, reflectionToWire, size_mapValues, nestedToWire_mapValues alike]

end

/-- Encoding reflections does not change what a project answers. -/
theorem answersAs_settleEncoded (p : Project) (ids : List Id) :
    p.AnswersAs (p.settleEncoded ids) := by
  refine answersAs_mapValues fun id r => ?_
  by_cases reached : id ∈ (takeThrough p.encodes ids).flatMap (p.reached (p.size + 1))
  · exact ⟨_, r.body.alike_settleWhile Link.SameIn.refl Link.sameIn_settle true, if_pos reached⟩
  · exact ⟨r.body, .refl Link.SameIn.refl r.body, if_neg reached⟩

/-- Nor does rendering the main type of a reflection. -/
theorem answersAs_settleType (p : Project) (id : Id) : p.AnswersAs (p.settleType id) := by
  refine answersAs_mapValues fun key r => ?_
  by_cases here : key = id
  · refine ⟨_, Body.alike_withType Link.SameIn.refl ?_, if_pos here⟩
    show TypeExpr.AlikeOption _ Eq r.body.type (r.body.type.map (·.settle p.lookup))
    cases r.body.type with
    | none => exact .none
    | some t => exact .some (alike_settleWhile Link.SameIn.refl Link.sameIn_settle t true)
  · exact ⟨r.body, .refl Link.SameIn.refl r.body, if_neg here⟩

end Project

/-! ### Calls that do not show -/

/-- After one call the project answers as before, and the type shows the same in it. -/
theorem Call.unseen {p p' : Project} {t t' : TypeExpr} (h : Call (p, t) (p', t')) :
    p.AnswersAs p' ∧ t.Alike (Link.SameIn p) Eq t' := by
  have same : t.Alike (Link.SameIn p) Eq t := .refl Link.SameIn.refl (fun _ => rfl) t
  cases h with
  | resolve some =>
      refine ⟨.refl p, some.mono (fun l m link => ?_) fun _ _ same => same⟩
      rcases link with rfl | rfl
      · exact .refl m
      · exact l.sameIn_settle
  | render => exact ⟨.refl p, alike_settleWhile Link.SameIn.refl Link.sameIn_settle t true⟩
  | encode =>
      exact ⟨p.answersAs_settleEncoded t.declarations,
        alike_settleWhile Link.SameIn.refl Link.sameIn_settle t true⟩
  | renderHeld p id => exact ⟨p.answersAs_settleType id, same⟩
  | encodeHeld p ids => exact ⟨p.answersAs_settleEncoded ids, same⟩

open Relation in
/-- After any calls the project answers as before, and the type shows the same in it. -/
theorem Call.unseen_run {p : Project} {t : TypeExpr} {after : Project × TypeExpr}
    (h : ReflTransGen Call (p, t) after) :
    p.AnswersAs after.1 ∧ t.Alike (Link.SameIn p) Eq after.2 := by
  induction h with
  | refl => exact ⟨.refl p, TypeExpr.Alike.refl Link.SameIn.refl (fun _ => rfl) t⟩
  | tail _ call ih =>
      obtain ⟨answers, alike⟩ := ih
      obtain ⟨answers', alike'⟩ := call.unseen
      refine ⟨answers.trans answers', alike.trans (fun l m n shown shown' => ?_)
        (fun u v w => ?_) alike'⟩
      · -- what the links show in the project between, they show in the first one
        refine shown.trans ⟨shown'.name, shown'.external, ?_⟩
        rw [← answers.resolves, ← answers.resolves, shown'.resolves]
      · exact Eq.trans

open Relation in
/-- **References settle once, and nobody sees it.** A reference that is resolved, rendered or encoded any
number of times, each time in a project of its own, is as if it had been resolved once, against the first
project that knows its symbol; and in a type that is called upon in any projects, every reference is as it
was or has become what one of them said. As long as the project is not mutated, after any calls it gives
the same answers, and the type has the same text and the same document and its references resolve to the
same reflections. -/
theorem settling_once_unseen :
    (∀ (r : Reference) (uses : List (Use × Project)),
      (r.after uses).link = r.link.settle fun symbol => uses.findSome? (·.2.lookup symbol)) ∧
    (∀ (t t' : TypeExpr) (ps : List Project), History t ps t' →
      t.Alike (Link.Settles ps) Eq t') ∧
    ∀ (p p' : Project) (t t' : TypeExpr), ReflTransGen Call (p, t) (p', t') →
      p.AnswersAs p' ∧ t'.render p' = t.render p ∧
        (∀ config, p'.typeToWire config t' = p.typeToWire config t) ∧
        t.Alike (Link.SameIn p) Eq t' := by
  refine ⟨Reference.link_after, fun t t' ps => History.settles, fun p p' t t' calls => ?_⟩
  obtain ⟨answers, alike⟩ := Call.unseen_run calls
  refine ⟨answers, ?_, fun config => ?_, alike⟩
  · have same := alike.chars_eq (fun _ _ => answers.displayName_eq)
      (fun _ _ => congrArg Literal.chars) fun id => (answers.isCallable id).symm
    exact congrArg String.ofList same.symm
  · have embed : p'.reflectionToWire config = p.reflectionToWire config :=
      funext (answers.reflectionToWire config)
    rw [Project.typeToWire, Project.typeToWire, embed]
    exact (alike.toWire_eq (fun _ _ => answers.toWire_eq) fun _ _ => congrArg Literal.toWire).symm

/-- The example project, with its variable as what a symbol became. -/
def knowingProject : Project :=
  { optionsDocument.project with symbols := [(7, 1)] }

/-- Many of what the symbol stands for. -/
def waitingType : TypeExpr :=
  .array (.reference { name := "Settings", target := .symbol 7 } [])

open Relation in
/-- A project that does not know the symbol leaves the reference alone, the next one settles it for good;
and in that one, encoding the type first does not change its text. -/
theorem settling_once_unseen_waitingType :
    ((⟨{ name := "Settings", target := .symbol 7 }, []⟩ : Reference).after
      [(.render, optionsDocument.project), (.encode, knowingProject),
        (.resolve, { name := "other" })]).link.target = .reflection 1 ∧
    waitingType.Alike (Link.Settles [optionsDocument.project, knowingProject]) Eq
      (knowingProject.settleEncodedType waitingType) ∧
    (knowingProject.settleEncodedType waitingType).render
        (knowingProject.settleEncoded waitingType.declarations) =
      waitingType.render knowingProject := by
  obtain ⟨exactly, once, unseen⟩ := settling_once_unseen
  have waits : Call (optionsDocument.project, waitingType) (optionsDocument.project, waitingType) :=
    .render optionsDocument.project waitingType
  have settles := Call.encode knowingProject waitingType
  refine ⟨?_, once _ _ _ (.call (.call .start waits) settles), ?_⟩
  · rw [exactly]
    rfl
  · obtain ⟨-, same, -⟩ := unseen _ _ _ _ (.single settles)
    exact same

end ApiGraph
