import ApiGraph.TypeExpr.Render
import ApiGraph.Wire.Encode
import Mathlib.Logic.Basic

/-!
# ApiGraph.Proofs.Alike

Types that differ in their links and literals only. Two types are **alike** if they are built in the
same way from the same names, and the links and literals at each place are related. What a project makes
of a type, it makes of its links and literals and of the declarations that it names; so alike types have
the same text, and the same form in a document, if related links and literals do.

* `TypeExpr.Alike` — the relation, given one for links and one for literals.
* `Alike.refl`, `Alike.trans` — relations of links carry over.
* `Alike.chars_eq`, `Alike.toWire_eq` — the same text, the same document.
-/

namespace ApiGraph.TypeExpr

mutual
/-- Types that are built in the same way, with related links and literals in the same places. -/
inductive Alike (L : Link → Link → Prop) (M : Literal → Literal → Prop) :
    TypeExpr → TypeExpr → Prop
  | array {a b : TypeExpr} (element : Alike L M a b) : Alike L M (.array a) (.array b)
  | conditional {a b c d a' b' c' d' : TypeExpr} (check : Alike L M a a') (bound : Alike L M b b')
      (whenTrue : Alike L M c c') (whenFalse : Alike L M d d') :
      Alike L M (.conditional a b c d) (.conditional a' b' c' d')
  | indexedAccess {a b a' b' : TypeExpr} (object : Alike L M a a') (index : Alike L M b b') :
      Alike L M (.indexedAccess a b) (.indexedAccess a' b')
  | inferred (name : String) : Alike L M (.inferred name) (.inferred name)
  | intersection {as bs : List TypeExpr} (members : AlikeList L M as bs) :
      Alike L M (.intersection as) (.intersection bs)
  | intrinsic (name : String) : Alike L M (.intrinsic name) (.intrinsic name)
  | literal {l m : Literal} (value : M l m) : Alike L M (.literal l) (.literal m)
  | mapped (parameter : String) (readonlyModifier optionalModifier : Option Modifier)
      {a b a' b' : TypeExpr} {c c' : Option TypeExpr} (parameterType : Alike L M a a')
      (template : Alike L M b b') (nameType : AlikeOption L M c c') :
      Alike L M (.mapped parameter a b readonlyModifier optionalModifier c)
        (.mapped parameter a' b' readonlyModifier optionalModifier c')
  | optional {a b : TypeExpr} (element : Alike L M a b) : Alike L M (.optional a) (.optional b)
  | predicate (name : String) (asserts : Bool) {a b : Option TypeExpr}
      (target : AlikeOption L M a b) :
      Alike L M (.predicate name asserts a) (.predicate name asserts b)
  | query {l m : Link} {as bs : List TypeExpr} (link : L l m) (arguments : AlikeList L M as bs) :
      Alike L M (.query l as) (.query m bs)
  | reference {l m : Link} {as bs : List TypeExpr} (link : L l m)
      (arguments : AlikeList L M as bs) : Alike L M (.reference l as) (.reference m bs)
  | reflection (id : Id) : Alike L M (.reflection id) (.reflection id)
  | rest {a b : TypeExpr} (element : Alike L M a b) : Alike L M (.rest a) (.rest b)
  | templateLiteral (head : String) {as bs : List (TypeExpr × String)}
      (tail : AlikeSpans L M as bs) :
      Alike L M (.templateLiteral head as) (.templateLiteral head bs)
  | tuple {as bs : List TypeExpr} (elements : AlikeList L M as bs) :
      Alike L M (.tuple as) (.tuple bs)
  | namedTupleMember (name : String) (isOptional : Bool) {a b : TypeExpr}
      (element : Alike L M a b) :
      Alike L M (.namedTupleMember name isOptional a) (.namedTupleMember name isOptional b)
  | typeOperator (operator : Operator) {a b : TypeExpr} (target : Alike L M a b) :
      Alike L M (.typeOperator operator a) (.typeOperator operator b)
  | union {as bs : List TypeExpr} (members : AlikeList L M as bs) :
      Alike L M (.union as) (.union bs)
  | unknown (name : String) : Alike L M (.unknown name) (.unknown name)

/-- Lists of types that are alike one by one. -/
inductive AlikeList (L : Link → Link → Prop) (M : Literal → Literal → Prop) :
    List TypeExpr → List TypeExpr → Prop
  | nil : AlikeList L M [] []
  | cons {a b : TypeExpr} {as bs : List TypeExpr} (head : Alike L M a b)
      (tail : AlikeList L M as bs) : AlikeList L M (a :: as) (b :: bs)

/-- Types that are missing both, or alike. -/
inductive AlikeOption (L : Link → Link → Prop) (M : Literal → Literal → Prop) :
    Option TypeExpr → Option TypeExpr → Prop
  | none : AlikeOption L M none none
  | some {a b : TypeExpr} (type : Alike L M a b) : AlikeOption L M (some a) (some b)

/-- Spans with the same text and types that are alike one by one. -/
inductive AlikeSpans (L : Link → Link → Prop) (M : Literal → Literal → Prop) :
    List (TypeExpr × String) → List (TypeExpr × String) → Prop
  | nil : AlikeSpans L M [] []
  | cons (text : String) {a b : TypeExpr} {as bs : List (TypeExpr × String)}
      (head : Alike L M a b) (tail : AlikeSpans L M as bs) :
      AlikeSpans L M ((a, text) :: as) ((b, text) :: bs)
end

variable {L L' L'' : Link → Link → Prop} {M M' M'' : Literal → Literal → Prop}

/-! ### Carrying relations over -/

section

-- The recursion passes the assumptions on, which the linter does not see.
set_option linter.unusedSectionVars false

variable (links : ∀ l, L l l) (literals : ∀ v, M v v)
include links literals

mutual
/-- A type is like itself, if links and literals are. -/
theorem Alike.refl : ∀ t : TypeExpr, Alike L M t t
  | .array element => .array (Alike.refl element)
  | .conditional check bound whenTrue whenFalse =>
      .conditional (Alike.refl check) (Alike.refl bound) (Alike.refl whenTrue)
        (Alike.refl whenFalse)
  | .indexedAccess object index => .indexedAccess (Alike.refl object) (Alike.refl index)
  | .inferred name => .inferred name
  | .intersection members => .intersection (AlikeList.refl members)
  | .intrinsic name => .intrinsic name
  | .literal value => .literal (literals value)
  | .mapped parameter parameterType template readonlyModifier optionalModifier nameType =>
      .mapped parameter readonlyModifier optionalModifier (Alike.refl parameterType)
        (Alike.refl template) (AlikeOption.refl nameType)
  | .optional element => .optional (Alike.refl element)
  | .predicate name asserts target => .predicate name asserts (AlikeOption.refl target)
  | .query link arguments => .query (links link) (AlikeList.refl arguments)
  | .reference link arguments => .reference (links link) (AlikeList.refl arguments)
  | .reflection id => .reflection id
  | .rest element => .rest (Alike.refl element)
  | .templateLiteral head tail => .templateLiteral head (AlikeSpans.refl tail)
  | .tuple elements => .tuple (AlikeList.refl elements)
  | .namedTupleMember name isOptional element =>
      .namedTupleMember name isOptional (Alike.refl element)
  | .typeOperator operator target => .typeOperator operator (Alike.refl target)
  | .union members => .union (AlikeList.refl members)
  | .unknown name => .unknown name

theorem AlikeList.refl : ∀ ts : List TypeExpr, AlikeList L M ts ts
  | [] => .nil
  | t :: ts => .cons (Alike.refl t) (AlikeList.refl ts)

theorem AlikeOption.refl : ∀ t : Option TypeExpr, AlikeOption L M t t
  | none => .none
  | some t => .some (Alike.refl t)

theorem AlikeSpans.refl : ∀ spans : List (TypeExpr × String), AlikeSpans L M spans spans
  | [] => .nil
  | (t, text) :: spans => .cons text (Alike.refl t) (AlikeSpans.refl spans)
end

end

section

set_option linter.unusedSectionVars false

variable (links : ∀ l m n, L l m → L' m n → L'' l n) (literals : ∀ u v w, M u v → M' v w → M'' u w)
include links literals

mutual
/-- Likeness composes as links and literals do. -/
theorem Alike.trans : ∀ {a b c : TypeExpr}, Alike L M a b → Alike L' M' b c → Alike L'' M'' a c
  | _, _, _, .array element, .array element' => .array (element.trans element')
  | _, _, _, .conditional check bound whenTrue whenFalse,
      .conditional check' bound' whenTrue' whenFalse' =>
      .conditional (check.trans check') (bound.trans bound') (whenTrue.trans whenTrue')
        (whenFalse.trans whenFalse')
  | _, _, _, .indexedAccess object index, .indexedAccess object' index' =>
      .indexedAccess (object.trans object') (index.trans index')
  | _, _, _, .inferred name, .inferred _ => .inferred name
  | _, _, _, .intersection members, .intersection members' =>
      .intersection (members.trans members')
  | _, _, _, .intrinsic name, .intrinsic _ => .intrinsic name
  | _, _, _, .literal value, .literal value' => .literal (literals _ _ _ value value')
  | _, _, _, .mapped parameter readonlyModifier optionalModifier parameterType template nameType,
      .mapped _ _ _ parameterType' template' nameType' =>
      .mapped parameter readonlyModifier optionalModifier (parameterType.trans parameterType')
        (template.trans template') (nameType.trans nameType')
  | _, _, _, .optional element, .optional element' => .optional (element.trans element')
  | _, _, _, .predicate name asserts target, .predicate _ _ target' =>
      .predicate name asserts (target.trans target')
  | _, _, _, .query link arguments, .query link' arguments' =>
      .query (links _ _ _ link link') (arguments.trans arguments')
  | _, _, _, .reference link arguments, .reference link' arguments' =>
      .reference (links _ _ _ link link') (arguments.trans arguments')
  | _, _, _, .reflection id, .reflection _ => .reflection id
  | _, _, _, .rest element, .rest element' => .rest (element.trans element')
  | _, _, _, .templateLiteral head tail, .templateLiteral _ tail' =>
      .templateLiteral head (tail.trans tail')
  | _, _, _, .tuple elements, .tuple elements' => .tuple (elements.trans elements')
  | _, _, _, .namedTupleMember name isOptional element, .namedTupleMember _ _ element' =>
      .namedTupleMember name isOptional (element.trans element')
  | _, _, _, .typeOperator operator target, .typeOperator _ target' =>
      .typeOperator operator (target.trans target')
  | _, _, _, .union members, .union members' => .union (members.trans members')
  | _, _, _, .unknown name, .unknown _ => .unknown name

theorem AlikeList.trans : ∀ {as bs cs : List TypeExpr},
    AlikeList L M as bs → AlikeList L' M' bs cs → AlikeList L'' M'' as cs
  | _, _, _, .nil, .nil => .nil
  | _, _, _, .cons head tail, .cons head' tail' => .cons (head.trans head') (tail.trans tail')

theorem AlikeOption.trans : ∀ {a b c : Option TypeExpr},
    AlikeOption L M a b → AlikeOption L' M' b c → AlikeOption L'' M'' a c
  | _, _, _, .none, .none => .none
  | _, _, _, .some type, .some type' => .some (type.trans type')

theorem AlikeSpans.trans : ∀ {as bs cs : List (TypeExpr × String)},
    AlikeSpans L M as bs → AlikeSpans L' M' bs cs → AlikeSpans L'' M'' as cs
  | _, _, _, .nil, .nil => .nil
  | _, _, _, .cons text head tail, .cons _ head' tail' =>
      .cons text (head.trans head') (tail.trans tail')
end

end

/-- Alike types are alike in every way that links and literals at their places are related. -/
theorem Alike.mono (links : ∀ l m, L l m → L' l m) (literals : ∀ v w, M v w → M' v w)
    {a b : TypeExpr} (h : Alike L M a b) : Alike L' M' a b :=
  h.trans (fun _ _ _ link (same : _ = _) => same ▸ links _ _ link)
    (fun _ _ _ value (same : _ = _) => same ▸ literals _ _ value)
    (.refl (fun _ => rfl) (fun _ => rfl) b)

/-! ### The same text -/

/-- Alike types have the same form, so they hold together equally. -/
theorem Alike.form_eq {a b : TypeExpr} (h : Alike L M a b) : a.form = b.form := by
  cases h <;> rfl

theorem Alike.enclose_eq {a b : TypeExpr} (h : Alike L M a b) (power : Int) {text text' : List Char}
    (same : text = text') : enclose power a text = enclose power b text' := by
  unfold enclose bindingPower
  rw [h.form_eq, same]

section

set_option linter.unusedSectionVars false

variable {p p' : Project} (links : ∀ l m, L l m → p.displayName l = p'.displayName m)
  (literals : ∀ v w, M v w → v.chars = w.chars)
  (callable : ∀ id, p.isCallable id = p'.isCallable id)
include links literals callable

mutual
/-- Alike types have the same text, if links have the same names. -/
theorem Alike.chars_eq : ∀ {a b : TypeExpr}, Alike L M a b → chars p a = chars p' b
  | _, _, .array element =>
      congrArg (· ++ ['[', ']']) (element.enclose_eq Form.array.bindingPower element.chars_eq)
  | .conditional a b c d, _, .conditional check bound whenTrue whenFalse => by
      show enclose Form.checkPower a (chars p a) ++ " extends ".toList ++ chars p b ++
        " ? ".toList ++ chars p c ++ " : ".toList ++ chars p d = _
      rw [check.enclose_eq Form.checkPower check.chars_eq, bound.chars_eq, whenTrue.chars_eq,
        whenFalse.chars_eq]
      rfl
  | .indexedAccess a b, _, .indexedAccess object index => by
      show chars p a ++ '[' :: (chars p b ++ [']']) = _
      rw [object.chars_eq, index.chars_eq]
      rfl
  | _, _, .inferred _ => rfl
  | _, _, .intersection members =>
      congrArg (Text.join " & ".toList) (members.parts_eq Form.intersection.bindingPower)
  | _, _, .intrinsic _ => rfl
  | _, _, .literal value => literals _ _ value
  | .mapped parameter a b readonlyModifier optionalModifier c, _,
      .mapped _ _ _ parameterType template nameType => by
      show '{' :: ' ' :: (readonlyText readonlyModifier ++ '[' :: (parameter.toList ++
        " in ".toList ++ chars p a ++ optionChars p " as ".toList c ++ ']' ::
        (optionalText optionalModifier ++ ':' :: ' ' :: (chars p b ++ [' ', '}'])))) = _
      rw [parameterType.chars_eq, template.chars_eq, nameType.optionChars_eq " as ".toList]
      rfl
  | _, _, .optional element =>
      congrArg (· ++ ['?']) (element.enclose_eq Form.optional.bindingPower element.chars_eq)
  | _, _, .predicate name asserts target =>
      congrArg ((if asserts then "asserts ".toList else []) ++ name.toList ++ ·)
        (target.optionChars_eq " is ".toList)
  | .query l as, _, .query link arguments => by
      show "typeof ".toList ++
        withArguments (p.displayName l) (parts p Form.unknown.bindingPower as) = _
      rw [links _ _ link, arguments.parts_eq Form.unknown.bindingPower]
      rfl
  | .reference l as, _, .reference link arguments => by
      show withArguments (p.displayName l) (parts p Form.unknown.bindingPower as) = _
      rw [links _ _ link, arguments.parts_eq Form.unknown.bindingPower]
      rfl
  | _, _, .reflection id => by
      show (if p.isCallable id then "Function".toList else "Object".toList) = _
      rw [callable]
      rfl
  | _, _, .rest element =>
      congrArg ("...".toList ++ ·) (element.enclose_eq Form.rest.bindingPower element.chars_eq)
  | _, _, .templateLiteral head tail =>
      congrArg (fun text => backquote :: (head.toList ++ text ++ [backquote])) tail.spans_eq
  | _, _, .tuple elements =>
      congrArg (fun texts => '[' :: (Text.join [',', ' '] texts ++ [']']))
        (elements.parts_eq Form.unknown.bindingPower)
  | _, _, .namedTupleMember name isOptional element =>
      congrArg (fun text => name.toList ++ (if isOptional then ['?'] else []) ++ ':' :: ' ' :: text)
        element.chars_eq
  | _, _, .typeOperator operator target =>
      congrArg (fun text => operator.name.toList ++ ' ' :: text) target.chars_eq
  | _, _, .union members =>
      congrArg (Text.join " | ".toList) (members.parts_eq Form.union.bindingPower)
  | _, _, .unknown _ => rfl

theorem AlikeList.parts_eq (power : Int) :
    ∀ {as bs : List TypeExpr}, AlikeList L M as bs → parts p power as = parts p' power bs
  | _, _, .nil => rfl
  | _, _, .cons head tail =>
      congrArg₂ List.cons (head.enclose_eq power head.chars_eq) (tail.parts_eq power)

theorem AlikeOption.optionChars_eq (lead : List Char) : ∀ {a b : Option TypeExpr},
    AlikeOption L M a b → optionChars p lead a = optionChars p' lead b
  | _, _, .none => rfl
  | _, _, .some type => congrArg (lead ++ ·) type.chars_eq

theorem AlikeSpans.spans_eq : ∀ {as bs : List (TypeExpr × String)},
    AlikeSpans L M as bs → spans p as = spans p' bs
  | _, _, .nil => rfl
  | _, _, .cons text head tail =>
      congrArg₂ (fun first others => '$' :: '{' :: (first ++ '}' :: (text.toList ++ others)))
        head.chars_eq tail.spans_eq
end

end

/-! ### The same document -/

section

set_option linter.unusedSectionVars false

variable {p p' : Project} {embed : Id → Except Error WireReflection}
  (links : ∀ l m, L l m → ∀ arguments, l.toWire p arguments = m.toWire p' arguments)
  (literals : ∀ v w, M v w → v.toWire = w.toWire)
include links literals

mutual
/-- Alike types are the same in a document, if links are. -/
theorem Alike.toWire_eq : ∀ {a b : TypeExpr}, Alike L M a b → toWire p embed a = toWire p' embed b
  | _, _, .array element => by rw [toWire, toWire, element.toWire_eq]
  | _, _, .conditional check bound whenTrue whenFalse => by
      rw [toWire, toWire, check.toWire_eq, bound.toWire_eq, whenTrue.toWire_eq, whenFalse.toWire_eq]
  | _, _, .indexedAccess object index => by
      rw [toWire, toWire, object.toWire_eq, index.toWire_eq]
  | _, _, .inferred _ => rfl
  | _, _, .intersection members => by rw [toWire, toWire, members.toWireList_eq]
  | _, _, .intrinsic _ => rfl
  | _, _, .literal value => by rw [toWire, toWire, literals _ _ value]
  | _, _, .mapped _ _ _ parameterType template nameType => by
      rw [toWire, toWire, parameterType.toWire_eq, template.toWire_eq, nameType.toWireOption_eq]
  | _, _, .optional element => by rw [toWire, toWire, element.toWire_eq]
  | _, _, .predicate _ _ target => by rw [toWire, toWire, target.toWireOption_eq]
  | _, _, .query link arguments => by
      simp only [toWire, arguments.toWireList_eq, links _ _ link]
  | _, _, .reference link arguments => by
      simp only [toWire, arguments.toWireList_eq, links _ _ link]
  | _, _, .reflection _ => rfl
  | _, _, .rest element => by rw [toWire, toWire, element.toWire_eq]
  | _, _, .templateLiteral _ tail => by rw [toWire, toWire, tail.toWireSpans_eq]
  | _, _, .tuple elements => by rw [toWire, toWire, elements.toWireList_eq]
  | _, _, .namedTupleMember _ _ element => by rw [toWire, toWire, element.toWire_eq]
  | _, _, .typeOperator _ target => by rw [toWire, toWire, target.toWire_eq]
  | _, _, .union members => by rw [toWire, toWire, members.toWireList_eq]
  | _, _, .unknown _ => rfl

theorem AlikeList.toWireList_eq : ∀ {as bs : List TypeExpr},
    AlikeList L M as bs → toWireList p embed as = toWireList p' embed bs
  | _, _, .nil => rfl
  | _, _, .cons head tail => by rw [toWireList, toWireList, head.toWire_eq, tail.toWireList_eq]

theorem AlikeOption.toWireOption_eq : ∀ {a b : Option TypeExpr},
    AlikeOption L M a b → toWireOption p embed a = toWireOption p' embed b
  | _, _, .none => rfl
  | _, _, .some type => by rw [toWireOption, toWireOption, type.toWire_eq]

theorem AlikeSpans.toWireSpans_eq : ∀ {as bs : List (TypeExpr × String)},
    AlikeSpans L M as bs → toWireSpans p embed as = toWireSpans p' embed bs
  | _, _, .nil => rfl
  | _, _, .cons _ head tail => by
      rw [toWireSpans, toWireSpans, head.toWire_eq, tail.toWireSpans_eq]
end

end

end ApiGraph.TypeExpr
