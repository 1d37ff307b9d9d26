import ApiGraph.Proofs.Registered

/-!
# ApiGraph.Proofs.Refusal

What a failed decoder leaves. A decoder reads the parts of a document in turn and fails at the first one
that it refuses. It takes nothing back: the reflections that were read before that part stay registered,
also those whose owner was still to come.

* `Part.refusal?` — why a part is refused, given the ids that are taken, with `admits_singleton_iff`.
* `Decoder.Stops` — the relation between a decoder and the parts at which it fails, with `Stops.bind`.
* `WireType.decode_stops`, `WireReflection.decode_stops` — the decoders stop at the parts.
* `Project.Gains`, `Project.IsPartlyFilled` — what is left of a project, with `IsPartlyFilled.unique`.
* `isPartlyFilled_of_error` — a failed decoder leaves that.
-/

namespace ApiGraph

/-! ### Refusing -/

/-- Why a reflection of this kind is not registered in a role under an id, given the ids that are taken. -/
def Role.refusal? (taken : Id → Bool) (id : Id) (kind : Kind) (role : Role) : Option Error :=
  if id ≤ 0 then some (.reservedId id)
  else if taken id = true then some (.duplicateId id)
  else if role.accepts kind = false then some (.kindMismatch kind role)
  else if maxId ≤ id then some (.idSpaceExhausted id)
  else none

/-- Why a reflection of a document is not registered, given the ids that are taken. -/
def Placement.refusal? (taken : Id → Bool) (q : Placement) : Option Error :=
  match Kind.ofBits? q.object.header.kind with
  | none => some (.unknownKind q.object.header.kind)
  | some kind => q.role.refusal? taken q.id kind

/-- Why a part of a document is refused, given the ids that are taken. -/
def Part.refusal? (taken : Id → Bool) : Part → Option Error
  | .type (.literal (.bigInt magnitude _)) =>
    if Digits.isNumber magnitude.toList = true then none else some (.invalidBigInt magnitude)
  | .type _ => none
  | .link t => if t.form = .reference then none else some (.unexpectedType t.form)
  | .object q => q.refusal? taken

theorem Placement.refusal?_eq_none_iff {taken : Id → Bool} {q : Placement} :
    q.refusal? taken = none ↔ q.IsValid ∧ taken q.id = false := by
  unfold refusal?
  cases known : Kind.ofBits? q.object.header.kind with
  | none =>
      have invalid : ¬q.IsValid := by
        rintro ⟨⟨kind, same, -⟩, -, -⟩
        rw [known] at same
        cases same
      simp [invalid]
  | some kind =>
      have valid : q.IsValid ↔ q.role.accepts kind = true ∧ 1 ≤ q.id ∧ q.id ≤ maxId - 1 := by
        constructor
        · rintro ⟨⟨kind', same, fits⟩, positive, bounded⟩
          obtain rfl := Option.some.inj (known.symm.trans same)
          exact ⟨fits, positive, bounded⟩
        · rintro ⟨fits, positive, bounded⟩
          exact ⟨⟨kind, known, fits⟩, positive, bounded⟩
      simp only [valid, Role.refusal?]
      grind

namespace Decoding

/-- A part is refused exactly where it is not admitted. -/
theorem admits_singleton_iff {s : Decoding} {part : Part} :
    s.Admits [part] ↔ part.refusal? s.project.contains = none := by
  cases part with
  | object q => rw [admits_object, Part.refusal?, Placement.refusal?_eq_none_iff]
  | link t =>
      rw [admits_cons_of_object?_eq_none rfl]
      simp [admits_nil, Part.IsValid, Part.refusal?]
  | type t =>
      rw [admits_cons_of_object?_eq_none rfl]
      cases t with
      | literal value =>
          cases value <;> simp [admits_nil, Part.IsValid, Part.refusal?, WireLiteral.IsValid]
      | _ => simp [admits_nil, Part.IsValid, Part.refusal?]

/-- Reading the parts stops at one of them: those before it are registered, and it is refused. -/
def StopsAt (s : Decoding) (parts : List Part) (e : Error) (p' : Project) : Prop :=
  ∃ pre part post, parts = pre ++ part :: post ∧ s.Admits pre ∧
    part.refusal? (s.fill (placements pre)).project.contains = some e ∧
    p' = (s.fill (placements pre)).project

variable {s : Decoding} {parts more : List Part} {part : Part} {e : Error} {p' : Project}

theorem StopsAt.left (h : s.StopsAt parts e p') : s.StopsAt (parts ++ more) e p' := by
  obtain ⟨pre, part, post, rfl, admits, refused, left⟩ := h
  exact ⟨pre, part, post ++ more, by simp, admits, refused, left⟩

theorem StopsAt.right (admits : s.Admits parts) (h : (s.fill (placements parts)).StopsAt more e p') :
    s.StopsAt (parts ++ more) e p' := by
  obtain ⟨pre, part, post, rfl, admits', refused, left⟩ := h
  refine ⟨parts ++ pre, part, post, by simp, admits_append.2 ⟨admits, admits'⟩, ?_, ?_⟩
  · rwa [placements_append, fill_append]
  · rwa [placements_append, fill_append]

theorem stopsAt_cons (refused : part.refusal? s.project.contains = some e) :
    s.StopsAt (part :: parts) e s.project :=
  ⟨[], part, parts, rfl, s.admits_nil, refused, rfl⟩

end Decoding

/-! ### Decoders -/

/-- Registering under an id fails for the reason that the role gives. -/
theorem Project.registerAs_eq_error {p : Project} {id : Id} {r : Reflection} {e : Error}
    (failed : p.registerAs id r = .error e) :
    r.body.role.refusal? p.contains id r.kind = some e := by
  unfold Project.registerAs at failed
  unfold Role.refusal?
  by_cases reserved : id ≤ 0
  · rw [if_pos reserved] at failed ⊢
    cases failed
    rfl
  · by_cases taken : p.contains id = true
    · rw [if_neg reserved, if_pos taken] at failed ⊢
      cases failed
      rfl
    · by_cases fits : r.body.role.accepts r.kind = true
      · by_cases last : maxId ≤ id
        · simp only [reserved, taken, fits, last] at failed ⊢
          cases failed
          rfl
        · simp only [reserved, taken, fits, last] at failed
          cases failed
      · rw [Bool.not_eq_true] at fits
        simp only [reserved, taken, fits] at failed ⊢
        cases failed
        rfl

namespace Decoder

variable {α β : Type} {d : Decoder α} {f : α → Decoder β} {parts more : List Part} {part : Part}
  {v : α} {e : Error} {s s' : Decoding}

theorem bind_eq_error : (d >>= f).run s = .error e s' ↔
    d.run s = .error e s' ∨ ∃ a s₁, d.run s = .ok a s₁ ∧ (f a).run s₁ = .error e s' := by
  rw [EStateM.run_bind]
  cases d.run s with
  | ok a s₁ => simp
  | error e' s₁ => simp

/-- Where the decoder fails, it has stopped at one of the parts. -/
def Stops (d : Decoder α) (parts : List Part) : Prop :=
  ∀ s e s', d.run s = .error e s' → s.StopsAt parts e s'.project

theorem Stops.pure (v : α) : Stops (Pure.pure v) [] := by
  intro s e s' failed
  rw [EStateM.run_pure] at failed
  cases failed

/-- A decoder fails at its own parts or, if it reads them, where the next one fails. -/
theorem Stops.bind (hd : Stops d parts) (reads : Reads d v parts) (hf : Stops (f v) more) :
    Stops (d >>= f) (parts ++ more) := by
  intro s e s' failed
  rcases bind_eq_error.1 failed with failed | ⟨a, s₁, succeeded, failed⟩
  · exact (hd s e s' failed).left
  · obtain ⟨admits, rfl, rfl⟩ := (reads s a s₁).1 succeeded
    exact .right admits (hf _ e s' failed)

/-- A decoder followed by a plain function. -/
theorem Stops.map (hd : Stops d parts) (g : α → β) :
    Stops (d >>= fun a => Pure.pure (g a)) parts := by
  intro s e s' failed
  rcases bind_eq_error.1 failed with failed | ⟨a, s₁, -, failed⟩
  · exact hd s e s' failed
  · cases failed

/-- A part that is valid and registers nothing may stand in front. -/
theorem Stops.skip (hd : Stops d parts) (none : part.object? = none) (valid : part.IsValid) :
    Stops d (part :: parts) := by
  intro s e s' failed
  obtain ⟨pre, stop, post, rfl, admits, refused, left⟩ := hd s e s' failed
  have same : placements (part :: pre) = placements pre := List.filterMap_cons_none none
  have admits' := (Decoding.admits_cons_of_object?_eq_none none).2 ⟨valid, admits⟩
  exact ⟨part :: pre, stop, post, rfl, admits', same.symm ▸ refused, same.symm ▸ left⟩

/-- A decoder that only throws stops at a part that is refused whatever is taken. -/
theorem Stops.throw (refused : ∀ taken, part.refusal? taken = some e) :
    Stops (throw e : Decoder α) (part :: parts) := by
  intro s e' s' failed
  rw [run_throw] at failed
  cases failed
  exact Decoding.stopsAt_cons (refused _)

/-! ### Flat parts -/

/-- Registering fails where the reflection is refused, and leaves everything as it was. -/
theorem run_register_eq_error {header : WireHeader} {owner : Option Id} {body : Body}
    {object : WireReflection} (begins : object.header = header)
    (failed : (register header owner body).run s = .error e s') :
    s' = s ∧ Placement.refusal? s.project.contains ⟨body.role, owner, object⟩ = some e := by
  subst begins
  unfold register at failed
  unfold Placement.refusal?
  cases known : Kind.ofBits? object.header.kind with
  | none =>
      rw [known] at failed
      cases failed
      exact ⟨rfl, rfl⟩
  | some kind =>
      simp only [known, EStateM.run_bind, EStateM.run_get] at failed
      split at failed
      · next refused =>
        cases failed
        exact ⟨rfl, Project.registerAs_eq_error refused⟩
      · cases failed

variable {header : WireHeader} {owner : Option Id} {role : Role} {r : WireReflection}

/-- Registering stops at the reflection. -/
theorem register_stops {body : Body} (begins : r.header = header) (fits : body.role = role) :
    Stops (register header owner body) [.object ⟨role, owner, r⟩] := by
  intro s e s' failed
  obtain ⟨rfl, refused⟩ := run_register_eq_error begins failed
  exact Decoding.stopsAt_cons (fits ▸ refused)

/-- Reading categories never fails and registers nothing, so registering after it stops at the reflection
too. -/
theorem categories_register_stops {cs : Option (List WireCategory)} {body : List Category → Body}
    (begins : r.header = header) (fits : ∀ categories, (body categories).role = role) :
    Stops (categories cs >>= fun categories => register header owner (body categories))
      [.object ⟨role, owner, r⟩] := by
  intro s e s' failed
  rw [EStateM.run_bind, run_categories] at failed
  obtain ⟨rfl, refused⟩ := run_register_eq_error begins failed
  exact Decoding.stopsAt_cons (s := s) (fits _ ▸ refused)

end Decoder

open Decoder

theorem WireLiteral.decode_stops (value : WireLiteral) :
    Stops (value.decode >>= fun l => pure (TypeExpr.literal l)) [.type (.literal value)] := by
  cases value with
  | bigInt magnitude negative =>
      simp only [WireLiteral.decode, bigInt_eq]
      by_cases valid : Digits.isNumber magnitude.toList = true
      · rw [if_pos valid]
        exact .skip (.map (.pure _) _) rfl valid
      · rw [if_neg valid]
        have refused (taken : Id → Bool) :
            Part.refusal? taken (.type (.literal (.bigInt magnitude negative))) =
              some (.invalidBigInt magnitude) := if_neg valid
        exact .map (.throw refused) _
  | _ => exact .skip (.map (.pure _) _) rfl trivial

mutual
/-- Decoding a type stops at one of its parts. -/
theorem WireType.decode_stops : ∀ t : WireType, Stops t.decode t.parts
  | .array elementType => by
      simp only [WireType.decode, WireType.parts]
      exact (elementType.decode_stops.map _).skip rfl trivial
  | .conditional checkType extendsType trueType falseType => by
      simp only [WireType.decode, WireType.parts]
      refine .skip ?_ rfl trivial
      refine .bind checkType.decode_stops checkType.decode_reads ?_
      refine .bind extendsType.decode_stops extendsType.decode_reads ?_
      exact .bind trueType.decode_stops trueType.decode_reads (falseType.decode_stops.map _)
  | .indexedAccess indexType objectType => by
      simp only [WireType.decode, WireType.parts]
      refine .skip ?_ rfl trivial
      exact .bind objectType.decode_stops objectType.decode_reads (indexType.decode_stops.map _)
  | .inferred _ => (Stops.pure _).skip rfl trivial
  | .intersection types => by
      simp only [WireType.decode, WireType.parts]
      exact ((decodeTypes_stops types).map _).skip rfl trivial
  | .intrinsic _ => (Stops.pure _).skip rfl trivial
  | .literal value => by
      simp only [WireType.decode, WireType.parts]
      exact value.decode_stops
  | .mapped _ parameterType templateType _ _ nameType => by
      simp only [WireType.decode, WireType.parts]
      refine .skip ?_ rfl trivial
      refine .bind parameterType.decode_stops parameterType.decode_reads ?_
      exact .bind templateType.decode_stops templateType.decode_reads
        ((decodeType?_stops nameType).map _)
  | .optional elementType => by
      simp only [WireType.decode, WireType.parts]
      exact (elementType.decode_stops.map _).skip rfl trivial
  | .predicate _ _ targetType => by
      simp only [WireType.decode, WireType.parts]
      exact ((decodeType?_stops targetType).map _).skip rfl trivial
  | .query queryType => by
      simp only [WireType.decode, WireType.parts]
      exact (queryType.decodeReference_stops.map _).skip rfl trivial
  | .reference _ typeArguments _ _ _ => by
      simp only [WireType.decode, WireType.parts]
      exact ((decodeTypes?_stops typeArguments).map _).skip rfl trivial
  | .reflection declaration => by
      simp only [WireType.decode, WireType.parts]
      exact ((declaration.decode_stops .declaration none).map _).skip rfl trivial
  | .rest elementType => by
      simp only [WireType.decode, WireType.parts]
      exact (elementType.decode_stops.map _).skip rfl trivial
  | .templateLiteral _ tail => by
      simp only [WireType.decode, WireType.parts]
      exact ((decodeSpans_stops tail).map _).skip rfl trivial
  | .tuple elements => by
      simp only [WireType.decode, WireType.parts]
      exact ((decodeTypes?_stops elements).map _).skip rfl trivial
  | .namedTupleMember _ _ element => by
      simp only [WireType.decode, WireType.parts]
      exact (element.decode_stops.map _).skip rfl trivial
  | .typeOperator target _ => by
      simp only [WireType.decode, WireType.parts]
      exact (target.decode_stops.map _).skip rfl trivial
  | .union types => by
      simp only [WireType.decode, WireType.parts]
      exact ((decodeTypes_stops types).map _).skip rfl trivial
  | .unknown _ => (Stops.pure _).skip rfl trivial

/-- Decoding a reference stops at a type of another form, or at one of the parts. -/
theorem WireType.decodeReference_stops :
    ∀ t : WireType, Stops t.decodeReference (.link t :: t.parts)
  | .reference _ typeArguments _ _ _ => by
      simp only [WireType.decodeReference, WireType.parts]
      refine .skip ?_ rfl rfl
      exact .skip ((decodeTypes?_stops typeArguments).map _) rfl trivial
  | .array _ | .conditional .. | .indexedAccess .. | .inferred _ | .intersection _ | .intrinsic _
  | .literal _ | .mapped .. | .optional _ | .predicate .. | .query _ | .reflection _ | .rest _
  | .templateLiteral .. | .tuple _ | .namedTupleMember .. | .typeOperator .. | .union _
  | .unknown _ => by
      simp only [WireType.decodeReference]
      exact .throw fun _ => rfl

theorem decodeTypes_stops : ∀ ts, Stops (decodeTypes ts) (partsOfTypes ts)
  | [] => .pure _
  | t :: ts => by
      simp only [decodeTypes, partsOfTypes]
      exact .bind t.decode_stops t.decode_reads ((decodeTypes_stops ts).map _)

theorem decodeTypes?_stops : ∀ ts, Stops (decodeTypes? ts) (partsOfTypes? ts)
  | none => .pure _
  | some ts => decodeTypes_stops ts

theorem decodeType?_stops : ∀ t, Stops (decodeType? t) (partsOfType? t)
  | none => .pure _
  | some t => by
      simp only [decodeType?, partsOfType?]
      exact t.decode_stops.map _

theorem decodeReference?_stops : ∀ t, Stops (decodeReference? t) (partsOfLink? t)
  | none => .pure _
  | some t => by
      simp only [decodeReference?, partsOfLink?]
      exact t.decodeReference_stops.map _

theorem decodeSpans_stops : ∀ spans, Stops (decodeSpans spans) (partsOfSpans spans)
  | [] => .pure _
  | (t, _) :: spans => by
      simp only [decodeSpans, partsOfSpans]
      exact .bind t.decode_stops t.decode_reads ((decodeSpans_stops spans).map _)

/-- Decoding a reflection stops at something that it owns, or at the reflection itself. -/
theorem WireReflection.decode_stops (role : Role) (owner : Option Id) :
    ∀ r : WireReflection, Stops (r.decode role owner) (r.parts role owner)
  | .mk header children signatures indexSignature getSignature setSignature typeParameters
      parameters type default defaultValue overwrites inheritedFrom implementationOf categories
      hasOwnDocument => by
      simp only [WireReflection.decode, WireReflection.parts]
      cases role with
      | declaration =>
          simp only [List.append_assoc]
          refine .bind (decodeReflections?_stops .typeParameter _ typeParameters)
            (decodeReflections?_reads _ _ typeParameters) ?_
          refine .bind (decodeType?_stops type) (decodeType?_reads type) ?_
          refine .bind (decodeReference?_stops overwrites) (decodeReference?_reads overwrites) ?_
          refine .bind (decodeReference?_stops inheritedFrom) (decodeReference?_reads inheritedFrom) ?_
          refine .bind (decodeReference?_stops implementationOf)
            (decodeReference?_reads implementationOf) ?_
          refine .bind (decodeReflections?_stops .signature _ signatures)
            (decodeReflections?_reads _ _ signatures) ?_
          refine .bind (decodeReflection?_stops .signature _ indexSignature)
            (decodeReflection?_reads _ _ indexSignature) ?_
          refine .bind (decodeReflection?_stops .signature _ getSignature)
            (decodeReflection?_reads _ _ getSignature) ?_
          refine .bind (decodeReflection?_stops .signature _ setSignature)
            (decodeReflection?_reads _ _ setSignature) ?_
          refine .bind (decodeReflections?_stops .declaration _ children)
            (decodeReflections?_reads _ _ children) ?_
          exact categories_register_stops rfl fun _ => rfl
      | signature =>
          simp only [List.append_assoc]
          refine .bind (decodeReflections?_stops .typeParameter _ typeParameters)
            (decodeReflections?_reads _ _ typeParameters) ?_
          refine .bind (decodeReflections?_stops .parameter _ parameters)
            (decodeReflections?_reads _ _ parameters) ?_
          refine .bind (decodeType?_stops type) (decodeType?_reads type) ?_
          refine .bind (decodeReference?_stops overwrites) (decodeReference?_reads overwrites) ?_
          refine .bind (decodeReference?_stops inheritedFrom) (decodeReference?_reads inheritedFrom) ?_
          refine .bind (decodeReference?_stops implementationOf)
            (decodeReference?_reads implementationOf) ?_
          exact register_stops rfl rfl
      | parameter =>
          refine .bind (decodeType?_stops type) (decodeType?_reads type) ?_
          exact register_stops rfl rfl
      | typeParameter =>
          simp only [List.append_assoc]
          refine .bind (decodeType?_stops type) (decodeType?_reads type) ?_
          refine .bind (decodeType?_stops default) (decodeType?_reads default) ?_
          exact register_stops rfl rfl

theorem decodeReflections_stops (role : Role) (owner : Option Id) :
    ∀ rs, Stops (decodeReflections role owner rs) (partsOfReflections role owner rs)
  | [] => .pure _
  | r :: rs => by
      simp only [decodeReflections, partsOfReflections]
      exact .bind (r.decode_stops role owner) (r.decode_reads role owner)
        ((decodeReflections_stops role owner rs).map _)

theorem decodeReflections?_stops (role : Role) (owner : Option Id) :
    ∀ rs, Stops (decodeReflections? role owner rs) (partsOfReflections? role owner rs)
  | none => .pure _
  | some rs => decodeReflections_stops role owner rs

theorem decodeReflection?_stops (role : Role) (owner : Option Id) :
    ∀ r, Stops (decodeReflection? role owner r) (partsOfReflection? role owner r)
  | none => .pure _
  | some r => by
      simp only [decodeReflection?, partsOfReflection?]
      exact (r.decode_stops role owner).map _
end

/-! ### What is left -/

/-- The ids that are taken once these reflections are registered as well. -/
def takenWith (taken : Id → Bool) (qs : List Placement) (id : Id) : Bool :=
  taken id || decide (id ∈ qs.map Placement.id)

/-- The part is the first one that is refused: each part is judged by the ids that are taken and by those
of the reflections before it. -/
structure IsFirstRefused (taken : Id → Bool) (pre : List Part) (part : Part) (e : Error) : Prop where
  admitted : ∀ before x after, pre = before ++ x :: after →
    x.refusal? (takenWith taken (placements before)) = none
  refused : part.refusal? (takenWith taken (placements pre)) = some e

/-- The reflections of a document were registered in a project in turn, each as the document has it, and
nothing else was done to the project. -/
structure Project.Gains (p : Project) (qs : List Placement) (p' : Project) : Prop where
  name : p'.name = p.name
  symbols : p'.symbols = p.symbols
  children : p'.children = p.children
  categories : p'.categories = p.categories
  kept : ∀ id r, p.get? id = some r → p'.get? id = some r
  fresh : ∀ q ∈ qs, p.contains q.id = false
  contains : ∀ id, p'.contains id = true ↔ p.contains id = true ∨ id ∈ qs.map Placement.id
  entry : ∀ pre q post, qs = pre ++ q :: post → p'.get? q.id =
    some (q.reflection (takenWith p.contains pre))
  nextId : p'.nextId = qs.foldl (fun next q => max next (q.id + 1)) p.nextId

/-- Something is left of the parts of a document: the reflections of those before the first one that is
refused, which says why. It is nothing exactly if there are no such reflections. -/
def Project.IsPartlyFilled (p : Project) (parts : List Part) (e : Error) (p' : Project) : Prop :=
  ∃ pre part post, parts = pre ++ part :: post ∧ IsFirstRefused p.contains pre part e ∧
    p.Gains (placements pre) p' ∧ (p' = p ↔ placements pre = [])

/-- Of two first parts that are refused, one does not come later: it would be admitted as well. -/
theorem IsFirstRefused.eq_nil_of_append {taken : Id → Bool} {pre between post post' : List Part}
    {part part' : Part} {e e' : Error} (h : IsFirstRefused taken pre part e)
    (h' : IsFirstRefused taken (pre ++ between) part' e')
    (tail : part :: post = between ++ part' :: post') : between = [] ∧ e = e' := by
  cases between with
  | nil =>
      obtain ⟨rfl, -⟩ := List.cons.inj tail
      rw [List.append_nil] at h'
      exact ⟨rfl, Option.some.inj (h.refused.symm.trans h'.refused)⟩
  | cons x between =>
      obtain ⟨rfl, -⟩ := List.cons.inj tail
      cases h.refused.symm.trans (h'.admitted pre part between rfl)

/-- Parts have at most one first part that is refused. -/
theorem IsFirstRefused.unique {taken : Id → Bool} {pre pre' post post' : List Part} {part part' : Part}
    {e e' : Error} (h : IsFirstRefused taken pre part e) (h' : IsFirstRefused taken pre' part' e')
    (same : pre ++ part :: post = pre' ++ part' :: post') : pre = pre' ∧ e = e' := by
  rcases List.append_eq_append_iff.1 same with ⟨between, rfl, tail⟩ | ⟨between, rfl, tail⟩
  · obtain ⟨rfl, why⟩ := h.eq_nil_of_append h' tail
    exact ⟨(List.append_nil pre).symm, why⟩
  · obtain ⟨rfl, why⟩ := h'.eq_nil_of_append h tail
    exact ⟨List.append_nil pre', why.symm⟩

namespace Project

variable {p p' p'' : Project} {qs : List Placement} {parts : List Part} {e e' : Error}

theorem Gains.get?_eq_none (h : p.Gains qs p') {id : Id} (free : p.get? id = none)
    (other : id ∉ qs.map Placement.id) : p'.get? id = none := by
  refine Option.eq_none_iff_forall_ne_some.2 fun r found => ?_
  rcases (h.contains id).1 (Registry.contains_iff.2 ⟨r, found⟩) with before | new
  · obtain ⟨r', found'⟩ := Registry.contains_iff.1 before
    cases free.symm.trans found'
  · exact other new

/-- Registering reflections leads to one project. -/
theorem Gains.unique (h : p.Gains qs p') (h' : p.Gains qs p'') : p' = p'' := by
  have registry : p'.registry = p''.registry := by
    refine Registry.eq_of_get?_eq fun id => ?_
    by_cases new : id ∈ qs.map Placement.id
    · obtain ⟨q, mem, rfl⟩ := List.mem_map.1 new
      obtain ⟨pre, post, split⟩ := List.append_of_mem mem
      exact (h.entry pre q post split).trans (h'.entry pre q post split).symm
    · cases found : p.get? id with
      | none => exact (h.get?_eq_none found new).trans (h'.get?_eq_none found new).symm
      | some r => exact (h.kept id r found).trans (h'.kept id r found).symm
  have name := h.name.trans h'.name.symm
  have symbols := h.symbols.trans h'.symbols.symm
  have nextId := h.nextId.trans h'.nextId.symm
  have children := h.children.trans h'.children.symm
  have categories := h.categories.trans h'.categories.symm
  cases p'
  cases p''
  subst name registry symbols nextId children categories
  rfl

/-- What is left, and why, is determined by the parts. -/
theorem IsPartlyFilled.unique (h : p.IsPartlyFilled parts e p') (h' : p.IsPartlyFilled parts e' p'') :
    e = e' ∧ p' = p'' := by
  obtain ⟨pre, part, post, split, first, gains, -⟩ := h
  obtain ⟨pre', part', post', split', first', gains', -⟩ := h'
  obtain ⟨rfl, same⟩ := first.unique first' (split.symm.trans split')
  exact ⟨same, gains.unique gains'⟩

end Project

namespace Decoding

theorem nextId_fill (s : Decoding) (qs : List Placement) : (s.fill qs).project.nextId =
    qs.foldl (fun next q => max next (q.id + 1)) s.project.nextId := by
  induction qs generalizing s with
  | nil => rfl
  | cons q qs ih => rw [fill_cons, ih]; rfl

theorem contains_fill_eq (s : Decoding) (qs : List Placement) :
    (s.fill qs).project.contains = takenWith s.project.contains qs := by
  funext id
  rw [takenWith, Bool.eq_iff_iff, contains_fill, Bool.or_eq_true, decide_eq_true_eq]

variable {s : Decoding} {parts : List Part} {e : Error} {p' : Project}

/-- Of the parts that a state admits none is refused in its turn. -/
theorem Admits.refusal?_eq_none {before after : List Part} {x : Part}
    (admits : s.Admits (before ++ x :: after)) :
    x.refusal? (takenWith s.project.contains (placements before)) = none := by
  rw [← contains_fill_eq, ← admits_singleton_iff]
  obtain ⟨-, later⟩ := admits_append.1 admits
  exact (admits_append (a := [x])).1 later |>.1

/-- Registering what a state admits adds the reflections and leaves the rest alone. -/
theorem gains_fill (admits : s.Admits parts) :
    s.project.Gains (placements parts) (s.fill (placements parts)).project := by
  obtain ⟨nextId, registry, same⟩ := exists_project_fill s (placements parts)
  refine
    { name := by rw [same]
      symbols := by rw [same]
      children := by rw [same]
      categories := by rw [same]
      kept := ?kept
      fresh := admits.fresh
      contains := fun id => contains_fill
      entry := ?entry
      nextId := nextId_fill s _ }
  case kept =>
    intro id r found
    have held : s.project.contains id = true := Registry.contains_iff.2 ⟨r, found⟩
    have other : id ∉ (placements parts).map Placement.id := by
      intro taken
      obtain ⟨q, hq, rfl⟩ := List.mem_map.1 taken
      rw [admits.fresh q hq] at held
      cases held
    rw [get?_fill_of_notMem other, found]
  case entry =>
    intro pre q post split
    have distinct := admits.distinct
    rw [split] at distinct ⊢
    rw [get?_fill distinct, contains_fill_eq]

/-- A project with a new reflection is another one. -/
theorem fill_eq_iff (admits : s.Admits parts) :
    (s.fill (placements parts)).project = s.project ↔ placements parts = [] := by
  constructor
  · intro same
    refine List.eq_nil_iff_forall_not_mem.2 fun q hq => ?_
    have held : (s.fill (placements parts)).project.contains q.id = true :=
      contains_fill.2 (.inr (List.mem_map_of_mem hq))
    rw [same, admits.fresh q hq] at held
    cases held
  · intro none
    rw [none, fill_nil]

theorem StopsAt.isPartlyFilled (h : s.StopsAt parts e p') :
    s.project.IsPartlyFilled parts e p' := by
  obtain ⟨pre, part, post, split, admits, refused, rfl⟩ := h
  have first : IsFirstRefused s.project.contains pre part e := by
    refine ⟨fun before x after inside => ?_, contains_fill_eq s _ ▸ refused⟩
    exact (inside ▸ admits).refusal?_eq_none
  exact ⟨pre, part, post, split, first, gains_fill admits, fill_eq_iff admits⟩

end Decoding

/-- A failed decoder leaves the project with its name, its index, its children, its categories and all its
reflections as they were. The reflections of the document that were read before the part that is refused
stay registered, and the next id stays beyond theirs. -/
theorem isPartlyFilled_of_error (s : Decoding) :
    (∀ (t : WireType) (e : Error) (s' : Decoding), t.decode.run s = .error e s' →
      s.project.IsPartlyFilled t.parts e s'.project) ∧
    ∀ (role : Role) (owner : Option Id) (r : WireReflection) (e : Error) (s' : Decoding),
      (r.decode role owner).run s = .error e s' →
        s.project.IsPartlyFilled (r.parts role owner) e s'.project := by
  constructor
  · intro t e s' failed
    exact (t.decode_stops s e s' failed).isPartlyFilled
  · intro role owner r e s' failed
    exact (r.decode_stops role owner s e s' failed).isPartlyFilled

/-- A type literal of an unknown kind that has a member. -/
def unknownLiteral : WireReflection :=
  .mk { id := 1, name := "__type", kind := 3 }
    (some [.ofHeader { id := 2, name := "verbose", kind := 0x400 }])
    none none none none none none none none none none none none none false

/-- The member is left of the type literal, whether it is read as a type or as a declaration. -/
theorem isPartlyFilled_unknownLiteral :
    (∃ s : Decoding, (WireType.reflection unknownLiteral).decode.run
        { project := { name := "library" } } = .error (.unknownKind 3) s ∧
      Project.IsPartlyFilled { name := "library" } (WireType.reflection unknownLiteral).parts
        (.unknownKind 3) s.project) ∧
    ∃ s : Decoding, (unknownLiteral.decode .declaration none).run
        { project := { name := "library" } } = .error (.unknownKind 3) s ∧
      Project.IsPartlyFilled { name := "library" } (unknownLiteral.parts .declaration none)
        (.unknownKind 3) s.project := by
  have left := isPartlyFilled_of_error { project := { name := "library" } }
  exact ⟨⟨_, rfl, left.1 (.reflection unknownLiteral) _ _ rfl⟩,
    ⟨_, rfl, left.2 .declaration none unknownLiteral _ _ rfl⟩⟩

/-- The member of the type literal is left in the project, below an owner that was never registered, and
the next id is beyond its own. -/
theorem exists_left_of_unknownKind : ∃ (s : Decoding) (member : Reflection),
    (WireType.reflection unknownLiteral).decode.run { project := { name := "library" } } =
      .error (.unknownKind 3) s ∧
    s.project.get? 2 = some member ∧ member.parent = some 1 ∧ s.project.contains 1 = false ∧
    s.project.nextId = 3 ∧ ({ name := "library" } : Project).contains 2 = false ∧
    ({ name := "library" } : Project).nextId = 1 :=
  ⟨_, _, rfl, rfl, rfl, rfl, rfl, rfl, rfl⟩

end ApiGraph
