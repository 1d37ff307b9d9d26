import ApiGraph.Proofs.Parts
import ApiGraph.Proofs.Registry

/-!
# ApiGraph.Proofs.Reading

Decoding against the parts of a document. A decoder **reads** a list of parts if it succeeds in
exactly the states that admit them, with one value, and leaves the state in which their reflections
are registered in turn. Decoders that read are put together like the lists of parts.

* `Decoding.place`, `Decoding.fill` — the state after registering reflections.
* `Decoding.Admits` — the states that admit parts.
* `Decoder.Reads` — the relation, with `Reads.pure` and `Reads.bind`.
* `WireType.decode_reads`, `WireReflection.decode_reads` — the decoders read the parts.
* `ofWire_eq_ok_iff` — which documents are projects, and which projects they are.
-/

namespace ApiGraph

/-! ### Registering -/

/-- The category members that are not known. -/
def omittedMembers (known : Id → Bool) (cs : Option (List WireCategory)) : List Omission :=
  (cs.getD []).flatMap fun c =>
    ((c.children.getD []).filter fun id => !known id).map fun child => ⟨child, c.title⟩

/-- The category members of a reflection in its role that are not known. -/
def WireReflection.omitted (known : Id → Bool) : Role → WireReflection → List Omission
  | .declaration, .mk _ _ _ _ _ _ _ _ _ _ _ _ _ _ categories _ => omittedMembers known categories
  | _, _ => []

namespace Decoding

/-- The state after a reflection is registered. -/
def place (s : Decoding) (q : Placement) : Decoding where
  project := { s.project with
    nextId := max s.project.nextId (q.id + 1)
    registry := s.project.registry.insert q.id (q.reflection s.project.contains) }
  omissions := s.omissions ++ q.object.omitted s.project.contains q.role

/-- The state after reflections are registered in turn. -/
def fill (s : Decoding) (qs : List Placement) : Decoding :=
  qs.foldl place s

@[simp] theorem fill_nil (s : Decoding) : s.fill [] = s := rfl

@[simp] theorem fill_cons (s : Decoding) (q : Placement) (qs : List Placement) :
    s.fill (q :: qs) = (s.place q).fill qs := rfl

theorem fill_append (s : Decoding) (a b : List Placement) : s.fill (a ++ b) = (s.fill a).fill b :=
  List.foldl_append

@[simp] theorem contains_place (s : Decoding) (q : Placement) (id : Id) :
    (s.place q).project.contains id = (decide (id = q.id) || s.project.contains id) :=
  Registry.contains_insert _ _ _ _

/-- Known afterwards are the ids known before and those of the registered reflections. -/
theorem contains_fill {s : Decoding} {qs : List Placement} {id : Id} :
    (s.fill qs).project.contains id = true ↔
      s.project.contains id = true ∨ id ∈ qs.map Placement.id := by
  induction qs generalizing s with
  | nil => simp
  | cons q qs ih =>
      rw [fill_cons, ih, contains_place, Bool.or_eq_true, decide_eq_true_eq, List.map_cons,
        List.mem_cons]
      tauto

/-! ### Admitting -/

/-- Each part is valid on its own, and every reflection has an id of its own. -/
structure Admits (s : Decoding) (parts : List Part) : Prop where
  valid : ∀ part ∈ parts, part.IsValid
  distinct : ((placements parts).map Placement.id).Nodup
  fresh : ∀ q ∈ placements parts, s.project.contains q.id = false

theorem admits_nil (s : Decoding) : s.Admits [] where
  valid := by simp
  distinct := by simp
  fresh := by simp

/-- Parts are admitted in turn: the later ones by the state that the earlier ones leave. -/
theorem admits_append {s : Decoding} {a b : List Part} :
    s.Admits (a ++ b) ↔ s.Admits a ∧ (s.fill (placements a)).Admits b := by
  have free (q : Placement) : (s.fill (placements a)).project.contains q.id = false ↔
      s.project.contains q.id = false ∧ q.id ∉ (placements a).map Placement.id := by
    rw [← Bool.not_eq_true, ← Bool.not_eq_true, contains_fill, not_or]
  constructor
  · rintro ⟨valid, distinct, fresh⟩
    rw [placements_append, List.map_append, List.nodup_append] at distinct
    obtain ⟨distinctA, distinctB, apart⟩ := distinct
    refine ⟨⟨fun x hx => valid x (by simp [hx]), distinctA, fun q hq => fresh q (by simp [hq])⟩,
      ⟨fun x hx => valid x (by simp [hx]), distinctB, fun q hq => ?_⟩⟩
    refine (free q).2 ⟨fresh q (by simp [hq]), fun taken => ?_⟩
    exact apart _ taken _ (List.mem_map_of_mem hq) rfl
  · rintro ⟨ha, hb⟩
    refine ⟨fun x hx => ?_, ?_, fun q hq => ?_⟩
    · exact (List.mem_append.1 hx).elim (ha.valid x) (hb.valid x)
    · rw [placements_append, List.map_append, List.nodup_append]
      refine ⟨ha.distinct, hb.distinct, fun x hx y hy same => ?_⟩
      obtain ⟨q, hq, rfl⟩ := List.mem_map.1 hy
      exact ((free q).1 (hb.fresh q hq)).2 (same ▸ hx)
    · rw [placements_append, List.mem_append] at hq
      exact hq.elim (ha.fresh q) fun hq => ((free q).1 (hb.fresh q hq)).1

/-- A part that registers nothing asks only to be valid. -/
theorem admits_cons_of_object?_eq_none {s : Decoding} {part : Part} {parts : List Part}
    (h : part.object? = none) : s.Admits (part :: parts) ↔ part.IsValid ∧ s.Admits parts := by
  have same : placements (part :: parts) = placements parts := List.filterMap_cons_none h
  constructor
  · rintro ⟨valid, distinct, fresh⟩
    rw [same] at distinct fresh
    exact ⟨valid part List.mem_cons_self,
      fun x hx => valid x (List.mem_cons_of_mem _ hx), distinct, fresh⟩
  · rintro ⟨hp, valid, distinct, fresh⟩
    refine ⟨fun x hx => ?_, by rwa [same], by rwa [same]⟩
    rcases List.mem_cons.1 hx with rfl | hx
    · exact hp
    · exact valid x hx

theorem admits_object {s : Decoding} {q : Placement} :
    s.Admits [.object q] ↔ q.IsValid ∧ s.project.contains q.id = false := by
  constructor
  · rintro ⟨valid, -, fresh⟩
    exact ⟨valid (.object q) (by simp), fresh q (by simp)⟩
  · rintro ⟨hq, free⟩
    exact ⟨by simpa [Part.IsValid] using hq, by simp, by simpa using free⟩

end Decoding

/-! ### Decoders -/

theorem Project.registerAs_eq_ok {p p' : Project} {id : Id} {r : Reflection} :
    p.registerAs id r = .ok p' ↔
      r.body.role.accepts r.kind = true ∧ 1 ≤ id ∧ id ≤ maxId - 1 ∧ p.contains id = false ∧
        p' = { p with nextId := max p.nextId (id + 1), registry := p.registry.insert id r } := by
  unfold Project.registerAs
  by_cases reserved : id ≤ 0
  · rw [if_pos reserved]
    constructor
    · intro h; cases h
    · rintro ⟨-, positive, -⟩; grind
  · by_cases taken : p.contains id = true
    · rw [if_neg reserved, if_pos taken]
      constructor
      · intro h; cases h
      · rintro ⟨-, -, -, fresh, -⟩; simp [taken] at fresh
    · by_cases fits : r.body.role.accepts r.kind = true
      · by_cases last : maxId ≤ id
        · simp only [reserved, taken, fits, last]
          constructor
          · intro h; cases h
          · rintro ⟨-, -, bounded, -⟩; grind
        · simp only [reserved, taken, fits, last]
          constructor
          · intro h
            cases h
            exact ⟨trivial, by grind, by grind, trivial, rfl⟩
          · rintro ⟨-, -, -, -, rfl⟩; rfl
      · simp only [reserved, taken, fits]
        constructor
        · intro h; cases h
        · rintro ⟨h, -⟩; cases h

namespace Decoder

variable {α β : Type} {d : Decoder α} {f : α → Decoder β} {parts more : List Part} {v : α} {w : β}

theorem bind_eq_ok {s s'' : Decoding} {b : β} :
    (d >>= f).run s = .ok b s'' ↔ ∃ a s', d.run s = .ok a s' ∧ (f a).run s' = .ok b s'' := by
  rw [EStateM.run_bind]
  cases d.run s with
  | ok a s' => simp
  | error e s' => simp

theorem run_throw (e : Error) (s : Decoding) :
    (throw e : Decoder α).run s = .error e s := rfl

/-- The decoder succeeds exactly where the parts are admitted, with the value `v`, and then their
reflections are registered in turn. -/
def Reads (d : Decoder α) (v : α) (parts : List Part) : Prop :=
  ∀ s a s', d.run s = .ok a s' ↔ s.Admits parts ∧ a = v ∧ s' = s.fill (placements parts)

theorem Reads.pure (v : α) : Reads (pure v) v [] := by
  intro s a s'
  rw [EStateM.run_pure]
  constructor
  · intro h
    cases h
    exact ⟨s.admits_nil, rfl, rfl⟩
  · rintro ⟨-, rfl, rfl⟩
    rfl

theorem Reads.bind (hd : Reads d v parts) (hf : Reads (f v) w more) :
    Reads (d >>= f) w (parts ++ more) := by
  intro s b s''
  rw [bind_eq_ok, Decoding.admits_append, placements_append, Decoding.fill_append]
  constructor
  · rintro ⟨a, s', first, second⟩
    obtain ⟨admits, rfl, rfl⟩ := (hd s a s').1 first
    obtain ⟨admits', rfl, rfl⟩ := (hf _ _ _).1 second
    exact ⟨⟨admits, admits'⟩, rfl, rfl⟩
  · rintro ⟨⟨admits, admits'⟩, rfl, rfl⟩
    exact ⟨v, _, (hd s _ _).2 ⟨admits, rfl, rfl⟩, (hf _ _ _).2 ⟨admits', rfl, rfl⟩⟩

/-- A decoder followed by a plain function. -/
theorem Reads.map (hd : Reads d v parts) (g : α → β) :
    Reads (d >>= fun a => Pure.pure (g a)) (g v) parts := by
  have h := hd.bind (f := fun a => Pure.pure (g a)) (Reads.pure (g v))
  rwa [List.append_nil] at h

/-- A part that is valid and registers nothing may stand in front. -/
theorem Reads.skip (hd : Reads d v parts) {part : Part} (none : part.object? = none)
    (valid : part.IsValid) : Reads d v (part :: parts) := by
  intro s a s'
  have same : placements (part :: parts) = placements parts := List.filterMap_cons_none none
  rw [Decoding.admits_cons_of_object?_eq_none none, same, hd s a s']
  simp [valid]

/-- A decoder that never succeeds reads parts of which one is not valid. -/
theorem Reads.fails (h : ∀ s a s', d.run s ≠ .ok a s') {part : Part} (invalid : ¬part.IsValid) :
    Reads d v (part :: parts) := by
  intro s a s'
  constructor
  · exact fun ok => absurd ok (h s a s')
  · rintro ⟨admits, -⟩
    exact absurd (admits.valid part List.mem_cons_self) invalid

/-! ### Flat parts -/

theorem bigInt_eq (negative : Bool) (magnitude : String) :
    bigInt negative magnitude =
      if Digits.isNumber magnitude.toList then
        Pure.pure (WireLiteral.read (.bigInt magnitude negative))
      else throw (.invalidBigInt magnitude) := by
  by_cases h : Digits.isNumber magnitude.toList = true
  · obtain ⟨n, read⟩ := BigInt.exists_ofParts negative h
    rw [if_pos h, bigInt, WireLiteral.read, read]
    rfl
  · rw [if_neg h, bigInt, BigInt.ofParts_eq_error negative h]

theorem run_category (c : WireCategory) (s : Decoding) :
    (category c).run s = .ok
      { title := c.title, children := (c.children.getD []).filter s.project.contains }
      { s with omissions := s.omissions ++ omittedMembers s.project.contains (some [c]) } := by
  simp only [category, EStateM.run_bind, EStateM.run_get, List.partition_eq_filter_filter,
    EStateM.run_set, EStateM.run_pure]
  simp [omittedMembers, Function.comp_def]

/-- Categories keep the members that are registered by now. -/
theorem run_categories (cs : Option (List WireCategory)) (s : Decoding) :
    (categories cs).run s = .ok (readCategories s.project.contains cs)
      { s with omissions := s.omissions ++ omittedMembers s.project.contains cs } := by
  unfold categories readCategories omittedMembers
  generalize cs.getD [] = items
  induction items generalizing s with
  | nil => simp
  | cons c rest ih =>
      simp only [List.mapM_cons, EStateM.run_bind, run_category, ih, EStateM.run_pure]
      simp [omittedMembers]

/-- Registering succeeds exactly for a valid reflection with a new id. -/
theorem run_register {header : WireHeader} {parent : Option Id} {body : Body} {s s' : Decoding}
    {id : Id} :
    (register header parent body).run s = .ok id s' ↔
      ∃ kind, Kind.ofBits? header.kind = some kind ∧ body.role.accepts kind = true ∧
        1 ≤ header.id ∧ header.id ≤ maxId - 1 ∧ s.project.contains header.id = false ∧
        id = header.id ∧
        s' = { s with project := { s.project with
          nextId := max s.project.nextId (header.id + 1)
          registry := s.project.registry.insert header.id
            { name := header.name, kind, parent, flags := header.flags, body } } } := by
  unfold register
  cases known : Kind.ofBits? header.kind with
  | none => simp [run_throw]
  | some kind =>
      simp only [EStateM.run_bind, EStateM.run_get, Option.some.injEq, exists_eq_left']
      let r : Reflection := { name := header.name, kind, parent, flags := header.flags, body }
      cases step : s.project.registerAs header.id r with
      | error e =>
          simp only [run_throw, reduceCtorEq, false_iff]
          rintro ⟨fits, positive, bounded, fresh, -⟩
          have registers := (Project.registerAs_eq_ok (r := r)).2
            ⟨fits, positive, bounded, fresh, rfl⟩
          rw [step] at registers
          cases registers
      | ok p' =>
          obtain ⟨fits, positive, bounded, fresh, rfl⟩ := Project.registerAs_eq_ok.1 step
          simp only [r] at step fits
          simp only [EStateM.run_bind, EStateM.run_set, EStateM.run_pure,
            EStateM.Result.ok.injEq, fits, positive, bounded, fresh, true_and, eq_comm, r]

variable {header : WireHeader} {owner : Option Id} {role : Role} {r : WireReflection}

/-- Registering what a reflection holds registers the reflection. -/
theorem run_register_object {s s' : Decoding} {id : Id} :
    (register r.header owner (r.body s.project.contains role)).run s = .ok id s' ↔
      s.Admits [.object ⟨role, owner, r⟩] ∧ id = r.header.id ∧
        s' = { s with project := (s.place ⟨role, owner, r⟩).project } := by
  rw [run_register, Decoding.admits_object, WireReflection.role_body]
  constructor
  · rintro ⟨kind, known, fits, positive, bounded, fresh, rfl, rfl⟩
    refine ⟨⟨⟨⟨kind, known, fits⟩, positive, bounded⟩, fresh⟩, rfl, ?_⟩
    simp [Decoding.place, Placement.reflection, Placement.id, known]
  · rintro ⟨⟨⟨⟨kind, known, fits⟩, positive, bounded⟩, fresh⟩, rfl, rfl⟩
    refine ⟨kind, known, fits, positive, bounded, fresh, rfl, ?_⟩
    simp [Decoding.place, Placement.reflection, Placement.id, known]

/-- Registering reads a reflection that has no categories. -/
theorem register_reads {body : Body} (begins : r.header = header)
    (holds : ∀ known, r.body known role = body) (keeps : ∀ known, r.omitted known role = []) :
    Reads (register header owner body) header.id [.object ⟨role, owner, r⟩] := by
  subst begins
  intro s id s'
  rw [← holds s.project.contains, run_register_object]
  simp [Decoding.place, keeps]

/-- Registering reads a reflection with the categories that are read right before it. -/
theorem categories_register_reads {cs : Option (List WireCategory)} {body : List Category → Body}
    (begins : r.header = header) (holds : ∀ known, r.body known role = body (readCategories known cs))
    (keeps : ∀ known, r.omitted known role = omittedMembers known cs) :
    Reads (categories cs >>= fun categories => register header owner (body categories)) header.id
      [.object ⟨role, owner, r⟩] := by
  subst begins
  intro s id s'
  rw [EStateM.run_bind, run_categories]
  dsimp only
  -- the members that were left out are noted before the reflection is registered
  let noted : Decoding :=
    { s with omissions := s.omissions ++ omittedMembers s.project.contains cs }
  have registered := @run_register_object owner role r noted s' id
  rw [holds] at registered
  refine registered.trans ?_
  simp [Decoding.place, Decoding.admits_object, keeps, noted]

end Decoder

open Decoder

theorem WireLiteral.decode_reads (value : WireLiteral) :
    Reads (value.decode >>= fun l => pure (TypeExpr.literal l)) (TypeExpr.literal value.read)
      [.type (.literal value)] := by
  cases value with
  | bigInt magnitude negative =>
      simp only [WireLiteral.decode, bigInt_eq]
      by_cases h : Digits.isNumber magnitude.toList = true
      · rw [if_pos h]
        exact .skip (.map (.pure _) _) rfl h
      · rw [if_neg h]
        exact .fails (fun s a s' h => by cases h) h
  | _ => exact .skip (.map (.pure _) _) rfl trivial

mutual
/-- A type is decoded to what it means. -/
theorem WireType.decode_reads : ∀ t : WireType, Reads t.decode t.read t.parts
  | .array elementType => by
      simp only [WireType.decode, WireType.read, WireType.parts]
      exact (elementType.decode_reads.map _).skip rfl trivial
  | .conditional checkType extendsType trueType falseType => by
      simp only [WireType.decode, WireType.read, WireType.parts]
      exact (checkType.decode_reads.bind (extendsType.decode_reads.bind
        (trueType.decode_reads.bind (falseType.decode_reads.map _)))).skip rfl trivial
  | .indexedAccess indexType objectType => by
      simp only [WireType.decode, WireType.read, WireType.parts]
      exact (objectType.decode_reads.bind (indexType.decode_reads.map _)).skip rfl trivial
  | .inferred _ => (Reads.pure _).skip rfl trivial
  | .intersection types => by
      simp only [WireType.decode, WireType.read, WireType.parts]
      exact ((decodeTypes_reads types).map _).skip rfl trivial
  | .intrinsic _ => (Reads.pure _).skip rfl trivial
  | .literal value => by
      simp only [WireType.decode, WireType.read, WireType.parts]
      exact value.decode_reads
  | .mapped _ parameterType templateType _ _ nameType => by
      simp only [WireType.decode, WireType.read, WireType.parts]
      exact (parameterType.decode_reads.bind (templateType.decode_reads.bind
        ((decodeType?_reads nameType).map _))).skip rfl trivial
  | .optional elementType => by
      simp only [WireType.decode, WireType.read, WireType.parts]
      exact (elementType.decode_reads.map _).skip rfl trivial
  | .predicate _ _ targetType => by
      simp only [WireType.decode, WireType.read, WireType.parts]
      exact ((decodeType?_reads targetType).map _).skip rfl trivial
  | .query queryType => by
      simp only [WireType.decode, WireType.read, WireType.parts]
      exact (queryType.decodeReference_reads.map _).skip rfl trivial
  | .reference _ typeArguments _ _ _ => by
      simp only [WireType.decode, WireType.read, WireType.parts]
      exact ((decodeTypes?_reads typeArguments).map _).skip rfl trivial
  | .reflection declaration => by
      simp only [WireType.decode, WireType.read, WireType.parts]
      exact ((declaration.decode_reads .declaration none).map _).skip rfl trivial
  | .rest elementType => by
      simp only [WireType.decode, WireType.read, WireType.parts]
      exact (elementType.decode_reads.map _).skip rfl trivial
  | .templateLiteral _ tail => by
      simp only [WireType.decode, WireType.read, WireType.parts]
      exact ((decodeSpans_reads tail).map _).skip rfl trivial
  | .tuple elements => by
      simp only [WireType.decode, WireType.read, WireType.parts]
      exact ((decodeTypes?_reads elements).map _).skip rfl trivial
  | .namedTupleMember _ _ element => by
      simp only [WireType.decode, WireType.read, WireType.parts]
      exact (element.decode_reads.map _).skip rfl trivial
  | .typeOperator target _ => by
      simp only [WireType.decode, WireType.read, WireType.parts]
      exact (target.decode_reads.map _).skip rfl trivial
  | .union types => by
      simp only [WireType.decode, WireType.read, WireType.parts]
      exact ((decodeTypes_reads types).map _).skip rfl trivial
  | .unknown _ => (Reads.pure _).skip rfl trivial

/-- A reference is decoded to what it means; a type of another form is refused. -/
theorem WireType.decodeReference_reads :
    ∀ t : WireType, Reads t.decodeReference t.readReference (.link t :: t.parts)
  | .reference _ typeArguments _ _ _ => by
      simp only [WireType.decodeReference, WireType.readReference, WireType.parts]
      refine .skip ?_ rfl rfl
      exact .skip ((decodeTypes?_reads typeArguments).map _) rfl trivial
  | .array _ | .conditional .. | .indexedAccess .. | .inferred _ | .intersection _ | .intrinsic _
  | .literal _ | .mapped .. | .optional _ | .predicate .. | .query _ | .reflection _ | .rest _
  | .templateLiteral .. | .tuple _ | .namedTupleMember .. | .typeOperator .. | .union _
  | .unknown _ =>
      .fails (fun s a s' => by simp [WireType.decodeReference, run_throw])
        (by simp [Part.IsValid, WireType.form])

theorem decodeTypes_reads : ∀ ts, Reads (decodeTypes ts) (readTypes ts) (partsOfTypes ts)
  | [] => .pure _
  | t :: ts => by
      simp only [decodeTypes, readTypes, partsOfTypes]
      exact t.decode_reads.bind ((decodeTypes_reads ts).map _)

theorem decodeTypes?_reads : ∀ ts, Reads (decodeTypes? ts) (readTypes? ts) (partsOfTypes? ts)
  | none => .pure _
  | some ts => decodeTypes_reads ts

theorem decodeType?_reads : ∀ t, Reads (decodeType? t) (readType? t) (partsOfType? t)
  | none => .pure _
  | some t => by
      simp only [decodeType?, readType?, partsOfType?]
      exact t.decode_reads.map _

theorem decodeReference?_reads :
    ∀ t, Reads (decodeReference? t) (readReference? t) (partsOfLink? t)
  | none => .pure _
  | some t => by
      simp only [decodeReference?, readReference?, partsOfLink?]
      exact t.decodeReference_reads.map _

theorem decodeSpans_reads : ∀ spans, Reads (decodeSpans spans) (readSpans spans) (partsOfSpans spans)
  | [] => .pure _
  | (t, _) :: spans => by
      simp only [decodeSpans, readSpans, partsOfSpans]
      exact t.decode_reads.bind ((decodeSpans_reads spans).map _)

/-- A reflection is registered after everything that it owns. -/
theorem WireReflection.decode_reads (role : Role) (owner : Option Id) :
    ∀ r : WireReflection, Reads (r.decode role owner) r.header.id (r.parts role owner)
  | .mk header children signatures indexSignature getSignature setSignature typeParameters
      parameters type default defaultValue overwrites inheritedFrom implementationOf categories
      hasOwnDocument => by
      simp only [WireReflection.decode, WireReflection.parts]
      cases role with
      | declaration =>
          simp only [List.append_assoc]
          refine .bind (decodeReflections?_reads .typeParameter _ typeParameters) ?_
          refine .bind (decodeType?_reads type) ?_
          refine .bind (decodeReference?_reads overwrites) ?_
          refine .bind (decodeReference?_reads inheritedFrom) ?_
          refine .bind (decodeReference?_reads implementationOf) ?_
          refine .bind (decodeReflections?_reads .signature _ signatures) ?_
          refine .bind (decodeReflection?_reads .signature _ indexSignature) ?_
          refine .bind (decodeReflection?_reads .signature _ getSignature) ?_
          refine .bind (decodeReflection?_reads .signature _ setSignature) ?_
          refine .bind (decodeReflections?_reads .declaration _ children) ?_
          exact categories_register_reads rfl (fun _ => rfl) fun _ => rfl
      | signature =>
          simp only [List.append_assoc]
          refine .bind (decodeReflections?_reads .typeParameter _ typeParameters) ?_
          refine .bind (decodeReflections?_reads .parameter _ parameters) ?_
          refine .bind (decodeType?_reads type) ?_
          refine .bind (decodeReference?_reads overwrites) ?_
          refine .bind (decodeReference?_reads inheritedFrom) ?_
          refine .bind (decodeReference?_reads implementationOf) ?_
          exact register_reads rfl (fun _ => rfl) fun _ => rfl
      | parameter =>
          refine .bind (decodeType?_reads type) ?_
          exact register_reads rfl (fun _ => rfl) fun _ => rfl
      | typeParameter =>
          simp only [List.append_assoc]
          refine .bind (decodeType?_reads type) ?_
          refine .bind (decodeType?_reads default) ?_
          exact register_reads rfl (fun _ => rfl) fun _ => rfl

theorem decodeReflections_reads (role : Role) (owner : Option Id) :
    ∀ rs, Reads (decodeReflections role owner rs) (rs.map (·.header.id))
      (partsOfReflections role owner rs)
  | [] => .pure _
  | r :: rs => by
      simp only [decodeReflections, partsOfReflections, List.map_cons]
      exact (r.decode_reads role owner).bind ((decodeReflections_reads role owner rs).map _)

theorem decodeReflections?_reads (role : Role) (owner : Option Id) :
    ∀ rs, Reads (decodeReflections? role owner rs) (idsOf rs) (partsOfReflections? role owner rs)
  | none => .pure _
  | some rs => decodeReflections_reads role owner rs

theorem decodeReflection?_reads (role : Role) (owner : Option Id) :
    ∀ r, Reads (decodeReflection? role owner r) (idOf? r) (partsOfReflection? role owner r)
  | none => .pure _
  | some r => by
      simp only [decodeReflection?, partsOfReflection?, idOf?, Option.map_some]
      exact (r.decode_reads role owner).map _
end

/-! ### Whole documents -/

/-- A kind is known by its bits. -/
theorem Kind.ofBits?_eq_some_iff {bits : Nat} {kind : Kind} :
    Kind.ofBits? bits = some kind ↔ kind.bits = bits := by
  constructor
  · intro h
    simpa using List.find?_some h
  · rintro rfl
    cases kind <;> rfl

namespace WireReflection

/-- The reflections of a whole document, in the order in which they are registered. -/
def rootPlacements (root : WireReflection) : List Placement :=
  placements root.rootParts

/-- The state in which nothing of a document is registered. -/
def start (root : WireReflection) : Decoding :=
  { project := { name := root.header.name } }

/-- The state in which all of a document is registered. -/
def filled (root : WireReflection) : Decoding :=
  root.start.fill root.rootPlacements

/-- The project that a document means. -/
def project (root : WireReflection) : Project :=
  { root.filled.project with
    children := idsOf root.rootReflections
    categories := readCategories root.filled.project.contains root.rootCategories }

/-- A document means a project if it is one, every part is valid and no id is given twice. -/
structure IsProject (root : WireReflection) : Prop where
  kind : root.header.kind = 0
  valid : ∀ part ∈ root.rootParts, part.IsValid
  distinct : (root.rootPlacements.map Placement.id).Nodup

theorem admits_start {root : WireReflection} :
    root.start.Admits root.rootParts ↔
      (∀ part ∈ root.rootParts, part.IsValid) ∧ (root.rootPlacements.map Placement.id).Nodup :=
  ⟨fun h => ⟨h.valid, h.distinct⟩, fun h => ⟨h.1, h.2, fun _ _ => rfl⟩⟩

theorem decodeRoot_eq {root : WireReflection} (h : root.header.kind = 0) :
    root.decodeRoot = do
      let children ← decodeReflections? .declaration none root.rootReflections
      let categories ← Decoder.categories root.rootCategories
      return { (← get).project with children, categories } := by
  cases root with
  | mk header =>
      have known : Kind.ofBits? header.kind = some .project := Kind.ofBits?_eq_some_iff.2 h.symm
      simp only [decodeRoot, known]
      rfl

theorem run_decodeRoot_ne_ok {root : WireReflection} (h : root.header.kind ≠ 0) {s s' : Decoding}
    {p : Project} : root.decodeRoot.run s ≠ .ok p s' := by
  cases root with
  | mk header =>
      cases known : Kind.ofBits? header.kind with
      | none => simp [decodeRoot, known, run_throw]
      | some kind =>
          have bits := Kind.ofBits?_eq_some_iff.1 known
          cases kind with
          | project => exact absurd bits.symm h
          | _ => simp [decodeRoot, known, run_throw]

theorem run_decodeRoot {root : WireReflection} {p : Project} {s : Decoding} :
    root.decodeRoot.run root.start = .ok p s ↔
      root.IsProject ∧ p = root.project ∧ s =
        { root.filled with
          omissions := root.filled.omissions ++
            omittedMembers root.filled.project.contains root.rootCategories } := by
  have isProject : root.IsProject ↔ root.header.kind = 0 ∧ root.start.Admits root.rootParts :=
    ⟨fun h => ⟨h.kind, admits_start.2 ⟨h.valid, h.distinct⟩⟩,
      fun h => ⟨h.1, (admits_start.1 h.2).1, (admits_start.1 h.2).2⟩⟩
  rw [isProject]
  by_cases kind : root.header.kind = 0
  · rw [decodeRoot_eq kind, bind_eq_ok]
    simp only [EStateM.run_bind, run_categories, EStateM.run_get, EStateM.run_pure]
    constructor
    · rintro ⟨ids, s', first, second⟩
      obtain ⟨admits, rfl, rfl⟩ := (decodeReflections?_reads _ _ _ _ _ _).1 first
      cases second
      exact ⟨⟨kind, admits⟩, rfl, rfl⟩
    · rintro ⟨⟨-, admits⟩, rfl, rfl⟩
      exact ⟨_, _, (decodeReflections?_reads _ _ _ _ _ _).2 ⟨admits, rfl, rfl⟩, rfl⟩
  · simp [kind, run_decodeRoot_ne_ok kind]

end WireReflection

/-- **Exactly the valid documents are projects**, and each is the project that it means. -/
theorem ofWire_eq_ok_iff {root : WireReflection} {p : Project} :
    Project.ofWire root = .ok p ↔ root.IsProject ∧ p = root.project := by
  unfold Project.ofWire WireReflection.decodeProject
  have run := @WireReflection.run_decodeRoot root p
  unfold WireReflection.start at run
  cases step : root.decodeRoot.run { project := { name := root.header.name } } with
  | ok q s =>
      simp only [step, EStateM.Result.ok.injEq] at run
      simp only [Except.ok.injEq]
      constructor
      · rintro rfl
        exact ((run (s := s)).1 ⟨rfl, rfl⟩).imp_right And.left
      · intro h
        exact ((run (s := _)).2 ⟨h.1, h.2, rfl⟩).1
  | error e s =>
      simp only [step, reduceCtorEq, false_iff, not_and] at run
      simp only [reduceCtorEq, false_iff, not_and]
      exact fun h same => run h same rfl

end ApiGraph
