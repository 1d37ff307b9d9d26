import ApiGraph.Proofs.Everywhere
import ApiGraph.Proofs.Fields

/-!
# ApiGraph.Proofs.Codec

Documents as JSON trees. A document is **representable** if its numbers are of the sizes that JSON
documents hold; the tree of a representable document is proper, and reading it gives the document.

* `WireType.IsRepresentable`, `WireReflection.IsRepresentable` — ids, kinds and literals in range.
* `WireReflection.isProper_toJson` — the tree is proper.
* `WireReflection.ofJson?_toJson` — the tree is read as the document.
-/

namespace ApiGraph

open Wire

/-! ### Representable documents -/

/-- An id of 32 bits. -/
def IsId (id : Id) : Prop :=
  -2147483648 ≤ id ∧ id ≤ 2147483647

/-- The numbers of a type are in range. -/
def WireType.InRange : WireType → Prop
  | .literal (.number n) => n.IsRepresentable
  | .reference id _ _ _ _ => ∀ x ∈ id, IsId x
  | _ => True

/-- The members of categories are ids. -/
def CategoriesInRange (categories : Option (List WireCategory)) : Prop :=
  ∀ cs ∈ categories, ∀ c ∈ cs, ∀ ids ∈ c.children, ∀ id ∈ ids, IsId id

/-- The numbers of a reflection are in range. -/
def WireReflection.InRange : WireReflection → Prop
  | .mk header _ _ _ _ _ _ _ _ _ _ _ _ _ categories _ =>
    IsId header.id ∧ header.kind < 4294967296 ∧ CategoriesInRange categories

/-- All numbers in a type are in range. -/
abbrev WireType.IsRepresentable (t : WireType) : Prop :=
  t.Everywhere WireType.InRange WireReflection.InRange

/-- All numbers in a reflection are in range. -/
abbrev WireReflection.IsRepresentable (r : WireReflection) : Prop :=
  r.Everywhere WireType.InRange WireReflection.InRange

/-! ### Reading fields -/

namespace Record

variable {α β : Type} {r : Record} {name : String} {read : Json → Option α} {json : Json} {v : α}

theorem required_eq (get : r.get? name = some json) (reads : read json = some v) :
    r.required name read = some v := by
  rw [required, get]
  exact reads

theorem optional_none (get : r.get? name = none) : r.optional name read = some none := by
  rw [optional, get]

theorem optional_some (get : r.get? name = some json) (value : json ≠ .null)
    (reads : read json = some v) : r.optional name read = some (some v) := by
  unfold optional
  rw [get]
  split
  · next none => cases none
  · next null => exact (value (Option.some.inj null)).elim
  · next found => rw [← Option.some.inj found, reads]; rfl

/-- An optional field comes back if its value does. -/
theorem optional_map {value : Option β} {write : β → Json} {read : Json → Option β}
    (get : r.get? name = value.map write) (values : ∀ v, write v ≠ .null)
    (reads : ∀ v ∈ value, read (write v) = some v) : r.optional name read = some value := by
  cases value with
  | none => exact optional_none get
  | some v => exact optional_some get (values v) (reads v rfl)

end Record

namespace Wire

/-- What a reader that succeeds goes on with. -/
theorem bind_some {α β : Type} {x : Option α} {f : α → Option β} {v : α} {t : β} (first : x = some v)
    (rest : f v = some t) : x >>= f = some t := by
  rw [first]
  exact rest

/-- Items that are read one by one. -/
theorem mapM_map {α β γ : Type} {write : γ → α} {read : α → Option β} {items : List γ} (value : γ → β)
    (reads : ∀ x ∈ items, read (write x) = some (value x)) :
    (items.map write).mapM read = some (items.map value) := by
  induction items with
  | nil => rfl
  | cons x items ih =>
      rw [List.map_cons, List.mapM_cons]
      refine bind_some (reads x List.mem_cons_self) (bind_some (ih fun y mem => ?_) rfl)
      exact reads y (List.mem_cons_of_mem _ mem)

theorem mapM_map_eq {α β : Type} {write : α → β} {read : β → Option α} {items : List α}
    (reads : ∀ x ∈ items, read (write x) = some x) : (items.map write).mapM read = some items :=
  (mapM_map (fun x => x) reads).trans (congrArg some (List.map_id' items))

/-! ### Flat parts -/

theorem id?_idJson {id : Id} (h : IsId id) : (idJson id).id? = some id :=
  if_pos h

theorem bits?_number {n : Nat} (h : n < 4294967296) :
    (Json.number (.integer n)).bits? = some n := by
  have small : (0 : Int) ≤ n ∧ (n : Int) < 4294967296 := by omega
  simp only [Json.bits?, if_pos small, Int.toNat_natCast]

theorem modifier?_modifierJson (m : Modifier) : modifier? (modifierJson m) = some m := by
  cases m <;> rfl

theorem operator?_name (o : Operator) : operator? (.string o.name) = some o := by
  cases o <;> rfl

theorem literal?_literalJson (value : WireLiteral) : literal? (literalJson value) = some value := by
  cases value <;> rfl

theorem ids?_array {ids : List Id} {room : Nat} (inRange : ∀ id ∈ ids, IsId id) :
    ids? (room + 1) (.array (ids.map idJson)) = some ids :=
  mapM_map_eq fun id mem => id?_idJson (inRange id mem)

/-- The fields of flags. -/
def flagFields (flags : Flags) : List (String × Option Json) :=
  flags.entries.map fun e => (e.1, if e.2 then some (.bool true) else none)

theorem object_set_eq (flags : Flags) :
    Json.object (flags.set.map fun name => (name, .bool true)) = present (flagFields flags) := by
  refine congrArg Json.object ?_
  unfold Flags.set flagFields
  induction flags.entries with
  | nil => rfl
  | cons e es ih =>
      obtain ⟨name, _ | _⟩ := e
      · simpa using ih
      · simpa using ih

theorem withDefault_flag {r : Record} {name : String} {b : Bool}
    (get : r.get? name = if b then some (.bool true) else none) :
    r.withDefault name false Json.bool? = some b := by
  unfold Record.withDefault
  cases b <;> rw [get] <;> rfl

/-- Flags come back from those that are set. -/
theorem flags?_present (flags : Flags) (room : Nat) :
    flags? (room + 1) (present (flagFields flags)) = some flags := by
  have distinct : ((flagFields flags).map (·.1)).Nodup := by
    show Flags.names.Nodup
    decide
  have each : ∀ e ∈ flags.entries, (found Flags.names (flagFields flags)).withDefault e.1 false
      Json.bool? = some e.2 := by
    simp only [Flags.entries, List.forall_mem_cons]
    exact ⟨withDefault_flag rfl, withDefault_flag rfl, withDefault_flag rfl, withDefault_flag rfl,
      withDefault_flag rfl, withDefault_flag rfl, withDefault_flag rfl, withDefault_flag rfl,
      withDefault_flag rfl, withDefault_flag rfl, nofun⟩
  have values : (flags.entries.map (·.1)).mapM (fun name =>
      (found Flags.names (flagFields flags)).withDefault name false Json.bool?) =
        some (flags.entries.map (·.2)) := mapM_map (fun e : String × Bool => e.2) each
  unfold flags?
  rw [if_neg (Nat.succ_ne_zero room)]
  exact bind_some (record?_present distinct) (bind_some values rfl)

/-- The flags of a reflection come back, also when none is set. -/
theorem withDefault_flagsJson? {r : Record} {flags : Flags} {room : Nat}
    (get : r.get? "flags" = flagsJson? flags) (below : ∀ j ∈ flagsJson? flags, j.fits room = true) :
    r.withDefault "flags" {} (flags? room) = some flags := by
  cases empty : flags.isEmpty with
  | true =>
      -- flags that are not given are none, which is what was left out
      have missing : r.get? "flags" = none := get.trans (if_pos empty)
      rw [Record.withDefault, missing]
      exact congrArg some (beq_iff_eq.1 empty).symm
  | false =>
      have written : flagsJson? flags = some (present (flagFields flags)) :=
        (if_neg (by simp [empty])).trans (congrArg some (object_set_eq flags))
      obtain ⟨rest, rfl, -⟩ := fits_present (below _ written)
      rw [Record.withDefault, get, written]
      exact flags?_present flags rest

/-- A category comes back if its members are ids. -/
theorem category?_categoryJson {c : WireCategory} {room : Nat}
    (inRange : ∀ ids ∈ c.children, ∀ id ∈ ids, IsId id) (h : (categoryJson c).fits room = true) :
    category? room (categoryJson c) = some c := by
  obtain ⟨rest, rfl, -, below, -⟩ := fits_present h
  have distinct : ["title", "children"].Nodup := by decide
  refine bind_some (record?_present distinct) (bind_some (Record.required_eq rfl rfl)
    (bind_some (Record.optional_map rfl (fun _ => nofun) fun ids mem => ?_) rfl))
  obtain ⟨rest', rfl, -⟩ := Json.fits_array (below _ (Option.mem_map_of_mem _ mem))
  exact ids?_array (inRange ids mem)

/-- Categories come back if their members are ids. -/
theorem optional_categories {r : Record} {categories : Option (List WireCategory)} {room : Nat}
    (get : r.get? "categories" = categories.map fun cs => .array (cs.map categoryJson))
    (inRange : CategoriesInRange categories)
    (below : ∀ j ∈ categories.map fun cs => Json.array (cs.map categoryJson), j.fits room = true) :
    r.optional "categories" (categories? room) = some categories := by
  refine Record.optional_map get (fun _ => nofun) fun cs mem => ?_
  obtain ⟨rest, rfl, each⟩ := Json.fits_array (below _ (Option.mem_map_of_mem _ mem))
  refine mapM_map_eq fun c inside => category?_categoryJson (inRange cs mem c inside) ?_
  exact each _ (List.mem_map_of_mem inside)

end Wire

/-! ### Types and reflections -/

theorem WireType.toJson_ne_null (t : WireType) : t.toJson ≠ .null := by
  cases t <;> exact nofun

theorem WireReflection.toJson_ne_null (r : WireReflection) : r.toJson ≠ .null := by
  cases r
  exact nofun

/-- A written type is read if its fields are. -/
theorem readType_typed {form : TypeExpr.Form} {fields : List (String × Option Json)} {room : Nat}
    {inner : Bool} {t : WireType} (all : fields.map (·.1) = fieldNames form)
    (read : readFields (readType room true) (readReflection room true)
      (found (fieldNames form) fields) form = some t) :
    readType (room + 1) inner (typed form fields) = some t := by
  rw [readType, tagged?_typed all]
  exact read

mutual
/-- The tree of a type is read as the type. -/
theorem WireType.read_toJson : ∀ (t : WireType) (room : Nat) (inner : Bool), t.IsRepresentable →
    t.toJson.fits room = true → readType room inner t.toJson = some t
  | .array element, _, _, h, fits => by
      obtain ⟨room, rfl, -, here, -⟩ := fits_present fits
      have element := element.read_toJson room true h.2 (here _ rfl)
      exact readType_typed rfl (bind_some (Record.required_eq rfl element) rfl)
  | .conditional check bound whenTrue whenFalse, _, _, h, fits => by
      obtain ⟨room, rfl, -, c, b, t, f, -⟩ := fits_present fits
      have check := check.read_toJson room true h.2.1 (c _ rfl)
      have bound := bound.read_toJson room true h.2.2.1 (b _ rfl)
      have whenTrue := whenTrue.read_toJson room true h.2.2.2.1 (t _ rfl)
      have whenFalse := whenFalse.read_toJson room true h.2.2.2.2 (f _ rfl)
      exact readType_typed rfl (bind_some (Record.required_eq rfl check)
        (bind_some (Record.required_eq rfl bound) (bind_some (Record.required_eq rfl whenTrue)
        (bind_some (Record.required_eq rfl whenFalse) rfl))))
  | .indexedAccess index object, _, _, h, fits => by
      obtain ⟨room, rfl, -, i, o, -⟩ := fits_present fits
      have index := index.read_toJson room true h.2.1 (i _ rfl)
      have object := object.read_toJson room true h.2.2 (o _ rfl)
      exact readType_typed rfl (bind_some (Record.required_eq rfl index)
        (bind_some (Record.required_eq rfl object) rfl))
  | .inferred _, _, _, _, fits => by
      obtain ⟨room, rfl, -⟩ := fits_present fits
      exact readType_typed rfl (bind_some (Record.required_eq rfl rfl) rfl)
  | .intersection types, _, _, h, fits => by
      obtain ⟨room, rfl, -, here, -⟩ := fits_present fits
      have types := read_typesJson types room h.2 (Json.fits_items (here _ rfl))
      exact readType_typed rfl (bind_some (Record.required_eq rfl types) rfl)
  | .intrinsic _, _, _, _, fits => by
      obtain ⟨room, rfl, -⟩ := fits_present fits
      exact readType_typed rfl (bind_some (Record.required_eq rfl rfl) rfl)
  | .literal value, _, _, _, fits => by
      obtain ⟨room, rfl, -⟩ := fits_present fits
      exact readType_typed rfl (bind_some (Record.required_eq rfl (literal?_literalJson value)) rfl)
  | .mapped _ parameterType template _ _ nameType, _, _, h, fits => by
      obtain ⟨room, rfl, -, -, p, t, -, -, n, -⟩ := fits_present fits
      have parameterType := parameterType.read_toJson room true h.2.1 (p _ rfl)
      have template := template.read_toJson room true h.2.2.1 (t _ rfl)
      exact readType_typed rfl (bind_some (Record.required_eq rfl rfl)
        (bind_some (Record.required_eq rfl parameterType) (bind_some (Record.required_eq rfl template)
        (bind_some (Record.optional_map rfl (fun _ => nofun) fun m _ => modifier?_modifierJson m)
        (bind_some (Record.optional_map rfl (fun _ => nofun) fun m _ => modifier?_modifierJson m)
        (bind_some (read_typeJson? nameType room true (fun _ _ => rfl) rfl h.2.2.2 n) rfl))))))
  | .optional element, _, _, h, fits => by
      obtain ⟨room, rfl, -, here, -⟩ := fits_present fits
      have element := element.read_toJson room true h.2 (here _ rfl)
      exact readType_typed rfl (bind_some (Record.required_eq rfl element) rfl)
  | .predicate _ _ target, _, _, h, fits => by
      obtain ⟨room, rfl, -, -, -, t, -⟩ := fits_present fits
      exact readType_typed rfl (bind_some (Record.required_eq rfl rfl)
        (bind_some (Record.required_eq rfl rfl)
        (bind_some (read_typeJson? target room true (fun _ _ => rfl) rfl h.2 t) rfl)))
  | .query queried, _, _, h, fits => by
      obtain ⟨room, rfl, -, here, -⟩ := fits_present fits
      have queried := queried.read_toJson room true h.2 (here _ rfl)
      exact readType_typed rfl (bind_some (Record.required_eq rfl queried) rfl)
  | .reference id arguments _ _ _, _, _, h, fits => by
      obtain ⟨room, rfl, -, -, a, -⟩ := fits_present fits
      exact readType_typed rfl
        (bind_some (Record.optional_map rfl (fun _ => nofun) fun x mem => id?_idJson (h.1 x mem))
        (bind_some (read_typesJson? arguments room rfl h.2 a) (bind_some (Record.required_eq rfl rfl)
        (bind_some (Record.optional_map rfl (fun _ => nofun) fun _ _ => rfl)
        (bind_some (Record.optional_map rfl (fun _ => nofun) fun _ _ => rfl) rfl)))))
  | .reflection declaration, _, _, h, fits => by
      obtain ⟨room, rfl, -, here, -⟩ := fits_present fits
      have declaration := declaration.read_toJson room true h.2 (here _ rfl)
      exact readType_typed rfl (bind_some (Record.required_eq rfl declaration) rfl)
  | .rest element, _, _, h, fits => by
      obtain ⟨room, rfl, -, here, -⟩ := fits_present fits
      have element := element.read_toJson room true h.2 (here _ rfl)
      exact readType_typed rfl (bind_some (Record.required_eq rfl element) rfl)
  | .templateLiteral _ tail, _, _, h, fits => by
      obtain ⟨room, rfl, -, -, here, -⟩ := fits_present fits
      have tail := read_spansJson tail room h.2 (Json.fits_items (here _ rfl))
      exact readType_typed rfl (bind_some (Record.required_eq rfl rfl)
        (bind_some (Record.required_eq rfl tail) rfl))
  | .tuple elements, _, _, h, fits => by
      obtain ⟨room, rfl, -, here, -⟩ := fits_present fits
      exact readType_typed rfl (bind_some (read_typesJson? elements room rfl h.2 here) rfl)
  | .namedTupleMember _ _ element, _, _, h, fits => by
      obtain ⟨room, rfl, -, -, -, here, -⟩ := fits_present fits
      have element := element.read_toJson room true h.2 (here _ rfl)
      exact readType_typed rfl (bind_some (Record.required_eq rfl rfl)
        (bind_some (Record.required_eq rfl rfl) (bind_some (Record.required_eq rfl element) rfl)))
  | .typeOperator target operator, _, _, h, fits => by
      obtain ⟨room, rfl, -, here, -⟩ := fits_present fits
      have target := target.read_toJson room true h.2 (here _ rfl)
      exact readType_typed rfl (bind_some (Record.required_eq rfl target)
        (bind_some (Record.required_eq rfl (operator?_name operator)) rfl))
  | .union types, _, _, h, fits => by
      obtain ⟨room, rfl, -, here, -⟩ := fits_present fits
      have types := read_typesJson types room h.2 (Json.fits_items (here _ rfl))
      exact readType_typed rfl (bind_some (Record.required_eq rfl types) rfl)
  | .unknown _, _, _, _, fits => by
      obtain ⟨room, rfl, -⟩ := fits_present fits
      exact readType_typed rfl (bind_some (Record.required_eq rfl rfl) rfl)
termination_by structural t => t

theorem read_typesJson : ∀ (ts : List WireType) (room : Nat),
    EverywhereTypes WireType.InRange WireReflection.InRange ts →
    (∀ j ∈ typesJson ts, j.fits room = true) → (typesJson ts).mapM (readType room true) = some ts
  | [], _, _, _ => rfl
  | t :: ts, room, h, fits => by
      have first := t.read_toJson room true h.1 (fits _ List.mem_cons_self)
      have rest := read_typesJson ts room h.2 fun j mem => fits j (List.mem_cons_of_mem _ mem)
      rw [typesJson, List.mapM_cons]
      exact bind_some first (bind_some rest rfl)
termination_by structural ts => ts

theorem read_typesJson? : ∀ (ts : Option (List WireType)) (room : Nat) {r : Record} {name : String},
    r.get? name = typesJson? ts → EverywhereTypes? WireType.InRange WireReflection.InRange ts →
    (∀ j ∈ typesJson? ts, j.fits room = true) →
    r.optional name (types? (readType room true)) = some ts
  | none, _, _, _, get, _, _ => Record.optional_none get
  | some ts, room, _, _, get, h, fits =>
      Record.optional_some get nofun (read_typesJson ts room h (Json.fits_items (fits _ rfl)))
termination_by structural ts => ts

theorem read_typeJson? : ∀ (t : Option WireType) (room : Nat) (inner : Bool)
    {read : Json → Option WireType} {r : Record} {name : String},
    (∀ j, j.fits room = true → read j = readType room inner j) → r.get? name = typeJson? t →
    EverywhereType? WireType.InRange WireReflection.InRange t →
    (∀ j ∈ typeJson? t, j.fits room = true) → r.optional name read = some t
  | none, _, _, _, _, _, _, get, _, _ => Record.optional_none get
  | some t, room, inner, _, _, _, agrees, get, h, fits =>
      Record.optional_some get t.toJson_ne_null
        ((agrees _ (fits _ rfl)).trans (t.read_toJson room inner h (fits _ rfl)))
termination_by structural t => t

theorem read_spansJson : ∀ (spans : List (WireType × String)) (room : Nat),
    EverywhereSpans WireType.InRange WireReflection.InRange spans →
    (∀ j ∈ spansJson spans, j.fits room = true) →
    (spansJson spans).mapM (span? (readType room true)) = some spans
  | [], _, _, _ => rfl
  | (t, text) :: spans, room, h, fits => by
      have pair := Json.fits_items (fits _ List.mem_cons_self)
      have first := t.read_toJson room true h.1 (pair _ List.mem_cons_self)
      have rest := read_spansJson spans room h.2 fun j mem => fits j (List.mem_cons_of_mem _ mem)
      rw [spansJson, List.mapM_cons]
      exact bind_some (congrArg (Option.map (·, text)) first) (bind_some rest rfl)
termination_by structural spans => spans

/-- The tree of a reflection is read as the reflection. -/
theorem WireReflection.read_toJson : ∀ (r : WireReflection) (room : Nat) (inner : Bool),
    r.IsRepresentable → r.toJson.fits room = true → readReflection room inner r.toJson = some r
  | .mk header children signatures indexSignature getSignature setSignature typeParameters
      parameters type default defaultValue overwrites inheritedFrom implementationOf categories
      hasOwnDocument, _, inner, h, fits => by
      obtain ⟨room, rfl, -, -, -, -, fl, c, s, i, g, st, tp, ps, t, d, -, ov, inh, im, cs, -⟩ :=
        fits_present fits
      obtain ⟨⟨id, kind, members⟩, hc, hs, hi, hg, hst, htp, hps, ht, hd, hov, hinh, him⟩ := h
      have distinct : reflectionFields.Nodup := by decide
      -- a type directly in a reflection is read in the room of the reflection
      have type (j : Json) (fits : j.fits room = true) :
          (if j.fits room then readType room inner j else none) = readType room inner j := if_pos fits
      refine bind_some (record?_present distinct) (bind_some ?_
        (bind_some (read_reflectionsJson? children room inner rfl hc c)
        (bind_some (read_reflectionsJson? signatures room inner rfl hs s)
        (bind_some (read_reflectionJson? indexSignature room inner rfl hi i)
        (bind_some (read_reflectionJson? getSignature room inner rfl hg g)
        (bind_some (read_reflectionJson? setSignature room inner rfl hst st)
        (bind_some (read_reflectionsJson? typeParameters room inner rfl htp tp)
        (bind_some (read_reflectionsJson? parameters room inner rfl hps ps)
        (bind_some (read_typeJson? _ room inner type rfl ht t)
        (bind_some (read_typeJson? default room inner type rfl hd d)
        (bind_some (Record.optional_map rfl (fun _ => nofun) fun _ _ => rfl)
        (bind_some (read_typeJson? overwrites room inner type rfl hov ov)
        (bind_some (read_typeJson? inheritedFrom room inner type rfl hinh inh)
        (bind_some (read_typeJson? implementationOf room inner type rfl him im)
        (bind_some (optional_categories rfl members cs)
        (bind_some (withDefault_flag rfl) rfl))))))))))))))))
      exact bind_some (Record.required_eq rfl (id?_idJson id)) (bind_some (Record.required_eq rfl rfl)
        (bind_some (Record.required_eq rfl (bits?_number kind))
        (bind_some (Record.optional_map rfl (fun _ => nofun) fun _ _ => rfl)
        (bind_some (withDefault_flagsJson? rfl fl) rfl))))
termination_by structural r => r

theorem read_reflectionsJson : ∀ (rs : List WireReflection) (room : Nat) (inner : Bool),
    EverywhereReflections WireType.InRange WireReflection.InRange rs →
    (∀ j ∈ reflectionsJson rs, j.fits room = true) →
    (reflectionsJson rs).mapM (readReflection room inner) = some rs
  | [], _, _, _, _ => rfl
  | r :: rs, room, inner, h, fits => by
      have first := r.read_toJson room inner h.1 (fits _ List.mem_cons_self)
      have rest := read_reflectionsJson rs room inner h.2 fun j mem =>
        fits j (List.mem_cons_of_mem _ mem)
      rw [reflectionsJson, List.mapM_cons]
      exact bind_some first (bind_some rest rfl)
termination_by structural rs => rs

theorem read_reflectionsJson? : ∀ (rs : Option (List WireReflection)) (room : Nat) (inner : Bool)
    {r : Record} {name : String}, r.get? name = reflectionsJson? rs →
    EverywhereReflections? WireType.InRange WireReflection.InRange rs →
    (∀ j ∈ reflectionsJson? rs, j.fits room = true) →
    r.optional name (readReflections room inner) = some rs
  | none, _, _, _, _, get, _, _ => Record.optional_none get
  | some rs, _, inner, _, _, get, h, fits => by
      obtain ⟨room, rfl, each⟩ := Json.fits_array (fits _ rfl)
      exact Record.optional_some get nofun (read_reflectionsJson rs room inner h each)
termination_by structural rs => rs

theorem read_reflectionJson? : ∀ (r' : Option WireReflection) (room : Nat) (inner : Bool)
    {r : Record} {name : String}, r.get? name = reflectionJson? r' →
    EverywhereReflection? WireType.InRange WireReflection.InRange r' →
    (∀ j ∈ reflectionJson? r', j.fits room = true) →
    r.optional name (readReflection room inner) = some r'
  | none, _, _, _, _, get, _, _ => Record.optional_none get
  | some r', room, inner, _, _, get, h, fits =>
      Record.optional_some get r'.toJson_ne_null (r'.read_toJson room inner h (fits _ rfl))
termination_by structural r' => r'
end

/-! ### Proper trees -/

namespace Wire

/-- What a field holds that is present. -/
theorem holds {P : Json → Prop} {json : Json} (h : P json) : ∀ j ∈ some json, P j :=
  fun _ same => Option.some.inj same ▸ h

theorem holdsMap {α : Type} {P : Json → Prop} {value : Option α} {write : α → Json}
    (h : ∀ v ∈ value, P (write v)) : ∀ j ∈ value.map write, P j := by
  intro j mem
  obtain ⟨v, there, rfl⟩ := Option.map_eq_some_iff.1 mem
  exact h v there

theorem isProper_idJson {id : Id} (h : IsId id) : (idJson id).IsProper := by
  obtain ⟨low, high⟩ := h
  exact ⟨Int.le_trans (by decide) low, Int.lt_of_le_of_lt high (by decide)⟩

theorem isProper_literalJson {value : WireLiteral} (h : (WireType.literal value).InRange) :
    (literalJson value).IsProper := by
  cases value with
  | number n => exact h
  | bigInt magnitude negative => exact ⟨by simp, trivial, trivial, trivial⟩
  | _ => trivial

/-- A field that is there if something is set. -/
theorem isProper_set (b : Bool) :
    ∀ j ∈ if b then some (Json.bool true) else none, j.IsProper := by
  cases b
  · exact nofun
  · exact holds trivial

theorem isProper_flagsJson? (flags : Flags) : ∀ j ∈ flagsJson? flags, j.IsProper := by
  intro j written
  have distinct : ((flagFields flags).map (·.1)).Nodup := by
    show Flags.names.Nodup
    decide
  obtain ⟨-, rfl⟩ : flags.isEmpty = false ∧ present (flagFields flags) = j := by
    cases empty : flags.isEmpty <;> simp_all [flagsJson?, object_set_eq]
  refine isProper_present distinct (eachField_iff.2 fun f mem j value => ?_)
  obtain ⟨e, -, rfl⟩ := List.mem_map.1 mem
  exact isProper_set e.2 j value

theorem isProper_categoryJson {c : WireCategory} (h : ∀ ids ∈ c.children, ∀ id ∈ ids, IsId id) :
    (categoryJson c).IsProper := by
  refine isProper_present (by simp [field]) ⟨holds trivial, holdsMap fun ids mem => ?_, trivial⟩
  exact Json.properItems_iff.2
    (List.forall_mem_map.2 fun id inside => isProper_idJson (h ids mem id inside))

theorem isProper_categories {categories : Option (List WireCategory)} (h : CategoriesInRange categories) :
    ∀ j ∈ categories.map fun cs => Json.array (cs.map categoryJson), j.IsProper :=
  holdsMap fun cs mem => Json.properItems_iff.2
    (List.forall_mem_map.2 fun c inside => isProper_categoryJson (h cs mem c inside))

end Wire

mutual
/-- The tree of a representable type is proper. -/
theorem WireType.isProper_toJson : ∀ t : WireType, t.IsRepresentable → t.toJson.IsProper
  | .array element, h => isProper_typed rfl ⟨holds (element.isProper_toJson h.2), trivial⟩
  | .conditional check bound whenTrue whenFalse, h =>
      isProper_typed rfl ⟨holds (check.isProper_toJson h.2.1),
        holds (bound.isProper_toJson h.2.2.1), holds (whenTrue.isProper_toJson h.2.2.2.1),
        holds (whenFalse.isProper_toJson h.2.2.2.2), trivial⟩
  | .indexedAccess index object, h =>
      isProper_typed rfl
        ⟨holds (index.isProper_toJson h.2.1), holds (object.isProper_toJson h.2.2), trivial⟩
  | .inferred _, _ => isProper_typed rfl ⟨holds trivial, trivial⟩
  | .intersection types, h => isProper_typed rfl ⟨holds (proper_typesJson types h.2), trivial⟩
  | .intrinsic _, _ => isProper_typed rfl ⟨holds trivial, trivial⟩
  | .literal _, h => isProper_typed rfl ⟨holds (isProper_literalJson h), trivial⟩
  | .mapped _ parameterType template _ _ nameType, h =>
      isProper_typed rfl ⟨holds trivial, holds (parameterType.isProper_toJson h.2.1),
        holds (template.isProper_toJson h.2.2.1), holdsMap fun _ _ => trivial,
        holdsMap fun _ _ => trivial, proper_typeJson? nameType h.2.2.2, trivial⟩
  | .optional element, h => isProper_typed rfl ⟨holds (element.isProper_toJson h.2), trivial⟩
  | .predicate _ _ target, h =>
      isProper_typed rfl ⟨holds trivial, holds trivial, proper_typeJson? target h.2, trivial⟩
  | .query queried, h => isProper_typed rfl ⟨holds (queried.isProper_toJson h.2), trivial⟩
  | .reference _ arguments _ _ _, h =>
      isProper_typed rfl ⟨holdsMap fun id mem => isProper_idJson (h.1 id mem),
        proper_typesJson? arguments h.2, holds trivial, holdsMap fun _ _ => trivial,
        holdsMap fun _ _ => trivial, trivial⟩
  | .reflection declaration, h =>
      isProper_typed rfl ⟨holds (declaration.isProper_toJson h.2), trivial⟩
  | .rest element, h => isProper_typed rfl ⟨holds (element.isProper_toJson h.2), trivial⟩
  | .templateLiteral _ tail, h =>
      isProper_typed rfl ⟨holds trivial, holds (proper_spansJson tail h.2), trivial⟩
  | .tuple elements, h => isProper_typed rfl ⟨proper_typesJson? elements h.2, trivial⟩
  | .namedTupleMember _ _ element, h =>
      isProper_typed rfl
        ⟨holds trivial, holds trivial, holds (element.isProper_toJson h.2), trivial⟩
  | .typeOperator target _, h =>
      isProper_typed rfl ⟨holds (target.isProper_toJson h.2), holds trivial, trivial⟩
  | .union types, h => isProper_typed rfl ⟨holds (proper_typesJson types h.2), trivial⟩
  | .unknown _, _ => isProper_typed rfl ⟨holds trivial, trivial⟩
termination_by structural t => t

theorem proper_typesJson : ∀ ts : List WireType,
    EverywhereTypes WireType.InRange WireReflection.InRange ts → Json.ProperItems (typesJson ts)
  | [], _ => trivial
  | t :: ts, h => ⟨t.isProper_toJson h.1, proper_typesJson ts h.2⟩
termination_by structural ts => ts

theorem proper_typesJson? : ∀ ts : Option (List WireType),
    EverywhereTypes? WireType.InRange WireReflection.InRange ts →
    ∀ j ∈ typesJson? ts, j.IsProper
  | none, _ => nofun
  | some ts, h => holds (proper_typesJson ts h)
termination_by structural ts => ts

theorem proper_typeJson? : ∀ t : Option WireType,
    EverywhereType? WireType.InRange WireReflection.InRange t → ∀ j ∈ typeJson? t, j.IsProper
  | none, _ => nofun
  | some t, h => holds (t.isProper_toJson h)
termination_by structural t => t

theorem proper_spansJson : ∀ spans : List (WireType × String),
    EverywhereSpans WireType.InRange WireReflection.InRange spans →
    Json.ProperItems (spansJson spans)
  | [], _ => trivial
  | (t, _) :: spans, h => ⟨⟨t.isProper_toJson h.1, trivial, trivial⟩, proper_spansJson spans h.2⟩
termination_by structural spans => spans

/-- The tree of a representable reflection is proper. -/
theorem WireReflection.isProper_toJson : ∀ r : WireReflection, r.IsRepresentable → r.toJson.IsProper
  | .mk header children signatures indexSignature getSignature setSignature typeParameters
      parameters type default defaultValue overwrites inheritedFrom implementationOf categories
      hasOwnDocument, h => by
      obtain ⟨⟨id, bits, members⟩, hc, hs, hi, hg, hst, htp, hps, ht, hd, hov, hinh, him⟩ := h
      have distinct : reflectionFields.Nodup := by decide
      have kind : (Json.number (.integer header.kind)).IsProper := ⟨by omega, by omega⟩
      exact isProper_present distinct
        ⟨holds (isProper_idJson id), holds trivial, holds kind, holdsMap fun _ _ => trivial,
          isProper_flagsJson? header.flags,
          proper_reflectionsJson? children hc, proper_reflectionsJson? signatures hs,
          proper_reflectionJson? indexSignature hi, proper_reflectionJson? getSignature hg,
          proper_reflectionJson? setSignature hst, proper_reflectionsJson? typeParameters htp,
          proper_reflectionsJson? parameters hps, proper_typeJson? type ht,
          proper_typeJson? default hd, holdsMap fun _ _ => trivial, proper_typeJson? overwrites hov,
          proper_typeJson? inheritedFrom hinh, proper_typeJson? implementationOf him,
          isProper_categories members, isProper_set hasOwnDocument, trivial⟩
termination_by structural r => r

theorem proper_reflectionsJson : ∀ rs : List WireReflection,
    EverywhereReflections WireType.InRange WireReflection.InRange rs →
    Json.ProperItems (reflectionsJson rs)
  | [], _ => trivial
  | r :: rs, h => ⟨r.isProper_toJson h.1, proper_reflectionsJson rs h.2⟩
termination_by structural rs => rs

theorem proper_reflectionsJson? : ∀ rs : Option (List WireReflection),
    EverywhereReflections? WireType.InRange WireReflection.InRange rs →
    ∀ j ∈ reflectionsJson? rs, j.IsProper
  | none, _ => nofun
  | some rs, h => holds (proper_reflectionsJson rs h)
termination_by structural rs => rs

theorem proper_reflectionJson? : ∀ r : Option WireReflection,
    EverywhereReflection? WireType.InRange WireReflection.InRange r →
    ∀ j ∈ reflectionJson? r, j.IsProper
  | none, _ => nofun
  | some r, h => holds (r.isProper_toJson h)
termination_by structural r => r
end

/-- **The tree of a representable document is read as the document**, with as much room as it
needs. -/
theorem WireReflection.ofJson?_toJson (r : WireReflection) (h : r.IsRepresentable) :
    WireReflection.ofJson? r.toJson.depth r.toJson = some r := by
  refine r.read_toJson _ false h (Json.fits_iff.2 ⟨?_, Nat.le_refl _⟩)
  exact Json.hasValue_of_isProper _ (r.isProper_toJson h)

end ApiGraph
