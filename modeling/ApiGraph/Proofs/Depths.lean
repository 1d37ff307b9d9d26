import ApiGraph.Json.Reader
import ApiGraph.Proofs.Codec

/-!
# ApiGraph.Proofs.Depths

Nesting in trees that are read. A reader takes every part of a document out of a part of the tree that is
nested as deep at least, so the tree of the document is not deeper than the tree that it was read from.

* `Json.depth_parse?_le` — a text in which too much is nested is not read.
* `Record.Fits`, `Json.exists_fits_of_record?` — the fields of a record are one level down.
* `Wire.Shrinks` — what is read is not written deeper.
* `Wire.shrinks_read`, `WireReflection.depth_toJson_le` — types, reflections and whole documents.
-/

namespace ApiGraph

open Wire

variable {α β : Type} {room : Nat} {json : Json}

/-! ### Texts -/

namespace Json

theorem depthMembers_keepLast_le (members : List (String × Json)) :
    depthMembers (keepLast members) ≤ depthMembers members := by
  induction members with
  | nil => exact Nat.le_refl _
  | cons m rest ih =>
      rw [keepLast]
      split
      · exact ih.trans (Nat.le_max_right _ _)
      · exact max_le_max (Nat.le_refl _) ih

mutual
/-- Members that give way to later ones do not add to the depth. -/
theorem depth_lastWins_le : ∀ j : Json, j.lastWins.depth ≤ j.depth
  | .null | .bool _ | .number _ | .string _ | .valueless => Nat.le_refl _
  | .array items => Nat.succ_le_succ (depth_lastWinsItems_le items)
  | .object members =>
      Nat.succ_le_succ ((depthMembers_keepLast_le _).trans (depth_lastWinsMembers_le members))

theorem depth_lastWinsItems_le : ∀ items, depthItems (lastWinsItems items) ≤ depthItems items
  | [] => Nat.le_refl _
  | item :: rest => max_le_max (depth_lastWins_le item) (depth_lastWinsItems_le rest)

theorem depth_lastWinsMembers_le : ∀ members, depthMembers (lastWinsMembers members) ≤ depthMembers members
  | [] => Nat.le_refl _
  | (_, value) :: rest => max_le_max (depth_lastWins_le value) (depth_lastWinsMembers_le rest)
end

/-- What a text is read as does not nest more than a document may. -/
theorem depth_parse?_le {text : String} {j : Json} (h : parse? text = some j) : j.depth ≤ maxDepth := by
  obtain ⟨whole, -, h⟩ := Option.bind_eq_some_iff.1 h
  split at h
  · next fits =>
    obtain rfl := Option.some.inj h
    exact (depth_lastWins_le whole).trans (fits_iff.1 fits).2
  · cases h

end Json

/-! ### Fields -/

theorem mem_of_lookup {name : String} {fields : List (String × Json)} {j : Json}
    (found : fields.lookup name = some j) : (name, j) ∈ fields := by
  obtain ⟨pre, post, rfl, -⟩ := List.lookup_eq_some_iff.1 found
  exact List.mem_append_right _ List.mem_cons_self

/-- The fields of a record nest at most `room` arrays and objects. -/
def Record.Fits (r : Record) (room : Nat) : Prop :=
  ∀ name j, r.get? name = some j → j.depth ≤ room

theorem Record.fits_ofMembers? {names : List String} {members : List (String × Json)} {r : Record}
    (h : ofMembers? names members = some r) : r.Fits (Json.depthMembers members) := by
  unfold ofMembers? at h
  split at h
  · cases h
  · obtain rfl := Option.some.inj h
    intro name j found
    dsimp only at found
    split at found
    · have mem := mem_of_lookup found
      exact Json.depthMembers_le_iff.1 (Nat.le_refl _) (name, j) mem
    · cases found

theorem Record.fits_ofItems? {names : List String} {items : List Json} {r : Record}
    (h : ofItems? names items = some r) : r.Fits (Json.depthItems items) := by
  unfold ofItems? at h
  split at h
  · cases h
  · obtain rfl := Option.some.inj h
    intro name j found
    have mem := mem_of_lookup found
    exact Json.depthItems_le_iff.1 (Nat.le_refl _) j (List.of_mem_zip mem).2

/-- The fields of a record are one level down. -/
theorem Json.exists_fits_of_record? {names : List String} {r : Record}
    (h : json.record? names = some r) : ∃ room, json.depth = room + 1 ∧ r.Fits room := by
  cases json with
  | object members => exact ⟨_, rfl, Record.fits_ofMembers? h⟩
  | array items => exact ⟨_, rfl, Record.fits_ofItems? h⟩
  | _ => cases h

/-- So are those of a type, next to its discriminator. -/
theorem Wire.exists_fits_of_tagged? {inner : Bool} {form : TypeExpr.Form} {r : Record}
    (h : tagged? inner json = some (form, r)) : ∃ room, json.depth = room + 1 ∧ r.Fits room := by
  cases json with
  | object members =>
      simp only [tagged?, bind, pure] at h
      split at h
      · cases h
      · obtain ⟨tag, -, h⟩ := Option.bind_eq_some_iff.1 h
        obtain ⟨form', -, h⟩ := Option.bind_eq_some_iff.1 h
        obtain ⟨r', read, same⟩ := Option.bind_eq_some_iff.1 h
        obtain ⟨rfl, rfl⟩ := Prod.mk.inj (Option.some.inj same)
        exact ⟨_, rfl, Record.fits_ofMembers? read⟩
  | array items =>
      cases items with
      | nil => cases h
      | cons tag items =>
          simp only [tagged?, bind, pure] at h
          obtain ⟨form', -, h⟩ := Option.bind_eq_some_iff.1 h
          obtain ⟨r', read, same⟩ := Option.bind_eq_some_iff.1 h
          obtain ⟨rfl, rfl⟩ := Prod.mk.inj (Option.some.inj same)
          refine ⟨_, rfl, fun name j found => ?_⟩
          exact (Record.fits_ofItems? read name j found).trans (Nat.le_max_right _ _)
  | _ => cases h

/-- What is read is not written deeper than it was. -/
def Wire.Shrinks (read : Json → Option α) (write : α → Json) : Prop :=
  ∀ json v, read json = some v → (write v).depth ≤ json.depth

namespace Record

variable {r : Record} {name : String} {read : Json → Option α} {write : α → Json}

theorem Fits.required (fits : r.Fits room) (shrinks : Shrinks read write) {v : α}
    (h : r.required name read = some v) : (write v).depth ≤ room := by
  obtain ⟨j, found, read⟩ := Option.bind_eq_some_iff.1 h
  exact (shrinks j v read).trans (fits name j found)

theorem Fits.optional (fits : r.Fits room) (shrinks : Shrinks read write) {v : Option α}
    (h : r.optional name read = some v) : ∀ j ∈ v.map write, j.depth ≤ room := by
  intro j mem
  obtain ⟨a, rfl, rfl⟩ := Option.map_eq_some_iff.1 mem
  unfold Record.optional at h
  split at h
  · cases h
  · cases h
  · next json _ found =>
    obtain ⟨a', read, same⟩ := Option.map_eq_some_iff.1 h
    obtain rfl := Option.some.inj same
    exact (shrinks json a' read).trans (fits name json found)

end Record

/-! ### Flat parts -/

namespace Wire

theorem depth_present_le {fields : List (String × Option Json)}
    (h : EachField (fun j => j.depth ≤ room) fields) : (present fields).depth ≤ room + 1 := by
  refine Nat.succ_le_succ (Json.depthMembers_le_iff.2 fun m mem => ?_)
  exact eachField_iff.1 h (m.1, some m.2) (mem_members.1 mem) m.2 rfl

theorem depth_typed_le {form : TypeExpr.Form} {fields : List (String × Option Json)}
    (h : EachField (fun j => j.depth ≤ room) fields) : (typed form fields).depth ≤ room + 1 :=
  depth_present_le ⟨holds (Nat.zero_le _), h⟩

theorem exists_of_mem_mapM {read : α → Option β} {items : List α} {vs : List β}
    (h : items.mapM read = some vs) : ∀ v ∈ vs, ∃ j ∈ items, read j = some v := by
  induction items generalizing vs with
  | nil =>
      obtain rfl := Option.some.inj h
      exact nofun
  | cons j items ih =>
      simp only [List.mapM_cons, bind, pure, Option.bind_eq_some_iff, Option.some.injEq] at h
      obtain ⟨v, first, rest, later, rfl⟩ := h
      refine List.forall_mem_cons.2 ⟨⟨j, List.mem_cons_self, first⟩, fun x mem => ?_⟩
      obtain ⟨i, inside, read⟩ := ih later x mem
      exact ⟨i, List.mem_cons_of_mem _ inside, read⟩

/-- Nor is a list of such. -/
theorem Shrinks.items {item : Json → Option α} {write : α → Json} (h : Shrinks item write) :
    Shrinks (fun json => do (← json.items?).mapM item) fun vs => .array (vs.map write) := by
  intro json vs read
  cases json with
  | array items =>
      refine Nat.succ_le_succ (Json.depthItems_le_iff.2 (List.forall_mem_map.2 fun v mem => ?_))
      have each : items.mapM item = some vs := read
      obtain ⟨j, inside, read⟩ := exists_of_mem_mapM each v mem
      exact (h j v read).trans (Json.depthItems_le_iff.1 (Nat.le_refl _) j inside)
  | _ => cases read

theorem shrinks_string? : Shrinks Json.string? .string := fun _ _ _ => Nat.zero_le _

theorem shrinks_id? : Shrinks Json.id? idJson := fun _ _ _ => Nat.zero_le _

theorem shrinks_modifier? : Shrinks modifier? modifierJson := fun _ _ _ => Nat.zero_le _

theorem shrinks_literal? : Shrinks literal? literalJson := by
  intro json value read
  cases value with
  | bigInt magnitude negative =>
      -- only an object is read as one
      cases json with
      | object members => exact Nat.succ_le_succ (Nat.zero_le _)
      | _ => cases read
  | _ => exact Nat.zero_le _

theorem shrinks_ids? (room : Nat) : Shrinks (ids? room) fun ids => .array (ids.map idJson) := by
  cases room with
  | zero => exact fun _ _ => nofun
  | succ room => exact shrinks_id?.items

theorem shrinks_category? (room : Nat) : Shrinks (category? room) categoryJson := by
  cases room with
  | zero => exact fun _ _ => nofun
  | succ room =>
      intro json c read
      simp only [category?, bind, pure, Option.bind_eq_some_iff, Option.some.injEq] at read
      obtain ⟨r, record, title, first, children, second, rfl⟩ := read
      obtain ⟨below, depth, fits⟩ := Json.exists_fits_of_record? record
      rw [depth]
      exact depth_present_le ⟨holds (Nat.zero_le _), fits.optional (shrinks_ids? room) second, trivial⟩

theorem shrinks_categories? (room : Nat) :
    Shrinks (categories? room) fun cs => .array (cs.map categoryJson) := by
  cases room with
  | zero => exact fun _ _ => nofun
  | succ room => exact (shrinks_category? room).items

end Wire

/-! ### Types and reflections -/

theorem typesJson_eq_map (ts : List WireType) : typesJson ts = ts.map WireType.toJson := by
  induction ts with
  | nil => rfl
  | cons t ts ih => rw [typesJson, ih, List.map_cons]

theorem reflectionsJson_eq_map (rs : List WireReflection) :
    reflectionsJson rs = rs.map WireReflection.toJson := by
  induction rs with
  | nil => rfl
  | cons r rs ih => rw [reflectionsJson, ih, List.map_cons]

/-- A span as a pair. -/
def spanJson (span : WireType × String) : Json :=
  .array [span.1.toJson, .string span.2]

theorem spansJson_eq_map (spans : List (WireType × String)) : spansJson spans = spans.map spanJson := by
  induction spans with
  | nil => rfl
  | cons s spans ih => rw [spansJson, ih, List.map_cons, spanJson]

namespace Wire

theorem typesJson?_eq_map (ts : Option (List WireType)) :
    typesJson? ts = ts.map fun ts => .array (ts.map WireType.toJson) := by
  cases ts with
  | none => rfl
  | some ts => rw [typesJson?, typesJson_eq_map, Option.map_some]

theorem typeJson?_eq_map (t : Option WireType) : typeJson? t = t.map WireType.toJson := by
  cases t <;> rfl

theorem reflectionsJson?_eq_map (rs : Option (List WireReflection)) :
    reflectionsJson? rs = rs.map fun rs => .array (rs.map WireReflection.toJson) := by
  cases rs with
  | none => rfl
  | some rs => rw [reflectionsJson?, reflectionsJson_eq_map, Option.map_some]

theorem reflectionJson?_eq_map (r : Option WireReflection) :
    reflectionJson? r = r.map WireReflection.toJson := by
  cases r <;> rfl

variable {type : Json → Option WireType} {reflection : Json → Option WireReflection}

theorem shrinks_span? (types : Shrinks type WireType.toJson) : Shrinks (span? type) spanJson := by
  intro json span read
  unfold span? at read
  split at read
  · next json text =>
    obtain ⟨t, here, rfl⟩ := Option.map_eq_some_iff.1 read
    exact Nat.succ_le_succ (max_le_max (types json t here) (Nat.le_refl _))
  · cases read

/-- The types and reflections in the fields of a type are not written deeper, so the type is not. -/
theorem depth_readFields {r : Record} {form : TypeExpr.Form} {t : WireType} (fits : r.Fits room)
    (types : Shrinks type WireType.toJson) (reflections : Shrinks reflection WireReflection.toJson)
    (read : readFields type reflection r form = some t) : t.toJson.depth ≤ room + 1 := by
  have lists : Shrinks (types? type) fun ts => .array (ts.map WireType.toJson) := types.items
  have spans : Shrinks (spans? type) fun spans => .array (spans.map spanJson) := (shrinks_span? types).items
  have flat {j : Json} (h : j.depth = 0) : ∀ i ∈ some j, i.depth ≤ room := holds (h ▸ Nat.zero_le _)
  cases form
  all_goals
    simp only [readFields, bind, pure, Option.bind_eq_some_iff, Option.some.injEq] at read
  case array | optional | rest =>
    obtain ⟨element, first, rfl⟩ := read
    exact depth_typed_le ⟨holds (fits.required types first), trivial⟩
  case conditional =>
    obtain ⟨check, first, bound, second, whenTrue, third, whenFalse, fourth, rfl⟩ := read
    exact depth_typed_le ⟨holds (fits.required types first), holds (fits.required types second),
      holds (fits.required types third), holds (fits.required types fourth), trivial⟩
  case indexedAccess =>
    obtain ⟨index, first, object, second, rfl⟩ := read
    exact depth_typed_le
      ⟨holds (fits.required types first), holds (fits.required types second), trivial⟩
  case inferred | intrinsic | unknown =>
    obtain ⟨name, -, rfl⟩ := read
    exact depth_typed_le ⟨flat rfl, trivial⟩
  case intersection | union =>
    obtain ⟨ts, first, rfl⟩ := read
    have list := fits.required lists first
    rw [← typesJson_eq_map] at list
    exact depth_typed_le ⟨holds list, trivial⟩
  case literal =>
    obtain ⟨value, first, rfl⟩ := read
    exact depth_typed_le ⟨holds (fits.required shrinks_literal? first), trivial⟩
  case mapped =>
    obtain ⟨parameter, -, parameterType, second, template, third, readonlyModifier, fourth,
      optionalModifier, fifth, nameType, sixth, rfl⟩ := read
    have last := fits.optional types sixth
    rw [← typeJson?_eq_map] at last
    exact depth_typed_le ⟨flat rfl, holds (fits.required types second),
      holds (fits.required types third), fits.optional shrinks_modifier? fourth,
      fits.optional shrinks_modifier? fifth, last, trivial⟩
  case predicate =>
    obtain ⟨name, -, asserts, -, target, third, rfl⟩ := read
    have last := fits.optional types third
    rw [← typeJson?_eq_map] at last
    exact depth_typed_le ⟨flat rfl, flat rfl, last, trivial⟩
  case query =>
    obtain ⟨queried, first, rfl⟩ := read
    exact depth_typed_le ⟨holds (fits.required types first), trivial⟩
  case reference =>
    obtain ⟨id, first, arguments, second, name, -, qualifiedName, fourth, package, fifth, rfl⟩ := read
    have list := fits.optional lists second
    rw [← typesJson?_eq_map] at list
    exact depth_typed_le ⟨fits.optional shrinks_id? first, list, flat rfl,
      fits.optional shrinks_string? fourth, fits.optional shrinks_string? fifth, trivial⟩
  case reflection =>
    obtain ⟨declaration, first, rfl⟩ := read
    exact depth_typed_le ⟨holds (fits.required reflections first), trivial⟩
  case templateLiteral =>
    obtain ⟨head, -, tail, second, rfl⟩ := read
    have list := fits.required spans second
    rw [← spansJson_eq_map] at list
    exact depth_typed_le ⟨flat rfl, holds list, trivial⟩
  case tuple =>
    obtain ⟨elements, first, rfl⟩ := read
    have list := fits.optional lists first
    rw [← typesJson?_eq_map] at list
    exact depth_typed_le ⟨list, trivial⟩
  case namedTupleMember =>
    obtain ⟨name, -, isOptional, -, element, third, rfl⟩ := read
    exact depth_typed_le ⟨flat rfl, flat rfl, holds (fits.required types third), trivial⟩
  case typeOperator =>
    obtain ⟨target, first, operator, -, rfl⟩ := read
    exact depth_typed_le ⟨holds (fits.required types first), flat rfl, trivial⟩

theorem depth_flagsJson?_le (flags : Flags) : ∀ j ∈ flagsJson? flags, j.depth ≤ 1 := by
  intro j mem
  unfold flagsJson? at mem
  split at mem
  · cases mem
  · obtain rfl := Option.some.inj mem
    refine Nat.succ_le_succ (Json.depthMembers_le_iff.2 (List.forall_mem_map.2 fun name _ => ?_))
    exact Nat.le_refl 0

/-- Flags are read from a record, so there is room for one. -/
theorem depth_flags_le {r : Record} {flags : Flags} {below : Nat} (fits : r.Fits room)
    (read : r.withDefault "flags" {} (flags? below) = some flags) :
    ∀ j ∈ flagsJson? flags, j.depth ≤ room := by
  unfold Record.withDefault at read
  split at read
  · obtain rfl := Option.some.inj read
    exact nofun
  · next json found =>
    unfold flags? at read
    split at read
    · cases read
    · obtain ⟨values, record, -⟩ := Option.bind_eq_some_iff.1 read
      obtain ⟨deep, depth, -⟩ := Json.exists_fits_of_record? record
      have one : 1 ≤ room := by
        have here := fits "flags" json found
        omega
      exact fun j mem => (depth_flagsJson?_le flags j mem).trans one

theorem depth_header_le {r : Record} {header : WireHeader} {below : Nat} (fits : r.Fits room)
    (read : header? below r = some header) :
    (∀ j ∈ header.kindString.map Json.string, j.depth ≤ room) ∧
      ∀ j ∈ flagsJson? header.flags, j.depth ≤ room := by
  obtain ⟨id, -, read⟩ := Option.bind_eq_some_iff.1 read
  obtain ⟨name, -, read⟩ := Option.bind_eq_some_iff.1 read
  obtain ⟨kind, -, read⟩ := Option.bind_eq_some_iff.1 read
  obtain ⟨kindString, -, read⟩ := Option.bind_eq_some_iff.1 read
  obtain ⟨flags, set, read⟩ := Option.bind_eq_some_iff.1 read
  obtain rfl := Option.some.inj read
  exact ⟨holdsMap fun _ _ => Nat.zero_le _, depth_flags_le fits set⟩

/-- The types and reflections in the fields of a reflection are not written deeper, so it is not. -/
theorem depth_readReflection {inner : Bool} {r : WireReflection}
    (types : Shrinks (readType room inner) WireType.toJson)
    (reflection : Shrinks (readReflection room inner) WireReflection.toJson)
    (reflections : Shrinks (readReflections room inner) fun rs => .array (rs.map WireReflection.toJson))
    (read : readReflection (room + 1) inner json = some r) : r.toJson.depth ≤ json.depth := by
  have type : Shrinks (fun json => if json.fits room then readType room inner json else none)
      WireType.toJson := by
    intro json t read
    dsimp only at read
    split at read
    · exact types json t read
    · cases read
  -- one field at a time: rewriting the whole chain of binds at once is slow
  obtain ⟨record, fields, read⟩ := Option.bind_eq_some_iff.1 read
  obtain ⟨header, hh, read⟩ := Option.bind_eq_some_iff.1 read
  obtain ⟨children, hc, read⟩ := Option.bind_eq_some_iff.1 read
  obtain ⟨signatures, hs, read⟩ := Option.bind_eq_some_iff.1 read
  obtain ⟨indexSignature, hi, read⟩ := Option.bind_eq_some_iff.1 read
  obtain ⟨getSignature, hg, read⟩ := Option.bind_eq_some_iff.1 read
  obtain ⟨setSignature, hst, read⟩ := Option.bind_eq_some_iff.1 read
  obtain ⟨typeParameters, htp, read⟩ := Option.bind_eq_some_iff.1 read
  obtain ⟨parameters, hps, read⟩ := Option.bind_eq_some_iff.1 read
  obtain ⟨main, ht, read⟩ := Option.bind_eq_some_iff.1 read
  obtain ⟨default, hd, read⟩ := Option.bind_eq_some_iff.1 read
  obtain ⟨defaultValue, hdv, read⟩ := Option.bind_eq_some_iff.1 read
  obtain ⟨overwrites, hov, read⟩ := Option.bind_eq_some_iff.1 read
  obtain ⟨inheritedFrom, hinh, read⟩ := Option.bind_eq_some_iff.1 read
  obtain ⟨implementationOf, him, read⟩ := Option.bind_eq_some_iff.1 read
  obtain ⟨categories, hcs, read⟩ := Option.bind_eq_some_iff.1 read
  obtain ⟨hasOwnDocument, -, read⟩ := Option.bind_eq_some_iff.1 read
  obtain rfl := Option.some.inj read
  obtain ⟨below, depth, fits⟩ := Json.exists_fits_of_record? fields
  obtain ⟨kindString, flags⟩ := depth_header_le fits hh
  have set : ∀ j ∈ if hasOwnDocument then some (Json.bool true) else none, j.depth ≤ below := by
    cases hasOwnDocument
    · exact nofun
    · exact holds (Nat.zero_le _)
  have flat {j : Json} (h : j.depth = 0) : ∀ i ∈ some j, i.depth ≤ below := holds (h ▸ Nat.zero_le _)
  rw [depth]
  simp only [WireReflection.toJson, reflectionsJson?_eq_map, reflectionJson?_eq_map, typeJson?_eq_map]
  exact depth_present_le ⟨flat rfl, flat rfl, flat rfl, kindString, flags, fits.optional reflections hc,
    fits.optional reflections hs, fits.optional reflection hi, fits.optional reflection hg,
    fits.optional reflection hst, fits.optional reflections htp, fits.optional reflections hps,
    fits.optional type ht, fits.optional type hd, fits.optional shrinks_string? hdv,
    fits.optional type hov, fits.optional type hinh, fits.optional type him,
    fits.optional (shrinks_categories? room) hcs, set, trivial⟩

/-- **What is read is not written deeper**: types, reflections and lists of reflections. -/
theorem shrinks_read (room : Nat) (inner : Bool) :
    Shrinks (readType room inner) WireType.toJson ∧
      Shrinks (readReflection room inner) WireReflection.toJson ∧
      Shrinks (readReflections room inner) fun rs => .array (rs.map WireReflection.toJson) := by
  induction room generalizing inner with
  | zero => exact ⟨fun _ _ => nofun, fun _ _ => nofun, fun _ _ => nofun⟩
  | succ room ih =>
      obtain ⟨types, reflection, reflections⟩ := ih inner
      refine ⟨fun json t read => ?_, fun json r read => ?_, reflection.items⟩
      · obtain ⟨⟨form, r⟩, tagged, fields⟩ := Option.bind_eq_some_iff.1 read
        obtain ⟨below, depth, fits⟩ := exists_fits_of_tagged? tagged
        rw [depth]
        -- what stands in a type is read as an inner part
        exact depth_readFields fits (ih true).1 (ih true).2.1 fields
      · exact depth_readReflection types reflection reflections read

end Wire

/-- **A document is not written deeper than it was read.** -/
theorem WireReflection.depth_toJson_le {r : WireReflection} (h : ofJson? room json = some r) :
    r.toJson.depth ≤ json.depth :=
  (shrinks_read room false).2.1 json r h

end ApiGraph
