import ApiGraph.CommandLine.Run
import ApiGraph.Proofs.Lossless
import ApiGraph.Proofs.Merged
import ApiGraph.Proofs.NumberForms
import ApiGraph.Proofs.Representable
import ApiGraph.Proofs.Trim
import ApiGraph.Proofs.WrittenDepths

/-!
# ApiGraph.Proofs.Canonical

Writing what was read. Reading a document loses what the project does not hold: parts outside the
slots of a role, names of links that are only half given, unknown ids, category members that are not
yet registered. It loses nothing twice: the document that is written afterwards is read and written
without change. A text can still lose something, since a double is not always read as itself.

* `WireReflection.isStable_project` — what is read is stable.
* `Project.IsStable.check_toJson` — the tree of a stable project passes the check.
* `Project.IsStable.check_text_iff` — so does its text, exactly if every number survives.
* `canonical` — the document that is written from what is read is a fixed point, and trim.
* `check_reencodedFraction` — a number that does not survive.
-/

namespace ApiGraph

/-! ### Category members -/

theorem hasMembers_readCategories (known : Id → Bool) (cs : Option (List WireCategory)) :
    HasMembers known (readCategories known cs) := by
  intro c mem id child
  obtain ⟨c', -, rfl⟩ := List.mem_map.1 mem
  exact (List.mem_filter.1 child).2

/-- A reflection keeps only members that were known. -/
theorem WireReflection.hasMembers_body (known : Id → Bool) (role : Role) (r : WireReflection) :
    HasMembers known (r.body known role).categories := by
  cases r
  cases role with
  | declaration => exact hasMembers_readCategories known _
  | _ => exact nofun

namespace WireReflection

variable {root : WireReflection}

/-! ### What is read -/

/-- The members of a category were registered before the declaration. -/
theorem ordersMembers_project (h : root.IsProject) :
    root.project.OrdersMembers (root.rootPlacements.map Placement.position) := by
  intro pre q post r split found c mem id child
  obtain ⟨pre', rest, parts, rfl, tail⟩ := List.map_eq_append_iff.1 split
  obtain ⟨x, post', rfl, rfl, rfl⟩ := List.map_eq_cons_iff.1 tail
  have here := get?_project h parts
  obtain rfl : r = _ := Option.some.inj (found.symm.trans here)
  have known := hasMembers_body _ _ _ c mem id child
  have nothing : root.start.project.contains id ≠ true := Bool.false_ne_true
  rw [List.map_map]
  exact (or_iff_right nothing).1 (Decoding.contains_fill.1 known)

/-- What is read from a document is stable, unless a union has two or more of both `true` and
`false`. -/
theorem isStable_project (h : root.IsProject) (few : ∀ part ∈ root.rootParts, part.HasFewBools) :
    root.project.IsStable (root.rootPlacements.map Placement.position) where
  order := isOrder_project h
  admissible := isAdmissible_project h
  merged id r found := by
    obtain ⟨pre, q, post, split, rfl, rfl⟩ := exists_of_get?_project h found
    have mem : q ∈ root.rootPlacements := by rw [split]; simp
    have merges := merges_reflections? .declaration none root.rootReflections
    exact (merges fun part inside => ⟨h.valid part inside, few part inside⟩).2 q mem _
  members := ordersMembers_project h
  categories := hasMembers_readCategories _ _

end WireReflection

/-! ### The check -/

/-- A tree passes the check exactly if it is read as a document, and what is written of that equals the
tree. -/
theorem Json.check_eq_unchanged_iff {json : Json} {config : Config} {path : String} :
    (json.check config path).result = .ok (.unchanged path) ↔
      ∃ w q document, WireReflection.ofJson? json.depth json = some w ∧ Project.ofWire w = .ok q ∧
        q.toWire config = .ok document ∧ document.toJson.same json = true := by
  unfold Json.check Project.ofJson
  cases read : WireReflection.ofJson? json.depth json with
  | none => simp
  | some w =>
      cases decoded : Project.ofWire w with
      | error e => simp [decoded]
      | ok q =>
          cases written : q.toWire config with
          | error e =>
              simp [decoded, written, Project.toJson, Except.map, Except.mapError, bind, Except.bind]
          | ok document =>
              simp only [decoded, written, Project.toJson, Except.map, Except.mapError, bind, Except.bind]
              by_cases same : document.toJson.same json = true
              · simp [same, decoded, written, pure, Except.pure]
              · simp [same, decoded, written, throw, throwThe, MonadExceptOf.throw]

/-- The tree of a stable project passes the check. -/
theorem Project.IsStable.check_toJson {p : Project} {l : List Position} (h : p.IsStable l) (config : Config)
    (path : String) :
    ((p.rootDocument config).toJson.check config path).result = .ok (.unchanged path) := by
  have representable := h.isRepresentable_rootDocument config
  have isProject := h.order.isProject_rootDocument h.admissible config
  have order := h.order.isOrder_reread h.admissible config
  refine Json.check_eq_unchanged_iff.2 ⟨p.rootDocument config, p.reread config, p.rootDocument config,
    WireReflection.ofJson?_toJson _ representable, ofWire_eq_ok_iff.2 ⟨isProject, rfl⟩, ?_, ?_⟩
  · rw [order.toWire_eq, h.rootDocument_reread]
  · exact Json.same_self _ (WireReflection.isProper_toJson _ representable)

/-- What a tree that passes the check holds keeps its form. -/
theorem Json.keepsForm_of_check {json : Json} {config : Config} {path : String} (once : json.KeysOnce)
    (passes : (json.check config path).result = .ok (.unchanged path)) :
    ∀ n ∈ json.numbers, n.KeepsForm := by
  obtain ⟨w, q, document, -, decoded, written, same⟩ := check_eq_unchanged_iff.1 passes
  obtain ⟨isProject, rfl⟩ := ofWire_eq_ok_iff.1 decoded
  have order := WireReflection.isOrder_project isProject
  obtain rfl := Except.ok.inj (written.symm.trans (order.toWire_eq config))
  have representable := order.isRepresentable_rootDocument (WireReflection.isAdmissible_project isProject)
    (WireReflection.ordersMembers_project isProject) (hasMembers_readCategories _ _) config
  have once' := keysOnce_of_isProper (WireReflection.isProper_toJson _ representable)
  intro n mem
  obtain ⟨m, there, equal⟩ := exists_same_of_same once' once same n mem
  exact (order.keepsForm_toJson config m there).of_same equal

/-! ### Files -/

/-- A file in which too much is nested is not read. -/
theorem Contents.depth_json_le {files : Contents} {path : String} {json : Json}
    (h : files.json path = .ok json) : json.depth ≤ Json.maxDepth := by
  unfold Contents.json at h
  split at h
  · cases h
  · next text _ =>
    cases parsed : Json.parse? text with
    | none => simp [parsed] at h
    | some j =>
        obtain rfl : j = json := by simpa [parsed] using h
        exact Json.depth_parse?_le parsed

namespace Project.IsStable

variable {p : Project} {l : List Position} {config : Config}

theorem isProper_toJson (h : p.IsStable l) (config : Config) : (p.rootDocument config).toJson.IsProper :=
  WireReflection.isProper_toJson _ (h.isRepresentable_rootDocument config)

/-- Where every number survives, the text is read as the tree of a stable project again. -/
theorem exists_reread (h : p.IsStable l)
    (survives : ∀ n ∈ (p.rootDocument config).toJson.numbers, n.Survives) :
    ∃ p' : Project, p'.IsStable l ∧
      (p'.rootDocument config).toJson = (p.rootDocument config).toJson.mapNumbers Numeral.reread := by
  obtain ⟨g, f, mirrors, same⟩ :=
    exists_mirrors (h.isProper_toJson config) (h.order.keepsForm_toJson config) survives
  exact ⟨p.renumber g, h.renumber, (h.order.toJson_renumber mirrors config).trans same⟩

/-- **A written file passes the check exactly if every number survives**, unless it nests too deep to be
read at all. -/
theorem check_text_iff (h : p.IsStable l) (shallow : (p.rootDocument config).toJson.depth ≤ Json.maxDepth)
    {text : String}
    (mem : text ∈ [(p.rootDocument config).toJson.compact, (p.rootDocument config).toJson.pretty])
    {files : Contents} {path : String} (there : files path = some text) :
    ((Task.check path).run files config).result = .ok (.unchanged path) ↔
      ∀ n ∈ (p.rootDocument config).toJson.numbers, n.Survives := by
  have proper := h.isProper_toJson config
  have read := Json.ofText?_eq (Json.hasValue_of_isProper _ proper) mem
  have once := Json.keysOnce_mapNumbers (fun n => n.flat_reread.2) (Json.keysOnce_of_isProper proper)
  have depth := Json.depth_mapNumbers (fun n => n.flat_reread.1) (p.rootDocument config).toJson
  have whole : (∀ n ∈ (p.rootDocument config).toJson.numbers, n.Survives) →
      ((p.rootDocument config).toJson.mapNumbers Numeral.reread).hasValue = true := by
    intro survives
    obtain ⟨p', stable, same⟩ := h.exists_reread survives
    exact same ▸ Json.hasValue_of_isProper _ (stable.isProper_toJson config)
  cases value : ((p.rootDocument config).toJson.mapNumbers Numeral.reread).hasValue with
  | false =>
      -- a number without a value: the file is not read
      have refused : files.json path = .error (.parse path) := by
        rw [Contents.json, there]
        simp [Json.parse?, read, Json.fits, value]
      have fails : (.error (.parse path) : Except Failure Product) ≠ .ok (.unchanged path) :=
        fun same => by cases same
      rw [Task.run, refused]
      exact iff_of_false fails fun survives => absurd (whole survives) (value ▸ Bool.false_ne_true)
  | true =>
      have parsed : files.json path = .ok ((p.rootDocument config).toJson.mapNumbers Numeral.reread) := by
        rw [Contents.json, there]
        simp [Json.parse?, read, Json.fits, value, depth, shallow, Json.lastWins_of_keysOnce once]
      rw [Task.run, parsed]
      constructor
      · intro passes n mem
        have finite := (h.order.keepsForm_toJson config n mem).isFinite
        obtain ⟨m, reads, same⟩ :=
          Numeral.exists_of_hasValue_reread finite (Json.hasValue_of_mapNumbers value n mem)
        refine ⟨m, reads, Json.keepsForm_of_check once passes m ?_⟩
        rw [Json.numbers_mapNumbers]
        exact List.mem_flatMap.2 ⟨n, mem, by simp [same, Json.numbers]⟩
      · intro survives
        obtain ⟨p', stable, same⟩ := h.exists_reread survives
        rw [← same]
        exact stable.check_toJson config path

end Project.IsStable

/-- **Reading and writing a document gives a canonical one**: it is trim, it is read again, reading and
writing it changes nothing, and its tree passes the check. In a file, where doubles are read from their
text, it passes the check exactly if every number survives, as the numbers of a whole tree do. -/
theorem canonical (root : WireReflection) (p : Project) (config : Config)
    (decoded : Project.ofWire root = .ok p) (few : ∀ part ∈ root.rootParts, part.HasFewBools) :
    ∃ document q, p.toWire config = .ok document ∧ Project.ofWire document = .ok q ∧
      q.toWire config = .ok document ∧ document.IsTrim ∧
      (∀ path, (document.toJson.check config path).result = .ok (.unchanged path)) ∧
      (∀ (before : Contents) (input output : String) (json : Json), before.json input = .ok json →
        WireReflection.ofJson? json.depth json = some root →
        ∃ text, ((Task.reencode input output).run before config).result = .ok (.document output text) ∧
          ∀ after : Contents, after output = some text →
            (((Task.check output).run after config).result = .ok (.unchanged output) ↔
              ∀ n ∈ document.toJson.numbers, n.Survives)) ∧
      (document.toJson.isWhole = true → ∀ n ∈ document.toJson.numbers, n.Survives) := by
  obtain ⟨isProject, rfl⟩ := ofWire_eq_ok_iff.1 decoded
  have stable := WireReflection.isStable_project isProject few
  have again := stable.order.isProject_rootDocument stable.admissible config
  have order' := stable.order.isOrder_reread stable.admissible config
  have written := stable.order.toWire_eq config
  have rewritten : (root.project.reread config).toWire config =
      .ok (root.project.rootDocument config) := by
    rw [order'.toWire_eq, stable.rootDocument_reread]
  refine ⟨root.project.rootDocument config, root.project.reread config, written,
    ofWire_eq_ok_iff.2 ⟨again, rfl⟩, rewritten, stable.order.isTrim_rootDocument config,
    stable.check_toJson config, fun before input output json holds read => ?_, Json.survives_of_isWhole _⟩
  refine ⟨if config.pretty then (root.project.rootDocument config).toJson.pretty
    else (root.project.rootDocument config).toJson.compact, ?_, fun after there => ?_⟩
  · simp [Task.run, Contents.withProject, holds, Project.ofJson, read, decoded, Project.toText,
      Project.toJson, written, Except.map, Except.mapError]
  · have parsed : json.depth ≤ Json.maxDepth := Contents.depth_json_le holds
    have shallow : (root.project.rootDocument config).toJson.depth ≤ Json.maxDepth :=
      (WireReflection.depth_rootDocument_le isProject config).trans
        ((WireReflection.depth_toJson_le read).trans parsed)
    refine stable.check_text_iff shallow ?_ there
    split <;> simp

/-- A document of one variable, whose type is a number. -/
def numberDocument (n : Numeral) : WireReflection :=
  .mk { id := 0, name := "", kind := 0 }
    (some [.mk { id := 1, name := "", kind := 0x20 } none none none none none none none
      (some (.literal (.number n))) none none none none none none false])
    none none none none none none none none none none none none none false

/-- The text of such a document, given the text of the number. -/
def numberText (number : String) : String :=
  "\x7b\"id\":0,\"name\":\"\",\"kind\":0,\"children\":[\x7b\"id\":1,\"name\":\"\",\"kind\":32," ++
    "\"type\":\x7b\"type\":\"literal\",\"value\":" ++ number ++ "\x7d\x7d]\x7d"

/-- One file, and no other. -/
def Contents.only (path text : String) : Contents :=
  fun other => if other = path then some text else none

/-- What is written of a whole number is found unchanged. -/
theorem canonical_wholeNumber : ∃ text,
    ((Task.reencode "in.json" "out.json").run (.only "in.json" (numberText "1")) {}).result =
        .ok (.document "out.json" text) ∧
      ((Task.check "out.json").run (.only "out.json" text) {}).result = .ok (.unchanged "out.json") := by
  let root := numberDocument (.integer 1)
  have decoded : Project.ofWire root = .ok root.project := rfl
  have few : ∀ part ∈ root.rootParts, part.HasFewBools := by decide
  have representable : root.IsRepresentable := by
    simp [root, numberDocument, WireReflection.IsRepresentable, WireReflection.Everywhere,
      EverywhereReflections?, EverywhereReflections, EverywhereReflection?, EverywhereType?,
      WireType.Everywhere, WireReflection.InRange, WireType.InRange, IsId, CategoriesInRange,
      Numeral.IsRepresentable]
  have holds : (Contents.only "in.json" (numberText "1")).json "in.json" = .ok root.toJson := by
    have text : numberText "1" = root.toJson.compact := by decide +kernel
    have parsed := Json.parse?_eq_some (Json.ofText?_of_isWhole (by decide) List.mem_cons_self)
      (root.isProper_toJson representable) (by decide)
    simp [Contents.json, Contents.only, text, parsed]
  obtain ⟨document, -, written, -, -, -, -, files, whole⟩ := canonical root root.project {} decoded few
  obtain ⟨text, reencoded, checked⟩ :=
    files _ "in.json" "out.json" _ holds (root.ofJson?_toJson representable)
  refine ⟨text, reencoded, (checked (.only "out.json" text) (if_pos rfl)).2 (whole ?_)⟩
  obtain rfl := Except.ok.inj (written.symm.trans rfl)
  decide

/-- **A fraction that does not survive**: the text of the double before 1 is read as 1, so what is written
of it is found to differ. -/
theorem check_reencodedFraction :
    let config : Config := { pretty := false, kindStrings := false }
    let before := numberText "0.99999999999999989"
    let after := numberText "0.9999999999999999"
    (∃ json ∈ Json.parse? before, ∃ root ∈ WireReflection.ofJson? json.depth json,
        ∀ part ∈ root.rootParts, part.HasFewBools) ∧
      ((Task.reencode "in.json" "out.json").run (.only "in.json" before) config).result =
        .ok (.document "out.json" after) ∧
      ((Task.check "out.json").run (.only "out.json" after) config).result =
        .error (.differs "out.json") := by
  decide +kernel

end ApiGraph
