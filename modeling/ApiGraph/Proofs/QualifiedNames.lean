import ApiGraph.Package
import ApiGraph.Proofs.Occurrences

/-!
# ApiGraph.Proofs.QualifiedNames

A fully qualified name loses exactly the quoted module in front of it. The end of the module is looked
for behind the opening quote, so the offset that is found is one byte short of its place in the whole
name; with the two bytes of the quote and the dot, the cut falls three bytes behind it.

* `withoutModule?_quoted` — the cut behind a quote and dot that the search finds.
* `exists_withoutModule?` — every name can be cut, and what is left is its end.
* `stripModuleName_exact` — which names are cut, and where.
-/

namespace ApiGraph

variable {front rest path name : List Char}

/-- A module's name that ends in a quote does not bring the end of the quotation forward. -/
theorem not_quoteDot_infix_concat (none : ¬ ['"', '.'] <:+: path) : ¬ ['"', '.'] <:+: path ++ ['"'] := by
  rw [List.infix_concat_iff, not_or]
  refine ⟨fun atEnd => ?_, none⟩
  obtain impossible | ⟨before, split, -⟩ := List.suffix_concat_iff.1 atEnd
  · cases impossible
  · have last : '.' = '"' := by simpa using congrArg List.getLast? split
    exact absurd last (by decide)

theorem fromByte?_quote (inner : List Char) : Text.fromByte? 1 ('"' :: inner) = some inner :=
  Text.fromByte?_append ['"'] inner

/-- The bytes of a quoted module, with the dot behind it. -/
theorem utf8ByteSize_quoted (front : List Char) :
    (String.ofList ('"' :: (front ++ ['"', '.']))).utf8ByteSize =
      (String.ofList front).utf8ByteSize + 3 := by
  have quote : '"'.utf8Size = 1 := rfl
  have quoteDot : (String.ofList ['"', '.']).utf8ByteSize = 2 := rfl
  rw [Text.utf8ByteSize_ofList_cons, String.ofList_append, String.utf8ByteSize_append, quote, quoteDot]
  omega

theorem fromByte?_quoted (front rest : List Char) :
    Text.fromByte? ((String.ofList front).utf8ByteSize + 3) ('"' :: (front ++ ['"', '.'] ++ rest)) =
      some rest := by
  rw [← utf8ByteSize_quoted]
  exact Text.fromByte?_append ('"' :: (front ++ ['"', '.'])) rest

/-! ### The name that is left -/

theorem withoutModule?_quoted
    (found : Text.findByte? ['"', '.'] (front ++ ['"', '.'] ++ rest) =
      some (String.ofList front).utf8ByteSize) :
    withoutModule? ('"' :: (front ++ ['"', '.'] ++ rest)) = some rest := by
  rw [withoutModule?, List.head?_cons, if_pos rfl, fromByte?_quote, Option.bind_eq_bind, Option.bind_some,
    found]
  exact fromByte?_quoted front rest

theorem withoutModule?_unquoted (other : name.head? ≠ some '"') : withoutModule? name = some name :=
  if_neg other

theorem withoutModule?_open (inner : List Char) (none : ¬ ['"', '.'] <:+: inner) :
    withoutModule? ('"' :: inner) = some ('"' :: inner) := by
  rw [withoutModule?, List.head?_cons, if_pos rfl, fromByte?_quote, Option.bind_eq_bind, Option.bind_some,
    Text.findByte?_eq_none_iff.2 none]

/-- Every name can be cut where the search says, and its end is left. -/
theorem exists_withoutModule? (name : List Char) :
    ∃ stripped, withoutModule? name = some stripped ∧ stripped <:+ name := by
  by_cases quoted : name.head? = some '"'
  · obtain ⟨inner, rfl⟩ := List.head?_eq_some_iff.1 quoted
    cases found : Text.findByte? ['"', '.'] inner with
    | none =>
      have none := withoutModule?_open inner (Text.findByte?_eq_none_iff.1 found)
      exact ⟨_, none, List.suffix_rfl⟩
    | some offset =>
      obtain ⟨front, rest, rfl, rfl⟩ := Text.exists_append_of_findByte? found
      refine ⟨rest, withoutModule?_quoted found, ?_⟩
      exact List.suffix_append ('"' :: (front ++ ['"', '.'])) rest
  · exact ⟨name, withoutModule?_unquoted quoted, List.suffix_rfl⟩

theorem toList_stripModuleName {name : String} {stripped : List Char}
    (h : withoutModule? name.toList = some stripped) : (stripModuleName name).toList = stripped := by
  rw [stripModuleName, h, Option.getD_some, String.toList_ofList]

/-- The places at which a quoted name is cut are positions in it. -/
theorem isValid_cuts {name : String} (quoted : name.toList.head? = some '"') :
    (⟨1⟩ : String.Pos.Raw).IsValid name ∧
      ∀ offset, Text.findByte? ['"', '.'] name.toList.tail = some offset →
        (⟨offset + 3⟩ : String.Pos.Raw).IsValid name := by
  obtain ⟨inner, text⟩ := List.head?_eq_some_iff.1 quoted
  simp only [← Text.isSome_fromByte?_iff, text, List.tail_cons]
  refine ⟨by rw [fromByte?_quote]; rfl, fun offset found => ?_⟩
  obtain ⟨front, rest, rfl, rfl⟩ := Text.exists_append_of_findByte? found
  rw [fromByte?_quoted]
  rfl

/-- A module's name in quotes, with the dot behind them, is taken away up to the first such dot; a name
without such a front stays as it is. The text is cut at positions in it, whatever characters it has, and
what is left is its end. -/
theorem stripModuleName_exact :
    (∀ path name : String, ¬ ['"', '.'] <:+: path.toList →
      stripModuleName ("\"" ++ path ++ "\"." ++ name) = name) ∧
    (∀ name : String, name.toList.head? ≠ some '"' ∨ ¬ ['"', '.'] <:+: name.toList.tail →
      stripModuleName name = name) ∧
    (∀ name : String, name.toList.head? = some '"' →
      (⟨1⟩ : String.Pos.Raw).IsValid name ∧
      ∀ offset, Text.findByte? ['"', '.'] name.toList.tail = some offset →
        (⟨offset + 3⟩ : String.Pos.Raw).IsValid name) ∧
    ∀ name : String, withoutModule? name.toList = some (stripModuleName name).toList ∧
      (stripModuleName name).toList <:+ name.toList := by
  refine ⟨fun path name none => ?_, fun name plain => ?_, fun name => isValid_cuts, fun name => ?_⟩
  · have found : Text.findByte? ['"', '.'] (path.toList ++ ['"', '.'] ++ name.toList) =
        some (String.ofList path.toList).utf8ByteSize :=
      Text.findByte?_append (by simp) (not_quoteDot_infix_concat none)
    have text : ("\"" ++ path ++ "\"." ++ name).toList =
        '"' :: (path.toList ++ ['"', '.'] ++ name.toList) := by simp
    rw [← String.toList_inj, toList_stripModuleName]
    rw [text, withoutModule?_quoted found]
  · rw [← String.toList_inj, toList_stripModuleName]
    by_cases quoted : name.toList.head? = some '"'
    · obtain ⟨inner, text⟩ := List.head?_eq_some_iff.1 quoted
      rw [text] at plain ⊢
      exact withoutModule?_open inner (plain.resolve_left (by simp))
    · exact withoutModule?_unquoted quoted
  · obtain ⟨stripped, cut, suffix⟩ := exists_withoutModule? name.toList
    rw [toList_stripModuleName cut]
    exact ⟨cut, suffix⟩

/-- The quotation ends at the second of two quotes, behind characters of more than one byte. -/
theorem stripModuleName_twoQuotes :
    stripModuleName ("\"" ++ "/dépôt/x\"" ++ "\"." ++ "Façade.β") = "Façade.β" ∧
      stripModuleName "Foo\".Bar" = "Foo\".Bar" ∧ stripModuleName "\"Foo.Bar" = "\"Foo.Bar" ∧
      (⟨1⟩ : String.Pos.Raw).IsValid "\"é\".β" ∧ (⟨5⟩ : String.Pos.Raw).IsValid "\"é\".β" := by
  obtain ⟨quoted, plain, cuts, -⟩ := stripModuleName_exact
  refine ⟨quoted "/dépôt/x\"" "Façade.β" (by decide), plain "Foo\".Bar" (.inl (by decide)),
    plain "\"Foo.Bar" (.inr (by decide)), (cuts "\"é\".β" (by decide)).1, ?_⟩
  exact (cuts "\"é\".β" (by decide)).2 2 (by decide)

end ApiGraph
