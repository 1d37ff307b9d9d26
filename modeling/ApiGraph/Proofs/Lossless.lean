import ApiGraph.Proofs.Spelling

/-!
# ApiGraph.Proofs.Lossless

The codec loses nothing: a document is what its tree, its compact text and its pretty text are read
as. The texts are limited to what their reader takes on: nesting below its bound, and numbers that are
integers.

* `Json.parse?_eq_some` — a proper tree is kept as it is.
* `WireReflection.lossless` — a document comes back from its tree and from both texts.
-/

namespace ApiGraph

namespace Json

/-- A text that is read as a proper tree is also parsed as the tree, if nesting is bounded. -/
theorem parse?_eq_some {text : String} {j : Json} (read : ofText? text = some j) (proper : j.IsProper)
    (shallow : j.depth ≤ maxDepth) : parse? text = some j := by
  have fits := fits_iff.2 ⟨hasValue_of_isProper j proper, shallow⟩
  rw [parse?, read]
  simp [fits, lastWins_of_keysOnce (keysOnce_of_isProper proper)]

end Json

/-- **The codec is lossless.** The tree of a document is read as the document; and if it nests fewer
than 128 arrays and objects and its numbers are integers, then the compact and the pretty text are
parsed as the tree and read as the document. -/
theorem WireReflection.lossless (r : WireReflection) (h : r.IsRepresentable) :
    WireReflection.ofJson? r.toJson.depth r.toJson = some r ∧
      (r.toJson.isWhole = true → r.toJson.depth < 128 →
        ∀ text ∈ [r.toJson.compact, r.toJson.pretty], Json.parse? text = some r.toJson ∧
          (Json.ofText? text).bind (WireReflection.ofJson? Json.maxDepth) = some r) := by
  refine ⟨r.ofJson?_toJson h, fun whole shallow text mem => ?_⟩
  have proper := r.isProper_toJson h
  have below : r.toJson.depth ≤ Json.maxDepth := Nat.le_of_lt_succ shallow
  have fits := Json.fits_iff.2 ⟨Json.hasValue_of_isProper r.toJson proper, below⟩
  have read := Json.ofText?_of_isWhole whole mem
  rw [read]
  exact ⟨Json.parse?_eq_some read proper below, r.read_toJson Json.maxDepth false h fits⟩

/-- A document with one variable, whose type is a union of literals of every kind. -/
def literalsDocument : WireReflection :=
  let union := WireType.union [.literal .null, .literal (.bool true),
    .literal (.number (.integer (-1))), .literal (.string "naïve \"quote\"\n"),
    .literal (.bigInt "42" true)]
  .mk { id := 0, name := "library", kind := 1 }
    (some [.mk { id := 1, name := "options", kind := 32, flags := { isConst := true } } none none none
      none none none none (some (.array union)) none none none none none none false])
    none none none none none none none none none none none none
    (some [{ title := "Other", children := some [1] }]) false

theorem lossless_literalsDocument :
    (Json.ofText? literalsDocument.toJson.compact).bind (WireReflection.ofJson? Json.maxDepth) =
        some literalsDocument ∧
      (Json.ofText? literalsDocument.toJson.pretty).bind (WireReflection.ofJson? Json.maxDepth) =
        some literalsDocument := by
  have representable : literalsDocument.IsRepresentable := by
    simp [literalsDocument, WireReflection.IsRepresentable, WireReflection.Everywhere,
      EverywhereReflections?, EverywhereReflections, EverywhereReflection?, EverywhereType?,
      WireType.Everywhere, EverywhereTypes, WireReflection.InRange, WireType.InRange, IsId,
      CategoriesInRange, Numeral.IsRepresentable]
  have whole : literalsDocument.toJson.isWhole = true := by decide
  have shallow : literalsDocument.toJson.depth < 128 := by decide
  have texts := (literalsDocument.lossless representable).2 whole shallow
  exact ⟨(texts _ List.mem_cons_self).2, (texts _ (List.mem_cons_of_mem _ List.mem_cons_self)).2⟩

end ApiGraph
