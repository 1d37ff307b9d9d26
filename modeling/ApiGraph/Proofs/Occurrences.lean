import ApiGraph.Text
import Mathlib.Data.List.Infix

/-!
# ApiGraph.Proofs.Occurrences

Searches for a word find its first occurrence, and an offset in bytes says how much of the text stands
in front of it.

* `after?_eq_some_iff`, `after?_eq_none_iff` — a word at the front.
* `afterFirst?_eq_none_iff` — a word that does not occur.
* `findByte?_append`, `findByte?_eq_none_iff` — the first occurrence of a word, told by its offset.
* `exists_append_of_findByte?` — what stands at an offset that was found.
* `fromByte?_eq_some_iff` — a text cut behind some of its characters.
* `isSome_fromByte?_iff` — a text can be cut exactly at the valid positions.
-/

namespace ApiGraph.Text

variable {word cs front rest : List Char} {offset : Nat}

/-! ### A word at the front -/

theorem after?_append (word cs : List Char) : after? word (word ++ cs) = some cs := by
  induction word with
  | nil => rfl
  | cons c word ih => exact (if_pos rfl).trans ih

theorem after?_eq_some_iff : after? word cs = some rest ↔ cs = word ++ rest := by
  constructor
  · intro found
    induction word generalizing cs with
    | nil => exact Option.some.inj found
    | cons w word ih =>
      cases cs with
      | nil => cases found
      | cons c cs =>
        rw [after?] at found
        split_ifs at found with same
        rw [same, ih found, List.cons_append]
  · rintro rfl
    exact after?_append word rest

theorem after?_eq_none_iff : after? word cs = none ↔ ¬ word <+: cs := by
  rw [Option.eq_none_iff_forall_ne_some]
  simp only [ne_eq, after?_eq_some_iff, List.prefix_iff_exists_eq_append, not_exists]

/-! ### The first occurrence of a word -/

theorem utf8ByteSize_ofList_cons (c : Char) (cs : List Char) :
    (String.ofList (c :: cs)).utf8ByteSize = c.utf8Size + (String.ofList cs).utf8ByteSize := by
  rw [String.ofList_cons, String.utf8ByteSize_append, String.utf8ByteSize_singleton]

/-- The offset that is found is the number of bytes in front of the word, if the word does not begin
earlier. An earlier occurrence could reach into the later one, though not over its last character. -/
theorem findByte?_append (nonEmpty : word ≠ []) (first : ¬ word <:+: front ++ word.dropLast) :
    findByte? word (front ++ word ++ rest) = some (String.ofList front).utf8ByteSize := by
  induction front with
  | nil =>
    obtain ⟨w, others, rfl⟩ := List.exists_cons_of_ne_nil nonEmpty
    have here : after? (w :: others) (w :: (others ++ rest)) = some rest := after?_append ..
    simp [findByte?, here]
  | cons c front ih =>
    have notHere : after? word (c :: (front ++ word ++ rest)) = none := by
      rw [after?_eq_none_iff]
      intro here
      have early : c :: front ++ word.dropLast <+: c :: (front ++ word ++ rest) := by
        simpa using word.dropLast_prefix.trans (word.prefix_append rest)
      have short : word.length ≤ (c :: front ++ word.dropLast).length := by
        simp only [List.cons_append, List.length_cons, List.length_append, List.length_dropLast]
        omega
      exact first (List.prefix_of_prefix_length_le here early short).isInfix
    have later : ¬ word <:+: front ++ word.dropLast := fun occurs =>
      first (occurs.trans (List.suffix_cons c _).isInfix)
    rw [utf8ByteSize_ofList_cons, List.cons_append, List.cons_append, findByte?, notHere]
    exact congrArg (Option.map _) (ih later)

theorem afterFirst?_eq_none_iff : afterFirst? word cs = none ↔ ¬ word <:+: cs := by
  induction cs with
  | nil => simp [afterFirst?, after?_eq_none_iff]
  | cons c cs ih =>
    rw [List.infix_cons_iff, not_or, ← ih, ← after?_eq_none_iff, afterFirst?]
    cases after? word (c :: cs) <;> simp

theorem findByte?_eq_none_iff : findByte? word cs = none ↔ ¬ word <:+: cs := by
  induction cs with
  | nil => simp [findByte?, after?_eq_none_iff]
  | cons c cs ih =>
    rw [List.infix_cons_iff, not_or, ← ih, ← after?_eq_none_iff, findByte?]
    cases after? word (c :: cs) <;> simp

/-- The word stands behind as many bytes as the offset says. -/
theorem exists_append_of_findByte? (found : findByte? word cs = some offset) :
    ∃ front rest, cs = front ++ word ++ rest ∧ (String.ofList front).utf8ByteSize = offset := by
  induction cs generalizing offset with
  | nil =>
    obtain ⟨rest, here, rfl⟩ := Option.map_eq_some_iff.1 found
    exact ⟨[], rest, after?_eq_some_iff.1 here, by simp⟩
  | cons c cs ih =>
    rw [findByte?] at found
    split at found
    next rest here =>
      exact ⟨[], rest, after?_eq_some_iff.1 here, by simpa using Option.some.inj found⟩
    next =>
      obtain ⟨later, occurs, rfl⟩ := Option.map_eq_some_iff.1 found
      obtain ⟨front, rest, rfl, rfl⟩ := ih occurs
      exact ⟨c :: front, rest, by simp, utf8ByteSize_ofList_cons c front⟩

/-! ### A text cut at an offset -/

theorem fromByte?_append (front rest : List Char) :
    fromByte? (String.ofList front).utf8ByteSize (front ++ rest) = some rest := by
  induction front with
  | nil => simp [fromByte?]
  | cons c front ih =>
    obtain ⟨more, size⟩ : ∃ more, c.utf8Size + (String.ofList front).utf8ByteSize = more + 1 :=
      Nat.exists_eq_succ_of_ne_zero (by have := c.utf8Size_pos; omega)
    have left : more + 1 - c.utf8Size = (String.ofList front).utf8ByteSize := by omega
    rw [utf8ByteSize_ofList_cons, size, List.cons_append, fromByte?, if_pos (by omega), left, ih]

theorem fromByte?_eq_some_iff :
    fromByte? offset cs = some rest ↔
      ∃ front, cs = front ++ rest ∧ (String.ofList front).utf8ByteSize = offset := by
  constructor
  · intro cut
    induction cs generalizing offset with
    | nil =>
      cases offset with
      | zero => exact ⟨[], Option.some.inj cut, by simp⟩
      | succ offset => cases cut
    | cons c cs ih =>
      cases offset with
      | zero => exact ⟨[], Option.some.inj cut, by simp⟩
      | succ offset =>
        rw [fromByte?] at cut
        split_ifs at cut with fits
        obtain ⟨front, rfl, size⟩ := ih cut
        refine ⟨c :: front, rfl, ?_⟩
        rw [utf8ByteSize_ofList_cons, size]
        omega
  · rintro ⟨front, rfl, rfl⟩
    exact fromByte?_append front rest

/-- The offsets at which a text can be cut are the positions between its characters and at its ends. -/
theorem isSome_fromByte?_iff {text : String} :
    (fromByte? offset text.toList).isSome ↔ (⟨offset⟩ : String.Pos.Raw).IsValid text := by
  simp only [Option.isSome_iff_exists, fromByte?_eq_some_iff, String.Pos.Raw.isValid_iff_exists_append]
  constructor
  · rintro ⟨rest, front, split, size⟩
    refine ⟨String.ofList front, String.ofList rest, ?_, ?_⟩
    · rw [← String.ofList_append, ← split, String.ofList_toList]
    · rw [String.Pos.Raw.ext_iff, String.byteIdx_rawEndPos, size]
  · rintro ⟨front, rest, rfl, size⟩
    refine ⟨rest.toList, front.toList, String.toList_append, ?_⟩
    rw [String.ofList_toList, ← String.byteIdx_rawEndPos, ← size]

end ApiGraph.Text
