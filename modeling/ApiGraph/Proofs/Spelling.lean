import ApiGraph.Proofs.Codec
import ApiGraph.Proofs.NumberText
import ApiGraph.Proofs.TreeNumbers

/-!
# ApiGraph.Proofs.Spelling

JSON text and its reader. The compact and the pretty text differ in blanks only, so both are one text
with **spacing** as a parameter, and whatever blanks stand between the tokens, the reader gives the tree
back but for its numbers, each of which is what its own text is read as. A number comes back if it is an
integer; a double need not.

* `Json.readString?_quoted` — strings are read as they are written, whatever follows.
* `Json.Spacing`, `Json.spaced` — one printer, of which `compact` and `pretty` are cases.
* `Numeral.reread`, `Json.ofText?_eq` — what both texts are read as.
* `Json.isWhole` — the trees whose numbers are integers.
* `Json.ofText?_of_isWhole` — both texts of such a tree are read as the tree.
-/

namespace ApiGraph

/-- What the text of a number is read as. A double without a text of its own is written as null. -/
def Numeral.reread (n : Numeral) : Json :=
  if n.isFinite then n.reread?.elim .valueless .number else .null

namespace Numeral

/-- It is a number, or null, or it has no value. -/
theorem reread_cases (n : Numeral) : (∃ m, n.reread? = some m ∧ n.reread = .number m) ∨
    (n.isFinite = false ∧ n.reread = .null) ∨ n.reread = .valueless := by
  unfold reread
  cases n.isFinite with
  | false => exact .inr (.inl ⟨rfl, rfl⟩)
  | true =>
      cases n.reread? with
      | none => exact .inr (.inr rfl)
      | some m => exact .inl ⟨m, rfl, rfl⟩

/-- It is flat. -/
theorem flat_reread (n : Numeral) : n.reread.depth = 0 ∧ n.reread.KeysOnce := by
  rcases n.reread_cases with ⟨m, -, same⟩ | ⟨-, same⟩ | same
  all_goals
    rw [same]
    exact ⟨rfl, trivial⟩

/-- A finite number whose text has a value is read as a number. -/
theorem exists_of_hasValue_reread {n : Numeral} (finite : n.isFinite = true)
    (value : n.reread.hasValue = true) : ∃ m, n.reread? = some m ∧ n.reread = .number m := by
  rcases n.reread_cases with read | ⟨infinite, -⟩ | same
  · exact read
  · exact absurd (infinite.symm.trans finite) Bool.false_ne_true
  · rw [same] at value
    cases value

end Numeral

theorem Numeral.text_of_not_isFinite {n : Numeral} (infinite : ¬n.isFinite = true) :
    n.text = ['n', 'u', 'l', 'l'] := by
  cases n with
  | integer _ => exact absurd rfl infinite
  | double x => exact if_neg infinite

namespace Json

/-! ### Blanks -/

/-- Whether only blanks stand in a text. -/
abbrev Blank (ws : List Char) : Prop :=
  ∀ c ∈ ws, isBlank c = true

theorem skipBlanks_append {ws : List Char} (blank : Blank ws) (cs : List Char) :
    skipBlanks (ws ++ cs) = skipBlanks cs :=
  List.dropWhile_append_of_pos blank

theorem skipBlanks_cons {c : Char} (token : isBlank c = false) (cs : List Char) :
    skipBlanks (c :: cs) = c :: cs := by
  simp [skipBlanks, token]

/-- Blanks in front end a value if what stands behind them does. -/
theorem Ends.append {ws cs : List Char} (blank : Blank ws) (ends : Ends cs) : Ends (ws ++ cs) := by
  cases ws with
  | nil => exact ends
  | cons w ws =>
      intro c head
      obtain rfl : w = c := Option.some.inj head
      exact .inl (blank w List.mem_cons_self)

/-! ### Strings -/

namespace Quoted

theorem hexDigit?_digitChar : ∀ d < 16, hexDigit? d.digitChar = some d := by
  decide

/-- Four hexadecimal digits denote the unit that they were written for. -/
theorem scanBody_hex4 {n : Nat} (small : n < 65536) (rest : List Char) :
    scanBody ('\\' :: 'u' :: (hex4 n ++ rest)) =
      (scanBody rest).map fun (pieces, rest) => (.unit n :: pieces, rest) := by
  have value : ((n / 4096 % 16 * 16 + n / 256 % 16) * 256 + (n / 16 % 16 * 16 + n % 16)) = n := by
    omega
  have digit (m : Nat) := hexDigit?_digitChar (m % 16) (Nat.mod_lt m (by decide))
  have read : unit? (n / 4096 % 16).digitChar (n / 256 % 16).digitChar (n / 16 % 16).digitChar
      (n % 16).digitChar = some n := by
    simp only [unit?, digit, value, bind, Option.bind_some, pure]
  simp [hex4, scanBody, read, Option.map_eq_bind]

/-- The piece that a written character is read as. -/
def piece (c : Char) : Piece :=
  if c.toNat < 32 ∧ c.toNat ∉ [8, 9, 10, 12, 13] then .unit c.toNat else .plain c

theorem char_eq {c : Char} {n : Nat} (h : c.toNat = n) : c = Char.ofNat n :=
  h ▸ (Char.ofNat_toNat c).symm

/-- A character is read as its piece, however it is escaped. -/
theorem scanBody_escape (c : Char) (rest : List Char) :
    scanBody (escape c ++ rest) =
      (scanBody rest).map fun (pieces, rest) => (piece c :: pieces, rest) := by
  fun_cases escape c
  case case1 same => subst same; simp [scanBody, shortEscape?, piece, Option.map_eq_bind]
  case case2 same => subst same; simp [scanBody, shortEscape?, piece, Option.map_eq_bind]
  case case8 control =>
    have control : piece c = .unit c.toNat := by simp_all [piece]
    rw [control]
    exact scanBody_hex4 (by omega) rest
  case case9 quote backslash _ _ _ _ _ plain =>
    have itself : piece c = .plain c := if_neg fun h => plain h.1
    simp [scanBody, itself, plain, backslash, Option.map_eq_bind]
  -- the other characters with a letter of their own
  all_goals
    next same =>
      obtain rfl := char_eq same
      simp [scanBody, shortEscape?, piece, Option.map_eq_bind]

theorem joinUnits_piece (c : Char) (pieces : List Piece) :
    joinUnits (piece c :: pieces) = (joinUnits pieces).map (c :: ·) := by
  unfold piece
  split
  · next control =>
      have noHigh : isHigh c.toNat = false := by simp [isHigh]; omega
      have noLow : isLow c.toNat = false := by simp [isLow]; omega
      rcases pieces with _ | ⟨_ | n, pieces⟩ <;> simp [joinUnits, noHigh, noLow]
  · simp [joinUnits]

/-- The characters between the quotes are read one by one. -/
theorem scanBody_flatMap_escape (cs rest : List Char) :
    scanBody (cs.flatMap escape ++ '"' :: rest) = some (cs.map piece, rest) := by
  induction cs with
  | nil => rfl
  | cons c cs ih => rw [List.flatMap_cons, List.append_assoc, scanBody_escape, ih]; rfl

theorem joinUnits_map_piece (cs : List Char) : joinUnits (cs.map piece) = some cs := by
  induction cs with
  | nil => rfl
  | cons c cs ih => rw [List.map_cons, joinUnits_piece, ih]; rfl

end Quoted

/-- A string is read as it was written, whatever stands behind it. -/
theorem readString?_quoted (s : String) (rest : List Char) :
    ∃ cs, quoted s ++ rest = '"' :: cs ∧ readString? cs = some (some s, rest) := by
  refine ⟨s.toList.flatMap Quoted.escape ++ '"' :: rest, by simp [quoted, Quoted.quote], ?_⟩
  simp [readString?, Quoted.scanBody_flatMap_escape, Quoted.joinUnits_map_piece]

/-! ### One printer -/

/-- The blanks that a printer puts before the items and the closing bracket of a level, and after a
colon. -/
structure Spacing where
  gap : Nat → List Char
  afterColon : List Char
  blank_gap : ∀ level, Blank (gap level)
  blank_afterColon : Blank afterColon

mutual
/-- The text of a value that stands at `level`, with the given spacing. -/
def spaced (s : Spacing) (level : Nat) : Json → List Char
  | .array [] => ['[', ']']
  | .array (item :: rest) =>
    '[' :: (s.gap (level + 1) ++ spaced s (level + 1) item ++ spacedItems s level rest)
  | .object [] => ['{', '}']
  | .object ((key, value) :: rest) =>
    '{' :: (s.gap (level + 1) ++ quoted key ++ ':' :: (s.afterColon ++ spaced s (level + 1) value) ++
      spacedMembers s level rest)
  | .null | .valueless => ['n', 'u', 'l', 'l']
  | .bool true => ['t', 'r', 'u', 'e']
  | .bool false => ['f', 'a', 'l', 's', 'e']
  | .number n => n.text
  | .string s => quoted s

/-- The items after the first one, and the closing bracket. -/
def spacedItems (s : Spacing) (level : Nat) : List Json → List Char
  | [] => s.gap level ++ [']']
  | item :: rest =>
    ',' :: (s.gap (level + 1) ++ spaced s (level + 1) item ++ spacedItems s level rest)

/-- The members after the first one, and the closing brace. -/
def spacedMembers (s : Spacing) (level : Nat) : List (String × Json) → List Char
  | [] => s.gap level ++ ['}']
  | (key, value) :: rest =>
    ',' :: (s.gap (level + 1) ++ quoted key ++ ':' :: (s.afterColon ++ spaced s (level + 1) value) ++
      spacedMembers s level rest)
end

/-- No blanks at all. -/
def tight : Spacing where
  gap _ := []
  afterColon := []
  blank_gap _ := nofun
  blank_afterColon := nofun

/-- A line for each item and member, and a blank after a colon. -/
def indented : Spacing where
  gap := newLine
  afterColon := [' ']
  blank_gap level c mem := by
    obtain rfl | blank := List.mem_cons.1 mem
    · rfl
    · rw [List.eq_of_mem_replicate blank]
      rfl
  blank_afterColon c mem := by
    rw [List.mem_singleton.1 mem]
    rfl

mutual
theorem compactChars_eq_spaced : ∀ (j : Json) (level : Nat), compactChars j = spaced tight level j
  | .array [], _ | .object [], _ | .null, _ | .bool true, _ | .bool false, _ | .number _, _
  | .string _, _ | .valueless, _ => rfl
  | .array (item :: rest), level =>
      congrArg ('[' :: ·) (List.cons.inj (compactItems_eq_spaced (item :: rest) nofun level)).2
  | .object (member :: rest), level =>
      congrArg ('{' :: ·) (List.cons.inj (compactMembers_eq_spaced (member :: rest) nofun level)).2

theorem compactItems_eq_spaced : ∀ items : List Json, items ≠ [] → ∀ level,
    ',' :: compactItems items = spacedItems tight level items
  | [], h, _ => absurd rfl h
  | [item], _, level => by
      rw [compactItems, compactChars_eq_spaced item (level + 1)]
      rfl
  | item :: next :: rest, _, level => by
      show ',' :: (compactChars item ++ ',' :: compactItems (next :: rest)) = _
      rw [compactChars_eq_spaced item (level + 1), compactItems_eq_spaced (next :: rest) nofun level]
      rfl

theorem compactMembers_eq_spaced : ∀ members : List (String × Json), members ≠ [] → ∀ level,
    ',' :: compactMembers members = spacedMembers tight level members
  | [], h, _ => absurd rfl h
  | [(key, value)], _, level => by
      rw [compactMembers, compactChars_eq_spaced value (level + 1)]
      exact congrArg (',' :: ·) (List.append_assoc (quoted key) (':' :: _) _).symm
  | (key, value) :: next :: rest, _, level => by
      show ',' :: (quoted key ++ ':' :: (compactChars value ++ ',' :: compactMembers (next :: rest))) = _
      rw [compactChars_eq_spaced value (level + 1), compactMembers_eq_spaced (next :: rest) nofun level]
      exact congrArg (',' :: ·) (List.append_assoc (quoted key) (':' :: _) _).symm
end

mutual
theorem prettyChars_eq_spaced : ∀ (j : Json) (level : Nat),
    prettyChars level j = spaced indented level j
  | .array [], _ | .object [], _ | .null, _ | .bool true, _ | .bool false, _ | .number _, _
  | .string _, _ | .valueless, _ => rfl
  | .array (item :: rest), level => by
      rw [prettyChars, prettyChars_eq_spaced item, prettyItems_eq_spaced rest, spaced]
      rfl
  | .object ((key, value) :: rest), level => by
      rw [prettyChars, prettyChars_eq_spaced value, prettyMembers_eq_spaced rest, spaced]
      rfl

theorem prettyItems_eq_spaced : ∀ (items : List Json) (level : Nat),
    prettyItems level items = spacedItems indented level items
  | [], _ => rfl
  | item :: rest, level => by
      rw [prettyItems, prettyChars_eq_spaced item, prettyItems_eq_spaced rest, spacedItems]
      rfl

theorem prettyMembers_eq_spaced : ∀ (members : List (String × Json)) (level : Nat),
    prettyMembers level members = spacedMembers indented level members
  | [], _ => rfl
  | (key, value) :: rest, level => by
      rw [prettyMembers, prettyChars_eq_spaced value, prettyMembers_eq_spaced rest, spacedMembers]
      rfl
end

/-! ### Reading -/

/-- A text is read as a value, whatever stands behind it, with more fuel than it is long. -/
def Reads (text : List Char) (j : Json) : Prop :=
  ∀ fuel rest, text.length ≤ fuel → Ends rest →
    readValue (fuel + 1) (text ++ rest) = some (j, rest)

theorem Reads.blanks {ws text : List Char} {j : Json} (blank : Blank ws) (reads : Reads text j) :
    Reads (ws ++ text) j := by
  intro fuel rest long ends
  rw [List.length_append] at long
  have same := reads fuel rest (by omega) ends
  rw [readValue] at same ⊢
  rwa [List.append_assoc, skipBlanks_append blank]

theorem reads_null : Reads ['n', 'u', 'l', 'l'] .null :=
  fun _ _ _ _ => rfl

theorem reads_true : Reads ['t', 'r', 'u', 'e'] (.bool true) :=
  fun _ _ _ _ => rfl

theorem reads_false : Reads ['f', 'a', 'l', 's', 'e'] (.bool false) :=
  fun _ _ _ _ => rfl

theorem reads_string (text : String) : Reads (quoted text) (.string text) := by
  intro fuel rest _ _
  obtain ⟨cs, opened, read⟩ := readString?_quoted text rest
  rw [opened, readValue, skipBlanks_cons rfl]
  simp [read]

/-- A number begins with a sign or a digit, which begin no other token. -/
theorem readValue_of_scan? {fuel : Nat} {cs rest : List Char} {t : NumeralText}
    (scan : NumeralText.scan? cs = some (t, rest)) :
    readValue (fuel + 1) cs = some (t.value?.elim .valueless .number, rest) := by
  rcases cs with _ | ⟨c, cs⟩
  · cases scan
  · have start : c = '-' ∨ c.isDigit = true := by
      by_contra other
      obtain ⟨sign, digit⟩ := not_or.1 other
      simp [NumeralText.scan?, NumeralText.spanDigits, sign, digit] at scan
    have other : ∀ d ∈ [' ', '\n', '\t', '\r', '"', '[', '{', 'n', 't', 'f'], c ≠ d := by
      intro d mem same
      have begins : (d == '-' || d.isDigit) = true := by simpa [same] using start
      have others : ([' ', '\n', '\t', '\r', '"', '[', '{', 'n', 't', 'f'].all fun d =>
        !(d == '-' || d.isDigit)) = true := rfl
      simpa [begins] using List.all_eq_true.1 others d mem
    simp only [List.forall_mem_cons] at other
    have token : isBlank c = false := by simp [isBlank, other]
    rw [readValue, skipBlanks_cons token]
    split <;> simp_all

/-- The text of a number is read as it is on its own. -/
theorem reads_number (n : Numeral) : Reads n.text n.reread := by
  intro fuel rest long ends
  unfold Numeral.reread
  split
  · next finite =>
      obtain ⟨t, spelled⟩ := Numeral.exists_spells finite
      rw [readValue_of_scan? (spelled.scan?_eq ends), Numeral.reread?_eq spelled]
  · next infinite =>
      rw [Numeral.text_of_not_isFinite infinite] at long ⊢
      exact reads_null fuel rest long ends

variable {s : Spacing} {level : Nat}

theorem ends_spacedItems (items : List Json) (rest : List Char) :
    Ends (spacedItems s level items ++ rest) := by
  cases items with
  | nil =>
      rw [spacedItems, List.append_assoc]
      exact Ends.append (s.blank_gap level) (by simp [Ends])
  | cons item items => rw [spacedItems]; simp [Ends]

theorem ends_spacedMembers (members : List (String × Json)) (rest : List Char) :
    Ends (spacedMembers s level members ++ rest) := by
  cases members with
  | nil =>
      rw [spacedMembers, List.append_assoc]
      exact Ends.append (s.blank_gap level) (by simp [Ends])
  | cons member members => rw [spacedMembers]; simp [Ends]

theorem reads_emptyArray : Reads ['[', ']'] (.array []) :=
  fun _ _ _ _ => rfl

theorem reads_emptyObject : Reads ['{', '}'] (.object []) :=
  fun _ _ _ _ => rfl

/-- No item begins with a closing bracket. -/
theorem readValue_array {fuel : Nat} {cs rest : List Char} {items : List Json}
    (read : readItems fuel cs = some (items, rest)) :
    readValue (fuel + 1) ('[' :: cs) = some (.array items, rest) := by
  have inside (after : List Char) : skipBlanks cs ≠ ']' :: after := by
    intro close
    rcases fuel with _ | _ | fuel
    · cases read
    · cases read
    · rw [readItems, readValue, close] at read
      cases read
  rw [readValue, skipBlanks_cons rfl]
  -- `inside` rules the empty array out
  simp [read]

/-- Every member begins with a quote. -/
theorem readValue_object {fuel : Nat} {cs rest : List Char} {members : List (Option String × Json)}
    (read : readMembers fuel cs = some (members, rest)) :
    readValue (fuel + 1) ('{' :: cs) =
      some ((members.mapM namedMember?).elim .valueless .object, rest) := by
  have inside (after : List Char) : skipBlanks cs ≠ '}' :: after := by
    intro close
    cases fuel with
    | zero => cases read
    | succ fuel =>
        rw [readMembers, close] at read
        cases read
  rw [readValue, skipBlanks_cons rfl]
  -- `inside` rules the empty object out
  simp [read]

/-- After an item, a comma or the closing bracket decides. -/
theorem readItems_of_reads {text tail : List Char} {item : Json} {fuel : Nat} (reads : Reads text item)
    (long : text.length < fuel) (ends : Ends tail) :
    readItems (fuel + 1) (text ++ tail) =
      match skipBlanks tail with
      | ',' :: rest => (readItems fuel rest).map fun (items, rest) => (item :: items, rest)
      | ']' :: rest => some ([item], rest)
      | _ => none := by
  obtain ⟨fuel, rfl⟩ := Nat.exists_eq_add_one.2 (Nat.zero_lt_of_lt long)
  rw [readItems, reads fuel tail (by omega) ends]
  simp only [bind, Option.bind_some, pure, Option.map_eq_bind]
  rfl

/-- After a key and its value, a comma or the closing brace decides. -/
theorem readMembers_of_reads {ws text tail : List Char} {key : String} {value : Json} {fuel : Nat}
    (blank : Blank ws) (reads : Reads text value) (long : text.length < fuel) (ends : Ends tail) :
    readMembers (fuel + 1) (ws ++ (quoted key ++ ':' :: (text ++ tail))) =
      match skipBlanks tail with
      | ',' :: rest =>
        (readMembers fuel rest).map fun (members, rest) => ((some key, value) :: members, rest)
      | '}' :: rest => some ([(some key, value)], rest)
      | _ => none := by
  obtain ⟨fuel, rfl⟩ := Nat.exists_eq_add_one.2 (Nat.zero_lt_of_lt long)
  obtain ⟨cs, opened, read⟩ := readString?_quoted key (':' :: (text ++ tail))
  rw [opened, readMembers, skipBlanks_append blank, skipBlanks_cons rfl]
  simp only [bind, Option.bind_some, pure, Option.map_eq_bind, read]
  rw [skipBlanks_cons rfl]
  simp only [reads fuel tail (by omega) ends, Option.bind_some]
  rfl

/-- Keys that all have values stay as they are. -/
theorem mapM_namedMember? (members : List (String × Json)) :
    (members.map fun m => (some m.1, m.2)).mapM namedMember? = some members :=
  Wire.mapM_map_eq fun _ _ => rfl

mutual
/-- A value is read from its text, but for its numbers, whatever the spacing. -/
theorem reads_spaced : ∀ (j : Json) (level : Nat), j.hasValue = true →
    Reads (spaced s level j) (j.mapNumbers Numeral.reread)
  | .null, _, _ => reads_null
  | .bool true, _, _ => reads_true
  | .bool false, _, _ => reads_false
  | .number n, _, _ => reads_number n
  | .string text, _, _ => reads_string text
  | .array [], _, _ => reads_emptyArray
  | .object [], _, _ => reads_emptyObject
  | .array (item :: rest), level, h => by
      intro fuel after long _
      obtain ⟨here, later⟩ := Bool.and_eq_true_iff.1 h
      have first := (reads_spaced item (level + 1) here).blanks (s.blank_gap (level + 1))
      have items := readItems_spaced rest level later first fuel after (by
        simp only [spaced, List.length_cons, List.length_append] at long ⊢
        omega)
      rw [spaced, List.cons_append, List.append_assoc]
      exact readValue_array items
  | .object ((key, value) :: rest), level, h => by
      intro fuel after long _
      obtain ⟨here, later⟩ := Bool.and_eq_true_iff.1 h
      have first := (reads_spaced value (level + 1) here).blanks s.blank_afterColon
      have members := readMembers_spaced rest level later key (s.blank_gap (level + 1)) first fuel
        after (by
          simp only [spaced, List.length_cons, List.length_append] at long ⊢
          omega)
      simp only [spaced, List.cons_append, List.append_assoc] at members ⊢
      rw [readValue_object members, mapM_namedMember?]
      rfl

/-- Items are read up to the closing bracket. -/
theorem readItems_spaced : ∀ (items : List Json) (level : Nat), hasValueItems items = true →
    ∀ {text : List Char} {item : Json}, Reads text item → ∀ fuel rest,
      (text ++ spacedItems s level items).length < fuel →
        readItems fuel (text ++ (spacedItems s level items ++ rest)) =
          some (item :: mapNumbersOfItems Numeral.reread items, rest)
  | [], level, _, text, item, reads, fuel + 1, rest, long => by
      simp only [spacedItems, List.length_append, List.length_cons] at long
      rw [readItems_of_reads reads (by omega) (ends_spacedItems [] rest), spacedItems,
        List.append_assoc, skipBlanks_append (s.blank_gap level)]
      rfl
  | next :: items, level, h, text, item, reads, fuel + 1, rest, long => by
      obtain ⟨here, tail⟩ := Bool.and_eq_true_iff.1 h
      have following := (reads_spaced next (level + 1) here).blanks (s.blank_gap (level + 1))
      simp only [spacedItems, List.length_append, List.length_cons] at long
      have later := readItems_spaced items level tail following fuel rest
        (by simp only [List.length_append]; omega)
      rw [readItems_of_reads reads (by omega) (ends_spacedItems _ rest), spacedItems, List.cons_append,
        skipBlanks_cons rfl, List.append_assoc]
      exact congrArg (Option.map _) later

/-- Members are read up to the closing brace. -/
theorem readMembers_spaced : ∀ (members : List (String × Json)) (level : Nat),
    hasValueMembers members = true → ∀ {ws text : List Char} {value : Json} (key : String), Blank ws →
      Reads text value → ∀ fuel rest,
        (ws ++ (quoted key ++ ':' :: (text ++ spacedMembers s level members))).length < fuel →
          readMembers fuel
              (ws ++ (quoted key ++ ':' :: (text ++ (spacedMembers s level members ++ rest)))) =
            some (((key, value) :: mapNumbersOfMembers Numeral.reread members).map fun m =>
              (some m.1, m.2), rest)
  | [], level, _, ws, text, value, key, blank, reads, fuel + 1, rest, long => by
      simp only [List.length_append, List.length_cons] at long
      rw [readMembers_of_reads blank reads (by omega) (ends_spacedMembers [] rest), spacedMembers,
        List.append_assoc, skipBlanks_append (s.blank_gap level)]
      rfl
  | (nextKey, next) :: members, level, h, ws, text, value, key, blank, reads, fuel + 1, rest, long => by
      obtain ⟨here, tail⟩ := Bool.and_eq_true_iff.1 h
      have following := (reads_spaced next (level + 1) here).blanks s.blank_afterColon
      simp only [spacedMembers, List.length_append, List.length_cons] at long
      have later := readMembers_spaced members level tail nextKey (s.blank_gap (level + 1)) following
        fuel rest (by simp only [List.length_append, List.length_cons]; omega)
      rw [readMembers_of_reads blank reads (by omega) (ends_spacedMembers _ rest), spacedMembers,
        List.cons_append, skipBlanks_cons rfl]
      simp only [List.append_assoc, List.cons_append] at later ⊢
      exact congrArg (Option.map _) later
end

/-! ### Whole texts -/

/-- **The one value of a text.** A tree that is spelled with any spacing is read but for its numbers. -/
theorem ofText?_spaced (s : Spacing) {j : Json} (value : j.hasValue = true) :
    ofText? (String.ofList (spaced s 0 j)) = some (j.mapNumbers Numeral.reread) := by
  have read := reads_spaced (s := s) j 0 value (spaced s 0 j).length [] (Nat.le_refl _) nofun
  rw [List.append_nil] at read
  rw [ofText?, String.toList_ofList, read]
  rfl

/-- Both texts are read as the same tree. -/
theorem ofText?_eq {j : Json} (value : j.hasValue = true) {text : String}
    (mem : text ∈ [j.compact, j.pretty]) : ofText? text = some (j.mapNumbers Numeral.reread) := by
  simp only [List.mem_cons, List.not_mem_nil, or_false] at mem
  rcases mem with rfl | rfl
  · rw [compact, compactChars_eq_spaced j 0]
    exact ofText?_spaced tight value
  · rw [pretty, prettyChars_eq_spaced j 0]
    exact ofText?_spaced indented value

/-! ### Whole numbers -/

mutual
/-- Whether every part denotes a value, and every number is an integer of at most 64 bits. -/
def isWhole : Json → Bool
  | .null | .bool _ | .string _ => true
  | .number (.integer n) => -9223372036854775808 ≤ n ∧ n < 18446744073709551616
  | .number (.double _) => false
  | .array items => wholeItems items
  | .object members => wholeMembers members
  | .valueless => false

/-- Whether all items are whole. -/
def wholeItems : List Json → Bool
  | [] => true
  | item :: rest => isWhole item && wholeItems rest

/-- Whether all members' values are whole. -/
def wholeMembers : List (String × Json) → Bool
  | [] => true
  | (_, value) :: rest => isWhole value && wholeMembers rest
end

theorem reread_integer {n : Int} (inRange : -9223372036854775808 ≤ n ∧ n < 18446744073709551616) :
    Numeral.reread (.integer n) = .number (.integer n) := by
  rw [Numeral.reread, Numeral.reread?_integer inRange]
  rfl

mutual
/-- A whole tree has a value, and its numbers are read as they are. -/
theorem mapNumbers_reread_of_isWhole : ∀ j : Json, j.isWhole = true →
    j.hasValue = true ∧ j.mapNumbers Numeral.reread = j
  | .null, _ | .bool _, _ | .string _, _ => ⟨rfl, rfl⟩
  | .number (.integer _), h => ⟨rfl, reread_integer (of_decide_eq_true h)⟩
  | .array items, h => by
      obtain ⟨value, same⟩ := mapNumbers_reread_of_wholeItems items h
      exact ⟨value, congrArg array same⟩
  | .object members, h => by
      obtain ⟨value, same⟩ := mapNumbers_reread_of_wholeMembers members h
      exact ⟨value, congrArg object same⟩

theorem mapNumbers_reread_of_wholeItems : ∀ items : List Json, wholeItems items = true →
    hasValueItems items = true ∧ mapNumbersOfItems Numeral.reread items = items
  | [], _ => ⟨rfl, rfl⟩
  | item :: rest, h => by
      obtain ⟨here, later⟩ := Bool.and_eq_true_iff.1 h
      obtain ⟨value, same⟩ := mapNumbers_reread_of_isWhole item here
      obtain ⟨values, sames⟩ := mapNumbers_reread_of_wholeItems rest later
      exact ⟨Bool.and_eq_true_iff.2 ⟨value, values⟩, congrArg₂ List.cons same sames⟩

theorem mapNumbers_reread_of_wholeMembers : ∀ members : List (String × Json),
    wholeMembers members = true →
    hasValueMembers members = true ∧ mapNumbersOfMembers Numeral.reread members = members
  | [], _ => ⟨rfl, rfl⟩
  | (key, value) :: rest, h => by
      obtain ⟨here, later⟩ := Bool.and_eq_true_iff.1 h
      obtain ⟨first, same⟩ := mapNumbers_reread_of_isWhole value here
      obtain ⟨values, sames⟩ := mapNumbers_reread_of_wholeMembers rest later
      refine ⟨Bool.and_eq_true_iff.2 ⟨first, values⟩, ?_⟩
      rw [mapNumbersOfMembers, same, sames]
end

/-- **The texts of a whole tree are read as the tree.** -/
theorem ofText?_of_isWhole {j : Json} (whole : j.isWhole = true) {text : String}
    (mem : text ∈ [j.compact, j.pretty]) : ofText? text = some j := by
  obtain ⟨value, same⟩ := mapNumbers_reread_of_isWhole j whole
  rw [ofText?_eq value mem, same]

end Json

end ApiGraph
