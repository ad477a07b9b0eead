import PacketSchema.Grammar.Module
import PacketSchema.Proofs.Grammar.Lexeme

/-!
# What the bare readers accept

A bare reader takes the text of one lexeme and nothing of the gap after it. Words are taken whole:
a keyword or an identifier ends where its word ends, so no keyword is read inside a longer word and
no identifier is a keyword.
-/

namespace PacketSchema

/-- `after` is the cursor behind `text`, which the cursor has in front. -/
structure Cursor.Passes (cursor : Cursor) (text : List Char) (after : Cursor) : Prop where
  rest : cursor.rest = text ++ after.rest
  location : after.location = cursor.location.after text

namespace Cursor.Passes

variable {cursor middle after other : Cursor} {first second : List Char}

theorem append (left : cursor.Passes first middle) (right : middle.Passes second after) :
    cursor.Passes (first ++ second) after := by
  constructor
  · rw [left.rest, right.rest, List.append_assoc]
  · rw [right.location, left.location, Location.after_append]

theorem unique (left : cursor.Passes first after) (right : cursor.Passes first other) :
    after = other := by
  cases after
  cases other
  rw [Cursor.mk.injEq]
  constructor
  · exact left.location.trans right.location.symm
  · exact List.append_cancel_left (left.rest.symm.trans right.rest)

theorem past (written : cursor.rest = first ++ second) :
    cursor.Passes first (cursor.past first second) := ⟨written, rfl⟩

end Cursor.Passes

namespace Grammar.Parser

variable {Item Other : Type} {parser : Parser Item} {next : Item → Parser Other}
  {cursor middle after : Cursor}

theorem run_bind_some {item : Item} (read : parser.run cursor = some (item, middle)) :
    (parser >>= next).run cursor = (next item).run middle := by
  rw [run_bind, read]
  rfl

theorem run_bind_none (refused : parser.run cursor = none) :
    (parser >>= next).run cursor = none := by
  rw [run_bind, refused]
  rfl

theorem bind_eq_some_iff {item : Other} :
    (parser >>= next).run cursor = some (item, after) ↔
      ∃ read middle, parser.run cursor = some (read, middle) ∧
        (next read).run middle = some (item, after) := by
  rw [run_bind, Option.bind_eq_some_iff, Prod.exists]

/-- The gap after an item is behind what the item takes. -/
theorem run_before_gap (parser : Parser Item) (cursor : Cursor) :
    (beforeGap parser).run cursor =
      (parser.run cursor).map fun (item, after) => (item, afterGap after) := by
  unfold beforeGap
  rw [run_bind]
  cases parser.run cursor <;> rfl

theorem run_located (parser : Parser Item) (cursor : Cursor) :
    (located parser).run cursor =
      (parser.run cursor).map fun (item, after) => (⟨cursor.location, item⟩, after) := by
  unfold located
  rw [run_bind_some (run_here cursor), run_bind]
  cases parser.run cursor <;> rfl

theorem literal_iff {text : List Char} {taken : Unit} :
    (literal text).run cursor = some (taken, after) ↔ cursor.Passes text after := by
  have accepted : (literal text).run cursor =
      if text.isPrefixOf cursor.rest then
        some ((), cursor.past text (cursor.rest.drop text.length)) else none := by
    change (literal text cursor).result = _
    unfold literal
    split <;> rfl
  rw [accepted]
  constructor
  · intro read
    split at read
    next front =>
      cases read
      apply Cursor.Passes.past
      exact (List.prefix_iff_eq_append.mp (List.isPrefixOf_iff_prefix.mp front)).symm
    · cases read
  · intro passes
    have front : text.isPrefixOf cursor.rest = true :=
      List.isPrefixOf_iff_prefix.mpr ⟨after.rest, passes.rest.symm⟩
    rw [if_pos front]
    have here : cursor.Passes text (cursor.past text (cursor.rest.drop text.length)) :=
      Cursor.Passes.past (by rw [passes.rest, List.drop_left])
    rw [passes.unique here]

theorem literal_refuses_iff {text : List Char} :
    (literal text).run cursor = none ↔ ¬text <+: cursor.rest := by
  rw [Option.eq_none_iff_forall_ne_some, Prod.forall]
  constructor
  · rintro none ⟨rest, front⟩
    exact none () _ (literal_iff.mpr (Cursor.Passes.past front.symm))
  · rintro absent _ after read
    exact absent ⟨after.rest, (literal_iff.mp read).rest.symm⟩

theorem bare_end_of_input_iff {taken : Unit} :
    bareEndOfInput.run cursor = some (taken, after) ↔ cursor.rest = [] ∧ after = cursor := by
  unfold run bareEndOfInput
  cases cursor.rest <;> simp [eq_comm]

/-- Of several literals the first one that the text begins with is read. -/
theorem choice_iff {spell : Item → List Char} {items : List Item} {item : Item} :
    (choice (items.map fun item => do
        literal (spell item)
        return item)).run cursor = some (item, after) ↔
      items.find? (fun item => (spell item).isPrefixOf cursor.rest) = some item ∧
        cursor.Passes (spell item) after := by
  induction items with
  | nil => simp [choice]
  | cons first items later =>
      rw [List.map_cons, choice, run_orElse]
      by_cases front : spell first <+: cursor.rest
      · obtain ⟨rest, written⟩ := front
        have passes : cursor.Passes (spell first) (cursor.past (spell first) rest) :=
          Cursor.Passes.past written.symm
        have here : (spell first).isPrefixOf cursor.rest = true :=
          List.isPrefixOf_iff_prefix.mpr ⟨rest, written⟩
        rw [@run_bind_some _ _ _ _ _ _ () (literal_iff.mpr passes), run_pure, Option.some_or,
          List.find?_cons, here]
        constructor
        · intro read
          cases read
          exact ⟨rfl, passes⟩
        · rintro ⟨same, also⟩
          cases same
          rw [passes.unique also]
      · have elsewhere : (spell first).isPrefixOf cursor.rest = false :=
          Bool.eq_false_iff.mpr fun here => front (List.isPrefixOf_iff_prefix.mp here)
        rw [run_bind_none (literal_refuses_iff.mpr front), Option.none_or, later,
          List.find?_cons, elsewhere]

theorem satisfy_iff {accepts : Char → Bool} {character : Char} :
    (satisfy accepts).run cursor = some (character, after) ↔
      accepts character = true ∧ cursor.Passes [character] after := by
  obtain ⟨location, rest⟩ := cursor
  change (satisfy accepts _).result = _ ↔ _
  unfold satisfy
  cases rest with
  | nil =>
      constructor
      · intro read
        cases read
      · rintro ⟨-, passes⟩
        cases passes.rest
  | cons first rest =>
      have passes : Cursor.Passes ⟨location, first :: rest⟩ [first]
          (Cursor.past ⟨location, first :: rest⟩ [first] rest) := Cursor.Passes.past rfl
      dsimp only
      split
      next accepted =>
        constructor
        · intro read
          cases read
          exact ⟨accepted, passes⟩
        · rintro ⟨-, also⟩
          cases (List.cons.inj also.rest).1
          rw [passes.unique also]
      next refused =>
        constructor
        · intro read
          cases read
        · rintro ⟨accepted, also⟩
          cases (List.cons.inj also.rest).1
          exact absurd accepted refused

theorem span_iff {accepts : Char → Bool} {taken : List Char} :
    (span accepts).run cursor = some (taken, after) ↔
      (∀ character ∈ taken, accepts character = true) ∧ cursor.Passes taken after ∧
        Breaks accepts after.rest := by
  have longest : (span accepts).run cursor = some (cursor.rest.takeWhile accepts,
      cursor.past (cursor.rest.takeWhile accepts) (cursor.rest.dropWhile accepts)) := rfl
  have parted : cursor.Passes (cursor.rest.takeWhile accepts)
      (cursor.past (cursor.rest.takeWhile accepts) (cursor.rest.dropWhile accepts)) :=
    Cursor.Passes.past List.takeWhile_append_dropWhile.symm
  rw [longest]
  constructor
  · intro read
    cases read
    refine ⟨fun character member => List.mem_takeWhile_imp member, parted, ?_⟩
    intro character member
    have outside := List.head?_dropWhile_not accepts cursor.rest
    have first : (cursor.rest.dropWhile accepts).head? = some character := member
    rwa [first] at outside
  · rintro ⟨run, passes, breaks⟩
    have same : cursor.rest.takeWhile accepts = taken := by
      rw [passes.rest, take_while_run run breaks]
    rw [same] at parted ⊢
    rw [parted.unique passes]

theorem span_some_iff {accepts : Char → Bool} {taken : List Char} :
    (spanSome accepts).run cursor = some (taken, after) ↔
      taken ≠ [] ∧ (∀ character ∈ taken, accepts character = true) ∧ cursor.Passes taken after ∧
        Breaks accepts after.rest := by
  unfold spanSome
  simp only [bind_eq_some_iff, satisfy_iff, span_iff, run_pure]
  constructor
  · rintro ⟨first, middle, ⟨starts, front⟩, others, later, ⟨within, back, breaks⟩, same⟩
    cases same
    exact ⟨List.cons_ne_nil first others, List.forall_mem_cons.mpr ⟨starts, within⟩,
      front.append back, breaks⟩
  · rintro ⟨nonempty, within, passes, breaks⟩
    obtain ⟨first, others, rfl⟩ := List.exists_cons_of_ne_nil nonempty
    rw [List.forall_mem_cons] at within
    have front : cursor.Passes [first] (cursor.past [first] (others ++ after.rest)) :=
      Cursor.Passes.past passes.rest
    exact ⟨first, _, ⟨within.1, front⟩, others, after, ⟨within.2, ⟨rfl, passes.location⟩, breaks⟩,
      rfl⟩

theorem satisfy_refuses_iff {accepts : Char → Bool} :
    (satisfy accepts).run cursor = none ↔ Breaks accepts cursor.rest := by
  rw [Option.eq_none_iff_forall_ne_some, Prod.forall]
  constructor
  · intro none character first
    rw [Bool.eq_false_iff]
    intro accepted
    obtain ⟨rest, written⟩ := List.head?_eq_some_iff.mp first
    exact none character _ (satisfy_iff.mpr ⟨accepted, Cursor.Passes.past written⟩)
  · intro breaks character after read
    obtain ⟨accepted, passes⟩ := satisfy_iff.mp read
    have outside : accepts character = false := by
      apply breaks
      rw [passes.rest]
      rfl
    rw [accepted] at outside
    cases outside

theorem word_character_refused_iff :
    bareWordCharacter.run cursor = none ↔ Breaks isWordCharacter cursor.rest := by
  rw [← satisfy_refuses_iff, bareWordCharacter, run_bind]
  cases (satisfy isWordCharacter).run cursor <;> simp

theorem not_ahead_iff {taken : Unit} :
    (notAhead parser).run cursor = some (taken, after) ↔
      cursor = after ∧ parser.run cursor = none := by
  rw [run_notAhead]
  cases parser.run cursor <;> simp

theorem word_ends_iff {taken : Unit} :
    (notAhead bareWordCharacter).run cursor = some (taken, after) ↔
      cursor = after ∧ Breaks isWordCharacter cursor.rest := by
  rw [not_ahead_iff, word_character_refused_iff]

theorem keyword_of_front {left right : Keyword} (front : left.letters <+: right.letters) :
    left = right := by
  cases left <;> cases right <;> first | rfl | exact absurd front (by decide)

/-- A text begins with one keyword at most. -/
theorem keyword_unique {left right : Keyword} {text : List Char} (first : left.letters <+: text)
    (second : right.letters <+: text) : left = right := by
  rcases Nat.le_total left.letters.length right.letters.length with shorter | longer
  · exact keyword_of_front (List.prefix_of_prefix_length_le first second shorter)
  · exact (keyword_of_front (List.prefix_of_prefix_length_le second first longer)).symm

theorem keyword_found_iff {keyword : Keyword} {text : List Char} :
    Keyword.all.find? (fun other => other.letters.isPrefixOf text) = some keyword ↔
      keyword.letters <+: text := by
  have sound : ∀ other, Keyword.all.find? (fun other => other.letters.isPrefixOf text) =
      some other → other.letters <+: text := by
    intro other found
    have front := List.find?_some found
    exact List.isPrefixOf_iff_prefix.mp front
  constructor
  · exact sound keyword
  · intro front
    cases found : Keyword.all.find? (fun other => other.letters.isPrefixOf text) with
    | none =>
        have absent := List.find?_eq_none.mp found keyword keyword.mem_all
        exact absurd (List.isPrefixOf_iff_prefix.mpr front) absent
    | some other => rw [keyword_unique (sound other found) front]

theorem bare_keyword_iff {keyword : Keyword} :
    bareKeyword.run cursor = some (keyword, after) ↔
      cursor.Passes keyword.letters after ∧ Breaks isWordCharacter after.rest := by
  unfold bareKeyword
  simp only [bind_eq_some_iff, choice_iff, word_ends_iff, keyword_found_iff, run_pure]
  constructor
  · rintro ⟨read, middle, ⟨-, passes⟩, _, _, ⟨rfl, breaks⟩, same⟩
    cases same
    exact ⟨passes, breaks⟩
  · rintro ⟨passes, breaks⟩
    exact ⟨keyword, after, ⟨⟨after.rest, passes.rest.symm⟩, passes⟩, (), after, ⟨rfl, breaks⟩, rfl⟩

theorem bare_reserved_iff {keyword : Keyword} {taken : Unit} :
    (bareReserved keyword).run cursor = some (taken, after) ↔
      cursor.Passes keyword.letters after ∧ Breaks isWordCharacter after.rest := by
  unfold bareReserved
  simp only [bind_eq_some_iff, run_ahead, run_named, Option.map_eq_some_iff, Prod.exists,
    bare_keyword_iff, literal_iff]
  constructor
  · rintro ⟨other, _, ⟨_, later, ⟨seen, breaks⟩, same⟩, passes⟩
    cases same
    have only : other = keyword :=
      keyword_unique ⟨later.rest, seen.rest.symm⟩ ⟨after.rest, passes.rest.symm⟩
    subst only
    cases seen.unique passes
    exact ⟨passes, breaks⟩
  · rintro ⟨passes, breaks⟩
    exact ⟨keyword, cursor, ⟨keyword, after, ⟨passes, breaks⟩, rfl⟩, passes⟩

theorem no_keyword_iff {taken : Unit} :
    (notAhead bareKeyword).run cursor = some (taken, after) ↔
      cursor = after ∧ ∀ (keyword : Keyword) later, cursor.Passes keyword.letters later →
        ¬Breaks isWordCharacter later.rest := by
  rw [not_ahead_iff, Option.eq_none_iff_forall_ne_some, Prod.forall]
  simp only [ne_eq, bare_keyword_iff, not_and]

theorem bare_ident_iff {name : String} :
    bareIdent.run cursor = some (name, after) ↔
      IsIdentifier name ∧ cursor.Passes name.toList after ∧ Breaks isWordCharacter after.rest := by
  unfold bareIdent
  simp only [bind_eq_some_iff, no_keyword_iff, satisfy_iff, span_iff, run_pure]
  constructor
  · rintro ⟨_, _, ⟨rfl, free⟩, first, middle, ⟨start, front⟩, others, later,
      ⟨within, back, breaks⟩, same⟩
    cases same
    have passes := front.append back
    refine ⟨⟨⟨⟨first, others, String.toList_ofList, start⟩, ?_⟩, ?_⟩, ?_, breaks⟩
    · rw [String.toList_ofList]
      intro character member
      rcases List.mem_cons.mp member with rfl | later
      · exact word_character_of_start start
      · exact within character later
    · intro keyword same
      apply free keyword after _ breaks
      rw [Keyword.letters, same, String.toList_ofList]
      exact passes
    · rw [String.toList_ofList]
      exact passes
  · rintro ⟨identifier, passes, breaks⟩
    obtain ⟨first, others, written, start⟩ := identifier.word.start
    have front : cursor.Passes [first] (cursor.past [first] (others ++ after.rest)) := by
      apply Cursor.Passes.past
      rw [passes.rest, written]
      rfl
    refine ⟨(), cursor, ⟨rfl, ?_⟩, first, _, ⟨start, front⟩, others, after, ⟨?_, ?_, breaks⟩, ?_⟩
    · intro keyword later also ends
      -- The keyword and the identifier would be the same word.
      have same : keyword.letters = name.toList ∧ later.rest = after.rest :=
        run_append_inj keyword.letters_within identifier.word.within ends breaks
          (also.rest.symm.trans passes.rest)
      exact identifier.free keyword (String.toList_inj.mp same.1)
    · intro character member
      apply identifier.word.within
      rw [written]
      exact List.mem_cons_of_mem first member
    · constructor
      · rfl
      · rw [passes.location, written]
        rfl
    · rw [← written, String.ofList_toList]

theorem hex_mark_iff {taken : List Char} :
    bareHexMark.run cursor = some (taken, after) ↔
      (taken = ['0', 'x'] ∨ taken = ['0', 'X']) ∧ cursor.Passes taken after := by
  unfold bareHexMark
  rw [run_orElse, Option.or_eq_some_iff]
  constructor
  · simp only [bind_eq_some_iff, literal_iff, run_pure]
    rintro (⟨_, _, passes, same⟩ | ⟨-, _, _, passes, same⟩)
    · cases same
      exact ⟨.inl rfl, passes⟩
    · cases same
      exact ⟨.inr rfl, passes⟩
  · rintro ⟨rfl | rfl, passes⟩
    · left
      rw [bind_eq_some_iff]
      exact ⟨(), after, literal_iff.mpr passes, rfl⟩
    · right
      have small : ¬['0', 'x'] <+: cursor.rest := by
        rw [passes.rest]
        rintro ⟨rest, same⟩
        cases same
      rw [bind_eq_some_iff]
      exact ⟨run_bind_none (literal_refuses_iff.mpr small), (), after, literal_iff.mpr passes, rfl⟩

/-- What is read as a number has the shape of one, and no digit goes on with it. -/
theorem bare_integer_shaped {numeral : String}
    (read : bareInteger.run cursor = some (numeral, after)) :
    IsNumeral numeral ∧ cursor.Passes numeral.toList after ∧ Breaks Char.isDigit after.rest := by
  unfold bareInteger at read
  rw [run_orElse, Option.or_eq_some_iff] at read
  simp only [bind_eq_some_iff, hex_mark_iff, span_some_iff, run_pure] at read
  rcases read with
    ⟨mark, middle, ⟨signed, front⟩, digits, later, ⟨nonempty, digital, back, breaks⟩, same⟩ |
    ⟨-, digits, later, ⟨nonempty, digital, passes, breaks⟩, same⟩
  · cases same
    rw [String.toList_ofList]
    refine ⟨?_, front.append back, ?_⟩
    · rcases signed with rfl | rfl
      · exact .hexadecimal 'x' digits (.inl rfl) nonempty digital String.toList_ofList
      · exact .hexadecimal 'X' digits (.inr rfl) nonempty digital String.toList_ofList
    · apply breaks.weaken
      intro character digit
      rw [isHexDigit, digit, Bool.true_or, Bool.true_or]
  · cases same
    rw [String.toList_ofList]
    refine ⟨.decimal ?_ ?_, passes, breaks⟩
    · rwa [String.toList_ofList]
    · rwa [String.toList_ofList]

/-- A word of decimal digits does not begin with a mark for hexadecimal ones: its letter would be
a digit, or it would go on with the word. -/
theorem hex_mark_refused {digits : List Char}
    (decimal : ∀ character ∈ digits, character.isDigit = true) (nonempty : digits ≠ [])
    (passes : cursor.Passes digits after) (breaks : Breaks isWordCharacter after.rest) :
    bareHexMark.run cursor = none := by
  rw [Option.eq_none_iff_forall_ne_some]
  rintro ⟨mark, middle⟩ read
  obtain ⟨signed, front⟩ := hex_mark_iff.mp read
  obtain ⟨sign, rfl, letter⟩ : ∃ sign, mark = ['0', sign] ∧ (sign = 'x' ∨ sign = 'X') := by
    rcases signed with rfl | rfl
    · exact ⟨'x', rfl, .inl rfl⟩
    · exact ⟨'X', rfl, .inr rfl⟩
  obtain ⟨first, others, rfl⟩ := List.exists_cons_of_ne_nil nonempty
  have same := (List.cons.inj (passes.rest.symm.trans front.rest)).2
  cases others with
  | nil =>
      have rest : after.rest = sign :: middle.rest := same
      have outside : isWordCharacter sign = false := breaks sign (by rw [rest]; rfl)
      rcases letter with rfl | rfl <;> exact absurd outside (by decide)
  | cons second others =>
      have digit := decimal second (List.mem_cons_of_mem first List.mem_cons_self)
      rw [(List.cons.inj same).1] at digit
      rcases letter with rfl | rfl <;> exact absurd digit (by decide)

/-- A number is read whole where its word ends with it. -/
theorem bare_integer_of_shaped {numeral : String} (shaped : IsNumeral numeral)
    (passes : cursor.Passes numeral.toList after) (breaks : Breaks isWordCharacter after.rest) :
    bareInteger.run cursor = some (numeral, after) := by
  unfold bareInteger
  rw [run_orElse, Option.or_eq_some_iff]
  cases shaped with
  | hexadecimal sign digits signed nonempty digital written =>
      left
      rw [written] at passes
      have front : cursor.Passes ['0', sign] (cursor.past ['0', sign] (digits ++ after.rest)) :=
        Cursor.Passes.past passes.rest
      have mark : ['0', sign] = ['0', 'x'] ∨ ['0', sign] = ['0', 'X'] := by
        rcases signed with rfl | rfl
        · exact .inl rfl
        · exact .inr rfl
      simp only [bind_eq_some_iff, hex_mark_iff, span_some_iff, run_pure]
      refine ⟨['0', sign], _, ⟨mark, front⟩, digits, after, ⟨nonempty, digital, ?_, ?_⟩, ?_⟩
      · exact ⟨rfl, passes.location⟩
      · exact breaks.weaken fun character => word_character_of_hex_digit
      · rw [List.cons_append, List.cons_append, List.nil_append, ← written, String.ofList_toList]
  | decimal nonempty digits =>
      right
      constructor
      · exact run_bind_none (hex_mark_refused digits nonempty passes breaks)
      · simp only [bind_eq_some_iff, span_some_iff, run_pure]
        refine ⟨numeral.toList, after, ⟨nonempty, digits, passes, ?_⟩, ?_⟩
        · exact breaks.weaken fun character => word_character_of_digit
        · rw [String.ofList_toList]

theorem bare_integer_refused (breaks : Breaks Char.isDigit cursor.rest) :
    bareInteger.run cursor = none := by
  unfold bareInteger
  rw [run_orElse, Option.or_eq_none_iff]
  constructor
  · apply run_bind_none
    rw [Option.eq_none_iff_forall_ne_some]
    rintro ⟨mark, middle⟩ read
    obtain ⟨signed, passes⟩ := hex_mark_iff.mp read
    rw [passes.rest] at breaks
    rcases signed with rfl | rfl <;> exact absurd (breaks '0' rfl) (by decide)
  · apply run_bind_none
    exact run_bind_none (satisfy_refuses_iff.mpr breaks)

theorem bare_reference_iff {name : String} :
    bareReference.run cursor = some (name, after) ↔
      IsIdentifier name ∧ cursor.Passes ('&' :: name.toList) after ∧
        Breaks isWordCharacter after.rest := by
  unfold bareReference
  simp only [bind_eq_some_iff, literal_iff, run_named, bare_ident_iff]
  constructor
  · rintro ⟨_, middle, front, identifier, back, breaks⟩
    exact ⟨identifier, front.append back, breaks⟩
  · rintro ⟨identifier, passes, breaks⟩
    have front : cursor.Passes ['&'] (cursor.past ['&'] (name.toList ++ after.rest)) :=
      Cursor.Passes.past passes.rest
    exact ⟨(), _, front, identifier, ⟨rfl, passes.location⟩, breaks⟩

def comparisonOrder : List Comparison :=
  [.greaterOrEqual, .lessOrEqual, .equal, .notEqual, .greater, .less]

theorem bare_comparison_iff {comparison : Comparison} :
    bareComparison.run cursor = some (comparison, after) ↔
      comparisonOrder.find? (fun other => other.symbol.toList.isPrefixOf cursor.rest) =
          some comparison ∧
        cursor.Passes comparison.symbol.toList after := choice_iff

/-- A comparison is read whole where no equality sign goes on with it. -/
theorem bare_comparison_of_symbol {comparison : Comparison}
    (passes : cursor.Passes comparison.symbol.toList after)
    (ends : after.rest.head? ≠ some '=') :
    bareComparison.run cursor = some (comparison, after) := by
  have no_equal : ['='].isPrefixOf after.rest = false := by
    rw [Bool.eq_false_iff]
    intro front
    obtain ⟨rest, written⟩ := List.isPrefixOf_iff_prefix.mp front
    exact ends (by rw [← written]; rfl)
  refine bare_comparison_iff.mpr ⟨?_, passes⟩
  rw [passes.rest]
  cases comparison <;>
    simp [comparisonOrder, Comparison.symbol, List.isPrefixOf, no_equal]

theorem bare_comparison_refused
    (other : ∀ character ∈ cursor.rest.head?, character ∉ ['>', '<', '=', '!']) :
    bareComparison.run cursor = none := by
  rw [Option.eq_none_iff_forall_ne_some]
  rintro ⟨comparison, after⟩ read
  have passes := (bare_comparison_iff.mp read).2
  rw [passes.rest] at other
  cases comparison <;> exact absurd (other _ rfl) (by decide)

theorem end_of_input_iff {location : Location} :
    endOfInput.run cursor = some (location, after) ↔
      cursor.rest = [] ∧ location = cursor.location ∧ after = cursor := by
  rw [endOfInput, run_named, run_bind_some (run_here cursor), bind_eq_some_iff]
  constructor
  · rintro ⟨taken, middle, finished, answer⟩
    obtain ⟨ended, rfl⟩ := bare_end_of_input_iff.mp finished
    cases answer
    exact ⟨ended, rfl, rfl⟩
  · rintro ⟨ended, rfl, rfl⟩
    exact ⟨(), after, bare_end_of_input_iff.mpr ⟨ended, rfl⟩, rfl⟩

/-- A module is its packets, from the margin of the text to its end. -/
theorem module_iff {bound : Nat} {text : List Char} {tree : Tree.Module} :
    (module bound).run (.ofText text) = some (tree, after) ↔
      (many bound (packet bound)).run (afterGap (.ofText text)) = some (tree.packets, after) ∧
        after.rest = [] ∧ tree.finish = after.location := by
  have margin : gap.run (.ofText text) = some ((), afterGap (.ofText text)) := rfl
  rw [module, run_named, run_bind_some margin, bind_eq_some_iff]
  constructor
  · rintro ⟨packets, last, read, body⟩
    obtain ⟨finish, stop, finished, answer⟩ := bind_eq_some_iff.mp body
    obtain ⟨ended, rfl, rfl⟩ := end_of_input_iff.mp finished
    cases answer
    exact ⟨read, ended, rfl⟩
  · rintro ⟨read, ended, finish⟩
    refine ⟨tree.packets, after, read, ?_⟩
    rw [run_bind_some (end_of_input_iff.mpr ⟨ended, rfl, rfl⟩), ← finish]
    rfl

end Grammar.Parser

end PacketSchema
