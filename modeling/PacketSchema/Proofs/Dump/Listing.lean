import PacketSchema.Proofs.Dump.Heading

/-!
# Listings

A listing tells its outlines. A line ends at its line feed, which no heading holds, and its depth
is half the number of blanks before the heading, which begins with none. What is nested in a
heading are the deeper lines that follow it, up to the first line that is not deeper.
-/

namespace PacketSchema

open Grammar (IsWord)

def OneLine (text : List Char) : Prop := ∀ character ∈ text, (character != '\n') = true

instance (text : List Char) : Decidable (OneLine text) :=
  decidable_of_iff (text.all (· != '\n') = true) List.all_eq_true

theorem OneLine.append {left right : List Char} (first : OneLine left) (last : OneLine right) :
    OneLine (left ++ right) := by
  intro character member
  rcases List.mem_append.mp member with early | late
  · exact first character early
  · exact last character late

theorem OneLine.cons {character : Char} {text : List Char} (visible : (character != '\n') = true)
    (rest : OneLine text) : OneLine (character :: text) := by
  intro present member
  rcases List.mem_cons.mp member with rfl | later
  · exact visible
  · exact rest present later

theorem one_line_of_leaf {text : List Char}
    (leaf : ∀ character ∈ text, isLeafCharacter character = true) : OneLine text := by
  intro character member
  have inside := leaf character member
  rw [bne_iff_ne]
  intro feed
  rw [feed] at inside
  exact absurd inside (by decide)

theorem Formula.one_line {formula : Formula} (legible : formula.Legible) :
    OneLine formula.text.toList := by
  have operation : ∀ (operator : Operator) (left right : Formula), OneLine left.text.toList →
      OneLine right.text.toList → OneLine (Formula.operation operator left right).text.toList := by
    intro operator left right first last
    have symbol : OneLine operator.symbol.toList := by
      rcases operator with comparison | connective
      · cases comparison <;> decide
      · cases connective <;> decide
    rw [← List.append_nil (Formula.operation operator left right).text.toList, operation_text]
    apply OneLine.cons (by decide)
    apply first.append
    apply OneLine.cons (by decide)
    apply symbol.append
    apply OneLine.cons (by decide)
    exact last.append (by decide)
  induction formula with
  | integer number => exact one_line_of_leaf (leaf_characters (.integer number) legible).2
  | field ident => exact one_line_of_leaf (leaf_characters (.field ident) legible).2
  | negation operand inner =>
      rw [← List.append_nil (negation operand).text.toList, negation_text, List.append_nil]
      exact OneLine.cons (by decide) (inner legible)
  | relation comparison left right first last =>
      exact operation (.inl comparison) left right (first legible.1) (last legible.2)
  | conjunction connective left right first last =>
      exact operation (.inr connective) left right (first legible.1) (last legible.2)

theorem Layout.one_line {layout : Layout} (legible : layout.Legible) :
    OneLine layout.text.toList := by
  have unit : OneLine layout.unit.text.toList := by
    rcases layout.unit with _ | ⟨_ | ⟨_ | _⟩⟩ <;> decide
  have count : OneLine (countText layout.count).toList := by
    unfold countText
    split
    · decide
    · rw [String.toList_append]
      exact OneLine.append (by decide) (one_line_of_leaf (size_text_leaf legible.count))
  rw [layout_text]
  apply (one_line_of_leaf (keyword_leaf layout.scalar)).append
  apply OneLine.cons (by decide)
  apply OneLine.cons (by decide)
  apply OneLine.cons (by decide)
  apply (one_line_of_leaf (size_text_leaf legible.width)).append
  apply OneLine.cons (by decide)
  exact unit.append count

namespace Heading

theorem selection_one_line {condition : Option Formula}
    (legible : ∀ formula ∈ condition, formula.Legible) : OneLine (selectionText condition) := by
  cases condition with
  | none => decide
  | some formula =>
      have word : OneLine [' ', 'w', 'h', 'e', 'n', ' '] := by decide
      exact word.append (formula.one_line (legible formula rfl))

theorem tag_one_line {label : String} (word : IsWord label) (value : Option Int) :
    OneLine (tagText label value) := by
  apply OneLine.cons (by decide)
  apply (one_line_of_leaf (ident_leaf word)).append
  apply OneLine.cons (by decide)
  apply OneLine.cons (by decide)
  exact (one_line_of_leaf (number_text_leaf value)).append (by decide)

theorem content_one_line {heading : Heading} (legible : heading.Legible) :
    OneLine heading.content := by
  cases heading with
  | packet ident parent condition =>
      apply (one_line_of_leaf (ident_leaf legible.1)).append
      apply OneLine.append
      · cases parent with
        | none => decide
        | some name =>
            have colon : OneLine [' ', ':', ' '] := by decide
            exact colon.append (one_line_of_leaf (ident_leaf (legible.2.1 name rfl)))
      · exact selection_one_line legible.2.2
  | always ident layout =>
      apply (one_line_of_leaf (ident_leaf legible.1)).append
      exact OneLine.cons (by decide) (Layout.one_line legible.2)
  | optional ident condition =>
      apply (one_line_of_leaf (ident_leaf legible.1)).append
      apply selection_one_line
      intro formula member
      cases member
      exact legible.2
  | union ident => exact one_line_of_leaf (ident_leaf legible)
  | arm condition label value =>
      cases condition with
      | none => exact tag_one_line legible.2 value
      | some formula =>
          apply (formula.one_line (legible.1 formula rfl)).append
          exact OneLine.cons (by decide) (tag_one_line legible.2 value)

theorem one_line {heading : Heading} (legible : heading.Legible) :
    OneLine heading.text.toList := by
  rw [text_eq]
  apply (one_line_of_leaf heading.kind.word_leaf).append
  exact OneLine.cons (by decide) (content_one_line legible)

/-- No heading begins with a blank. -/
theorem text_breaks (heading : Heading) : Breaks (· == ' ') heading.text.toList := by
  rw [text_eq]
  cases heading.kind <;> exact breaks_cons (by decide)

end Heading

def Entry.shown (entry : Entry) : List Char :=
  List.replicate (2 * entry.depth) ' ' ++ entry.heading.text.toList

theorem listing_cons (entry : Entry) (rest : List Entry) :
    (listing (entry :: rest)).toList = entry.shown ++ '\n' :: (listing rest).toList := by
  simp [listing, Entry.line, DumpLine.written, Entry.shown]

theorem listing_nil : (listing []).toList = [] := rfl

theorem entry_of_line {left right : Entry} (leftLegible : left.heading.Legible)
    (rightLegible : right.heading.Legible)
    (same : left.shown = right.shown) : left = right := by
  have blanks : ∀ (count : Nat), ∀ character ∈ List.replicate count ' ',
      (character == ' ') = true := by
    intro count character member
    rw [(List.mem_replicate.mp member).2]
    rfl
  rcases run_append_inj (blanks _) (blanks _) left.heading.text_breaks right.heading.text_breaks
    same with ⟨margins, texts⟩
  have depths : 2 * left.depth = 2 * right.depth := by
    have lengths := congrArg List.length margins
    rwa [List.length_replicate, List.length_replicate] at lengths
  have headings := Heading.text_injective leftLegible rightLegible (String.toList_inj.mp texts)
  cases left
  cases right
  simp only [Entry.mk.injEq] at headings depths ⊢
  exact ⟨by omega, headings⟩

theorem one_line_entry {entry : Entry} (legible : entry.heading.Legible) :
    OneLine entry.shown := by
  apply OneLine.append
  · intro character member
    rw [(List.mem_replicate.mp member).2]
    rfl
  · exact Heading.one_line legible

theorem listing_injective {entries others : List Entry}
    (legible : ∀ entry ∈ entries, entry.heading.Legible)
    (othersLegible : ∀ entry ∈ others, entry.heading.Legible)
    (same : listing entries = listing others) : entries = others := by
  have texts : (listing entries).toList = (listing others).toList := by rw [same]
  clear same
  induction entries generalizing others with
  | nil =>
      cases others with
      | nil => rfl
      | cons other rest =>
          rw [listing_nil, listing_cons] at texts
          exact absurd texts.symm (List.append_ne_nil_of_right_ne_nil _ (List.cons_ne_nil _ _))
  | cons entry rest later =>
      cases others with
      | nil =>
          rw [listing_nil, listing_cons] at texts
          exact absurd texts (List.append_ne_nil_of_right_ne_nil _ (List.cons_ne_nil _ _))
      | cons other more =>
          rw [List.forall_mem_cons] at legible othersLegible
          rw [listing_cons, listing_cons] at texts
          rcases run_append_inj (one_line_entry legible.1) (one_line_entry othersLegible.1)
            (breaks_cons (by decide)) (breaks_cons (by decide)) texts with ⟨lines, rests⟩
          rw [List.cons.injEq] at rests
          rw [entry_of_line legible.1 othersLegible.1 lines,
            later legible.2 othersLegible.2 rests.2]

/-- Nothing at the front of the entries is nested at a depth or deeper. -/
def Leaves (depth : Nat) (entries : List Entry) : Prop :=
  ∀ entry ∈ entries.head?, entry.depth < depth

theorem leaves_nil (depth : Nat) : Leaves depth [] := by
  intro entry member
  cases member

theorem Leaves.deeper {depth : Nat} {entries : List Entry} (leaves : Leaves depth entries) :
    Leaves (depth + 1) entries :=
  fun entry member => Nat.lt_succ_of_lt (leaves entry member)

/-- What follows an outline stands at its depth, or leaves it. -/
theorem outlines_leave (depth : Nat) (outlines : List Outline) {rest : List Entry}
    (leaves : Leaves depth rest) :
    Leaves (depth + 1) (outlineEntries depth outlines ++ rest) := by
  cases outlines with
  | nil => exact leaves.deeper
  | cons outline others =>
      cases outline with
      | node heading inner =>
          intro entry member
          cases member
          exact Nat.lt_succ_self depth

mutual

theorem entries_append_inj : ∀ (outline other : Outline) {depth : Nat} {rest more : List Entry},
    Leaves (depth + 1) rest → Leaves (depth + 1) more →
      outline.entries depth ++ rest = other.entries depth ++ more → outline = other ∧ rest = more
  | .node heading inner, .node mark within, depth, rest, more, leaves, moreLeaves, same => by
      rw [Outline.entries, Outline.entries, List.cons_append, List.cons_append,
        List.cons.injEq, Entry.mk.injEq] at same
      rcases outlines_append_inj inner within leaves moreLeaves same.2 with ⟨rfl, rests⟩
      rw [same.1.2]
      exact ⟨rfl, rests⟩

theorem outlines_append_inj : ∀ (outlines others : List Outline) {depth : Nat}
    {rest more : List Entry}, Leaves depth rest → Leaves depth more →
      outlineEntries depth outlines ++ rest = outlineEntries depth others ++ more →
      outlines = others ∧ rest = more
  | [], [], _, _, _, _, _, same => ⟨rfl, same⟩
  | [], .node heading inner :: others, depth, rest, more, leaves, _, same => by
      have front : rest = ⟨depth, heading⟩ :: _ := same
      rw [front] at leaves
      exact absurd (leaves _ rfl) (Nat.lt_irrefl depth)
  | .node heading inner :: outlines, [], depth, rest, more, _, moreLeaves, same => by
      have front : more = ⟨depth, heading⟩ :: _ := same.symm
      rw [front] at moreLeaves
      exact absurd (moreLeaves _ rfl) (Nat.lt_irrefl depth)
  | outline :: outlines, other :: others, depth, rest, more, leaves, moreLeaves, same => by
      rw [outlineEntries, outlineEntries, List.append_assoc, List.append_assoc] at same
      rcases entries_append_inj outline other (outlines_leave depth outlines leaves)
        (outlines_leave depth others moreLeaves) same with ⟨rfl, later⟩
      rcases outlines_append_inj outlines others leaves moreLeaves later with ⟨rfl, rests⟩
      exact ⟨rfl, rests⟩

end

/-- Outlines whose headings can be read are told by their listing. -/
theorem outlines_of_listing {outlines others : List Outline}
    (legible : ∀ entry ∈ outlineEntries 0 outlines, entry.heading.Legible)
    (othersLegible : ∀ entry ∈ outlineEntries 0 others, entry.heading.Legible)
    (same : listing (outlineEntries 0 outlines) = listing (outlineEntries 0 others)) :
    outlines = others := by
  have entries := listing_injective legible othersLegible same
  have padded : outlineEntries 0 outlines ++ [] = outlineEntries 0 others ++ [] := by rw [entries]
  exact (outlines_append_inj outlines others (leaves_nil 0) (leaves_nil 0) padded).1

end PacketSchema
