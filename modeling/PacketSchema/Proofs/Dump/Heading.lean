import PacketSchema.Proofs.Dump.Text

/-!
# Texts of headings

One line of a dump tells its heading. Its first word tells the kind, and the parts that follow end
where a blank, a colon or a bar stands, or with the line.
-/

namespace PacketSchema

open Grammar (IsWord)

structure Formula.IsSize (size : Formula) : Prop where
  leaf : size.IsLeaf
  legible : size.Legible

section Sizes

variable {left right : Formula}

theorem size_text_leaf (size : left.IsSize) :
    ∀ character ∈ left.sizeText.toList, isLeafCharacter character = true := by
  have characters := (Formula.leaf_characters size.leaf size.legible).2
  cases size.leaf with
  | integer number => exact characters
  | field ident =>
      intro character member
      rw [Formula.sizeText, String.toList_append, List.mem_append] at member
      rcases member with mark | inside
      · cases List.mem_singleton.mp mark
        decide
      · exact characters character inside

theorem number_text_unmarked (number : Option Int) (ident : String) :
    numberText number ≠ "&" ++ ident := by
  intro same
  have mark : '&' ∈ (numberText number).toList := by
    rw [same, String.toList_append]
    exact List.mem_append_left _ List.mem_cons_self
  cases number with
  | none => cases List.mem_singleton.mp mark
  | some value =>
      rcases int_characters value mark with digit | sign
      · cases digit
      · cases sign

theorem size_text_injective (leftSize : left.IsSize) (rightSize : right.IsSize)
    (same : left.sizeText = right.sizeText) : left = right := by
  cases leftSize.leaf with
  | integer number =>
      cases rightSize.leaf with
      | integer other => exact congrArg Formula.integer (number_text_injective same)
      | field ident => exact absurd same (number_text_unmarked number ident)
  | field ident =>
      cases rightSize.leaf with
      | integer number => exact absurd same.symm (number_text_unmarked number ident)
      | field other =>
          exact congrArg Formula.field ((String.append_right_inj "&").mp same)

theorem count_text_injective (leftSize : left.IsSize) (rightSize : right.IsSize)
    (same : countText left = countText right) : left = right := by
  have shown : ∀ text : String, " : " ++ text ≠ "" := by
    intro text equal
    simp at equal
  unfold countText at same
  by_cases leftOne : left = .integer (some 1)
  · by_cases rightOne : right = .integer (some 1)
    · rw [leftOne, rightOne]
    · rw [if_pos leftOne, if_neg rightOne] at same
      exact absurd same.symm (shown _)
  · by_cases rightOne : right = .integer (some 1)
    · rw [if_neg leftOne, if_pos rightOne] at same
      exact absurd same (shown _)
    · rw [if_neg leftOne, if_neg rightOne] at same
      exact size_text_injective leftSize rightSize ((String.append_right_inj " : ").mp same)

/-- After a unit comes nothing or a colon. -/
theorem count_text_cases (count : Formula) :
    (countText count).toList = [] ∨ ∃ more, (countText count).toList = ' ' :: ':' :: more := by
  unfold countText
  split
  · exact .inl rfl
  · right
    refine ⟨' ' :: count.sizeText.toList, ?_⟩
    rw [String.toList_append]
    rfl

/-- Units end with their line or where a colon follows, which no byte order begins with. -/
theorem unit_append_inj {unit mark : WidthUnit} {rest other : List Char}
    (restEnds : rest = [] ∨ ∃ more, rest = ' ' :: ':' :: more)
    (otherEnds : other = [] ∨ ∃ more, other = ' ' :: ':' :: more)
    (same : unit.text.toList ++ rest = mark.text.toList ++ other) : unit = mark ∧ rest = other := by
  rcases restEnds with rfl | ⟨more, rfl⟩ <;> rcases otherEnds with rfl | ⟨others, rfl⟩ <;>
    rcases unit with _ | ⟨_ | ⟨_ | _⟩⟩ <;> rcases mark with _ | ⟨_ | ⟨_ | _⟩⟩ <;>
      simp_all [WidthUnit.text, ByteOrder.keyword]

end Sizes

structure Layout.Legible (layout : Layout) : Prop where
  width : layout.width.IsSize
  count : layout.count.IsSize

theorem keyword_injective {scalar other : ScalarType} (same : scalar.keyword = other.keyword) :
    scalar = other := by
  revert same
  cases scalar <;> cases other <;> decide

theorem keyword_leaf (scalar : ScalarType) :
    ∀ character ∈ scalar.keyword.toList, isLeafCharacter character = true := by
  cases scalar <;> exact List.all_eq_true.mp (by decide)

theorem layout_text (layout : Layout) :
    layout.text.toList = layout.scalar.keyword.toList ++ ' ' :: ':' :: ' ' ::
      (layout.width.sizeText.toList ++
        ' ' :: (layout.unit.text.toList ++ (countText layout.count).toList)) := by
  simp [Layout.text]

theorem layout_text_injective {left right : Layout} (leftLegible : left.Legible)
    (rightLegible : right.Legible) (same : left.text = right.text) : left = right := by
  have texts : left.text.toList = right.text.toList := by rw [same]
  rw [layout_text, layout_text] at texts
  rcases run_append_inj (keyword_leaf left.scalar) (keyword_leaf right.scalar)
    (breaks_cons (by decide)) (breaks_cons (by decide)) texts with ⟨keywords, afterScalar⟩
  simp only [List.cons.injEq, true_and] at afterScalar
  rcases run_append_inj (size_text_leaf leftLegible.width) (size_text_leaf rightLegible.width)
    (breaks_cons (by decide)) (breaks_cons (by decide)) afterScalar with ⟨widths, afterWidth⟩
  rw [List.cons.injEq] at afterWidth
  rcases unit_append_inj (count_text_cases _) (count_text_cases _) afterWidth.2
    with ⟨units, counts⟩
  have scalar := keyword_injective (String.toList_inj.mp keywords)
  have width := size_text_injective leftLegible.width rightLegible.width
    (String.toList_inj.mp widths)
  have count := count_text_injective leftLegible.count rightLegible.count
    (String.toList_inj.mp counts)
  cases left
  cases right
  simp only [Layout.mk.injEq]
  exact ⟨scalar, width, units, count⟩

namespace Heading

def Legible : Heading → Prop
  | .packet ident parent condition =>
      IsWord ident ∧ (∀ name ∈ parent, IsWord name) ∧ ∀ formula ∈ condition, formula.Legible
  | .always ident layout => IsWord ident ∧ layout.Legible
  | .optional ident condition => IsWord ident ∧ condition.Legible
  | .union ident => IsWord ident
  | .arm condition label _ => (∀ formula ∈ condition, formula.Legible) ∧ IsWord label

inductive Kind where
  | packet
  | always
  | optional
  | union
  | case
  | otherwise
deriving DecidableEq, Repr

def Kind.word : Kind → String
  | .packet => "packet"
  | .always => "always"
  | .optional => "optional"
  | .union => "variable"
  | .case => "case"
  | .otherwise => "otherwise"

def kind : Heading → Kind
  | .packet _ _ _ => .packet
  | .always _ _ => .always
  | .optional _ _ => .optional
  | .union _ => .union
  | .arm (some _) _ _ => .case
  | .arm none _ _ => .otherwise

def parentText (parent : Option String) : List Char :=
  parent.elim [] fun name => ' ' :: ':' :: ' ' :: name.toList

def selectionText (condition : Option Formula) : List Char :=
  condition.elim [] fun formula => ' ' :: 'w' :: 'h' :: 'e' :: 'n' :: ' ' :: formula.text.toList

def tagText (label : String) (value : Option Int) : List Char :=
  '|' :: (label.toList ++ ':' :: ' ' :: ((numberText value).toList ++ ['|']))

/-- What a heading shows after its first word and a blank. -/
def content : Heading → List Char
  | .packet ident parent condition =>
      ident.toList ++ (parentText parent ++ selectionText condition)
  | .always ident layout => ident.toList ++ ' ' :: layout.text.toList
  | .optional ident condition => ident.toList ++ selectionText (some condition)
  | .union ident => ident.toList
  | .arm (some condition) label value => condition.text.toList ++ ' ' :: tagText label value
  | .arm none label value => tagText label value

theorem text_eq (heading : Heading) :
    heading.text.toList = heading.kind.word.toList ++ ' ' :: heading.content := by
  cases heading with
  | packet ident parent condition =>
      cases parent <;> cases condition <;>
        simp [text, kind, Kind.word, content, parentText, selectionText]
  | always ident layout => simp [text, kind, Kind.word, content]
  | optional ident condition => simp [text, kind, Kind.word, content, selectionText]
  | union ident => simp [text, kind, Kind.word, content]
  | arm condition label value => cases condition <;> simp [text, kind, Kind.word, content, tagText]

theorem Kind.word_leaf (kind : Kind) :
    ∀ character ∈ kind.word.toList, isLeafCharacter character = true := by
  cases kind <;> exact List.all_eq_true.mp (by decide)

theorem Kind.word_injective {left right : Kind} (same : left.word = right.word) :
    left = right := by
  revert same
  cases left <;> cases right <;> decide

theorem ident_leaf {ident : String} (word : IsWord ident) :
    ∀ character ∈ ident.toList, isLeafCharacter character = true :=
  fun character member => leaf_of_word_character (word.within character member)

/-- An identifier ends where no character of a word follows. -/
theorem ident_append_inj {ident name : String} {rest other : List Char} (word : IsWord ident)
    (otherWord : IsWord name) (ends : Breaks isLeafCharacter rest)
    (otherEnds : Breaks isLeafCharacter other)
    (same : ident.toList ++ rest = name.toList ++ other) : ident = name ∧ rest = other := by
  rcases run_append_inj (ident_leaf word) (ident_leaf otherWord) ends otherEnds same
    with ⟨idents, rests⟩
  exact ⟨String.toList_inj.mp idents, rests⟩

theorem selection_breaks (condition : Option Formula) :
    Breaks isLeafCharacter (selectionText condition) := by
  cases condition with
  | none => exact breaks_nil _
  | some formula => exact breaks_cons (by decide)

theorem parent_breaks (parent : Option String) (condition : Option Formula) :
    Breaks isLeafCharacter (parentText parent ++ selectionText condition) := by
  cases parent with
  | none => exact selection_breaks condition
  | some name => exact breaks_cons (by decide)

theorem selection_text_injective {left right : Option Formula}
    (leftLegible : ∀ formula ∈ left, formula.Legible)
    (rightLegible : ∀ formula ∈ right, formula.Legible)
    (same : selectionText left = selectionText right) : left = right := by
  cases left with
  | none =>
      cases right with
      | none => rfl
      | some formula => cases same
  | some formula =>
      cases right with
      | none => cases same
      | some other =>
          simp only [selectionText, Option.elim, List.cons.injEq, true_and] at same
          have texts : formula.text.toList ++ [] = other.text.toList ++ [] := by rw [same]
          rw [(formula.tells (leftLegible formula rfl) other [] [] (rightLegible other rfl)
            (breaks_nil _) (breaks_nil _) texts).1]

theorem parent_text_append_inj {left right : Option String} {first second : Option Formula}
    (leftWord : ∀ name ∈ left, IsWord name) (rightWord : ∀ name ∈ right, IsWord name)
    (same : parentText left ++ selectionText first = parentText right ++ selectionText second) :
    left = right ∧ selectionText first = selectionText second := by
  have apart : ∀ (name : String) (selection other : Option Formula),
      parentText (some name) ++ selectionText selection ≠ selectionText other := by
    intro name selection other equal
    cases other with
    | none => cases equal
    | some formula => simp [parentText, selectionText] at equal
  cases left with
  | none =>
      cases right with
      | none => exact ⟨rfl, same⟩
      | some name => exact absurd same.symm (apart name second first)
  | some name =>
      cases right with
      | none => exact absurd same (apart name first second)
      | some other =>
          simp only [parentText, Option.elim, List.cons_append, List.cons.injEq, true_and] at same
          rcases ident_append_inj (leftWord name rfl) (rightWord other rfl) (selection_breaks first)
            (selection_breaks second) same with ⟨rfl, selections⟩
          exact ⟨rfl, selections⟩

theorem tag_text_injective {label other : String} {left right : Option Int}
    (labelWord : IsWord label) (otherWord : IsWord other)
    (same : tagText label left = tagText other right) : label = other ∧ left = right := by
  simp only [tagText, List.cons.injEq, true_and] at same
  rcases ident_append_inj labelWord otherWord (breaks_cons (by decide)) (breaks_cons (by decide))
    same with ⟨labels, afterLabel⟩
  simp only [List.cons.injEq, true_and] at afterLabel
  rcases run_append_inj (number_text_leaf left) (number_text_leaf right) (breaks_cons (by decide))
    (breaks_cons (by decide)) afterLabel with ⟨numbers, _⟩
  exact ⟨labels, number_text_injective (String.toList_inj.mp numbers)⟩

theorem arm_content_injective {left right : Option Formula} {label other : String}
    {first second : Option Int} (leftLegible : (arm left label first).Legible)
    (rightLegible : (arm right other second).Legible)
    (kinds : (arm left label first).kind = (arm right other second).kind)
    (same : (arm left label first).content = (arm right other second).content) :
    arm left label first = arm right other second := by
  cases left with
  | none =>
      cases right with
      | some formula => cases kinds
      | none =>
          rcases tag_text_injective leftLegible.2 rightLegible.2 same with ⟨rfl, rfl⟩
          rfl
  | some condition =>
      cases right with
      | none => cases kinds
      | some formula =>
          rcases condition.tells (leftLegible.1 condition rfl) formula _ _
            (rightLegible.1 formula rfl) (breaks_cons (by decide)) (breaks_cons (by decide)) same
            with ⟨rfl, tags⟩
          rw [List.cons.injEq] at tags
          rcases tag_text_injective leftLegible.2 rightLegible.2 tags.2 with ⟨rfl, rfl⟩
          rfl

theorem packet_content_injective {ident name : String} {parent above : Option String}
    {condition other : Option Formula} (leftLegible : (packet ident parent condition).Legible)
    (rightLegible : (packet name above other).Legible)
    (same : (packet ident parent condition).content = (packet name above other).content) :
    packet ident parent condition = packet name above other := by
  rcases ident_append_inj leftLegible.1 rightLegible.1 (parent_breaks _ _) (parent_breaks _ _) same
    with ⟨rfl, rest⟩
  rcases parent_text_append_inj leftLegible.2.1 rightLegible.2.1 rest with ⟨rfl, selections⟩
  rw [selection_text_injective leftLegible.2.2 rightLegible.2.2 selections]

theorem always_content_injective {ident name : String} {layout other : Layout}
    (leftLegible : (always ident layout).Legible) (rightLegible : (always name other).Legible)
    (same : (always ident layout).content = (always name other).content) :
    always ident layout = always name other := by
  rcases ident_append_inj leftLegible.1 rightLegible.1 (breaks_cons (by decide))
    (breaks_cons (by decide)) same with ⟨rfl, rest⟩
  rw [List.cons.injEq] at rest
  rw [layout_text_injective leftLegible.2 rightLegible.2 (String.toList_inj.mp rest.2)]

theorem optional_content_injective {ident name : String} {condition other : Formula}
    (leftLegible : (optional ident condition).Legible)
    (rightLegible : (optional name other).Legible)
    (same : (optional ident condition).content = (optional name other).content) :
    optional ident condition = optional name other := by
  rcases ident_append_inj leftLegible.1 rightLegible.1 (selection_breaks (some condition))
    (selection_breaks (some other)) same with ⟨rfl, rest⟩
  have selections : some condition = some other := by
    apply selection_text_injective _ _ rest
    · intro formula member
      cases member
      exact leftLegible.2
    · intro formula member
      cases member
      exact rightLegible.2
  rw [Option.some.inj selections]

theorem content_injective {left right : Heading} (leftLegible : left.Legible)
    (rightLegible : right.Legible) (kinds : left.kind = right.kind)
    (same : left.content = right.content) : left = right := by
  cases left with
  | packet =>
      cases right with
      | packet => exact packet_content_injective leftLegible rightLegible same
      | always | optional | union => cases kinds
      | arm guard => cases guard <;> cases kinds
  | always =>
      cases right with
      | always => exact always_content_injective leftLegible rightLegible same
      | packet | optional | union => cases kinds
      | arm guard => cases guard <;> cases kinds
  | optional =>
      cases right with
      | optional => exact optional_content_injective leftLegible rightLegible same
      | packet | always | union => cases kinds
      | arm guard => cases guard <;> cases kinds
  | union =>
      cases right with
      | union => rw [String.toList_inj.mp same]
      | packet | always | optional => cases kinds
      | arm guard => cases guard <;> cases kinds
  | arm condition =>
      cases right with
      | arm => exact arm_content_injective leftLegible rightLegible kinds same
      | packet | always | optional | union => cases condition <;> cases kinds

/-- The text of a heading tells the heading. -/
theorem text_injective {left right : Heading} (leftLegible : left.Legible)
    (rightLegible : right.Legible) (same : left.text = right.text) : left = right := by
  have texts : left.text.toList = right.text.toList := by rw [same]
  rw [text_eq, text_eq] at texts
  rcases run_append_inj left.kind.word_leaf right.kind.word_leaf (breaks_cons (by decide))
    (breaks_cons (by decide)) texts with ⟨words, contents⟩
  have kinds : left.kind = right.kind := Kind.word_injective (String.toList_inj.mp words)
  exact content_injective leftLegible rightLegible kinds (List.tail_eq_of_cons_eq contents)

end Heading

end PacketSchema
