import PacketSchema.Proofs.Grammar.Reading.Canonical

/-!
# Encodings are read back

The text of an encoding is a descriptor as schemas have it, its lexemes with one blank between each
two. A width always shows and so does its unit, by which a count after it is told apart; a count of
one is left out, and a descriptor without a count has that count. The text is therefore read, the
whole of it, and what was read resolves to the encoding that it came from. An encoding whose
references resolve to themselves is then known by its text.
-/

namespace PacketSchema

open Grammar (Keyword Mark Lexeme IsIdentifier IsNumeral Writing)

variable {forest : ScopeForest} {scope : ScopeId}

namespace Size

def draft : Size → Draft.Value
  | .literal value => .integer (toString value.toNat)
  | .field reference => .reference reference.ident

variable {size : Size}

theorem draft_text (size : Size) : size.draft.lexeme.text = size.text.toList := by
  cases size with
  | literal value => rfl
  | field reference => simp [draft, Draft.Value.lexeme, Lexeme.text, text]

theorem draft_legal (named : ∀ reference ∈ size.references, IsIdentifier reference.ident) :
    size.draft.lexeme.Legal := by
  cases size with
  | literal value => exact numeral_of_text value.toNat
  | field reference => exact named reference (List.mem_singleton_self reference)

theorem draft_resolves (grounded : forest.Grounds scope size.references)
    (place : Nat → Location) (index : Nat) :
    (size.draft.tree place index).resolveSize forest scope = .accepted size := by
  cases size with
  | literal value =>
      have known : Tree.unsignedNumber ⟨place index, toString value.toNat⟩ = .accepted value := by
        rw [Tree.unsigned_eq_accepted]
        exact ⟨value.toNat, number_of_text _ _, value.toNat_lt, rfl⟩
      exact Checked.map_eq_accepted.mpr ⟨value, known, rfl⟩
  | field reference =>
      have known : Tree.resolveReference forest scope ⟨place index, reference.ident⟩ =
          .accepted reference :=
        Tree.reference_eq_accepted.mpr (ScopeForest.grounds_singleton.mp grounded)
      exact Checked.map_eq_accepted.mpr ⟨reference, known, rfl⟩

end Size

namespace Encoding

variable {encoding : Encoding}

def draft (encoding : Encoding) : Draft.Descriptor where
  scalar := encoding.scalar
  width := some ⟨encoding.width.count.draft, encoding.width.unit⟩
  count := if encoding.count = .one then none else some encoding.count.draft

def writing (encoding : Encoding) : Writing := .spaced encoding.draft.lexemes

theorem scalar_text (scalar : ScalarType) :
    (Draft.scalarLexeme scalar).text = scalar.keyword.toList := by
  cases scalar <;> decide

theorem order_text (order : ByteOrder) :
    (Lexeme.keyword (Draft.orderKeyword order)).text = order.keyword.toList := by
  cases order <;> decide

theorem writing_text (encoding : Encoding) : encoding.writing.text = encoding.text.toList := by
  obtain ⟨scalar, ⟨width, unit⟩, count⟩ := encoding
  have colon : (Lexeme.mark .colon).text = [':'] := rfl
  have bits : (Lexeme.keyword .bits).text = "bits".toList := rfl
  have bytes : (Lexeme.keyword .bytes).text = "bytes".toList := rfl
  by_cases once : count = .one
  all_goals
    rcases unit with _ | _ | order
    all_goals
      simp [writing, draft, Draft.Descriptor.lexemes, Draft.widthLexemes, Draft.countLexemes,
        Draft.annexed, Draft.Width.lexemes, Draft.unitLexemes, scalar_text, order_text, colon,
        bits, bytes, Size.draft_text, text, Width.text, WidthUnit.text, once]

theorem writing_legal (named : ∀ reference ∈ encoding.references, IsIdentifier reference.ident) :
    encoding.writing.Legal := by
  obtain ⟨scalar, ⟨width, unit⟩, count⟩ := encoding
  obtain ⟨widthNamed, countNamed⟩ := List.forall_mem_append.mp named
  have scalarLegal : (Draft.scalarLexeme scalar).Legal := by
    cases scalar <;> trivial
  have unitLegal : ∀ lexeme ∈ Draft.unitLexemes unit, lexeme.Legal := by
    rcases unit with _ | _ | order <;> simp [Draft.unitLexemes, Lexeme.Legal]
  have widthLegal : ∀ lexeme ∈ Draft.widthLexemes (some ⟨width.draft, unit⟩), lexeme.Legal :=
    List.forall_mem_cons.mpr ⟨trivial,
      List.forall_mem_cons.mpr ⟨Size.draft_legal widthNamed, unitLegal⟩⟩
  have countLegal : ∀ lexeme ∈ Draft.countLexemes (if count = .one then none else some count.draft),
      lexeme.Legal := by
    split
    · exact List.forall_mem_nil _
    · exact List.forall_mem_cons.mpr ⟨trivial,
        List.forall_mem_singleton.mpr (Size.draft_legal countNamed)⟩
  apply Writing.spaced_legal
  exact List.forall_mem_cons.mpr ⟨scalarLegal, List.forall_mem_append.mpr ⟨widthLegal, countLegal⟩⟩

theorem draft_resolves (grounded : forest.Grounds scope encoding.references)
    (place : Nat → Location) (index : Nat) (ident : String) :
    (encoding.draft.tree place index).resolve forest scope ident = .accepted encoding := by
  obtain ⟨scalar, ⟨width, unit⟩, count⟩ := encoding
  obtain ⟨widthGrounded, countGrounded⟩ := ScopeForest.grounds_append.mp grounded
  have unitKept : ∀ index, (Draft.unitTree place index unit).widthUnit = unit := by
    intro index
    rcases unit with _ | _ | order <;> rfl
  have widthFound : ∀ index, (Draft.Width.tree place index ⟨width.draft, unit⟩).resolve forest
      scope = .accepted ⟨width, unit⟩ := by
    intro index
    refine Checked.map_eq_accepted.mpr ⟨width, Size.draft_resolves widthGrounded place index, ?_⟩
    rw [Draft.Width.tree, unitKept]
  have countFound : ∀ index, Checked.option (fun size => size.resolveSize forest scope)
      ((if count = .one then none else some count.draft).map (Draft.Value.tree place index)) =
        .accepted (if count = .one then none else some count) := by
    intro index
    split
    · rfl
    · have found := Size.draft_resolves countGrounded place index
      exact Checked.map_eq_accepted.mpr ⟨count, found, rfl⟩
  refine Checked.both_eq_accepted.mpr
    ⟨some ⟨width, unit⟩, if count = .one then none else some count, ?_, countFound _, ?_⟩
  · exact Checked.map_eq_accepted.mpr ⟨⟨width, unit⟩, widthFound (index + 2), rfl⟩
  · rw [ofParts]
    split
    · next once =>
        rw [once]
        rfl
    · rfl

def tree (encoding : Encoding) : Tree.Descriptor := encoding.draft.tree encoding.writing.place 0

theorem text_read (named : ∀ reference ∈ encoding.references, IsIdentifier reference.ident) :
    Grammar.Parser.descriptor.run (.ofText encoding.text.toList) =
      some (encoding.tree, ⟨Location.start.after encoding.text.toList, []⟩) := by
  have all : encoding.writing.lexemes = encoding.draft.lexemes := Writing.lexemes_spaced _
  have spelled : encoding.writing.Holds 0 encoding.draft.lexemes :=
    Writing.holds_of_drop (by rw [List.drop_zero, all])
  have total : 0 + encoding.draft.lexemes.length = encoding.writing.lexemes.length := by
    rw [all, Nat.zero_add]
  have reads := Writing.descriptor_reads (writing_legal named) spelled (.inl total)
  rw [total] at reads
  have run := reads.whole rfl
  rw [writing_text] at run
  exact run

/-- An encoding whose references resolve to themselves is what its text is read as, the whole of
it, and resolves to; and no other such encoding has that text. -/
theorem text_read_back (forest : ScopeForest) (scope : ScopeId) (encoding : Encoding)
    (named : ∀ reference ∈ encoding.references, IsIdentifier reference.ident)
    (grounded : ∀ reference ∈ encoding.references,
      forest.resolve scope reference.ident = .ok reference) :
    (∃ tree : Tree.Descriptor,
      Grammar.Parser.descriptor.run (.ofText encoding.text.toList) =
        some (tree, ⟨Location.start.after encoding.text.toList, []⟩) ∧
      (Grammar.Production.rule .descriptor).read encoding.text = .ok [tree.node] ∧
      ∀ ident, tree.resolve forest scope ident = .accepted encoding) ∧
    ∀ other : Encoding,
      (∀ reference ∈ other.references, IsIdentifier reference.ident) →
      (∀ reference ∈ other.references,
        forest.resolve scope reference.ident = .ok reference) →
      other.text = encoding.text → other = encoding := by
  have read := text_read named
  have resolved := draft_resolves grounded encoding.writing.place 0
  refine ⟨⟨encoding.tree, read, ?_, resolved⟩, ?_⟩
  · exact Grammar.read_front_of_run (Grammar.Parser.run_bind_some read)
  · intro other otherNamed otherGrounded same
    have otherRead := text_read otherNamed
    rw [same, read, Option.some.injEq, Prod.mk.injEq] at otherRead
    have sameTree : encoding.tree = other.tree := otherRead.1
    have otherResolved : other.tree.resolve forest scope "" = .accepted other :=
      draft_resolves otherGrounded other.writing.place 0 ""
    rw [← sameTree] at otherResolved
    exact Checked.accepted.inj (otherResolved.symm.trans (resolved ""))

/-- Both sizes are read from fields, and each element has bytes in an order. -/
def fielded : Encoding :=
  ⟨.signed, ⟨.field ⟨⟨0⟩, "width"⟩, .bytes (some .little)⟩, .field ⟨⟨1⟩, "count"⟩⟩

/-- The field with the width stands outside, that with the count inside. -/
def fieldedForest : ScopeForest :=
  ⟨[⟨none, [.always "width" (.ofParts .unsigned none none)]⟩,
    ⟨some ⟨0⟩, [.always "count" (.ofParts .unsigned none none)]⟩]⟩

theorem fielded_read_back :
    fielded.text = "sint : &width bytes le : &count" ∧
      (∃ tree : Tree.Descriptor,
        (Grammar.Production.rule .descriptor).read fielded.text = .ok [tree.node] ∧
        ∀ ident, tree.resolve fieldedForest ⟨1⟩ ident = .accepted fielded) ∧
      (∀ reference ∈ fielded.references,
        fieldedForest.resolve ⟨1⟩ reference.ident = .ok reference) := by
  have grounded : ∀ reference ∈ fielded.references,
      fieldedForest.resolve ⟨1⟩ reference.ident = .ok reference := by decide
  obtain ⟨⟨tree, _, read, resolved⟩, _⟩ :=
    text_read_back fieldedForest ⟨1⟩ fielded (by decide) grounded
  exact ⟨by decide, ⟨tree, read, resolved⟩, grounded⟩

end Encoding

end PacketSchema
