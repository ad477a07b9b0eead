import PacketSchema.Proofs.Grammar.Draft
import PacketSchema.Proofs.Grammar.Reads

/-!
# Descriptors can be read

However the lexemes of a descriptor are written, the descriptor is read. A value without a unit is
no width but a count, which shows only behind the value; what may be missing is left off where a
semicolon stands or the text ends.
-/

namespace PacketSchema.Grammar.Writing

open PacketSchema.Draft

variable {writing : Writing} {start : Nat} (legal : writing.Legal)

include legal

theorem meaning_reads {Item : Type} {keyword : Keyword} {item : Item}
    (found : writing.lexemes[start]? = some (.keyword keyword)) :
    writing.Reads (Parser.meaning keyword item) start item (start + 1) := by
  apply (reserved_reads legal found).bind
  exact reads_pure

/-- A value begins with a digit or with an ampersand. -/
theorem value_begins {value : Value}
    (found : writing.lexemes[start]? = some value.lexeme) {character : Char}
    (first : value.lexeme.text.head? = some character) :
    isWordCharacter character = true ∨ character = '&' := by
  obtain ⟨tail, meets⟩ := legal.meets found
  have shaped := meets.legal
  cases value with
  | integer numeral => exact .inl (IsNumeral.within shaped character (List.mem_of_mem_head? first))
  | reference name =>
      cases first
      exact .inr rfl

theorem value_reads {value : Value} (found : writing.lexemes[start]? = some value.lexeme) :
    writing.Reads Parser.value start (value.tree writing.place start) (start + 1) := by
  apply Reads.named
  cases value with
  | integer numeral =>
      apply Reads.first
      apply (integer_reads legal found).bind
      exact reads_pure
  | reference name =>
      have no_integer : writing.Refuses Parser.integer start := by
        apply integer_refused legal found
        intro character first
        cases first
        decide
      apply Reads.second _ no_integer.bind
      apply (reference_reads legal found).bind
      exact reads_pure

theorem order_reads {order : ByteOrder}
    (found : writing.lexemes[start]? = some (.keyword (orderKeyword order))) :
    writing.Reads Parser.byteOrder start ⟨writing.place start, order⟩ (start + 1) := by
  apply Reads.located
  apply Reads.named
  cases order with
  | big =>
      apply Reads.first
      exact meaning_reads legal found
  | little =>
      apply Reads.second (meaning_reads legal found)
      exact (reserved_refused_at_keyword legal found (by decide)).bind

theorem order_refused {marks : List Mark} (stops : writing.Stops start marks) :
    writing.Refuses Parser.byteOrder start := by
  apply Refuses.located
  apply Refuses.named
  apply Refuses.both
  · exact (reserved_refused_at_stop legal stops).bind
  · exact (reserved_refused_at_stop legal stops).bind

theorem unit_reads {unit : WidthUnit} {marks : List Mark}
    (spelled : writing.Holds start (unitLexemes unit))
    (ends : writing.Stops (start + (unitLexemes unit).length) marks) :
    writing.Reads Parser.unit start
      ⟨writing.place start, unitTree writing.place start unit⟩
      (start + (unitLexemes unit).length) := by
  apply Reads.located
  apply Reads.named
  cases unit with
  | bits =>
      obtain ⟨word, -⟩ := spelled
      apply Reads.first
      apply Reads.named
      exact meaning_reads legal word
  | bytes order =>
      obtain ⟨word, later⟩ := spelled
      have no_bits : writing.Refuses Parser.bits start :=
        (reserved_refused_at_keyword legal word (by decide)).bind.named _
      apply Reads.second _ no_bits
      apply Reads.named
      apply (reserved_reads legal word).bind
      cases order with
      | none =>
          apply (order_refused legal ends).option.bind
          exact reads_pure
      | some order =>
          apply (order_reads legal later.1).option.bind
          exact reads_pure

theorem unit_refused {marks : List Mark} (stops : writing.Stops start marks) :
    writing.Refuses Parser.unit start := by
  apply Refuses.located
  apply Refuses.named
  apply Refuses.both
  · exact (reserved_refused_at_stop legal stops).bind.named _
  · exact (reserved_refused_at_stop legal stops).bind.named _

theorem scalar_reads {scalar : ScalarType}
    (found : writing.lexemes[start]? = some (scalarLexeme scalar)) :
    writing.Reads Parser.scalarType start ⟨writing.place start, scalar⟩ (start + 1) := by
  apply Reads.located
  apply Reads.named
  cases scalar with
  | ignored =>
      apply Reads.first
      apply (mark_reads legal found).bind
      exact reads_pure
  | signed =>
      have no_mark : writing.Refuses (Parser.mark Mark.ignored.text) start :=
        mark_refused legal found (by decide)
      apply Reads.second _ no_mark.bind
      apply Reads.first
      exact meaning_reads legal found
  | unsigned =>
      have no_mark : writing.Refuses (Parser.mark Mark.ignored.text) start :=
        mark_refused legal found (by decide)
      apply Reads.second _ no_mark.bind
      apply Reads.second (meaning_reads legal found)
      exact (reserved_refused_at_keyword legal found (by decide)).bind

theorem width_reads {width : Draft.Width} {marks : List Mark}
    (spelled : writing.Holds start width.lexemes)
    (ends : writing.Stops (start + width.lexemes.length) marks) :
    writing.Reads Parser.width start (width.tree writing.place start)
      (start + width.lexemes.length) := by
  obtain ⟨count, unit⟩ := spelled
  have total : start + width.lexemes.length = start + 1 + (unitLexemes width.unit).length := by
    rw [Width.lexemes, List.length_cons]
    omega
  rw [total] at ends ⊢
  apply Reads.named
  apply (value_reads legal count).bind
  apply (unit_reads legal unit ends).bind
  exact reads_pure

/-- A value without a unit is no width. -/
theorem width_refused {value : Draft.Value} {marks : List Mark}
    (count : writing.lexemes[start]? = some value.lexeme)
    (ends : writing.Stops (start + 1) marks) :
    writing.Refuses Parser.width start := by
  apply Refuses.named
  apply (value_reads legal count).bind_refuses
  exact (unit_refused legal ends).bind

theorem after_colon_reads {Item : Type} {parser : Parser Item} {item : Item} {finish : Nat}
    (colon : writing.lexemes[start]? = some (.mark .colon))
    (reads : writing.Reads parser (start + 1) item finish) :
    writing.Reads (Parser.afterColon parser) start item finish :=
  (mark_reads legal colon).bind reads

theorem after_colon_refused {Item : Type} {parser : Parser Item}
    (stops : writing.Stops start [.semicolon]) :
    writing.Refuses (Parser.afterColon parser) start := by
  have no_colon : writing.Refuses (Parser.mark Mark.colon.text) start :=
    mark_refused_at_stop legal stops (by decide)
  exact no_colon.bind

theorem count_reads {count : Option Draft.Value}
    (spelled : writing.Holds start (countLexemes count))
    (ends : writing.Stops (start + (countLexemes count).length) [.semicolon]) :
    writing.Reads (Parser.option (Parser.afterColon Parser.value)) start
      (count.map (Value.tree writing.place (start + 1))) (start + (countLexemes count).length) := by
  cases count with
  | none =>
      exact (after_colon_refused legal ends).option
  | some count =>
      obtain ⟨colon, value, -⟩ := spelled
      exact (after_colon_reads legal colon (value_reads legal value)).option

/-- A width is read where there is one, and a count without a unit is left for later. -/
theorem width_option_reads {width : Option Draft.Width} {count : Option Draft.Value}
    (spelled : writing.Holds start (widthLexemes width ++ countLexemes count))
    (ends : writing.Stops (start + (widthLexemes width).length + (countLexemes count).length)
      [.semicolon]) :
    writing.Reads (Parser.option (Parser.afterColon Parser.width)) start
      (width.map (Width.tree writing.place (start + 1))) (start + (widthLexemes width).length) := by
  cases width with
  | none =>
      apply Refuses.option
      cases count with
      | none => exact after_colon_refused legal ends
      | some count =>
          obtain ⟨colon, value, -⟩ := spelled
          exact (mark_reads legal colon).bind_refuses (width_refused legal value ends)
  | some width =>
      obtain ⟨annex, later⟩ := holds_append.mp spelled
      obtain ⟨colon, written⟩ := annex
      have follows : writing.Stops (start + (widthLexemes (some width)).length)
          [.colon, .semicolon] := by
        cases count with
        | none => exact ends.mono (by simp)
        | some count => exact (stops_at_mark later.1).mono (by simp)
      have total : start + (widthLexemes (some width)).length =
          start + 1 + width.lexemes.length := by
        rw [widthLexemes, annexed, List.length_cons]
        omega
      rw [total] at follows ⊢
      exact (after_colon_reads legal colon (width_reads legal written follows)).option

theorem descriptor_reads {descriptor : Draft.Descriptor}
    (spelled : writing.Holds start descriptor.lexemes)
    (ends : writing.Stops (start + descriptor.lexemes.length) [.semicolon]) :
    writing.Reads Parser.descriptor start (descriptor.tree writing.place start)
      (start + descriptor.lexemes.length) := by
  obtain ⟨scalar, sizes⟩ := spelled
  have total : start + descriptor.lexemes.length =
      start + 1 + (widthLexemes descriptor.width).length +
        (countLexemes descriptor.count).length := by
    rw [Descriptor.lexemes, List.length_cons, List.length_append]
    omega
  rw [total] at ends ⊢
  apply Reads.named
  apply (scalar_reads legal scalar).bind
  apply (width_option_reads legal sizes ends).bind
  apply (count_reads legal (holds_append.mp sizes).2 ends).bind
  exact reads_pure

end PacketSchema.Grammar.Writing
