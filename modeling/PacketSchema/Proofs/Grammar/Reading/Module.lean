import PacketSchema.Proofs.Grammar.Drafting
import PacketSchema.Proofs.Grammar.Reading.Statement

/-!
# Every schema can be read

However the lexemes of a schema are written as a text, the text is read, and what is read is the
tree of the schema with the places where the lexemes are written.
-/

namespace PacketSchema

namespace Grammar.Writing

open PacketSchema.Draft

variable {writing : Writing} {start : Nat} (legal : writing.Legal)

include legal

theorem condition_option_reads {condition : Option Draft.Disjunction} {bound : Nat}
    (small : (conditionLexemes condition).length ≤ bound)
    (spelled : writing.Holds start (conditionLexemes condition))
    (ends : writing.lexemes[start + (conditionLexemes condition).length]? =
      some (.mark .openBrace)) :
    writing.Reads (Parser.option (Parser.guard bound)) start
      (condition.map (Disjunction.tree writing.place (start + 1)))
      (start + (conditionLexemes condition).length) := by
  cases condition with
  | none =>
      have no_guard : writing.Refuses (Parser.mark Mark.openGroup.text) start :=
        mark_refused legal ends (by decide)
      exact no_guard.bind.option
  | some condition =>
      rw [conditionLexemes, parenthesized_length] at small
      exact (guard_reads legal (by omega) spelled).option

theorem inheritance_reads {clause : Draft.Inheritance} {bound : Nat}
    (small : clause.lexemes.length ≤ bound) (spelled : writing.Holds start clause.lexemes)
    (ends : writing.lexemes[start + clause.lexemes.length]? = some (.mark .openBrace)) :
    writing.Reads (Parser.inheritance bound) start (clause.tree writing.place start)
      (start + clause.lexemes.length) := by
  obtain ⟨colon, parent, guard⟩ := spelled
  have total : clause.lexemes.length = 2 + (conditionLexemes clause.condition).length := by
    rw [Inheritance.lexemes, annexed, List.length_cons, List.length_cons]
    omega
  rw [total, ← Nat.add_assoc] at ends ⊢
  apply Reads.named
  apply reads_here.bind
  apply (mark_reads legal colon).bind
  apply (ident_reads legal parent).bind
  apply (condition_option_reads legal (by omega) guard ends).bind
  exact reads_pure

theorem inheritance_option_reads {clause : Option Draft.Inheritance} {bound : Nat}
    (small : (inheritanceLexemes clause).length ≤ bound)
    (spelled : writing.Holds start (inheritanceLexemes clause))
    (ends : writing.lexemes[start + (inheritanceLexemes clause).length]? =
      some (.mark .openBrace)) :
    writing.Reads (Parser.option (Parser.inheritance bound)) start
      (clause.map (Inheritance.tree writing.place start))
      (start + (inheritanceLexemes clause).length) := by
  cases clause with
  | none =>
      have no_colon : writing.Refuses (Parser.mark Mark.colon.text) start :=
        mark_refused legal ends (by decide)
      apply Refuses.option
      apply Refuses.named
      apply reads_here.bind_refuses
      exact no_colon.bind
  | some clause => exact (inheritance_reads legal small spelled ends).option

theorem packet_reads {packet : Draft.Packet} {bound : Nat} (small : packet.lexemes.length ≤ bound)
    (spelled : writing.Holds start packet.lexemes) :
    writing.Reads (Parser.packet bound) start (packet.tree writing.place start)
      (start + packet.lexemes.length) := by
  obtain ⟨name, tail⟩ := spelled
  obtain ⟨clause, braces⟩ := holds_append.mp tail
  have total : packet.lexemes.length = 1 + (inheritanceLexemes packet.inheritance).length +
      (Draft.braced (blockLexemes packet.body)).length := by
    rw [Packet.lexemes, List.length_cons, List.length_append]
    omega
  rw [total, braced_length] at small
  rw [total, ← Nat.add_assoc, ← Nat.add_assoc]
  apply Reads.named
  apply (ident_reads legal name).bind
  apply (inheritance_option_reads legal (by omega) clause braces.1).bind
  apply (body_reads legal (block_reads legal bound) (by omega) braces).bind
  exact reads_pure

theorem packets_read {packets : List Draft.Packet} {bound : Nat}
    (small : (packetLexemes packets).length ≤ bound)
    (spelled : writing.Holds start (packetLexemes packets)) :
    writing.ReadsAll (Parser.packet bound) start (packetTrees writing.place start packets)
      (start + (packetLexemes packets).length) := by
  induction packets generalizing start with
  | nil => exact .nil
  | cons packet rest later =>
      obtain ⟨first, others⟩ := holds_append.mp spelled
      rw [packetLexemes, List.length_append] at small
      rw [packetLexemes, List.length_append, ← Nat.add_assoc]
      have onward : 0 < packet.lexemes.length := Nat.succ_pos _
      exact .cons (by omega) (packet_reads legal (by omega) first) (later (by omega) others)

omit legal in
theorem packet_refused_at_end (writing : Writing) (bound : Nat) :
    writing.Refuses (Parser.packet bound) writing.lexemes.length := by
  apply Refuses.named
  exact (ident_refused_at_end writing).bind

/-- The margin and all lexemes of the schema are read, and then the text is at its end. -/
theorem module_reads {schema : Draft.Module} {bound : Nat}
    (spelled : writing.lexemes = schema.lexemes) (small : schema.lexemes.length ≤ bound) :
    (Parser.module bound).run (.ofText writing.text) =
      some (schema.tree writing.place, writing.cursor writing.lexemes.length) := by
  have holds : writing.Holds 0 schema.lexemes := holds_of_drop (by rw [List.drop_zero, spelled])
  have all := packets_read legal small holds
  have count : 0 + (packetLexemes schema.packets).length = writing.lexemes.length := by
    rw [spelled, Nat.zero_add]
    rfl
  rw [count] at all
  have packets : writing.Reads (Parser.many bound (Parser.packet bound)) 0
      (packetTrees writing.place 0 schema.packets) writing.lexemes.length :=
    all.many (packet_refused_at_end writing bound) (by rw [spelled]; omega)
  have body : writing.Reads (do
      let packets ← Parser.many bound (Parser.packet bound)
      let finish ← Parser.endOfInput
      return (⟨packets, finish⟩ : Tree.Module)) 0
      (schema.tree writing.place) writing.lexemes.length := by
    apply packets.bind
    apply (end_reads writing).bind
    rw [Module.tree, ← spelled]
    exact reads_pure
  have gap : Parser.gap.run (.ofText writing.text) = some ((), writing.cursor 0) := by
    rw [← legal.after_margin]
    rfl
  rw [Parser.module, Parser.run_named, Parser.run_bind_some gap]
  exact body.run

end Grammar.Writing

open Grammar in
/-- Every schema is read from every text that its lexemes are written as, and what is read is its
tree, with the places where they are written. But for empty statements the tree says all that the
schema says. -/
theorem Grammar.parse_written {schema : Draft.Module} {writing : Writing} {source : String}
    (legal : writing.Legal) (spelled : writing.lexemes = schema.lexemes)
    (written : source.toList = writing.text) :
    Grammar.parse source = .ok (schema.tree writing.place) ∧
      (schema.tree writing.place).draft = schema.condensed := by
  have enough : schema.lexemes.length ≤ boundOf writing.text := by
    have fewer := legal.length_le_text
    rw [← spelled, boundOf]
    omega
  refine ⟨?_, schema.draft_tree writing.place⟩
  rw [parse_eq_ok_iff, written]
  exact ⟨_, Writing.module_reads legal spelled enough⟩

def sampleSchema : Draft.Module where
  packets := [
    { ident := "p"
      inheritance := some ⟨"q", some (.mk (.mk (.operand (.value (.integer "1"))) []) [])⟩
      body := [
        .always "a" ⟨.unsigned, some ⟨.integer "0x2", .bytes (some .big)⟩, some (.reference "n")⟩,
        .optional "o"
          (.mk (.mk (.compare (.negation (.value (.reference "a"))) .greater
              (.group (.mk (.mk (.operand (.value (.integer "7"))) []) []))) [])
            [.mk (.operand (.value (.reference "a"))) []])
          [.empty],
        .union "v" [] (some (.mk ⟨"t", "0"⟩ []))] }]

def sampleWriting : Grammar.Writing :=
  .evenly ['/', '*', '*', '/'] sampleSchema.lexemes

theorem sample_schema_parsed :
    Grammar.parse ("/**/p/**/:q/**/(1/**/)\x7b" ++
        "always/**/a/**/uint/**/:0x2/**/bytes/**/be/**/:&n/**/;" ++
        "optional/**/o/**/when/**/(!&a/**/>(7/**/)||&a/**/)\x7b;\x7d" ++
        "variable/**/v/**/\x7botherwise/**/|t/**/:0/**/|\x7b\x7d\x7d\x7d") =
      .ok (sampleSchema.tree sampleWriting.place) ∧
    (sampleSchema.tree sampleWriting.place).draft = sampleSchema.condensed := by
  apply Grammar.parse_written
  · apply Grammar.Writing.evenly_legal
    · exact @Grammar.IsGap.block [] [] (by decide) .nil
    · decide
    · decide
  · exact Grammar.Writing.lexemes_evenly _ _
  · decide +kernel

end PacketSchema
