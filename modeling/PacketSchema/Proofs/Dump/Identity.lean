import PacketSchema.Proofs.Dump.Legible
import PacketSchema.Proofs.Dump.Twin
import PacketSchema.Proofs.Image.Edges
import PacketSchema.Proofs.Image.Faithful

/-!
# A dump identifies its schema

Schemas of texts without faults have the same dump exactly where they are the same. The dump tells
the outline of the tree; images of one outline read alike; and owners of references and edges,
which no reading shows, are determined by what it shows.
-/

namespace PacketSchema

structure PacketReading where
  ident : String
  parent : Option PacketId
  condition : Option Formula
  scope : ScopeId
deriving DecidableEq, Repr

def Packet.reading (packet : Packet) : PacketReading :=
  ⟨packet.ident, packet.parent, packet.condition.map Condition.formula, packet.scope⟩

namespace Tree

variable {schema other : Schema}

theorem Packet.parts_of_outline {packet twin : Packet} (same : packet.outline = twin.outline) :
    packet.heading = twin.heading ∧ blockOutlines packet.body = blockOutlines twin.body := by
  rw [Packet.outline, Packet.outline, Outline.node.injEq] at same
  exact same

/-- Packets of one outline, one by one, with the records of each in two schemas. -/
inductive Paired (schema other : Schema) :
    Nat → List Packet → List PacketSchema.Packet → List PacketSchema.Packet → Prop
  | nil (next : Nat) : Paired schema other next [] [] []
  | cons {next : Nat} {packet twin : Packet} {rest : List Packet}
      {record present : PacketSchema.Packet} {records presents : List PacketSchema.Packet}
      (same : packet.outline = twin.outline) (built : packet.BuiltAs schema next record)
      (also : twin.BuiltAs other next present)
      (later : Paired schema other (next + packet.blocks) rest records presents) :
      Paired schema other next (packet :: rest) (record :: records) (present :: presents)

theorem paired {packets twins : List Packet} {next : Nat}
    {records presents : List PacketSchema.Packet}
    (same : packets.map Packet.outline = twins.map Packet.outline)
    (built : packetsBuiltAs schema next packets records)
    (also : packetsBuiltAs other next twins presents) :
    Paired schema other next packets records presents := by
  induction packets generalizing twins next records presents with
  | nil =>
      cases twins with
      | cons => cases same
      | nil =>
          rw [packets_built_nil_iff.mp built, packets_built_nil_iff.mp also]
          exact .nil next
  | cons packet rest later =>
      cases twins with
      | nil => cases same
      | cons twin more =>
          rw [List.map_cons, List.map_cons, List.cons.injEq] at same
          obtain ⟨record, records, rfl, here, inside⟩ := packets_built_cons_iff.mp built
          obtain ⟨present, presents, rfl, there, within⟩ := packets_built_cons_iff.mp also
          rw [twin.blocks_eq, ← same.1, ← packet.blocks_eq] at within
          exact .cons same.1 here there (later same.2 inside within)

theorem Paired.named_alike {packets : List Packet} {next : Nat}
    {records presents : List PacketSchema.Packet}
    (paired : Paired schema other next packets records presents) :
    records.map PacketSchema.Packet.ident = presents.map PacketSchema.Packet.ident ∧
      records.map PacketSchema.Packet.scope = presents.map PacketSchema.Packet.scope := by
  induction paired with
  | nil => exact ⟨rfl, rfl⟩
  | cons same built also _ later =>
      have headings := (Packet.parts_of_outline same).1
      rw [Packet.heading, Packet.heading, Heading.packet.injEq] at headings
      simp only [List.map_cons, built.ident, also.ident, headings.1, built.scope, also.scope, later,
        and_self]

/-- Two schemas register the same identifiers with the same scopes, each once. -/
structure SameNames (schema other : Schema) : Prop where
  idents : schema.packets.map PacketSchema.Packet.ident =
    other.packets.map PacketSchema.Packet.ident
  scopes : schema.packets.map PacketSchema.Packet.scope =
    other.packets.map PacketSchema.Packet.scope
  distinct : (schema.packets.map PacketSchema.Packet.ident).Nodup

/-- Then a clause names one packet in both. -/
theorem SameNames.id_eq (names : SameNames schema other) {id second : PacketId}
    {parent twin : PacketSchema.Packet} (found : schema.packet? id = some parent)
    (also : other.packet? second = some twin) (same : parent.ident = twin.ident) :
    id = second ∧ parent.scope = twin.scope := by
  have first := Schema.ident_at found
  have last := Schema.ident_at also
  rw [Schema.idents] at first last
  rw [← names.idents, ← same, ← first] at last
  have bound := (List.getElem?_eq_some_iff.mp first).1
  have index : id.index = second.index := (List.getElem?_inj bound names.distinct).mp last.symm
  have number : id = second := by
    cases id
    cases second
    exact congrArg PacketId.mk index
  refine ⟨number, ?_⟩
  have here : (schema.packets.map PacketSchema.Packet.scope)[id.index]? = some parent.scope := by
    rw [List.getElem?_map, ← Schema.packet?, found, Option.map_some]
  have there : (other.packets.map PacketSchema.Packet.scope)[second.index]? = some twin.scope := by
    rw [List.getElem?_map, ← Schema.packet?, also, Option.map_some]
  rw [names.scopes, index, there] at here
  exact (Option.some.inj here).symm

/-- What a record has from its clause is told by the heading. -/
theorem linked_alike (names : SameNames schema other) {packet twin : Packet}
    {record present : PacketSchema.Packet} (headings : packet.heading = twin.heading)
    (linked : packet.LinkedAs schema record) (also : twin.LinkedAs other present) :
    record.parent = present.parent ∧
      record.condition.map Condition.formula = present.condition.map Condition.formula ∧
      (record.parent.bind schema.packet?).map PacketSchema.Packet.scope =
        (present.parent.bind other.packet?).map PacketSchema.Packet.scope := by
  rw [Packet.heading, Packet.heading, Heading.packet.injEq] at headings
  unfold Packet.LinkedAs at linked also
  cases written : packet.inheritance with
  | none =>
      cases twinWritten : twin.inheritance with
      | some clause =>
          rw [written, twinWritten] at headings
          cases headings.2.1
      | none =>
          rw [written] at linked
          rw [twinWritten] at also
          rw [linked.1, linked.2, also.1, also.2]
          exact ⟨rfl, rfl, rfl⟩
  | some clause =>
      cases twinWritten : twin.inheritance with
      | none =>
          rw [written, twinWritten] at headings
          cases headings.2.1
      | some second =>
          rw [written, twinWritten] at headings
          rw [written] at linked
          rw [twinWritten] at also
          rcases linked with ⟨id, parent, own, found, named, reads⟩
          rcases also with ⟨twinId, twinParent, twinOwn, twinFound, twinNamed, twinReads⟩
          have parents : parent.ident = twinParent.ident := by
            rw [named, twinNamed]
            exact Option.some.inj headings.2.1
          rcases names.id_eq found twinFound parents with ⟨rfl, scopes⟩
          refine ⟨own.trans twinOwn.symm, ?_, ?_⟩
          · rw [reads, twinReads]
            exact headings.2.2
          · rw [own, twinOwn, Option.bind_some, Option.bind_some, found, twinFound,
              Option.map_some, Option.map_some, scopes]

theorem Packet.twins (names : SameNames schema other) {packet twin : Packet} {next : Nat}
    {record present : PacketSchema.Packet} (same : packet.outline = twin.outline)
    (built : packet.BuiltAs schema next record) (also : twin.BuiltAs other next present) :
    record.reading = present.reading ∧
      SameScopes schema.forest other.forest next (next + packet.blocks) := by
  rcases Packet.parts_of_outline same with ⟨headings, bodies⟩
  rcases linked_alike names headings built.linked also.linked with ⟨parents, reads, scopes⟩
  rw [Packet.heading, Packet.heading, Heading.packet.injEq] at headings
  rcases built.body with ⟨fields, found, inside⟩
  rcases also.body with ⟨presents, there, within⟩
  rcases block_twins packet.body twin.body bodies inside within with ⟨alike, inner⟩
  constructor
  · rw [PacketSchema.Packet.reading, PacketSchema.Packet.reading, built.ident, also.ident,
      headings.1, parents, reads, built.scope, also.scope]
  · rw [← scopes] at there
    exact inner.block found there alike

theorem Paired.twins (names : SameNames schema other) {packets : List Packet} {next : Nat}
    {records presents : List PacketSchema.Packet}
    (paired : Paired schema other next packets records presents) :
    records.map PacketSchema.Packet.reading = presents.map PacketSchema.Packet.reading ∧
      SameScopes schema.forest other.forest next (next + packetBlocks packets) := by
  induction paired with
  | nil next => exact ⟨rfl, .none _ _ next⟩
  | cons same built also _ later =>
      rcases Packet.twins names same built also with ⟨reads, scopes⟩
      constructor
      · rw [List.map_cons, List.map_cons, reads, later.1]
      · rw [packetBlocks, ← Nat.add_assoc]
        exact scopes.append later.2

/-- Images of one outline read alike. -/
theorem Module.twins {tree twin : Module} (same : tree.outlines = twin.outlines)
    (built : tree.BuiltAs schema) (also : twin.BuiltAs other) :
    schema.packets.map PacketSchema.Packet.reading =
        other.packets.map PacketSchema.Packet.reading ∧
      schema.forest.Alike other.forest := by
  have paired := paired same built.packets also.packets
  rcases paired.named_alike with ⟨idents, scopes⟩
  rcases paired.twins ⟨idents, scopes, built.distinct⟩ with ⟨reads, scopesAlike⟩
  have sizes : packetBlocks tree.packets = packetBlocks twin.packets := by
    rw [packet_blocks_eq, packet_blocks_eq]
    exact congrArg outlineBlocks same
  have size : schema.forest.size = other.forest.size := by
    rw [built.size, also.size, sizes]
  refine ⟨reads, size, ?_⟩
  intro id
  by_cases issued : id.index < schema.forest.size
  · apply scopesAlike id.index (Nat.zero_le _)
    rw [Nat.zero_add, ← built.size]
    exact issued
  · have absent : ¬schema.forest.Issued id := issued
    have twinAbsent : ¬other.forest.Issued id := by
      rw [ScopeForest.Issued, ← size]
      exact issued
    rw [ScopeForest.scope_none_of_not_issued absent,
      ScopeForest.scope_none_of_not_issued twinAbsent]

end Tree

namespace Schema

variable {schema other : Schema}

theorem packet_alike
    (reads : schema.packets.map Packet.reading = other.packets.map Packet.reading)
    {id : PacketId} {record : Packet} (found : schema.packet? id = some record) :
    ∃ present, other.packet? id = some present ∧ present.reading = record.reading := by
  have here : (schema.packets.map Packet.reading)[id.index]? = some record.reading := by
    rw [List.getElem?_map, ← packet?, found, Option.map_some]
  rw [reads, List.getElem?_map, ← packet?] at here
  exact Option.map_eq_some_iff.mp here

theorem map_eq_of_reads {Item : Type} (part : Packet → Item)
    (reads : schema.packets.map Packet.reading = other.packets.map Packet.reading)
    (agree : ∀ id record present, schema.packet? id = some record →
      other.packet? id = some present → present.reading = record.reading →
      part record = part present) : schema.packets.map part = other.packets.map part := by
  apply List.ext_getElem?
  intro index
  rw [List.getElem?_map, List.getElem?_map]
  cases found : schema.packets[index]? with
  | none =>
      have absent : (schema.packets.map Packet.reading)[index]? = none := by
        rw [List.getElem?_map, found, Option.map_none]
      rw [reads, List.getElem?_map] at absent
      rw [Option.map_eq_none_iff.mp absent]
  | some record =>
      have known : schema.packet? ⟨index⟩ = some record := found
      rcases packet_alike reads known with ⟨present, there, same⟩
      have here : other.packets[index]? = some present := there
      rw [here, Option.map_some, Option.map_some, agree _ record present known there same]

/-- Conditions of packets are about the fields of the parent, so they are told by how they read. -/
theorem condition_alike (grounded : schema.Grounded) (otherGrounded : other.Grounded)
    (forests : schema.forest = other.forest)
    (reads : schema.packets.map Packet.reading = other.packets.map Packet.reading)
    {record present : Packet} (member : record ∈ schema.packets)
    (presentMember : present ∈ other.packets) (same : present.reading = record.reading) :
    present.condition = record.condition := by
  have formulas : present.condition.map Condition.formula =
      record.condition.map Condition.formula := congrArg PacketReading.condition same
  have parents : present.parent = record.parent := congrArg PacketReading.parent same
  cases written : record.condition with
  | none =>
      rw [written, Option.map_none] at formulas
      exact Option.map_eq_none_iff.mp formulas
  | some condition =>
      rw [written, Option.map_some] at formulas
      rcases Option.map_eq_some_iff.mp formulas with ⟨found, own, formula⟩
      rcases grounded.packets record member condition written with ⟨id, parent, linked, here, holds⟩
      rcases otherGrounded.packets present presentMember found own with
        ⟨second, twin, twinLinked, there, twinHolds⟩
      rw [parents, linked] at twinLinked
      cases twinLinked
      rcases packet_alike reads here with ⟨above, also, aboveReads⟩
      rw [also] at there
      cases there
      have scopes : twin.scope = parent.scope := congrArg PacketReading.scope aboveReads
      rw [← forests, scopes] at twinHolds
      rw [own, ScopeForest.condition_eq_of_formula twinHolds holds formula]

/-- Grounded schemas that read alike, and whose edges are those of their packets, are the same. -/
theorem eq_of_alike (grounded : schema.Grounded) (otherGrounded : other.Grounded)
    (edged : schema.Edged) (otherEdged : other.Edged)
    (reads : schema.packets.map Packet.reading = other.packets.map Packet.reading)
    (alike : schema.forest.Alike other.forest) : schema = other := by
  have forests := alike.eq grounded.fields otherGrounded.fields
  have conditions : ∀ id record present, schema.packet? id = some record →
      other.packet? id = some present → present.reading = record.reading →
      record.condition = present.condition :=
    fun _ _ _ found there same => (condition_alike grounded otherGrounded forests reads
      (mem_of_packet found) (mem_of_packet there) same).symm
  have derived : schema.derived = other.derived := by
    apply map_eq_of_reads _ reads
    intro id record present found there same
    have parents : present.parent = record.parent := congrArg PacketReading.parent same
    rw [conditions id record present found there same, parents]
  have packets : schema.packets.map (fun packet => packet) =
      other.packets.map fun packet => packet := by
    apply map_eq_of_reads _ reads
    intro id record present found there same
    have idents : present.ident = record.ident := congrArg PacketReading.ident same
    have parents : present.parent = record.parent := congrArg PacketReading.parent same
    have scopes : present.scope = record.scope := congrArg PacketReading.scope same
    have condition := conditions id record present found there same
    have children : record.children = present.children := by
      rw [edged.children id record found, otherEdged.children id present there, derived]
    cases record
    cases present
    simp only at idents parents scopes condition children
    rw [idents, parents, scopes, condition, children]
  rw [List.map_id', List.map_id'] at packets
  cases schema
  cases other
  simp only at packets forests
  rw [packets, forests]

end Schema

/-- Schemas of texts without faults have dumps, and the dumps are one text exactly where the
schemas are the same. -/
theorem compile_dump_eq_iff {firstFast lastFast : Bool} {first last : String}
    {schema other : Schema} (valid : compile firstFast first = .ok ⟨schema, []⟩)
    (otherValid : compile lastFast last = .ok ⟨other, []⟩) :
    ∃ text otherText, schema.dump = .ok text ∧ other.dump = .ok otherText ∧
      (text = otherText ↔ schema = other) := by
  rcases exists_faultless valid with ⟨tree, parsed, answered⟩
  rcases exists_faultless otherValid with ⟨twin, twinParsed, twinAnswered⟩
  have built := Tree.Module.built_as answered
  have twinBuilt := Tree.Module.built_as twinAnswered
  refine ⟨_, _, built.dump_eq, twinBuilt.dump_eq, ?_⟩
  constructor
  · intro listings
    have legible := Tree.Module.all_legible (Grammar.parse_regular parsed)
    have twinLegible := Tree.Module.all_legible (Grammar.parse_regular twinParsed)
    have outlines : tree.outlines = twin.outlines :=
      outlines_of_listing legible twinLegible listings
    rcases Tree.Module.twins outlines built twinBuilt with ⟨reads, alike⟩
    exact Schema.eq_of_alike (compile_grounded valid) (compile_grounded otherValid)
      (compile_edged valid) (compile_edged otherValid) reads alike
  · intro same
    have dumps := twinBuilt.dump_eq
    rw [← same, built.dump_eq, Except.ok.injEq] at dumps
    exact dumps

/-- Two texts of one schema, and one of another. -/
def plainText : String :=
  "A" ++ braced "always n uint:1 bytes;" ++
  "B:A(&n==1)" ++ braced ("optional o when(&n)" ++ braced "")

def spelledText : String :=
  "A" ++ braced "always n uint:1;;" ++
  "B:A((&n)==0x01)" ++ braced ("optional o when((&n))" ++ braced "")

def widerText : String := "A" ++ braced "always n uint:2 bytes;"

def plainSchema : Schema where
  packets :=
    [⟨"A", none, none, ⟨0⟩, [⟨⟨1⟩, some (.relation .equal (.field ⟨⟨0⟩, "n"⟩) (.integer 1))⟩]⟩,
      ⟨"B", some ⟨0⟩, some (.relation .equal (.field ⟨⟨0⟩, "n"⟩) (.integer 1)), ⟨1⟩, []⟩]
  forest :=
    ⟨[⟨none, [.always "n" ⟨.unsigned, .oneByte, .one⟩]⟩,
      ⟨some ⟨0⟩, [.optional "o" (.field ⟨⟨0⟩, "n"⟩) ⟨2⟩]⟩, ⟨some ⟨1⟩, []⟩]⟩

theorem plain_text_dump :
    ∃ text wider widerDump, plainSchema.dump = .ok text ∧ wider.dump = .ok widerDump ∧
      compile false plainText = .ok ⟨plainSchema, []⟩ ∧
      compile true spelledText = .ok ⟨plainSchema, []⟩ ∧
      compile false widerText = .ok ⟨wider, []⟩ ∧ text ≠ widerDump := by
  have plainPassed : (compile false plainText).toOption.any (fun compilation =>
      compilation.diagnostics = [] ∧ compilation.schema = plainSchema) = true := by
    decide +kernel
  have spelledPassed : (compile true spelledText).toOption.any (fun compilation =>
      compilation.diagnostics = [] ∧ compilation.schema = plainSchema) = true := by
    decide +kernel
  have widerPassed : (compile false widerText).toOption.any (fun compilation =>
      compilation.diagnostics = [] ∧ compilation.schema ≠ plainSchema) = true := by
    decide +kernel
  rcases exists_compiled plainPassed with ⟨⟨schema, diagnostics⟩, plain, tested⟩
  rcases of_decide_eq_true tested with ⟨rfl, rfl⟩
  rcases exists_compiled spelledPassed with ⟨⟨other, problems⟩, spelled, compared⟩
  rcases of_decide_eq_true compared with ⟨rfl, rfl⟩
  rcases exists_compiled widerPassed with ⟨⟨wider, others⟩, wide, distinguished⟩
  rcases of_decide_eq_true distinguished with ⟨rfl, different⟩
  rcases compile_dump_eq_iff plain wide with ⟨text, widerDump, dump, otherDump, exact⟩
  exact ⟨text, wider, widerDump, dump, otherDump, plain, spelled, wide,
    fun same => different (exact.mp same).symm⟩

end PacketSchema
