import PacketSchema.Dump
import PacketSchema.Proofs.Image.Relation

/-!
# Outlines

What a dump shows: headings, and below each heading what is nested in it. The outline of a tree
leaves out places and the way conditions and numbers are written, and it has no numbers of scopes.
The dump of a schema that is the image of a tree is the listing of that tree's outline, one line
for each heading.
-/

namespace PacketSchema

/-- A number as it shows; what stands for no number shows as a question mark. -/
def numberText (number : Option Int) : String := number.elim "?" toString

namespace Formula

def text : Formula → String
  | .integer number => numberText number
  | .field ident => ident
  | .negation operand => "!" ++ operand.text
  | .relation comparison left right =>
      "(" ++ left.text ++ " " ++ comparison.symbol ++ " " ++ right.text ++ ")"
  | .conjunction connective left right =>
      "(" ++ left.text ++ " " ++ connective.symbol ++ " " ++ right.text ++ ")"

/-- The text of a size, in which a reference keeps its ampersand. -/
def sizeText : Formula → String
  | .field ident => "&" ++ ident
  | other => other.text

end Formula

theorem Condition.text_eq (condition : Condition) : condition.text = condition.formula.text := by
  induction condition with
  | integer value => rfl
  | field reference => rfl
  | negation operand inner => rw [text, inner, formula, Formula.text]
  | relation comparison left right first second =>
      rw [text, first, second, formula, Formula.text]
  | conjunction connective left right first second =>
      rw [text, first, second, formula, Formula.text]

theorem Size.text_eq (size : Size) : size.text = size.formula.sizeText := by
  cases size with
  | literal value => rfl
  | field reference => rfl

theorem Size.eq_one_iff (size : Size) : size = .one ↔ size.formula = .integer (some 1) := by
  cases size with
  | literal value =>
      simp only [one, formula, literal.injEq, Formula.integer.injEq, Option.some.injEq]
      rw [← UInt64.toNat_inj]
      exact Int.ofNat_inj.symm
  | field reference => simp only [one, formula, reduceCtorEq]

/-- A count shows only where it is not the number one. -/
def countText (count : Formula) : String :=
  if count = .integer (some 1) then "" else " : " ++ count.sizeText

def Layout.text (layout : Layout) : String :=
  layout.scalar.keyword ++ " : " ++ layout.width.sizeText ++ " " ++ layout.unit.text ++
    countText layout.count

theorem Encoding.text_eq (encoding : Encoding) : encoding.text = encoding.layout.text := by
  have once := encoding.count.eq_one_iff
  rw [text, Width.text, Layout.text, countText, layout, Size.text_eq, Size.text_eq]
  by_cases omitted : encoding.count = .one
  · rw [if_pos omitted, if_pos (once.mp omitted)]
    simp only [String.append_assoc]
  · rw [if_neg omitted, if_neg fun shown => omitted (once.mpr shown)]
    simp only [String.append_assoc]

inductive Heading where
  | packet (ident : String) (parent : Option String) (condition : Option Formula)
  | always (ident : String) (layout : Layout)
  | optional (ident : String) (condition : Formula)
  | union (ident : String)
  | arm (condition : Option Formula) (label : String) (value : Option Int)
deriving DecidableEq, Repr

def Heading.text : Heading → String
  | .packet ident parent condition =>
      "packet " ++ ident ++ parent.elim "" (" : " ++ ·) ++
        condition.elim "" (" when " ++ Formula.text ·)
  | .always ident layout => "always " ++ ident ++ " " ++ layout.text
  | .optional ident condition => "optional " ++ ident ++ " when " ++ condition.text
  | .union ident => "variable " ++ ident
  | .arm condition label value =>
      condition.elim "otherwise " ("case " ++ Formula.text · ++ " ") ++
        "|" ++ label ++ ": " ++ numberText value ++ "|"

inductive Outline where
  | node (heading : Heading) (inner : List Outline)

structure Entry where
  depth : Nat
  heading : Heading
deriving DecidableEq, Repr

def Entry.line (entry : Entry) : DumpLine := ⟨entry.depth, entry.heading.text⟩

mutual

def Outline.entries (depth : Nat) : Outline → List Entry
  | .node heading inner => ⟨depth, heading⟩ :: outlineEntries (depth + 1) inner

def outlineEntries (depth : Nat) : List Outline → List Entry
  | [] => []
  | outline :: rest => outline.entries depth ++ outlineEntries depth rest

end

def listing (entries : List Entry) : String :=
  String.join (entries.map fun entry => entry.line.written)

namespace Tree

mutual

def Statement.outline : Statement → Outline
  | .always _ ident descriptor => .node (.always ident.item descriptor.layout) []
  | .optional _ ident condition body =>
      .node (.optional ident.item condition.formula) (blockOutlines body)
  | .union _ ident arms => .node (.union ident.item) (armOutlines arms)

def Arm.outline : Arm → Outline
  | .mk _ guard tag body =>
      .node (.arm (selectionFormula guard) tag.label.item ((number? tag.value).map Int.ofNat))
        (blockOutlines body)

def blockOutlines : List Statement → List Outline
  | [] => []
  | statement :: rest => statement.outline :: blockOutlines rest

def armOutlines : List Arm → List Outline
  | [] => []
  | arm :: rest => arm.outline :: armOutlines rest

end

def Packet.heading (packet : Packet) : Heading :=
  .packet packet.ident.item (packet.inheritance.map fun clause => clause.parent.item)
    (packet.inheritance.bind fun clause => selectionFormula clause.condition)

def Packet.outline (packet : Packet) : Outline := .node packet.heading (blockOutlines packet.body)

def Module.outlines (tree : Module) : List Outline := tree.packets.map Packet.outline

end Tree

theorem gather_lines_cons {lines others : List DumpLine}
    {first : Except SchemaError (List DumpLine)}
    {rest : List (Except SchemaError (List DumpLine))} (here : first = .ok lines)
    (later : gatherLines rest = .ok others) :
    gatherLines (first :: rest) = .ok (lines ++ others) := by
  rw [here, gatherLines, later]

theorem Arm.heading_eq {written : Tree.Arm} {arm : Arm} (means : written.Means arm) :
    arm.heading = (Heading.arm (Tree.selectionFormula written.guard) written.tag.label.item
      ((Tree.number? written.tag.value).map Int.ofNat)).text := by
  rw [Heading.text, means.value, ← means.label, ← means.condition, heading, Tag.text]
  cases arm.condition with
  | none => simp only [Option.map_none, Option.elim, numberText, String.append_assoc]
  | some condition =>
      simp only [Option.map_some, Option.elim, numberText, String.append_assoc, Condition.text_eq]

namespace Tree

variable {forest : ScopeForest}

/-- A scope has a larger number than the one around it, so the levels that are left when a walk
comes to it are enough for it and for all scopes below. -/
theorem scope_shown {levels next depth : Nat} {parent : Option ScopeId} {fields : List Field}
    {lines : List DumpLine} (enough : forest.size ≤ next + levels)
    (found : forest.scope? ⟨next⟩ = some ⟨parent, fields⟩)
    (shown : ∀ fewer, forest.size ≤ next + 1 + fewer →
      gatherLines (fields.map (Field.lines (forest.lines fewer) depth)) = .ok lines) :
    forest.lines levels depth ⟨next⟩ = .ok lines := by
  have issued : next < forest.size := ScopeForest.issued_of_scope found
  cases levels with
  | zero => omega
  | succ fewer =>
      rw [ScopeForest.lines, found]
      apply shown
      omega

mutual

theorem Statement.shown : ∀ (statement : Statement) {scope : ScopeId} {levels next depth : Nat}
    {field : Field}, forest.size ≤ next + levels → statement.BuiltAs forest scope next field →
      field.lines (forest.lines levels) depth =
        .ok ((statement.outline.entries depth).map Entry.line)
  | .always _ _ _, _, _, _, _, _, _, built => by
      obtain ⟨encoding, rfl, layout⟩ := always_built_iff.mp built
      rw [Field.lines, encoding.text_eq, layout]
      rfl
  | .optional _ _ _ body, _, levels, next, depth, _, enough, built => by
      obtain ⟨resolved, fields, rfl, reads, found, inside⟩ := optional_built_iff.mp built
      have below : forest.lines levels (depth + 1) ⟨next⟩ = _ :=
        scope_shown enough found fun fewer left => block_shown body left inside
      rw [Field.lines, below, resolved.text_eq, reads]
      rfl
  | .union _ _ arms, _, _, _, _, _, enough, built => by
      obtain ⟨presents, rfl, inside⟩ := union_built_iff.mp built
      rw [Field.lines, arms_shown arms enough inside]
      rfl

theorem Arm.shown : ∀ (arm : Arm) {scope : ScopeId} {levels next depth : Nat}
    {present : PacketSchema.Arm}, forest.size ≤ next + levels →
      arm.BuiltAs forest scope next present →
      underLine ⟨depth, present.heading⟩ (forest.lines levels (depth + 1) present.scope) =
        .ok ((arm.outline.entries depth).map Entry.line)
  | .mk _ guard tag body, _, levels, next, depth, present, enough, built => by
      rw [Arm.BuiltAs] at built
      rcases built with ⟨means, numbered, fields, found, inside⟩
      have below : forest.lines levels (depth + 1) ⟨next⟩ = _ :=
        scope_shown enough found fun fewer left => block_shown body left inside
      rw [numbered, below, PacketSchema.Arm.heading_eq means]
      rfl

theorem block_shown : ∀ (statements : List Statement) {scope : ScopeId} {levels next depth : Nat}
    {fields : List Field}, forest.size ≤ next + levels →
      blockBuiltAs forest scope next statements fields →
      gatherLines (fields.map (Field.lines (forest.lines levels) depth)) =
        .ok ((outlineEntries depth (blockOutlines statements)).map Entry.line)
  | [], _, _, _, _, _, _, built => by
      rw [block_built_nil_iff.mp built]
      rfl
  | statement :: rest, _, _, _, _, _, enough, built => by
      obtain ⟨field, others, rfl, here, later⟩ := block_built_cons_iff.mp built
      rw [blockOutlines, outlineEntries, List.map_append, List.map_cons]
      apply gather_lines_cons
      · exact statement.shown enough here
      · apply block_shown rest _ later
        omega

theorem arms_shown : ∀ (arms : List Arm) {scope : ScopeId} {levels next depth : Nat}
    {presents : List PacketSchema.Arm}, forest.size ≤ next + levels →
      armsBuiltAs forest scope next arms presents →
      gatherLines (presents.map fun arm =>
          underLine ⟨depth, arm.heading⟩ (forest.lines levels (depth + 1) arm.scope)) =
        .ok ((outlineEntries depth (armOutlines arms)).map Entry.line)
  | [], _, _, _, _, _, _, built => by
      rw [arms_built_nil_iff.mp built]
      rfl
  | arm :: rest, _, _, _, _, _, enough, built => by
      obtain ⟨present, others, rfl, here, later⟩ := arms_built_cons_iff.mp built
      rw [armOutlines, outlineEntries, List.map_append, List.map_cons]
      apply gather_lines_cons
      · exact arm.shown enough here
      · apply arms_shown rest _ later
        omega

end

variable {schema : Schema} {record : PacketSchema.Packet} {next : Nat} {packet : Packet}

theorem Packet.BuiltAs.header_eq (built : packet.BuiltAs schema next record) :
    schema.header record = .ok packet.heading.text := by
  have linked := built.linked
  unfold Packet.LinkedAs at linked
  unfold Schema.header Packet.heading
  rw [built.ident]
  cases written : packet.inheritance with
  | none =>
      rw [written] at linked
      rw [linked.1, linked.2]
      simp only [Option.map_none, Option.bind_none, Heading.text, Option.elim, String.append_empty]
  | some clause =>
      rw [written] at linked
      rcases linked with ⟨id, parent, own, found, named, reads⟩
      rw [own, Option.map_some, Option.bind_some, ← reads]
      simp only [found, named]
      cases record.condition with
      | none =>
          simp only [Option.map_none, Heading.text, Option.elim, String.append_assoc,
            String.append_empty]
      | some condition =>
          simp only [Option.map_some, Heading.text, Option.elim, condition.text_eq,
            String.append_assoc]

theorem Packet.BuiltAs.shown (built : packet.BuiltAs schema next record) :
    schema.packetLines record = .ok ((packet.outline.entries 0).map Entry.line) := by
  rcases built.body with ⟨fields, found, inside⟩
  have enough : schema.forest.size ≤ next + (schema.forest.size + 1) := by omega
  have below : schema.forest.lines (schema.forest.size + 1) 1 ⟨next⟩ = _ :=
    scope_shown enough found fun fewer left => block_shown packet.body left inside
  rw [Schema.packetLines, built.header_eq, built.scope, below]
  rfl

theorem packets_shown (packets : List Packet) {records : List PacketSchema.Packet}
    (built : packetsBuiltAs schema next packets records) :
    gatherLines (records.map schema.packetLines) =
      .ok ((outlineEntries 0 (packets.map Packet.outline)).map Entry.line) := by
  induction packets generalizing records next with
  | nil =>
      rw [packets_built_nil_iff.mp built]
      rfl
  | cons packet rest later =>
      obtain ⟨record, others, rfl, here, following⟩ := packets_built_cons_iff.mp built
      rw [List.map_cons, List.map_cons, outlineEntries, List.map_append]
      apply gather_lines_cons
      · exact here.shown
      · exact later following

/-- The image of a tree has a dump, which lists the outlines of the tree. -/
theorem Module.BuiltAs.dump_eq {tree : Module} (built : tree.BuiltAs schema) :
    schema.dump = .ok (listing (outlineEntries 0 tree.outlines)) := by
  have shown := packets_shown tree.packets built.packets
  rw [Schema.dump, Schema.dumpLines, shown]
  simp only [listing, Module.outlines, List.map_map, Function.comp_def]

end Tree

end PacketSchema
