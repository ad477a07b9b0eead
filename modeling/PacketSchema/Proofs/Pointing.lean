import Mathlib.Logic.ExistsUnique
import PacketSchema.Proofs.Walk.Faults

/-!
# Diagnostics point at their constructs

The place of a diagnostic is that of the part of the text it is about. There the text begins with
that part: a packet or a parent with its name, a reference with its ampersand and its name, a number
with its digits, a bare descriptor with its scalar type, a declaration with its keyword, a gap and
its name, an arm with its keyword.
-/

namespace PacketSchema

namespace Tree

def Module.values (tree : Module) : List Value :=
  tree.packets.flatMap Packet.values ++ tree.sites.flatMap fun site => site.statement.values

/-- What stands at the place of a diagnostic, by its cause: the part of the tree that is there, and
what the text there begins with. No text gives rise to the other causes. -/
def Module.Explains (tree : Module) (location : Location) (text : List Char) : SchemaError → Prop
  | .packetRedefined ident =>
      ∃ packet ∈ tree.packets, packet.ident = ⟨location, ident⟩ ∧ ident.toList <+: text
  | .dispatchConflict parent _ =>
      ∃ packet ∈ tree.packets, (∃ clause ∈ packet.inheritance, clause.parent.item = parent) ∧
        packet.ident.location = location ∧ packet.ident.item.toList <+: text
  | .unknownParent ident parent =>
      ∃ packet ∈ tree.packets, packet.ident.item = ident ∧
        (∃ clause ∈ packet.inheritance, clause.parent = ⟨location, parent⟩) ∧
        parent.toList <+: text
  | .unresolvedReference ident _ =>
      .reference ⟨location, ident⟩ ∈ tree.values ∧ '&' :: ident.toList <+: text
  | .integerOutOfRange numeral =>
      .integer ⟨location, numeral⟩ ∈ tree.values ∧ numeral.toList <+: text
  | .bareDescriptor ident =>
      ∃ site ∈ tree.sites, site.statement.binding.ident = ident ∧
        ∃ descriptor ∈ site.statement.descriptor?, descriptor.scalar.location = location ∧
          descriptor.scalar.item.keyword.toList <+: text
  | .fieldRedefined ident =>
      ∃ site ∈ tree.sites, site.statement.binding.ident = ident ∧
        site.statement.location = location ∧
        ∃ gap, Grammar.IsGap gap ∧ gap ≠ [] ∧
          site.statement.binding.kind.keyword.toList ++ gap ++ ident.toList <+: text
  | .armRefused ident _ =>
      ∃ site ∈ tree.sites, site.statement.binding = ⟨ident, .union⟩ ∧
        ∃ arm ∈ site.statement.arms, arm.location = location ∧ arm.keyword.letters <+: text
  | _ => False

end Tree

/-- A diagnostic has a place in the source, and what stands there is what it is about. -/
structure Diagnostic.PointsInto (diagnostic : Diagnostic) (tree : Tree.Module)
    (source : List Char) : Prop where
  placed : ∃! text, TextAt source diagnostic.location text
  explained : ∀ text, TextAt source diagnostic.location text →
    tree.Explains diagnostic.location text diagnostic.error

variable {source : List Char} {tree : Tree.Module} {diagnostic : Diagnostic}

theorem Shows.points_into {word : List Char} (shows : Shows source diagnostic.location word)
    (explained : ∀ text, word <+: text →
      tree.Explains diagnostic.location text diagnostic.error) :
    diagnostic.PointsInto tree source := by
  constructor
  · obtain ⟨rest, there⟩ := shows
    exact ⟨word ++ rest, there, fun other also => also.unique there⟩
  · exact fun text there => explained text (shows.prefix_of there)

namespace Tree

theorem Value.Faulty.points_into {value : Value} (fault : value.Faulty diagnostic)
    (written : value ∈ tree.values) (stands : value.Stands source) :
    diagnostic.PointsInto tree source := by
  cases fault with
  | number numeral => exact Shows.points_into stands fun text front => ⟨written, front⟩
  | reference ident reason => exact Shows.points_into stands fun text front => ⟨written, front⟩

theorem Packet.Faulty.points_into {packet : Packet} (fault : packet.Faulty diagnostic)
    (member : packet ∈ tree.packets) (stands : packet.Stands source) :
    diagnostic.PointsInto tree source := by
  cases fault with
  | value written faulty =>
      apply faulty.points_into _ (stands.values _ written)
      exact List.mem_append_left _ (List.mem_flatMap.mpr ⟨packet, member, written⟩)
  | unknownParent derived =>
      exact Shows.points_into (stands.parent _ derived) fun text front =>
        ⟨packet, member, rfl, ⟨_, derived, rfl⟩, front⟩
  | redefined =>
      exact Shows.points_into stands.ident fun text front => ⟨packet, member, rfl, front⟩
  | conflict derived condition =>
      exact Shows.points_into stands.ident fun text front =>
        ⟨packet, member, ⟨_, derived, rfl⟩, rfl, front⟩

theorem Statement.binding_of_arm {statement : Statement} {arm : Arm}
    (inside : arm ∈ statement.arms) : statement.binding.kind = .union := by
  cases statement with
  | always => cases inside
  | optional => cases inside
  | union => rfl

theorem Site.faulty_points_into {site : Site} (fault : site.statement.Faulty diagnostic)
    (member : site ∈ tree.sites) (stands : site.statement.Stands source) :
    diagnostic.PointsInto tree source := by
  cases fault with
  | value written faulty =>
      apply faulty.points_into _ (stands.values _ written)
      exact List.mem_append_right _ (List.mem_flatMap.mpr ⟨site, member, written⟩)
  | bare described =>
      exact Shows.points_into (stands.descriptor _ described).1 fun text front =>
        ⟨site, member, rfl, _, described, rfl, front⟩
  | redefined =>
      obtain ⟨gap, legal, nonempty, shown⟩ := stands.announced
      exact Shows.points_into shown fun text front =>
        ⟨site, member, rfl, rfl, gap, legal, nonempty, front⟩
  | @arm arm inside conflict =>
      have binding : site.statement.binding = ⟨site.statement.binding.ident, .union⟩ := by
        rw [← Statement.binding_of_arm inside]
      exact Shows.points_into (stands.arms _ inside).keyword fun text front =>
        ⟨site, member, binding, arm, inside, rfl, front⟩

end Tree

/-- Whatever is reported about a text that can be read points at what it is about. -/
theorem diagnostics_point_into_text {failFast : Bool} {source : String} {tree : Tree.Module}
    (parsed : Grammar.parse source = .ok tree) :
    ∃ compilation, compile failFast source = .ok compilation ∧
      ∀ diagnostic ∈ compilation.diagnostics, diagnostic.PointsInto tree source.toList := by
  have compiled : compile failFast source = .ok ⟨_, _⟩ := compile_eq_build parsed
  refine ⟨_, compiled, ?_⟩
  intro diagnostic reported
  have stands := Grammar.parse_stands parsed
  rcases Tree.Module.build_faulty reported with
    ⟨packet, member, fault⟩ | ⟨site, member, fault⟩
  · exact fault.points_into member (stands.packets packet member)
  · exact Tree.Site.faulty_points_into fault member (stands.sites site member)

/-- One diagnostic of each cause that a text can have. -/
def pointedText : String :=
  "P " ++ braced ("always n uint: 1 bytes;\r\n  always b sint;\n" ++
    "  optional /* again */ n when (&n) " ++ braced "" ++ "\n  variable v " ++
    braced ("case (&m) |X: 0| " ++ braced "" ++ "\n  case (&n) |Y: 1| " ++ braced "" ++
      "otherwise // last\n  |Y: 2| " ++ braced "")) ++
  "\nQ: P (&n == 18446744073709551616) " ++ braced "" ++ "\nR: P " ++ braced "" ++
  "S: P " ++ braced "" ++ "R " ++ braced "" ++ "T: U " ++ braced ""

theorem pointed_text_points :
    ∃ tree compilation, Grammar.parse pointedText = .ok tree ∧
      compile false pointedText = .ok compilation ∧
      compilation.diagnostics.map Diagnostic.location =
        [⟨2, 12⟩, ⟨3, 3⟩, ⟨4, 22⟩, ⟨5, 25⟩, ⟨7, 13⟩, ⟨8, 11⟩, ⟨8, 21⟩, ⟨8, 31⟩] ∧
      ∀ diagnostic ∈ compilation.diagnostics,
        diagnostic.PointsInto tree pointedText.toList := by
  have passed : (compile false pointedText).toOption.any (fun compilation =>
      compilation.diagnostics.map Diagnostic.location =
        [⟨2, 12⟩, ⟨3, 3⟩, ⟨4, 22⟩, ⟨5, 25⟩, ⟨7, 13⟩, ⟨8, 11⟩, ⟨8, 21⟩, ⟨8, 31⟩]) = true := by
    decide +kernel
  obtain ⟨compilation, compiled, places⟩ := exists_compiled passed
  obtain ⟨tree, parsed, _⟩ := parsed_of_compile compiled
  obtain ⟨same, also, points⟩ := diagnostics_point_into_text parsed
  rw [compiled] at also
  cases also
  exact ⟨tree, compilation, parsed, compiled, of_decide_eq_true places, points⟩

end PacketSchema
