import PacketSchema.Proofs.Walk.Adding
import PacketSchema.Proofs.Walk.Nesting
import PacketSchema.Proofs.Walk.Valid

/-!
# Visits

A module is walked packet by packet. The visit of a packet takes the build that it starts from to
the one that the next visit starts from: it opens a scope, walks the body there and registers the
packet, and what registering comes to is told apart here once. What is proved of the visits of a
module, and of the build after them, is proved by going from one visit to the next.
-/

namespace PacketSchema

open Schema (Coherent Nests Reaches)

namespace Schema

variable {before after : Schema} {record : Packet}

theorem Derives.kept (derives : before.Derives record) (coherent : before.Coherent)
    (issued : before.forest.Issued record.scope) (reaches : Reaches before after) :
    after.Derives record := by
  unfold Derives at derives ⊢
  have linked := (Reaches.parent_kept reaches coherent.formed issued).2
  split
  next free =>
    rw [free] at derives
    exact ⟨derives.1, linked.trans derives.2⟩
  next id written =>
    rw [written] at derives
    obtain ⟨parent, found, below, grounded⟩ := derives
    obtain ⟨children, kept⟩ := Reaches.packet_kept reaches found
    exact ⟨_, kept, linked.trans below, Reaches.grounds_kept reaches coherent.formed grounded⟩

/-- Packets stay what they derived from when they were registered. -/
theorem Step.all_derive (step : Step before after) (coherent : before.Coherent)
    (derive : ∀ packet ∈ before.packets, before.Derives packet) :
    ∀ packet ∈ after.packets, after.Derives packet := by
  intro packet member
  have reaches : Reaches before after := .single step
  rcases step.packet_origin member with ⟨children, old⟩ | ⟨issued, _, derives, _⟩
  · have earlier := derive { packet with children } old
    exact earlier.kept coherent (coherent.formed.issued { packet with children } old) reaches
  · exact derives.kept coherent issued reaches

theorem Reaches.all_derive (reaches : Reaches .empty after) :
    ∀ packet ∈ after.packets, after.Derives packet := by
  induction reaches with
  | refl =>
      intro packet member
      cases member
  | tail earlier step inner => exact step.all_derive (coherent_empty.reached earlier) inner

end Schema

namespace Build

variable {build after : Build} {record : Packet} {location : Location}
  {derivation : Option Derivation}

/-- What registering a packet comes to: it is refused, or it is registered and its parent gets no
edge to it, has one of that condition already, or gets one. -/
inductive Registers (build : Build) (record : Packet) (location : Location)
    (derivation : Option Derivation) : Build → Prop
  | refused {error : SchemaError} (rejected : build.schema.appendPacket record = .error error) :
      Registers build record location derivation (build.note location error)
  | unlinked {grown : Schema}
      (accepted : build.schema.appendPacket record = .ok (⟨build.schema.packets.length⟩, grown))
      (unselected : ∀ parent condition, derivation ≠ some ⟨parent, .accepted condition⟩) :
      Registers build record location derivation { build with schema := grown }
  | conflicting {grown : Schema} {parent : PacketId} {condition : Option Condition}
      {error : SchemaError}
      (accepted : build.schema.appendPacket record = .ok (⟨build.schema.packets.length⟩, grown))
      (selected : derivation = some ⟨parent, .accepted condition⟩)
      (rejected : grown.appendChild parent ⟨build.schema.packets.length⟩ condition =
        .error error) :
      Registers build record location derivation
        (Build.note { build with schema := grown } location error)
  | linked {grown last : Schema} {parent : PacketId} {condition : Option Condition}
      (accepted : build.schema.appendPacket record = .ok (⟨build.schema.packets.length⟩, grown))
      (selected : derivation = some ⟨parent, .accepted condition⟩)
      (joined : grown.appendChild parent ⟨build.schema.packets.length⟩ condition = .ok last) :
      Registers build record location derivation { build with schema := last }

theorem registers (build : Build) (record : Packet) (location : Location)
    (derivation : Option Derivation) :
    Registers build record location derivation (build.register record location derivation) := by
  unfold register
  cases accepted : build.schema.appendPacket record with
  | error error => exact .refused accepted
  | ok answer =>
      obtain ⟨id, grown⟩ := answer
      obtain ⟨_, rfl, _⟩ := Schema.append_packet_eq_ok accepted
      match derivation with
      | none => exact .unlinked accepted nofun
      | some ⟨parent, .refused problems⟩ => exact .unlinked accepted nofun
      | some ⟨parent, .accepted condition⟩ =>
          simp only
          cases joined : grown.appendChild parent ⟨build.schema.packets.length⟩ condition with
          | error error => exact .conflicting accepted rfl joined
          | ok last => exact .linked accepted rfl joined

/-- A packet is refused, or an edge to it is. -/
theorem Registers.adds (registers : Registers build record location derivation after) :
    Adds (fun diagnostic => ∃ error,
        (build.schema.appendPacket record = .error error ∨
          ∃ grown parent condition,
            build.schema.appendPacket record = .ok (⟨build.schema.packets.length⟩, grown) ∧
            derivation = some ⟨parent, .accepted condition⟩ ∧
            grown.appendChild parent ⟨build.schema.packets.length⟩ condition = .error error) ∧
        diagnostic = ⟨location, error⟩)
      build after := by
  cases registers with
  | refused rejected => exact note_adds ⟨_, .inl rejected, rfl⟩
  | unlinked => exact .of_same rfl
  | @conflicting grown parent condition error accepted selected rejected =>
      refine ⟨[⟨location, error⟩], rfl, List.forall_mem_singleton.mpr ⟨error, .inr ?_, rfl⟩⟩
      exact ⟨grown, parent, condition, accepted, selected, rejected⟩
  | linked => exact .of_same rfl

theorem Registers.forest (registers : Registers build record location derivation after) :
    after.schema.forest = build.schema.forest := by
  cases registers with
  | refused => rfl
  | unlinked accepted =>
      obtain ⟨_, _, rfl⟩ := Schema.append_packet_eq_ok accepted
      rfl
  | conflicting accepted =>
      obtain ⟨_, _, rfl⟩ := Schema.append_packet_eq_ok accepted
      rfl
  | linked accepted _ joined =>
      obtain ⟨_, _, rfl⟩ := Schema.append_packet_eq_ok accepted
      obtain ⟨_, _, _, rfl⟩ := Schema.append_child_eq_ok joined
      rfl

/-- Every packet was registered before, up to its edges, or is the one that is registered. -/
theorem Registers.packet_origin (registers : Registers build record location derivation after)
    {packet : Packet} (member : packet ∈ after.schema.packets) :
    (∃ children, { packet with children } ∈ build.schema.packets) ∨
      ∃ children, packet = { record with children } := by
  have appended : ∀ {present : Packet}, present ∈ build.schema.packets ++ [record] →
      (∃ children, { present with children } ∈ build.schema.packets) ∨
        ∃ children, present = { record with children } := by
    intro present listed
    rcases List.mem_append.mp listed with old | last
    · exact .inl ⟨present.children, old⟩
    · cases List.mem_singleton.mp last
      exact .inr ⟨record.children, rfl⟩
  cases registers with
  | refused => exact .inl ⟨packet.children, member⟩
  | unlinked accepted =>
      obtain ⟨_, _, rfl⟩ := Schema.append_packet_eq_ok accepted
      exact appended member
  | conflicting accepted =>
      obtain ⟨_, _, rfl⟩ := Schema.append_packet_eq_ok accepted
      exact appended member
  | linked accepted _ joined =>
      obtain ⟨_, _, rfl⟩ := Schema.append_packet_eq_ok accepted
      obtain ⟨parent, found, _, rfl⟩ := Schema.append_child_eq_ok joined
      rcases List.mem_or_eq_of_mem_set member with old | rfl
      · exact appended old
      · rcases appended (Schema.mem_of_packet found) with ⟨children, old⟩ | ⟨children, rfl⟩
        · exact .inl ⟨children, old⟩
        · exact .inr ⟨_, rfl⟩

end Build

/-- The visit of a packet: the packet, and the build that its walk starts from. -/
structure Visit where
  packet : Tree.Packet
  before : Build

namespace Visit

variable (visit : Visit) {failFast : Bool}

def derivation : Option Derivation := (visit.packet.derivation visit.before.schema).1

def clauseFaults : List Diagnostic := (visit.packet.derivation visit.before.schema).2

def scope : ScopeId := (visit.packet.opened visit.before).1

def opened : Build := (visit.packet.opened visit.before).2

def walked (failFast : Bool) : Build :=
  Tree.buildBlock failFast visit.scope visit.packet.body visit.opened

def record : Packet := visit.packet.record visit.derivation visit.scope

def after (failFast : Bool) : Build := visit.packet.build failFast visit.before

def reported (failFast : Bool) : List Diagnostic :=
  (visit.after failFast).diagnostics.drop visit.before.diagnostics.length

theorem scope_eq : visit.scope = ⟨visit.before.schema.forest.size⟩ := rfl

theorem record_scope : visit.record.scope = visit.scope := by
  unfold record Tree.Packet.record
  split <;> rfl

theorem record_ident : visit.record.ident = visit.packet.ident.item := by
  unfold record Tree.Packet.record
  split <;> rfl

theorem record_parent : visit.record.parent = visit.derivation.map Derivation.parent := by
  unfold record Tree.Packet.record
  split
  next free => rw [free]; rfl
  next found => rw [found]; rfl

theorem record_childless : visit.record.children = [] := by
  unfold record Tree.Packet.record
  split <;> rfl

theorem registers (failFast : Bool) : (visit.walked failFast).Registers visit.record
    visit.packet.ident.location visit.derivation (visit.after failFast) :=
  Build.registers _ _ _ _

/-- A body is walked without a change to the packets. -/
theorem walked_packets (failFast : Bool) :
    (visit.walked failFast).schema.packets = visit.before.schema.packets :=
  (Tree.buildBlock_confined visit.packet.body visit.scope visit.opened).packets

theorem after_forest : (visit.after failFast).schema.forest =
    (visit.walked failFast).schema.forest :=
  (visit.registers failFast).forest

def outerScope : Option ScopeId :=
  ((visit.derivation.map Derivation.parent).bind visit.before.schema.packet?).map Packet.scope

theorem parent_of_scope : visit.opened.schema.forest.parent? visit.scope = visit.outerScope :=
  (visit.packet.opened_spec visit.before).2.2.2

theorem packet_of_outer {outer : ScopeId} (below : visit.outerScope = some outer) :
    ∃ parent ∈ visit.before.schema.packets, parent.scope = outer := by
  obtain ⟨parent, bound, same⟩ := Option.map_eq_some_iff.mp below
  obtain ⟨id, _, found⟩ := Option.bind_eq_some_iff.mp bound
  exact ⟨parent, Schema.mem_of_packet found, same⟩

theorem opened_reaches : visit.before.schema.Reaches visit.opened.schema :=
  (visit.packet.opened_spec visit.before).2.1

theorem opened_issued : visit.opened.schema.forest.Issued visit.scope :=
  (visit.packet.opened_spec visit.before).2.2.1

/-- Opening a packet adds no field. -/
theorem opened_fields (id : ScopeId) :
    visit.opened.schema.forest.fieldsOf id = visit.before.schema.forest.fieldsOf id :=
  ScopeForest.fields_created _ _ id

theorem new_scope : ¬visit.before.schema.forest.Issued visit.scope :=
  visit.before.schema.new_not_issued

theorem walk_nests (failFast : Bool) (coherent : visit.before.schema.Coherent) :
    Nests visit.scope visit.opened.schema (visit.walked failFast).schema :=
  Tree.walks_nest.block visit.packet.body visit.scope visit.opened
    (coherent.reached visit.opened_reaches) visit.opened_issued

theorem after_reaches (coherent : visit.before.schema.Coherent) :
    visit.before.schema.Reaches (visit.after failFast).schema :=
  visit.packet.build_reaches visit.before coherent.formed

end Visit

namespace Tree

variable {failFast : Bool}

def visits (failFast : Bool) : List Packet → Build → List Visit
  | [], _ => []
  | packet :: rest, build =>
      if build.halted failFast then []
      else ⟨packet, build⟩ :: visits failFast rest (packet.build failFast build)

def Module.visits (failFast : Bool) (tree : Module) : List Visit :=
  Tree.visits failFast tree.packets .empty

/-- What holds of the visits so far, and of the build after them, holds of all visits. -/
theorem packets_induction {motive : List Visit → Build → Prop}
    (step : ∀ (seen : List Visit) (visit : Visit), visit.before.schema.Coherent →
      motive seen visit.before → motive (seen ++ [visit]) (visit.after failFast))
    (packets : List Packet) (seen : List Visit) (build : Build)
    (coherent : build.schema.Coherent) (start : motive seen build) :
    motive (seen ++ visits failFast packets build) (buildPackets failFast packets build) := by
  induction packets generalizing seen build with
  | nil =>
      rw [visits, buildPackets, List.append_nil]
      exact start
  | cons packet rest later =>
      rw [visits, buildPackets]
      split
      · rw [List.append_nil]
        exact start
      · have first := step seen ⟨packet, build⟩ coherent start
        have reached : (packet.build failFast build).schema.Coherent :=
          coherent.reached (Visit.after_reaches ⟨packet, build⟩ coherent)
        have others := later (seen ++ [⟨packet, build⟩]) _ reached first
        rw [List.append_assoc, List.singleton_append] at others
        exact others

theorem Module.induction {motive : List Visit → Build → Prop} (tree : Module)
    (failFast : Bool) (start : motive [] .empty)
    (step : ∀ (seen : List Visit) (visit : Visit), visit.before.schema.Coherent →
      motive seen visit.before → motive (seen ++ [visit]) (visit.after failFast)) :
    motive (tree.visits failFast) (tree.build failFast) :=
  packets_induction step tree.packets [] .empty Schema.coherent_empty start

end Tree

/-- What a text compiles to is what its tree is built to. -/
theorem parsed_of_compile {failFast : Bool} {source : String} {compilation : Compilation}
    (compiled : compile failFast source = .ok compilation) :
    ∃ tree, Grammar.parse source = .ok tree ∧
      compilation = ⟨(tree.build failFast).schema, (tree.build failFast).diagnostics⟩ := by
  cases parsed : Grammar.parse source with
  | error error =>
      unfold compile at compiled
      rw [parsed] at compiled
      cases compiled
  | ok tree =>
      rw [compile_eq_build parsed] at compiled
      exact ⟨tree, rfl, (Except.ok.inj compiled).symm⟩

end PacketSchema
