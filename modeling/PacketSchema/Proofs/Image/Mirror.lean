import PacketSchema.Proofs.Image.Bodies
import PacketSchema.Proofs.Layout.Chain

/-!
# Scopes mirror blocks

Built without stopping at the first fault, a schema has one scope for each block of the text, in
the order of the text, whatever was reported. Each scope hangs below the one around its block, or,
for a packet, below the scope of the packet that it derives from; and what the schema keeps of a
packet, an optional block or an arm has the scope of just that one.
-/

namespace PacketSchema

namespace Tree

open Build (Registers)

variable {blocks earlier : List Block} {build : Build} {name : String}

theorem first_named_packet (name : String) (packet : Packet) (next : Nat) :
    firstNamed name (packet.openings next) =
      if packet.ident.item = name then some 0 else none := by
  have inside : (blockOpenings next (next + 1) packet.body).findIdx? (Block.isNamed name) = none :=
    List.findIdx?_eq_none_iff.mpr (block_openings_unnamed name packet.body next (next + 1))
  rw [firstNamed, Packet.openings, List.findIdx?_cons, inside]
  simp [Block.isNamed]

/-- One more packet is the first of its name unless there was one before. -/
theorem first_named_append (name : String) (earlier : List Block) (packet : Packet) :
    firstNamed name (earlier ++ packet.openings earlier.length) =
      (firstNamed name earlier).or
        (if packet.ident.item = name then some earlier.length else none) := by
  have last := first_named_packet name packet earlier.length
  rw [firstNamed] at last ⊢
  rw [List.findIdx?_append, last, firstNamed]
  split <;> simp

def seat (packet : PacketSchema.Packet) : String × ScopeId := (packet.ident, packet.scope)

/-- What is known of a build once the packets were walked whose blocks stand first. -/
structure MirroredSoFar (blocks earlier : List Block) (build : Build) : Prop where
  size : build.schema.forest.size = earlier.length
  inside : Throughout (Mirrored blocks build) 0 earlier
  packets : ∀ name number, (name, ⟨number⟩) ∈ build.schema.packets.map seat ↔
    firstNamed name earlier = some number

theorem mirrored_so_far_empty : MirroredSoFar blocks [] .empty where
  size := rfl
  inside := throughout_nil
  packets := by simp [Build.empty, Schema.empty, firstNamed]

/-- A name is registered where a packet of that name was walked. -/
theorem MirroredSoFar.named_iff (soFar : MirroredSoFar blocks earlier build) (name : String) :
    (∃ present ∈ build.schema.packets, present.ident = name) ↔
      (firstNamed name earlier).isSome := by
  rw [Option.isSome_iff_exists]
  constructor
  · rintro ⟨present, member, rfl⟩
    exact ⟨present.scope.index, (soFar.packets _ _).mp (List.mem_map_of_mem member)⟩
  · rintro ⟨number, first⟩
    obtain ⟨present, member, same⟩ := List.mem_map.mp ((soFar.packets name number).mpr first)
    exact ⟨present, member, congrArg Prod.fst same⟩

/-- The clause of a packet leads to the first packet of the name that it gives. -/
theorem MirroredSoFar.outer_scope (visit : Visit)
    (soFar : MirroredSoFar blocks earlier visit.before) :
    ((Block.packet visit.packet).parent earlier).map ScopeId.mk = visit.outerScope := by
  unfold Visit.outerScope Visit.derivation Packet.derivation
  rw [Block.parent]
  cases visit.packet.inheritance with
  | none => rfl
  | some clause =>
      rw [Option.bind_some]
      simp only [Inheritance.resolve]
      cases named : visit.before.schema.named? clause.parent.item with
      | none =>
          cases first : firstNamed clause.parent.item earlier with
          | none => rfl
          | some number =>
              have known := (soFar.named_iff clause.parent.item).mpr (by rw [first]; rfl)
              obtain ⟨present, member, same⟩ := known
              obtain ⟨found, answered⟩ := Schema.exists_named_iff.mpr
                (List.mem_map.mpr ⟨present, member, same⟩)
              rw [named] at answered
              cases answered
      | some found =>
          obtain ⟨id, parent⟩ := found
          obtain ⟨located, ident⟩ := Schema.named_eq_some named
          have first := (soFar.packets parent.ident parent.scope.index).mp
            (List.mem_map_of_mem (Schema.mem_of_packet located))
          rw [ident] at first
          rw [first]
          simp [located]

/-- A packet that is registered has the scope in which its body was walked; one that is refused
came after another one of its name. -/
theorem MirroredSoFar.registered (visit : Visit)
    (soFar : MirroredSoFar blocks earlier visit.before) (name : String) (number : Nat) :
    (name, ⟨number⟩) ∈ (visit.after false).schema.packets.map seat ↔
      firstNamed name (earlier ++ visit.packet.openings earlier.length) = some number := by
  have packets : (visit.walked false).schema.packets = visit.before.schema.packets :=
    (buildBlock_confined visit.packet.body visit.scope visit.opened).packets
  have outcome := (visit.registers false).packets_map seat fun _ _ => rfl
  have seated : seat visit.record = (visit.packet.ident.item, ⟨earlier.length⟩) := by
    rw [seat, visit.record_ident, visit.record_scope, visit.scope_eq, soFar.size]
  rw [packets, visit.record_ident] at outcome
  rw [first_named_append]
  rcases outcome with ⟨taken, same⟩ | ⟨fresh, added⟩
  · obtain ⟨first, found⟩ := Option.isSome_iff_exists.mp
      ((soFar.named_iff visit.packet.ident.item).mp taken)
    rw [same, soFar.packets]
    by_cases own : visit.packet.ident.item = name
    · rw [← own, found, Option.some_or]
    · rw [if_neg own, Option.or_none]
  · have absent : firstNamed visit.packet.ident.item earlier = none := by
      rw [← Option.not_isSome_iff_eq_none, ← soFar.named_iff]
      rintro ⟨present, member, same⟩
      exact fresh present member same
    rw [added, List.map_append, List.map_singleton, List.mem_append, soFar.packets,
      List.mem_singleton, seated]
    by_cases own : visit.packet.ident.item = name
    · rw [← own, absent, Option.none_or, if_pos rfl]
      simp [eq_comm]
    · rw [if_neg own, Option.or_none]
      simp [Ne.symm own]

/-- The visit of a packet opens the scopes of its blocks. -/
theorem MirroredSoFar.visited (visit : Visit)
    (soFar : MirroredSoFar blocks earlier visit.before)
    (start : blocks.take earlier.length = earlier)
    (stands : Stands blocks earlier.length (visit.packet.openings earlier.length)) :
    MirroredSoFar blocks (earlier ++ visit.packet.openings earlier.length)
      (visit.after false) := by
  have size : visit.opened.schema.forest.size = earlier.length + 1 := by
    rw [← soFar.size]
    exact ScopeForest.size_create _ _
  have opened : visit.opened.schema.forest.scope? ⟨earlier.length⟩ =
      some ⟨visit.outerScope, []⟩ := by
    rw [← soFar.size]
    exact ScopeForest.scope_create_new _ _
  have above : ((Block.packet visit.packet).parent (blocks.take earlier.length)).map ScopeId.mk =
      visit.outerScope := by
    rw [start]
    exact MirroredSoFar.outer_scope visit soFar
  rw [Packet.openings] at stands
  have walked := block_placed visit.packet.body opened (by
    rw [size]
    exact (throughout_cons.mp stands).2)
  have scope : visit.scope = ⟨earlier.length⟩ := by rw [visit.scope_eq, soFar.size]
  rw [← scope] at walked
  have opens : OpensAll blocks visit.before (visit.walked false)
      (visit.packet.openings earlier.length) :=
    opens_block (.packet visit.packet) rfl above size walked soFar.size
  have registered : (visit.walked false).diagnostics <+: (visit.after false).diagnostics :=
    Build.register_diagnostics _ _ _ _
  have confined := @buildBlock_confined false visit.packet.body visit.scope visit.opened
  constructor
  · rw [visit.after_forest, opens.size, soFar.size, List.length_append]
  · rw [throughout_append, Nat.zero_add]
    constructor
    · refine soFar.inside.imp fun number block _ high mirrored => mirrored.kept ?_ ?_
      · rw [Nat.zero_add, ← soFar.size] at high
        have old : visit.before.schema.forest.Issued ⟨number⟩ := high
        have other : (⟨number⟩ : ScopeId) ≠ visit.scope := by
          rintro same
          exact visit.new_scope (same ▸ old)
        rw [visit.after_forest]
        exact (confined.others _ (ScopeForest.issued_create old _) other).trans
          (ScopeForest.scope_create_old old _)
      · exact (List.prefix_append _ _).trans (confined.diagnostics.trans registered)
    · have inside := opens.inside
      rw [soFar.size] at inside
      refine inside.imp fun number block _ _ mirrored => mirrored.kept ?_ registered
      rw [visit.after_forest]
  · exact soFar.registered visit

theorem mirrored_so_far (packets : List Packet)
    (soFar : MirroredSoFar blocks earlier build)
    (whole : blocks = earlier ++ packetOpenings earlier.length packets) :
    MirroredSoFar blocks blocks (buildPackets false packets build) := by
  induction packets generalizing earlier build with
  | nil =>
      rw [packetOpenings, List.append_nil] at whole
      rw [buildPackets]
      subst whole
      exact soFar
  | cons packet rest later =>
      rw [packetOpenings] at whole
      rw [buildPackets_cons]
      have start : blocks.take earlier.length = earlier := by rw [whole, List.take_left]
      have stands : Stands blocks earlier.length (packet.openings earlier.length) := by
        have all := stands_append earlier (packet.openings earlier.length ++
          packetOpenings (earlier.length + packet.blocks) rest)
        rw [← whole] at all
        exact (throughout_append.mp all).1
      have visited := MirroredSoFar.visited ⟨packet, build⟩ soFar start stands
      apply later visited
      rw [List.length_append, packet.openings_length, List.append_assoc]
      exact whole

end Tree

open PacketSchema.Tree (Block Mirrored firstNamed)

/-- The scopes of a build are those of the blocks of a tree. -/
structure Build.Mirrors (build : Build) (tree : Tree.Module) : Prop where
  size : build.schema.forest.size = tree.openings.length
  scopes : ∀ number block, tree.openings[number]? = some block →
    Mirrored tree.openings build number block
  packets : ∀ name number,
    (∃ packet ∈ build.schema.packets, packet.ident = name ∧ packet.scope = ⟨number⟩) ↔
      firstNamed name tree.openings = some number
  optionals : ∀ (number : Nat) (ident : String) (condition : Condition) (child : ScopeId),
    .optional ident condition child ∈ build.schema.forest.fieldsOf ⟨number⟩ →
      ∃ location name written body,
        tree.openings[child.index]? = some (.optional number location name written body) ∧
          ident = name.item ∧ condition.formula = written.formula
  arms : ∀ (number : Nat) (choice : Union) (arm : Arm),
    .union choice ∈ build.schema.forest.fieldsOf ⟨number⟩ → arm ∈ choice.arms →
      ∃ written, tree.openings[arm.scope.index]? = some (.arm number written) ∧ written.Means arm

/-- What the fields of a scope are is what became of some body. -/
theorem Build.body_placed {build : Build} {tree : Tree.Module} {number : Nat}
    {field : Field} (size : build.schema.forest.size = tree.openings.length)
    (scopes : ∀ number block, tree.openings[number]? = some block →
      Mirrored tree.openings build number block)
    (member : field ∈ build.schema.forest.fieldsOf ⟨number⟩) :
    ∃ body, Tree.BlockPlacedAs tree.openings build.diagnostics number (number + 1) body
      (build.schema.forest.fieldsOf ⟨number⟩) := by
  have issued : number < tree.openings.length := by
    rw [← size]
    exact ScopeForest.issued_of_field (List.getElem?_of_mem member).choose_spec
  obtain ⟨fields, found, placed⟩ := scopes number _ (List.getElem?_eq_getElem issued)
  rw [ScopeForest.fields_of_scope found]
  exact ⟨_, placed⟩

theorem Tree.Module.mirrored (tree : Tree.Module) : (tree.build false).Mirrors tree := by
  have soFar : Tree.MirroredSoFar tree.openings tree.openings (tree.build false) :=
    Tree.mirrored_so_far tree.packets Tree.mirrored_so_far_empty rfl
  have scopes : ∀ number block, tree.openings[number]? = some block →
      Mirrored tree.openings (tree.build false) number block := by
    intro number block found
    have mirrored := soFar.inside number block found
    rwa [Nat.zero_add] at mirrored
  constructor
  · exact soFar.size
  · exact scopes
  · intro name number
    rw [← soFar.packets, List.mem_map]
    simp [Tree.seat]
  · intro number ident condition child member
    obtain ⟨body, placed⟩ := Build.body_placed soFar.size scopes member
    exact placed.optional_own member
  · intro number choice arm declared member
    obtain ⟨body, placed⟩ := Build.body_placed soFar.size scopes declared
    exact placed.arm_own declared member

/-- Whatever is found wrong with a text, what it is built to has the scopes of its blocks, and
these are the nodes of its tree that open a block, in the order of the text, each with the
innermost one around it. -/
theorem compile_mirrors {source : String} {tree : Tree.Module}
    (parsed : Grammar.parse source = .ok tree) :
    ∃ build : Build, compile false source = .ok ⟨build.schema, build.diagnostics⟩ ∧
      build.Mirrors tree ∧ tree.openings.map Block.entry = tree.node.openings none 0 :=
  ⟨tree.build false, compile_eq_build parsed, tree.mirrored, tree.node_openings.symm⟩

/-- Refused in this text are a condition, a number, a union, a packet and a clause, and blocks
stand inside each of them or after it. -/
def brokenText : String :=
  "A" ++ braced ("always n uint:1 bytes;variable v" ++
    braced ("case(&z)|X:0|" ++ braced ("optional o when(&n)" ++ braced "") ++
      "otherwise|Y:9223372036854775808|" ++ braced "always k uint:1 bytes;") ++
    "variable v" ++ braced ("case(&n)|X:0|" ++ braced ("optional p when(&q)" ++ braced ""))) ++
  "A" ++ braced ("optional r when(&n)" ++ braced "") ++
  "B:A(&n==1)" ++ braced "" ++ "C:Z" ++ braced ""

theorem broken_text_mirrored :
    ∃ (tree : Tree.Module) (build : Build), Grammar.parse brokenText = .ok tree ∧
      compile false brokenText = .ok ⟨build.schema, build.diagnostics⟩ ∧
      build.diagnostics.length = 7 ∧
      build.schema.packets.map Packet.scope = [⟨0⟩, ⟨8⟩, ⟨9⟩] ∧
      build.schema.forest.scopes.map Scope.parent =
        [none, some ⟨0⟩, some ⟨1⟩, some ⟨0⟩, some ⟨0⟩, some ⟨4⟩, none, some ⟨6⟩, some ⟨0⟩, none] ∧
      build.Mirrors tree := by
  have passed : (compile false brokenText).toOption.any (fun compilation =>
      compilation.diagnostics.length = 7 ∧
        compilation.schema.packets.map Packet.scope = [⟨0⟩, ⟨8⟩, ⟨9⟩] ∧
        compilation.schema.forest.scopes.map Scope.parent =
          [none, some ⟨0⟩, some ⟨1⟩, some ⟨0⟩, some ⟨0⟩, some ⟨4⟩, none, some ⟨6⟩, some ⟨0⟩,
            none]) = true := by decide +kernel
  obtain ⟨compilation, compiled, counted⟩ := exists_compiled passed
  obtain ⟨tree, parsed, _⟩ := parsed_of_compile compiled
  obtain ⟨build, built, mirrors, _⟩ := compile_mirrors parsed
  rw [built] at compiled
  cases compiled
  obtain ⟨reports, packets, parents⟩ := of_decide_eq_true counted
  exact ⟨tree, build, parsed, built, reports, packets, parents, mirrors⟩

end PacketSchema
