import PacketSchema.Proofs.Walk.Faults

/-!
# What a walk reports

A builder asks the schema only about numbers that it was given. Such a question can still go
wrong in one way: what a text says is at fault. So no diagnostic ever names a number that was
never issued, a union that is not there or a structure that contains itself, whatever the text
and wherever a fast walk stops.
-/

namespace PacketSchema

/-- Causes that lie in how a schema was asked, and not in what a text says. -/
def SchemaError.isMisuse : SchemaError → Bool
  | .unissuedScope _ | .unissuedPacket _ | .unknownUnion _ _ | .selfContained _
  | .selfDerived _ => true
  | _ => false

/-- All diagnostics are about what a text says. -/
def Reproving (diagnostics : List Diagnostic) : Prop :=
  ∀ diagnostic ∈ diagnostics, diagnostic.error.isMisuse = false

namespace Tree

variable {diagnostic : Diagnostic}

theorem Value.Faulty.proper {value : Value} (fault : value.Faulty diagnostic) :
    diagnostic.error.isMisuse = false := by
  cases fault <;> rfl

theorem Statement.Faulty.proper {statement : Statement} (fault : statement.Faulty diagnostic) :
    diagnostic.error.isMisuse = false := by
  cases fault with
  | value _ faulty => exact faulty.proper
  | bare | redefined | arm => rfl

theorem Packet.Faulty.proper {packet : Packet} (fault : packet.Faulty diagnostic) :
    diagnostic.error.isMisuse = false := by
  cases fault with
  | value _ faulty => exact faulty.proper
  | unknownParent | redefined | conflict => rfl

theorem Module.reproving (failFast : Bool) (tree : Module) :
    Reproving (tree.build failFast).diagnostics := by
  intro diagnostic reported
  rcases Module.build_faulty reported with ⟨packet, _, fault⟩ | ⟨site, _, fault⟩
  · exact fault.proper
  · exact fault.proper

end Tree

/-- Whatever can be read is compiled without a question about a number that was never issued, and
afterwards all numbers are in order and every question about the schema has an answer. -/
theorem compile_answers {failFast : Bool} {source : String} {tree : Tree.Module}
    (parsed : Grammar.parse source = .ok tree) :
    ∃ compilation, compile failFast source = .ok compilation ∧
      Reproving compilation.diagnostics ∧ compilation.schema.WellNumbered ∧
      compilation.schema.Answers := by
  have compiled : compile failFast source = .ok
      ⟨(tree.build failFast).schema, (tree.build failFast).diagnostics⟩ := by
    unfold compile
    rw [parsed]
  have numbered := compile_well_numbered compiled
  exact ⟨_, compiled, tree.reproving failFast, numbered, numbered.answers⟩

/-- A fast compilation that stops at the first statement of a block and leaves the block empty. -/
theorem stopped_text_answers :
    ∃ tree, Grammar.parse refusedText = .ok tree ∧
      ∃ compilation, compile true refusedText = .ok compilation ∧
        compilation.diagnostics.length = 1 ∧ compilation.schema.forest.size = 2 ∧
        compilation.schema.forest.scope? ⟨1⟩ = some ⟨some ⟨0⟩, []⟩ ∧
        Reproving compilation.diagnostics ∧ compilation.schema.WellNumbered ∧
        compilation.schema.Answers := by
  have stopped : (compile true refusedText).toOption.any (fun compilation =>
      compilation.diagnostics.length = 1 ∧ compilation.schema.forest.size = 2 ∧
        compilation.schema.forest.scope? ⟨1⟩ = some ⟨some ⟨0⟩, []⟩) = true := by decide +kernel
  obtain ⟨tree, parsed⟩ := refused_text_parsed
  obtain ⟨compilation, compiled, answers⟩ := compile_answers parsed
  rw [compiled] at stopped
  obtain ⟨reported, sized, empty⟩ := of_decide_eq_true stopped
  exact ⟨tree, parsed, compilation, compiled, reported, sized, empty, answers⟩

end PacketSchema
