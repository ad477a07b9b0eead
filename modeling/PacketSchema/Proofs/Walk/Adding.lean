import PacketSchema.Proofs.Walk.Confinement

/-!
# What is reported in between

A walk only ever adds diagnostics behind those that are there. Each of its steps that adds one
was refused by the schema, and reports the refusal at the place of the construct it stands for.
-/

namespace PacketSchema.Build

/-- All that is reported in between is of one sort. -/
def Adds (allowed : Diagnostic → Prop) (before after : Build) : Prop :=
  ∃ added, after.diagnostics = before.diagnostics ++ added ∧
    ∀ diagnostic ∈ added, allowed diagnostic

variable {allowed wider : Diagnostic → Prop} {before middle after build : Build}
  {scope : ScopeId} {location : Location}

theorem Adds.of_same (same : after.diagnostics = before.diagnostics) :
    Adds allowed before after :=
  ⟨[], by rw [same, List.append_nil], List.forall_mem_nil _⟩

theorem Adds.trans (first : Adds allowed before middle) (second : Adds allowed middle after) :
    Adds allowed before after := by
  obtain ⟨early, reached, among⟩ := first
  obtain ⟨late, last, within⟩ := second
  refine ⟨early ++ late, by rw [last, reached, List.append_assoc], ?_⟩
  intro diagnostic member
  exact (List.mem_append.mp member).elim (among diagnostic) (within diagnostic)

theorem Adds.weaken (adds : Adds allowed before after)
    (within : ∀ diagnostic, allowed diagnostic → wider diagnostic) : Adds wider before after := by
  obtain ⟨added, same, each⟩ := adds
  exact ⟨added, same, fun diagnostic member => within diagnostic (each diagnostic member)⟩

theorem report_adds {problems : List Diagnostic} (each : ∀ problem ∈ problems, allowed problem) :
    Adds allowed build (build.report problems) :=
  ⟨problems, rfl, each⟩

theorem note_adds {error : SchemaError} (fault : allowed ⟨location, error⟩) :
    Adds allowed build (build.note location error) :=
  report_adds (List.forall_mem_singleton.mpr fault)

theorem declare_adds (build : Build) (scope : ScopeId) (field : Field) (location : Location) :
    Adds (fun diagnostic => ∃ error, build.schema.appendField scope field = .error error ∧
        diagnostic = ⟨location, error⟩)
      build (build.declare scope field location).2 := by
  rcases declare_cases build scope field location with ⟨error, refused, same⟩ | ⟨grown, _, same⟩
  · rw [same]
    exact note_adds ⟨error, refused, rfl⟩
  · rw [same]
    exact .of_same rfl

/-- An arm is refused by the union of the schema, or by a union of its own. -/
theorem add_arm_adds (build : Build) (scope : ScopeId) (ident : String) (location : Location)
    (arm : Arm) (refused : Option Union) :
    Adds (fun diagnostic => ∃ error,
        (refused = none ∧ build.schema.appendArm scope ident arm = .error error ∨
          ∃ choice, refused = some choice ∧ choice.append arm = .error error) ∧
        diagnostic = ⟨location, error⟩)
      build (build.addArm scope ident location arm refused).2 := by
  unfold addArm
  split
  · split
    next error rejected => exact note_adds ⟨error, .inl ⟨rfl, rejected⟩, rfl⟩
    next => exact .of_same rfl
  next choice =>
    split
    next error rejected => exact note_adds ⟨error, .inr ⟨choice, rfl, rejected⟩, rfl⟩
    next => exact .of_same rfl

end PacketSchema.Build
