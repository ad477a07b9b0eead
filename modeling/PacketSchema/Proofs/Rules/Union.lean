import Mathlib.Data.List.Forall2
import PacketSchema.Proofs.ReferenceIntegrity
import PacketSchema.Proofs.Rules.Lawful

/-!
# Unions and the arms they take

While the arms of a union are walked, the union in the forest holds an arm for each one that was
walked, and the arm says what was written. The conditions of both are grounded in the scope that
declares the union, so two of them are the same condition exactly where they say the same. This
turns the conflicts that a union looks for into the rule that arms are apart.
-/

namespace PacketSchema

theorem Union.conflict_eq_none_iff {choice : Union} {arm : Arm} :
    choice.conflict? arm = none ↔ ∀ present ∈ choice.arms, present.condition ≠ arm.condition ∧
      present.tag.label ≠ arm.tag.label ∧ present.tag.value ≠ arm.tag.value := by
  have each : (∀ present ∈ choice.arms, present.condition ≠ arm.condition ∧
      present.tag.label ≠ arm.tag.label ∧ present.tag.value ≠ arm.tag.value) ↔
      ¬(choice.arms.any fun present => present.condition = arm.condition) = true ∧
        ¬(choice.arms.any fun present => present.tag.label = arm.tag.label) = true ∧
          ¬(choice.arms.any fun present => present.tag.value = arm.tag.value) = true := by
    simp only [List.any_eq_true, decide_eq_true_eq, not_exists, not_and, ← forall_and, ne_eq]
  rw [each]
  unfold Union.conflict?
  split
  next repeated =>
    simp only [repeated, not_true_eq_false, false_and, iff_false]
    split <;> exact Option.some_ne_none _
  next =>
    split
    next repeated => simp [repeated]
    next =>
      split
      next repeated => simp [repeated]
      next => simp_all

namespace Tree

variable {forest : ScopeForest} {scope : ScopeId} {left right : Arm}
  {first second : PacketSchema.Arm}

/-- Arms are apart exactly where what they say is. -/
theorem Arm.Means.apart_iff (leftMeans : left.Means first) (rightMeans : right.Means second)
    (leftGrounded : forest.Grounds scope (selectionReferences first.condition))
    (rightGrounded : forest.Grounds scope (selectionReferences second.condition)) :
    left.Apart right ↔ first.condition ≠ second.condition ∧
      first.tag.label ≠ second.tag.label ∧ first.tag.value ≠ second.tag.value := by
  have sameCondition : selectionFormula left.guard = selectionFormula right.guard ↔
      first.condition = second.condition := by
    rw [← leftMeans.condition, ← rightMeans.condition]
    constructor
    · exact ScopeForest.selection_eq_of_formula leftGrounded rightGrounded
    · intro same
      rw [same]
  have sameValue : number? left.tag.value = number? right.tag.value ↔
      first.tag.value = second.tag.value := by
    have leftValue := leftMeans.value
    have rightValue := rightMeans.value
    constructor
    · intro same
      rw [same, rightValue] at leftValue
      exact (Int64.toInt.inj (Option.some.inj leftValue)).symm
    · intro same
      rw [same, ← rightValue] at leftValue
      exact Option.map_injective (fun _ _ => Int.ofNat.inj) leftValue
  rw [Arm.Apart, leftMeans.label, rightMeans.label, ne_eq, sameCondition, ne_eq, ne_eq, sameValue]

end Tree

/-- The union of a name in a scope holds the arms that were written so far. -/
def Schema.Holds (schema : Schema) (scope : ScopeId) (ident : String) (arms : List Tree.Arm) :
    Prop :=
  ∃ choice, schema.forest.field? scope ident = some (.union choice) ∧
    List.Forall₂ Tree.Arm.Means arms choice.arms

namespace Schema

variable {schema grown : Schema} {scope : ScopeId} {ident : String} {arms : List Tree.Arm}

/-- What an arm is refused for is that it is not apart from one before it. -/
theorem Holds.append_iff (holds : schema.Holds scope ident arms) (grounded : schema.Grounded)
    {written : Tree.Arm} {arm : Arm} (means : written.Means arm)
    (armGrounded : schema.forest.Grounds scope (selectionReferences arm.condition)) :
    (∃ grown, schema.appendArm scope ident arm = .ok grown) ↔
      ∀ earlier ∈ arms, earlier.Apart written := by
  rcases holds with ⟨choice, declared, saying⟩
  have accepted : (∃ grown, schema.appendArm scope ident arm = .ok grown) ↔
      choice.conflict? arm = none := by
    unfold Schema.appendArm ScopeForest.appendArm
    simp only [declared, Union.append]
    cases choice.conflict? arm <;> simp
  have held : ∀ present ∈ choice.arms,
      schema.forest.Grounds scope (selectionReferences present.condition) := by
    rcases Option.bind_eq_some_iff.mp declared with ⟨present, located, own⟩
    have whole := grounded.fields scope present located _ (List.mem_of_find?_eq_some own)
    intro present member reference inside
    exact whole reference (List.mem_flatMap.mpr ⟨present, member, inside⟩)
  rw [accepted, Union.conflict_eq_none_iff]
  clear declared accepted
  generalize choice.arms = presents at saying held
  induction saying with
  | nil => simp
  | cons headMeans _ later =>
      have headGrounded := held _ List.mem_cons_self
      have rest := later fun present member => held present (List.mem_cons_of_mem _ member)
      simp only [List.forall_mem_cons, headMeans.apart_iff means headGrounded armGrounded, rest]

theorem Holds.extended (holds : schema.Holds scope ident arms) {written : Tree.Arm} {arm : Arm}
    (means : written.Means arm) (accepted : schema.appendArm scope ident arm = .ok grown) :
    grown.Holds scope ident (arms ++ [written]) := by
  rcases holds with ⟨choice, declared, saying⟩
  have appended := (append_arm_eq_ok accepted).1
  exact ⟨_, ScopeForest.field_arm_added declared appended,
    List.rel_append saying (.cons means .nil)⟩

end Schema

end PacketSchema
