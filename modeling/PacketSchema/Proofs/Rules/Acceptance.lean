import PacketSchema.Proofs.Rules.Sight

/-!
# What is accepted

From a scope that sees the visible statements, a condition, a size or a descriptor is accepted
exactly where the rules allow each number and each reference in it. What it is accepted as does
not matter here.
-/

namespace PacketSchema.Tree

variable {forest : ScopeForest} {scope : ScopeId} {visible : List Binding}

def Value.Admitted (visible : List Binding) (bound : Nat) (leaf : Value) : Prop :=
  leaf.Visible visible ∧ leaf.InRange bound

theorem admitted_iff (visible : List Binding) (bound : Nat) (leaves : List Value) :
    (∀ leaf ∈ leaves, leaf.Admitted visible bound) ↔
      (∀ leaf ∈ leaves, leaf.Visible visible) ∧ ∀ leaf ∈ leaves, leaf.InRange bound := by
  simp only [Value.Admitted, imp_and, forall_and]

theorem admitted_append (visible : List Binding) (bound : Nat) (first second : List Value) :
    (∀ leaf ∈ first ++ second, leaf.Admitted visible bound) ↔
      (∀ leaf ∈ first, leaf.Admitted visible bound) ∧
        ∀ leaf ∈ second, leaf.Admitted visible bound := by
  simp only [List.mem_append, or_imp, forall_and]

theorem unsigned_accepted_iff (numeral : Token) :
    (∃ value, unsignedNumber numeral = .accepted value) ↔ InRange UInt64.size numeral := by
  constructor
  · intro accepted
    rcases accepted with ⟨value, accepted⟩
    rcases (unsigned_eq_accepted numeral value).mp accepted with ⟨number, known, small, _⟩
    exact ⟨number, known, small⟩
  · intro known
    rcases known with ⟨number, known, small⟩
    have same : (UInt64.ofNat number).toNat = number := UInt64.toNat_ofNat_of_lt' small
    exact ⟨_, (unsigned_eq_accepted numeral _).mpr ⟨number, known, small, same⟩⟩

theorem signed_accepted_iff (numeral : Token) :
    (∃ value, signedNumber numeral = .accepted value) ↔ InRange signedSize numeral := by
  constructor
  · intro accepted
    rcases accepted with ⟨value, accepted⟩
    rcases (signed_eq_accepted numeral value).mp accepted with ⟨number, known, small, _⟩
    exact ⟨number, known, small⟩
  · intro known
    rcases known with ⟨number, known, small⟩
    have same : (Int64.ofNat number).toInt = number := Int64.toInt_ofNat_of_lt small
    exact ⟨_, (signed_eq_accepted numeral _).mpr ⟨number, known, small, same⟩⟩

theorem reference_accepted_iff (sees : forest.Sees scope visible) (ident : Token) :
    (∃ reference, resolveReference forest scope ident = .accepted reference) ↔
      ⟨ident.item, .always⟩ ∈ visible := by
  simp only [reference_eq_accepted, sees.resolve_iff]

theorem Value.size_accepted_iff (sees : forest.Sees scope visible) (leaf : Value) :
    (∃ size, leaf.resolveSize forest scope = .accepted size) ↔
      leaf.Admitted visible UInt64.size := by
  cases leaf with
  | integer numeral =>
      rw [Value.resolveSize, Checked.map_accepted_iff, unsigned_accepted_iff]
      simp only [Admitted, Visible, Value.InRange, true_and]
  | reference ident =>
      rw [Value.resolveSize, Checked.map_accepted_iff, reference_accepted_iff sees]
      simp only [Admitted, Visible, Value.InRange, and_true]

theorem Value.leaf_accepted_iff (sees : forest.Sees scope visible) (leaf : Value) :
    (∃ condition, leaf.resolveLeaf forest scope = .accepted condition) ↔
      leaf.Admitted visible signedSize := by
  cases leaf with
  | integer numeral =>
      rw [Value.resolveLeaf, Checked.map_accepted_iff, signed_accepted_iff]
      simp only [Admitted, Visible, Value.InRange, true_and]
  | reference ident =>
      rw [Value.resolveLeaf, Checked.map_accepted_iff, reference_accepted_iff sees]
      simp only [Admitted, Visible, Value.InRange, and_true]

mutual

theorem Disjunction.accepted_iff (sees : forest.Sees scope visible) : ∀ written : Disjunction,
    (∃ condition, written.resolve forest scope = .accepted condition) ↔
      ∀ leaf ∈ written.leaves, leaf.Admitted visible signedSize
  | .single item => by
      rw [Disjunction.resolve, Disjunction.leaves]
      exact item.accepted_iff sees
  | .or left right => by
      rw [Disjunction.resolve, Disjunction.leaves, Checked.both_accepted_iff, admitted_append]
      exact and_congr (left.accepted_iff sees) (right.accepted_iff sees)

theorem Conjunction.accepted_iff (sees : forest.Sees scope visible) : ∀ written : Conjunction,
    (∃ condition, written.resolve forest scope = .accepted condition) ↔
      ∀ leaf ∈ written.leaves, leaf.Admitted visible signedSize
  | .single item => by
      rw [Conjunction.resolve, Conjunction.leaves]
      exact item.accepted_iff sees
  | .and left right => by
      rw [Conjunction.resolve, Conjunction.leaves, Checked.both_accepted_iff, admitted_append]
      exact and_congr (left.accepted_iff sees) (right.accepted_iff sees)

theorem Relation.accepted_iff (sees : forest.Sees scope visible) : ∀ written : Relation,
    (∃ condition, written.resolve forest scope = .accepted condition) ↔
      ∀ leaf ∈ written.leaves, leaf.Admitted visible signedSize
  | .operand only => by
      rw [Relation.resolve, Relation.leaves]
      exact only.accepted_iff sees
  | .compare left _ right => by
      rw [Relation.resolve, Relation.leaves, Checked.both_accepted_iff, admitted_append]
      exact and_congr (left.accepted_iff sees) (right.accepted_iff sees)

theorem Operand.accepted_iff (sees : forest.Sees scope visible) : ∀ written : Operand,
    (∃ condition, written.resolve forest scope = .accepted condition) ↔
      ∀ leaf ∈ written.leaves, leaf.Admitted visible signedSize
  | .value written => by
      rw [Operand.resolve, Operand.leaves, written.leaf_accepted_iff sees]
      simp only [List.mem_singleton, forall_eq]
  | .negation _ operand => by
      rw [Operand.resolve, Operand.leaves, Checked.map_accepted_iff]
      exact operand.accepted_iff sees
  | .group _ inner => by
      rw [Operand.resolve, Operand.leaves]
      exact inner.accepted_iff sees

end

/-- Checking what may be missing accepts it where it is missing. -/
theorem selection_accepted_iff (sees : forest.Sees scope visible)
    (condition : Option Disjunction) :
    (∃ found, Checked.option (fun written : Disjunction => written.resolve forest scope)
        condition = .accepted found) ↔
      ∀ leaf ∈ selectionLeaves condition, leaf.Admitted visible signedSize := by
  cases condition with
  | none => simp [Checked.option, selectionLeaves]
  | some written =>
      rw [Checked.option, Checked.map_accepted_iff]
      exact written.accepted_iff sees

theorem Tag.accepted_iff (tag : Tag) :
    (∃ found, tag.resolve = .accepted found) ↔ InRange signedSize tag.value := by
  rw [Tag.resolve, Checked.map_accepted_iff]
  exact signed_accepted_iff tag.value

theorem Descriptor.accepted_iff (sees : forest.Sees scope visible) (descriptor : Descriptor)
    (ident : String) :
    (∃ encoding, descriptor.resolve forest scope ident = .accepted encoding) ↔
      (descriptor.width ≠ none ∨ descriptor.count ≠ none) ∧
        ∀ leaf ∈ descriptor.leaves, leaf.Admitted visible UInt64.size := by
  have widthIff : ∀ width : Option Width,
      (∃ found, Checked.option (fun written : Width => written.resolve forest scope) width =
        .accepted found) ↔
        ∀ leaf ∈ (width.map Width.count).toList, leaf.Admitted visible UInt64.size := by
    intro width
    cases width with
    | none => simp [Checked.option]
    | some written =>
        rw [Checked.option, Checked.map_accepted_iff, Width.resolve, Checked.map_accepted_iff,
          written.count.size_accepted_iff sees]
        simp
  have countIff : ∀ count : Option Value,
      (∃ found, Checked.option (fun written : Value => written.resolveSize forest scope) count =
        .accepted found) ↔ ∀ leaf ∈ count.toList, leaf.Admitted visible UInt64.size := by
    intro count
    cases count with
    | none => simp [Checked.option]
    | some written =>
        rw [Checked.option, Checked.map_accepted_iff, written.size_accepted_iff sees]
        simp
  cases descriptor with
  | mk scalar width count =>
      rw [Descriptor.leaves, admitted_append, ← widthIff, ← countIff]
      unfold Descriptor.resolve
      cases width <;> cases count <;> simp [Checked.both_accepted_iff]

end PacketSchema.Tree
