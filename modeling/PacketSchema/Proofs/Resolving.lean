import PacketSchema.Build.Resolve
import PacketSchema.Proofs.Formula

/-!
# What resolving answers

A written condition, size or descriptor is accepted exactly where each integer in it is in range
and each reference resolves. What is then answered reads as it was written, and its references
are grounded in the scope from which they were resolved.
-/

namespace PacketSchema

namespace Checked

variable {Item First Second : Type} {item : Item}

theorem of_except_eq_accepted {location : Location} {answer : Except SchemaError Item} :
    ofExcept location answer = .accepted item ↔ answer = .ok item := by
  cases answer <;> simp [ofExcept]

theorem map_eq_accepted {change : First → Item} {checked : Checked First} :
    checked.map change = .accepted item ↔
      ∃ first, checked = .accepted first ∧ change first = item := by
  cases checked <;> simp [map]

theorem both_eq_accepted {combine : First → Second → Item} {left : Checked First}
    {right : Checked Second} :
    both combine left right = .accepted item ↔
      ∃ first second, left = .accepted first ∧ right = .accepted second ∧
        combine first second = item := by
  cases left <;> cases right <;> simp [both]

theorem option_eq_accepted {check : First → Checked Second} {written : Option First}
    {found : Option Second} :
    option check written = .accepted found ↔
      match written with
      | none => found = none
      | some first => ∃ second, check first = .accepted second ∧ found = some second := by
  cases written with
  | none => simp [option, eq_comm]
  | some first =>
      simp only [option, map_eq_accepted]
      exact exists_congr fun second => and_congr_right fun _ => eq_comm

theorem both_accepted_iff {combine : First → Second → Item} {left : Checked First}
    {right : Checked Second} :
    (∃ item, both combine left right = .accepted item) ↔
      (∃ first, left = .accepted first) ∧ ∃ second, right = .accepted second := by
  cases left <;> cases right <;> simp [both]

theorem map_accepted_iff {change : First → Item} {checked : Checked First} :
    (∃ item, checked.map change = .accepted item) ↔ ∃ first, checked = .accepted first := by
  cases checked <;> simp [map]

/-- A refusal names a fault at least. -/
def Reasoned (checked : Checked Item) : Prop := checked ≠ .refused []

theorem reasoned_of_except (location : Location) (answer : Except SchemaError Item) :
    (ofExcept location answer).Reasoned := by
  cases answer <;> simp [Reasoned, ofExcept]

theorem Reasoned.map {checked : Checked First} (reasoned : checked.Reasoned)
    (change : First → Item) : (checked.map change).Reasoned := by
  cases checked with
  | accepted first => simp [Reasoned, Checked.map]
  | refused problems => simpa [Reasoned, Checked.map] using reasoned

theorem Reasoned.both {left : Checked First} {right : Checked Second} (leftReasoned : left.Reasoned)
    (rightReasoned : right.Reasoned) (combine : First → Second → Item) :
    (both combine left right).Reasoned := by
  cases left <;> cases right <;> simp_all [Reasoned, Checked.both, problems]

theorem reasoned_option {check : First → Checked Second} (written : Option First)
    (reasoned : ∀ first, (check first).Reasoned) : (option check written).Reasoned := by
  cases written with
  | none => simp [Reasoned, option]
  | some first => exact (reasoned first).map some

theorem problems_of_refused {checked : Checked Item} {problems : List Diagnostic}
    (refused : checked = .refused problems) : checked.problems = problems := by
  rw [refused]
  rfl

theorem problems_map (change : First → Item) (checked : Checked First) :
    (checked.map change).problems = checked.problems := by
  cases checked <;> rfl

theorem problems_both (combine : First → Second → Item) (left : Checked First)
    (right : Checked Second) :
    (both combine left right).problems = left.problems ++ right.problems := by
  cases left <;> cases right <;> rfl

theorem problem_of_option {check : First → Checked Second} {written : Option First}
    {problem : Diagnostic} (found : problem ∈ (option check written).problems) :
    ∃ first, written = some first ∧ problem ∈ (check first).problems := by
  cases written with
  | none => cases found
  | some first =>
      rw [option, problems_map] at found
      exact ⟨first, rfl, found⟩

end Checked

namespace Tree

variable {forest : ScopeForest} {scope : ScopeId}

theorem value_eq_some_iff (numeral : Token) (value : UInt64) :
    Numeral.value? numeral.item = some value ↔
      ∃ number, number? numeral = some number ∧ number < UInt64.size ∧
        UInt64.ofNat number = value := by
  unfold Numeral.value? number?
  cases Numeral.natural? (trimWhiteSpace numeral.item.toList) with
  | none => simp
  | some number => by_cases small : number < UInt64.size <;> simp [small]

theorem unsigned_eq_accepted (numeral : Token) (value : UInt64) :
    unsignedNumber numeral = .accepted value ↔
      ∃ number, number? numeral = some number ∧ number < UInt64.size ∧ value.toNat = number := by
  have known := value_eq_some_iff numeral value
  have exact64 : ∀ number, number < UInt64.size →
      (UInt64.ofNat number = value ↔ value.toNat = number) := by
    intro number small
    constructor
    · rintro rfl
      exact UInt64.toNat_ofNat_of_lt' small
    · rintro rfl
      exact UInt64.ofNat_toNat
  have accepted : unsignedNumber numeral = .accepted value ↔
      Numeral.value? numeral.item = some value := by
    unfold unsignedNumber
    cases Numeral.value? numeral.item <;> simp
  rw [accepted, known]
  constructor
  · rintro ⟨number, found, small, same⟩
    exact ⟨number, found, small, (exact64 number small).mp same⟩
  · rintro ⟨number, found, small, same⟩
    exact ⟨number, found, small, (exact64 number small).mpr same⟩

theorem signed_eq_accepted (numeral : Token) (value : Int64) :
    signedNumber numeral = .accepted value ↔
      ∃ number : Nat, number? numeral = some number ∧ number < signedSize ∧
        value.toInt = number := by
  have half_size : signedSize < UInt64.size := by decide
  have exact63 : ∀ number : Nat, number < signedSize →
      (Int64.ofNat number = value ↔ value.toInt = number) := by
    intro number small
    rw [← Int64.toInt_ofNat_of_lt small, Int64.toInt_inj, eq_comm]
  unfold signedNumber
  cases found : Numeral.value? numeral.item with
  | none =>
      simp only [reduceCtorEq, false_iff, not_exists, not_and]
      intro number known below
      have big := (value_eq_some_iff numeral (UInt64.ofNat number)).mpr
        ⟨number, known, Nat.lt_trans below half_size, rfl⟩
      simp [found] at big
  | some unsigned =>
      obtain ⟨number, known, small, rfl⟩ := (value_eq_some_iff numeral unsigned).mp found
      have same : (UInt64.ofNat number).toNat = number := UInt64.toNat_ofNat_of_lt' small
      simp only [known, Option.some.injEq, same]
      by_cases half : number < signedSize
      · simp only [half, if_true, Checked.accepted.injEq, exact63 number half, true_and,
          exists_eq_left']
      · simp only [half, if_false, reduceCtorEq, false_and, exists_eq_left']

theorem reference_eq_accepted {ident : Token} {reference : FieldRef} :
    resolveReference forest scope ident = .accepted reference ↔
      forest.resolve scope ident.item = .ok reference :=
  Checked.of_except_eq_accepted

theorem grounded_of_resolve {ident : String} {reference : FieldRef}
    (resolved : forest.resolve scope ident = .ok reference) :
    reference.ident = ident ∧ forest.resolve scope reference.ident = .ok reference := by
  obtain ⟨rfl, _⟩ := ScopeForest.resolve_eq_ok_iff.mp resolved
  exact ⟨rfl, resolved⟩

theorem Value.size_accepted {written : Value} {size : Size}
    (accepted : written.resolveSize forest scope = .accepted size) :
    size.formula = written.formula ∧ forest.Grounds scope size.references := by
  cases written with
  | integer numeral =>
      obtain ⟨value, known, rfl⟩ := Checked.map_eq_accepted.mp accepted
      obtain ⟨number, found, _, same⟩ := (unsigned_eq_accepted numeral value).mp known
      refine ⟨?_, ScopeForest.grounds_nil⟩
      simp only [Size.formula, Value.formula, found, same, Option.map_some, Int.ofNat_eq_natCast]
  | reference ident =>
      obtain ⟨reference, known, rfl⟩ := Checked.map_eq_accepted.mp accepted
      obtain ⟨named, grounded⟩ := grounded_of_resolve (reference_eq_accepted.mp known)
      refine ⟨?_, ScopeForest.grounds_singleton.mpr grounded⟩
      simp only [Size.formula, Value.formula, named]

theorem Value.leaf_accepted {written : Value} {condition : Condition}
    (accepted : written.resolveLeaf forest scope = .accepted condition) :
    condition.formula = written.formula ∧ forest.Grounds scope condition.references := by
  cases written with
  | integer numeral =>
      obtain ⟨value, known, rfl⟩ := Checked.map_eq_accepted.mp accepted
      obtain ⟨number, found, _, same⟩ := (signed_eq_accepted numeral value).mp known
      refine ⟨?_, ScopeForest.grounds_nil⟩
      simp only [Condition.formula, Value.formula, found, same, Option.map_some,
        Int.ofNat_eq_natCast]
  | reference ident =>
      obtain ⟨reference, known, rfl⟩ := Checked.map_eq_accepted.mp accepted
      obtain ⟨named, grounded⟩ := grounded_of_resolve (reference_eq_accepted.mp known)
      refine ⟨?_, ScopeForest.grounds_singleton.mpr grounded⟩
      simp only [Condition.formula, Value.formula, named]

mutual

/-- An accepted condition reads as it was written and is grounded. -/
theorem Disjunction.condition_accepted : ∀ {written : Disjunction} {condition : Condition},
    written.resolve forest scope = .accepted condition →
      condition.formula = written.formula ∧ forest.Grounds scope condition.references
  | .single item, condition, accepted => by
      rw [Disjunction.resolve] at accepted
      exact Conjunction.condition_accepted accepted
  | .or left right, condition, accepted => by
      rw [Disjunction.resolve] at accepted
      obtain ⟨first, second, leftFound, rightFound, rfl⟩ := Checked.both_eq_accepted.mp accepted
      obtain ⟨leftReads, leftGrounded⟩ := Disjunction.condition_accepted leftFound
      obtain ⟨rightReads, rightGrounded⟩ := Conjunction.condition_accepted rightFound
      refine ⟨?_, ScopeForest.grounds_append.mpr ⟨leftGrounded, rightGrounded⟩⟩
      simp only [Condition.formula, Disjunction.formula, leftReads, rightReads]

theorem Conjunction.condition_accepted : ∀ {written : Conjunction} {condition : Condition},
    written.resolve forest scope = .accepted condition →
      condition.formula = written.formula ∧ forest.Grounds scope condition.references
  | .single item, condition, accepted => by
      rw [Conjunction.resolve] at accepted
      exact Relation.condition_accepted accepted
  | .and left right, condition, accepted => by
      rw [Conjunction.resolve] at accepted
      obtain ⟨first, second, leftFound, rightFound, rfl⟩ := Checked.both_eq_accepted.mp accepted
      obtain ⟨leftReads, leftGrounded⟩ := Conjunction.condition_accepted leftFound
      obtain ⟨rightReads, rightGrounded⟩ := Relation.condition_accepted rightFound
      refine ⟨?_, ScopeForest.grounds_append.mpr ⟨leftGrounded, rightGrounded⟩⟩
      simp only [Condition.formula, Conjunction.formula, leftReads, rightReads]

theorem Relation.condition_accepted : ∀ {written : Relation} {condition : Condition},
    written.resolve forest scope = .accepted condition →
      condition.formula = written.formula ∧ forest.Grounds scope condition.references
  | .operand only, condition, accepted => by
      rw [Relation.resolve] at accepted
      exact Operand.condition_accepted accepted
  | .compare left comparison right, condition, accepted => by
      rw [Relation.resolve] at accepted
      obtain ⟨first, second, leftFound, rightFound, rfl⟩ := Checked.both_eq_accepted.mp accepted
      obtain ⟨leftReads, leftGrounded⟩ := Operand.condition_accepted leftFound
      obtain ⟨rightReads, rightGrounded⟩ := Operand.condition_accepted rightFound
      refine ⟨?_, ScopeForest.grounds_append.mpr ⟨leftGrounded, rightGrounded⟩⟩
      simp only [Condition.formula, Relation.formula, leftReads, rightReads]

theorem Operand.condition_accepted : ∀ {written : Operand} {condition : Condition},
    written.resolve forest scope = .accepted condition →
      condition.formula = written.formula ∧ forest.Grounds scope condition.references
  | .value written, condition, accepted => by
      rw [Operand.resolve] at accepted
      exact Value.leaf_accepted accepted
  | .negation _ operand, condition, accepted => by
      rw [Operand.resolve] at accepted
      obtain ⟨inner, found, rfl⟩ := Checked.map_eq_accepted.mp accepted
      obtain ⟨reads, grounded⟩ := Operand.condition_accepted found
      refine ⟨?_, grounded⟩
      simp only [Condition.formula, Operand.formula, reads]
  | .group _ inner, condition, accepted => by
      rw [Operand.resolve] at accepted
      exact Disjunction.condition_accepted accepted

end

theorem selection_accepted {written : Option Disjunction} {condition : Option Condition}
    (accepted : Checked.option (fun present : Disjunction => present.resolve forest scope) written =
      .accepted condition) :
    condition.map Condition.formula = selectionFormula written ∧
      forest.Grounds scope (selectionReferences condition) := by
  rw [Checked.option_eq_accepted] at accepted
  cases written with
  | none =>
      subst accepted
      exact ⟨rfl, ScopeForest.grounds_nil⟩
  | some present =>
      rcases accepted with ⟨resolved, found, rfl⟩
      have reads := Disjunction.condition_accepted found
      exact ⟨congrArg some reads.1, reads.2⟩

theorem Descriptor.encoding_accepted {descriptor : Descriptor} {ident : String}
    {encoding : Encoding} (accepted : descriptor.resolve forest scope ident = .accepted encoding) :
    encoding.layout = descriptor.layout ∧ forest.Grounds scope encoding.references := by
  obtain ⟨scalar, width, count⟩ := descriptor
  have parts : Checked.both (Encoding.ofParts scalar.item)
      (.option (fun written => written.resolve forest scope) width)
      (.option (fun written => written.resolveSize forest scope) count) = .accepted encoding := by
    cases width <;> cases count <;> simp_all [Descriptor.resolve]
  obtain ⟨foundWidth, foundCount, widthFound, countFound, rfl⟩ := Checked.both_eq_accepted.mp parts
  have widthReads : (foundWidth.getD .oneByte).count.formula =
        (Descriptor.layout ⟨scalar, width, count⟩).width ∧
      (foundWidth.getD .oneByte).unit = (Descriptor.layout ⟨scalar, width, count⟩).unit ∧
      forest.Grounds scope (foundWidth.getD .oneByte).count.references := by
    rw [Checked.option_eq_accepted] at widthFound
    cases width with
    | none =>
        subst widthFound
        exact ⟨rfl, rfl, ScopeForest.grounds_nil⟩
    | some written =>
        obtain ⟨found, resolved, rfl⟩ := widthFound
        obtain ⟨size, sizeFound, rfl⟩ := Checked.map_eq_accepted.mp resolved
        obtain ⟨reads, grounded⟩ := Value.size_accepted sizeFound
        obtain ⟨writtenCount, place, unit⟩ := written
        exact ⟨reads, by cases unit <;> rfl, grounded⟩
  have countReads : (foundCount.getD .one).formula =
        (Descriptor.layout ⟨scalar, width, count⟩).count ∧
      forest.Grounds scope (foundCount.getD .one).references := by
    rw [Checked.option_eq_accepted] at countFound
    cases count with
    | none =>
        subst countFound
        exact ⟨rfl, ScopeForest.grounds_nil⟩
    | some written =>
        obtain ⟨size, sizeFound, rfl⟩ := countFound
        exact Value.size_accepted sizeFound
  refine ⟨?_, ScopeForest.grounds_append.mpr ⟨widthReads.2.2, countReads.2⟩⟩
  simp only [Encoding.layout, Encoding.ofParts, widthReads, countReads.1]
  rfl

theorem reasoned_unsigned (numeral : Token) : (unsignedNumber numeral).Reasoned := by
  unfold unsignedNumber
  split <;> simp [Checked.Reasoned]

theorem reasoned_signed (numeral : Token) : (signedNumber numeral).Reasoned := by
  unfold signedNumber
  split
  · split <;> simp [Checked.Reasoned]
  · simp [Checked.Reasoned]

theorem Value.size_reasoned (written : Value) : (written.resolveSize forest scope).Reasoned := by
  cases written with
  | integer numeral => exact (reasoned_unsigned numeral).map _
  | reference ident => exact (Checked.reasoned_of_except _ _).map _

theorem Value.leaf_reasoned (written : Value) : (written.resolveLeaf forest scope).Reasoned := by
  cases written with
  | integer numeral => exact (reasoned_signed numeral).map _
  | reference ident => exact (Checked.reasoned_of_except _ _).map _

mutual

theorem Disjunction.reasoned : ∀ written : Disjunction, (written.resolve forest scope).Reasoned
  | .single item => by
      rw [Disjunction.resolve]
      exact item.reasoned
  | .or left right => by
      rw [Disjunction.resolve]
      exact left.reasoned.both right.reasoned _

theorem Conjunction.reasoned : ∀ written : Conjunction, (written.resolve forest scope).Reasoned
  | .single item => by
      rw [Conjunction.resolve]
      exact item.reasoned
  | .and left right => by
      rw [Conjunction.resolve]
      exact left.reasoned.both right.reasoned _

theorem Relation.reasoned : ∀ written : Relation, (written.resolve forest scope).Reasoned
  | .operand only => by
      rw [Relation.resolve]
      exact only.reasoned
  | .compare left _ right => by
      rw [Relation.resolve]
      exact left.reasoned.both right.reasoned _

theorem Operand.reasoned : ∀ written : Operand, (written.resolve forest scope).Reasoned
  | .value written => by
      rw [Operand.resolve]
      exact written.leaf_reasoned
  | .negation _ operand => by
      rw [Operand.resolve]
      exact operand.reasoned.map _
  | .group _ inner => by
      rw [Operand.resolve]
      exact inner.reasoned

end

theorem Descriptor.reasoned (descriptor : Descriptor) (ident : String) :
    (descriptor.resolve forest scope ident).Reasoned := by
  unfold Descriptor.resolve
  split
  · simp [Checked.Reasoned]
  · exact (Checked.reasoned_option _ fun width => width.count.size_reasoned.map _).both
      (Checked.reasoned_option _ fun count => count.size_reasoned) _

theorem Tag.reasoned (tag : Tag) : tag.resolve.Reasoned :=
  (reasoned_signed tag.value).map _

theorem Tag.tag_accepted {written : Tag} {tag : PacketSchema.Tag} :
    written.resolve = .accepted tag ↔
      tag.label = written.label.item ∧ ∃ number : Nat, number? written.value = some number ∧
        number < signedSize ∧ tag.value.toInt = number := by
  obtain ⟨label, value⟩ := tag
  simp only [Tag.resolve, Checked.map_eq_accepted, signed_eq_accepted, PacketSchema.Tag.mk.injEq]
  constructor
  · rintro ⟨value, known, rfl, rfl⟩
    exact ⟨rfl, known⟩
  · rintro ⟨rfl, known⟩
    exact ⟨value, known, rfl, rfl⟩

section Leaves

variable {problem : Diagnostic}

/-- What can be wrong with a number or a reference that is used from a scope, and where. -/
inductive Value.Problem (forest : ScopeForest) (scope : ScopeId) : Value → Diagnostic → Prop
  | number (numeral : Token) : Problem forest scope (.integer numeral)
      ⟨numeral.location, .integerOutOfRange numeral.item⟩
  | reference {ident : Token} {error : SchemaError}
      (refused : forest.resolve scope ident.item = .error error) :
      Problem forest scope (.reference ident) ⟨ident.location, error⟩

theorem signed_problem {numeral : Token} (found : problem ∈ (signedNumber numeral).problems) :
    problem = ⟨numeral.location, .integerOutOfRange numeral.item⟩ := by
  unfold signedNumber at found
  split at found
  · split at found
    · cases found
    · exact List.mem_singleton.mp found
  · exact List.mem_singleton.mp found

theorem reference_problem {ident : Token}
    (found : problem ∈ (resolveReference forest scope ident).problems) :
    (Value.reference ident).Problem forest scope problem := by
  unfold resolveReference at found
  cases resolved : forest.resolve scope ident.item with
  | ok reference =>
      rw [resolved] at found
      cases found
  | error error =>
      rw [resolved] at found
      cases List.mem_singleton.mp found
      exact .reference resolved

theorem Value.size_problem {value : Value}
    (found : problem ∈ (value.resolveSize forest scope).problems) :
    value.Problem forest scope problem := by
  cases value with
  | integer numeral =>
      rw [Value.resolveSize, Checked.problems_map] at found
      unfold unsignedNumber at found
      split at found
      · cases found
      · cases List.mem_singleton.mp found
        exact .number numeral
  | reference ident =>
      rw [Value.resolveSize, Checked.problems_map] at found
      exact reference_problem found

theorem Value.leaf_problem {value : Value}
    (found : problem ∈ (value.resolveLeaf forest scope).problems) :
    value.Problem forest scope problem := by
  cases value with
  | integer numeral =>
      rw [Value.resolveLeaf, Checked.problems_map] at found
      rw [signed_problem found]
      exact .number numeral
  | reference ident =>
      rw [Value.resolveLeaf, Checked.problems_map] at found
      exact reference_problem found

mutual

/-- What is wrong with a condition is what is wrong with its leaves, from left to right. -/
theorem Disjunction.problems_eq : ∀ condition : Disjunction,
    (condition.resolve forest scope).problems =
      condition.leaves.flatMap fun leaf => (leaf.resolveLeaf forest scope).problems
  | .single item => by
      rw [Disjunction.resolve, Disjunction.leaves, item.problems_eq]
  | .or left right => by
      rw [Disjunction.resolve, Checked.problems_both, Disjunction.leaves, List.flatMap_append,
        left.problems_eq, right.problems_eq]

theorem Conjunction.problems_eq : ∀ condition : Conjunction,
    (condition.resolve forest scope).problems =
      condition.leaves.flatMap fun leaf => (leaf.resolveLeaf forest scope).problems
  | .single item => by
      rw [Conjunction.resolve, Conjunction.leaves, item.problems_eq]
  | .and left right => by
      rw [Conjunction.resolve, Checked.problems_both, Conjunction.leaves, List.flatMap_append,
        left.problems_eq, right.problems_eq]

theorem Relation.problems_eq : ∀ condition : Relation,
    (condition.resolve forest scope).problems =
      condition.leaves.flatMap fun leaf => (leaf.resolveLeaf forest scope).problems
  | .operand only => by
      rw [Relation.resolve, Relation.leaves, only.problems_eq]
  | .compare left _ right => by
      rw [Relation.resolve, Checked.problems_both, Relation.leaves, List.flatMap_append,
        left.problems_eq, right.problems_eq]

theorem Operand.problems_eq : ∀ operand : Operand,
    (operand.resolve forest scope).problems =
      operand.leaves.flatMap fun leaf => (leaf.resolveLeaf forest scope).problems
  | .value written => by
      rw [Operand.resolve, Operand.leaves, List.flatMap_singleton]
  | .negation _ operand => by
      rw [Operand.resolve, Checked.problems_map, Operand.leaves, operand.problems_eq]
  | .group _ inner => by
      rw [Operand.resolve, Operand.leaves, inner.problems_eq]

end

theorem Disjunction.problem_of_leaf (condition : Disjunction)
    (found : problem ∈ (condition.resolve forest scope).problems) :
    ∃ leaf ∈ condition.leaves, leaf.Problem forest scope problem := by
  rw [condition.problems_eq] at found
  obtain ⟨leaf, member, inside⟩ := List.mem_flatMap.mp found
  exact ⟨leaf, member, leaf.leaf_problem inside⟩

theorem selection_problem {written : Option Disjunction}
    (found : problem ∈ (Checked.option (fun condition : Disjunction =>
      condition.resolve forest scope) written).problems) :
    ∃ leaf ∈ selectionLeaves written, leaf.Problem forest scope problem := by
  obtain ⟨condition, rfl, inside⟩ := Checked.problem_of_option found
  exact condition.problem_of_leaf inside

/-- A descriptor that says neither width nor count is wrong as a whole; what else is wrong with
one is wrong with one of its sizes. -/
theorem Descriptor.problem_of_leaf (descriptor : Descriptor) (ident : String)
    (found : problem ∈ (descriptor.resolve forest scope ident).problems) :
    problem = ⟨descriptor.scalar.location, .bareDescriptor ident⟩ ∨
      ∃ leaf ∈ descriptor.leaves, leaf.Problem forest scope problem := by
  unfold Descriptor.resolve at found
  split at found
  · exact .inl (List.mem_singleton.mp found)
  · right
    rw [Checked.problems_both, List.mem_append] at found
    rcases found with wide | many
    · obtain ⟨width, written, inside⟩ := Checked.problem_of_option wide
      rw [Width.resolve, Checked.problems_map] at inside
      exact ⟨width.count, by simp [Descriptor.leaves, written], width.count.size_problem inside⟩
    · obtain ⟨count, written, inside⟩ := Checked.problem_of_option many
      exact ⟨count, by simp [Descriptor.leaves, written], count.size_problem inside⟩

/-- What is wrong with an arm as it is written is wrong with its condition or with its value. -/
theorem arm_problem {guard : Option Disjunction} {tag : Tag}
    (found : problem ∈ (Checked.both Prod.mk
      (.option (fun written : Disjunction => written.resolve forest scope) guard)
      tag.resolve).problems) :
    ∃ leaf ∈ selectionLeaves guard ++ [.integer tag.value], leaf.Problem forest scope problem := by
  rw [Checked.problems_both, List.mem_append] at found
  rcases found with guarded | tagged
  · obtain ⟨leaf, member, wrong⟩ := selection_problem guarded
    exact ⟨leaf, List.mem_append_left _ member, wrong⟩
  · rw [Tag.resolve, Checked.problems_map] at tagged
    rw [signed_problem tagged]
    exact ⟨_, List.mem_append_right _ (List.mem_singleton_self _), .number tag.value⟩

end Leaves

/-- What an arm is added as reads as it was written. -/
theorem Arm.means_of_accepted {location : Location} {guard : Option Disjunction} {tag : Tag}
    {body : List Statement} {condition : Option Condition} {resolved : PacketSchema.Tag}
    {child : ScopeId}
    (guardFound : Checked.option (fun written : Disjunction => written.resolve forest scope)
      guard = .accepted condition)
    (tagFound : tag.resolve = .accepted resolved) :
    (Arm.mk location guard tag body).Means ⟨condition, resolved, child⟩ := by
  rcases Tag.tag_accepted.mp tagFound with ⟨label, number, known, _, value⟩
  refine ⟨(selection_accepted guardFound).1, label, ?_⟩
  change (number? tag.value).map Int.ofNat = some resolved.value.toInt
  rw [known, value]
  rfl

end Tree

end PacketSchema
