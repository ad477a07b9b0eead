import PacketSchema.Proofs.Grammar.Ordering
import PacketSchema.Proofs.Grammar.Standing
import PacketSchema.Proofs.Numbers.Answered
import PacketSchema.Proofs.Resolving
import PacketSchema.Proofs.Scope.TreeOrder
import PacketSchema.Proofs.Walk.Reach

/-!
# What is wrong with a condition

Each leaf of a condition is judged by itself: an integer is wrong from 2^63 on, a reference where it
does not resolve. Whatever is found wrong with one leaf, the others are still looked at, so the
diagnostics of a condition are those of its leaves, in the order of the text; a condition without
any is accepted, and it refers to what its references resolve to, one by one.
-/

namespace PacketSchema

namespace Tree

mutual

/-- The conditions in parentheses inside a condition. -/
def Disjunction.groups : Disjunction → List Disjunction
  | .single item => item.groups
  | .or left right => left.groups ++ right.groups

def Conjunction.groups : Conjunction → List Disjunction
  | .single item => item.groups
  | .and left right => left.groups ++ right.groups

def Relation.groups : Relation → List Disjunction
  | .operand only => only.groups
  | .compare left _ right => left.groups ++ right.groups

def Operand.groups : Operand → List Disjunction
  | .value _ => []
  | .negation _ operand => operand.groups
  | .group _ inner => inner :: inner.groups

end

/-- Every condition that is written in a text, also inside another one. -/
def Module.conditions (tree : Module) : List Disjunction :=
  ((tree.packets.flatMap fun packet => packet.condition?.toList) ++
    tree.sites.flatMap fun site => site.statement.conditions).flatMap fun condition =>
      condition :: condition.groups

mutual

/-- The leaves of what stands in parentheses are some of the whole, in their order. -/
theorem Disjunction.group_leaves : ∀ (condition : Disjunction) {inner : Disjunction},
    inner ∈ condition.groups → inner.leaves.Sublist condition.leaves
  | .single item, inner, member => by
      rw [Disjunction.groups] at member
      rw [Disjunction.leaves]
      exact item.group_leaves member
  | .or left right, inner, member => by
      rw [Disjunction.groups] at member
      rw [Disjunction.leaves]
      rcases List.mem_append.mp member with first | last
      · exact (left.group_leaves first).trans (List.sublist_append_left _ _)
      · exact (right.group_leaves last).trans (List.sublist_append_right _ _)

theorem Conjunction.group_leaves : ∀ (condition : Conjunction) {inner : Disjunction},
    inner ∈ condition.groups → inner.leaves.Sublist condition.leaves
  | .single item, inner, member => by
      rw [Conjunction.groups] at member
      rw [Conjunction.leaves]
      exact item.group_leaves member
  | .and left right, inner, member => by
      rw [Conjunction.groups] at member
      rw [Conjunction.leaves]
      rcases List.mem_append.mp member with first | last
      · exact (left.group_leaves first).trans (List.sublist_append_left _ _)
      · exact (right.group_leaves last).trans (List.sublist_append_right _ _)

theorem Relation.group_leaves : ∀ (condition : Relation) {inner : Disjunction},
    inner ∈ condition.groups → inner.leaves.Sublist condition.leaves
  | .operand only, inner, member => by
      rw [Relation.groups] at member
      rw [Relation.leaves]
      exact only.group_leaves member
  | .compare left _ right, inner, member => by
      rw [Relation.groups] at member
      rw [Relation.leaves]
      rcases List.mem_append.mp member with first | last
      · exact (left.group_leaves first).trans (List.sublist_append_left _ _)
      · exact (right.group_leaves last).trans (List.sublist_append_right _ _)

theorem Operand.group_leaves : ∀ (operand : Operand) {inner : Disjunction},
    inner ∈ operand.groups → inner.leaves.Sublist operand.leaves
  | .value _, inner, member => by
      rw [Operand.groups] at member
      cases member
  | .negation _ operand, inner, member => by
      rw [Operand.groups] at member
      rw [Operand.leaves]
      exact operand.group_leaves member
  | .group _ condition, inner, member => by
      rw [Operand.groups] at member
      rw [Operand.leaves]
      rcases List.mem_cons.mp member with rfl | deeper
      · exact .refl _
      · exact condition.group_leaves deeper

end

/-- What is wrong with a leaf that is used in a condition, if anything is. -/
def Value.fault? (forest : ScopeForest) (scope : ScopeId) : Value → Option Diagnostic
  | .integer numeral => (number? numeral).bind fun number =>
      if number < signedSize then none
      else some ⟨numeral.location, .integerOutOfRange numeral.item⟩
  | .reference ident =>
      match forest.resolve scope ident.item with
      | .error (.unresolvedReference _ reason) =>
          some ⟨ident.location, .unresolvedReference ident.item reason⟩
      | _ => none

def Value.name? : Value → Option String
  | .integer _ => none
  | .reference ident => some ident.item

section Resolving

variable {forest : ScopeForest} {scope : ScopeId}

theorem Value.Numbered.number {numeral : Token} (numbered : (Value.integer numeral).Numbered) :
    ∃ number, number? numeral = some number := by
  obtain ⟨number, known⟩ := Grammar.IsNumeral.number numbered
  refine ⟨number, ?_⟩
  rw [number?, Grammar.IsNumeral.trimmed numbered, known]

theorem signed_refused {numeral : Token} {problems : List Diagnostic}
    (refused : signedNumber numeral = .refused problems) :
    problems = [⟨numeral.location, .integerOutOfRange numeral.item⟩] := by
  unfold signedNumber at refused
  split at refused
  · split at refused
    · cases refused
    · cases refused
      rfl
  · cases refused
    rfl

theorem signed_problems (numeral : Token) {number : Nat} (known : number? numeral = some number) :
    (signedNumber numeral).problems =
      if number < signedSize then []
      else [⟨numeral.location, .integerOutOfRange numeral.item⟩] := by
  cases checked : signedNumber numeral with
  | accepted value =>
      obtain ⟨found, also, small, -⟩ := (signed_eq_accepted numeral value).mp checked
      cases known.symm.trans also
      rw [if_pos small]
      rfl
  | refused problems =>
      have large : ¬number < signedSize := by
        intro small
        have accepted := (signed_eq_accepted numeral (Int64.ofNat number)).mpr
          ⟨number, known, small, Int64.toInt_ofNat_of_lt small⟩
        rw [checked] at accepted
        cases accepted
      rw [if_neg large, Checked.problems, signed_refused checked]

theorem Value.leaf_problems {leaf : Value} (numbered : leaf.Numbered)
    (answered : ∀ ident, ∃ binding, forest.lookup scope ident = .ok binding) :
    (leaf.resolveLeaf forest scope).problems = (leaf.fault? forest scope).toList := by
  cases leaf with
  | integer numeral =>
      obtain ⟨number, known⟩ := numbered.number
      rw [Value.resolveLeaf, Checked.problems_map, signed_problems numeral known, Value.fault?,
        known, Option.bind_some]
      split <;> rfl
  | reference ident =>
      rw [Value.resolveLeaf, Checked.problems_map, resolveReference, Value.fault?]
      rcases ScopeForest.resolve_answers (answered ident.item) with
        ⟨found, resolved⟩ | ⟨reason, unresolved⟩
      · rw [resolved]
        rfl
      · rw [unresolved]
        rfl

theorem Disjunction.faults_eq {condition : Disjunction}
    (numbered : ∀ leaf ∈ condition.leaves, leaf.Numbered)
    (answered : ∀ ident, ∃ binding, forest.lookup scope ident = .ok binding) :
    (condition.resolve forest scope).problems =
      condition.leaves.filterMap (Value.fault? forest scope) := by
  rw [condition.problems_eq, List.filterMap_eq_flatMap_toList]
  exact List.flatMap_congr fun leaf member =>
    Value.leaf_problems (numbered leaf member) answered

/-- What the references among some leaves resolve to, one by one. -/
def resolutions (forest : ScopeForest) (scope : ScopeId) (leaves : List Value) :
    List (Except SchemaError FieldRef) :=
  (leaves.filterMap Value.name?).map (forest.resolve scope)

theorem Value.references_resolved (leaf : Value) {found : Condition}
    (accepted : leaf.resolveLeaf forest scope = .accepted found) :
    resolutions forest scope [leaf] = found.references.map .ok := by
  cases leaf with
  | integer numeral =>
      obtain ⟨value, -, rfl⟩ := Checked.map_eq_accepted.mp accepted
      rfl
  | reference ident =>
      obtain ⟨reference, known, rfl⟩ := Checked.map_eq_accepted.mp accepted
      exact congrArg (fun answer => [answer]) (reference_eq_accepted.mp known)

theorem resolutions_append (first second : List Value) :
    resolutions forest scope (first ++ second) =
      resolutions forest scope first ++ resolutions forest scope second := by
  rw [resolutions, List.filterMap_append, List.map_append]
  rfl

mutual

theorem Disjunction.references_resolved : ∀ (written : Disjunction) {found : Condition},
    written.resolve forest scope = .accepted found →
      resolutions forest scope written.leaves = found.references.map .ok
  | .single item, found, accepted => by
      rw [Disjunction.resolve] at accepted
      rw [Disjunction.leaves]
      exact item.references_resolved accepted
  | .or left right, found, accepted => by
      rw [Disjunction.resolve] at accepted
      obtain ⟨first, second, leftFound, rightFound, rfl⟩ := Checked.both_eq_accepted.mp accepted
      rw [Disjunction.leaves, resolutions_append, left.references_resolved leftFound,
        right.references_resolved rightFound, Condition.references, List.map_append]

theorem Conjunction.references_resolved : ∀ (written : Conjunction) {found : Condition},
    written.resolve forest scope = .accepted found →
      resolutions forest scope written.leaves = found.references.map .ok
  | .single item, found, accepted => by
      rw [Conjunction.resolve] at accepted
      rw [Conjunction.leaves]
      exact item.references_resolved accepted
  | .and left right, found, accepted => by
      rw [Conjunction.resolve] at accepted
      obtain ⟨first, second, leftFound, rightFound, rfl⟩ := Checked.both_eq_accepted.mp accepted
      rw [Conjunction.leaves, resolutions_append, left.references_resolved leftFound,
        right.references_resolved rightFound, Condition.references, List.map_append]

theorem Relation.references_resolved : ∀ (written : Relation) {found : Condition},
    written.resolve forest scope = .accepted found →
      resolutions forest scope written.leaves = found.references.map .ok
  | .operand only, found, accepted => by
      rw [Relation.resolve] at accepted
      rw [Relation.leaves]
      exact only.references_resolved accepted
  | .compare left _ right, found, accepted => by
      rw [Relation.resolve] at accepted
      obtain ⟨first, second, leftFound, rightFound, rfl⟩ := Checked.both_eq_accepted.mp accepted
      rw [Relation.leaves, resolutions_append, left.references_resolved leftFound,
        right.references_resolved rightFound, Condition.references, List.map_append]

theorem Operand.references_resolved : ∀ (written : Operand) {found : Condition},
    written.resolve forest scope = .accepted found →
      resolutions forest scope written.leaves = found.references.map .ok
  | .value leaf, found, accepted => by
      rw [Operand.resolve] at accepted
      rw [Operand.leaves]
      exact leaf.references_resolved accepted
  | .negation _ operand, found, accepted => by
      rw [Operand.resolve] at accepted
      obtain ⟨inner, innerFound, rfl⟩ := Checked.map_eq_accepted.mp accepted
      rw [Operand.leaves, Condition.references]
      exact operand.references_resolved innerFound
  | .group _ inner, found, accepted => by
      rw [Operand.resolve] at accepted
      rw [Operand.leaves]
      exact inner.references_resolved accepted

end

/-- A condition is accepted where nothing is wrong with a leaf of it. -/
theorem Disjunction.accepted_iff_no_problem (condition : Disjunction) :
    (∃ found, condition.resolve forest scope = .accepted found) ↔
      (condition.resolve forest scope).problems = [] := by
  cases checked : condition.resolve forest scope with
  | accepted found => exact ⟨fun _ => rfl, fun _ => ⟨found, rfl⟩⟩
  | refused problems =>
      have reasoned := @Disjunction.reasoned forest scope condition
      rw [checked] at reasoned
      constructor
      · rintro ⟨found, same⟩
        cases same
      · intro none
        rw [Checked.problems] at none
        rw [none] at reasoned
        exact absurd rfl reasoned

end Resolving

/-- What was read where a condition stands has its leaves in the order of the text. -/
theorem Disjunction.IsRead.ascending {source : List Char} {condition : Disjunction}
    (read : condition.IsRead source) :
    ∃ start finish, Ascending start condition.leaves finish := by
  obtain ⟨bound, cursor, after, -, accepted⟩ := read
  obtain ⟨_, rfl, ascending⟩ :=
    (Grammar.Parser.condition_orders bound).holds cursor condition after accepted
  exact ⟨_, _, ascending⟩

theorem Disjunction.IsRead.stands {source : List Char} {condition : Disjunction}
    (read : condition.IsRead source) : condition.Stands source := by
  obtain ⟨bound, cursor, after, placed, accepted⟩ := read
  exact ((Grammar.Parser.condition_stands bound).holds cursor condition after placed accepted).1.1

/-- Every condition of a text is one that was read, or stands in parentheses in one. -/
theorem Module.Stands.condition_within {source : List Char} {tree : Module}
    (stands : tree.Stands source) {condition : Disjunction}
    (written : condition ∈ tree.conditions) :
    ∃ whole : Disjunction, whole.IsRead source ∧ condition.leaves.Sublist whole.leaves := by
  obtain ⟨whole, listed, inside⟩ := List.mem_flatMap.mp written
  have read : whole.IsRead source := by
    rcases List.mem_append.mp listed with clause | own
    · obtain ⟨packet, member, given⟩ := List.mem_flatMap.mp clause
      exact (stands.packets packet member).condition whole (Option.mem_toList.mp given)
    · obtain ⟨site, member, given⟩ := List.mem_flatMap.mp own
      exact (stands.sites site member).conditions whole given
  refine ⟨whole, read, ?_⟩
  rcases List.mem_cons.mp inside with rfl | deeper
  · exact .refl _
  · exact whole.group_leaves deeper

end Tree

open PacketSchema.Tree in
/-- Wherever the walk up from a scope comes to its end among the scopes that are there, as in an
ordered forest each does that starts at one of them, each leaf of a condition that is out of range
or does not resolve is reported, once, at its place and in the order of the text, and nothing else
is. A condition without such a leaf is accepted, and its references are what the written ones
resolve to. -/
theorem condition_reports_its_leaves {source : String} {tree : Tree.Module}
    (parsed : Grammar.parse source = .ok tree) {condition : Tree.Disjunction}
    (written : condition ∈ tree.conditions) {build : Build} {scope : ScopeId}
    {ids : List ScopeId} (walk : build.schema.forest.HandsOut (some scope) ids)
    (issued : ∀ id ∈ ids, build.schema.forest.Issued id) :
    (build.report (condition.resolve build.schema.forest scope).problems =
      ⟨build.schema,
        build.diagnostics ++ condition.leaves.filterMap (Value.fault? build.schema.forest scope)⟩) ∧
    condition.leaves.Pairwise
      (fun left right => left.location.isBefore right.location = true) ∧
    (∀ leaf ∈ condition.leaves, Shows source.toList leaf.location leaf.text) ∧
    ((∃ found, condition.resolve build.schema.forest scope = .accepted found) ↔
      ∀ leaf ∈ condition.leaves, leaf.fault? build.schema.forest scope = none) ∧
    ∀ found, condition.resolve build.schema.forest scope = .accepted found →
      (condition.leaves.filterMap Value.name?).map (build.schema.forest.resolve scope) =
        found.references.map .ok := by
  obtain ⟨whole, read, among⟩ := (Grammar.parse_stands parsed).condition_within written
  obtain ⟨start, finish, ascending⟩ := read.ascending
  have answered : ∀ ident, ∃ binding, build.schema.forest.lookup scope ident = .ok binding := by
    intro ident
    rw [ScopeForest.lookup, walk.lineage_eq issued]
    exact ScopeForest.first_binding_ok issued ident
  have faults := condition.faults_eq
    (fun leaf member => ascending.numbered leaf (among.subset member)) answered
  refine ⟨?_, ascending.pairwise.sublist among, ?_, ?_, ?_⟩
  · rw [Build.report, faults]
  · exact fun leaf member => read.stands leaf (among.subset member)
  · rw [condition.accepted_iff_no_problem, faults, List.filterMap_eq_nil_iff]
  · exact fun found accepted => condition.references_resolved accepted

/-- A condition with two faults and, between them, one in parentheses that has none. -/
def faultyLeavesText : String :=
  "P " ++ braced ("always a uint: 1 bytes;\noptional o when (!&b || (&a < &a) &&\n  " ++
    "0x8000000000000000) " ++ braced "")

def faultyLeavesBuild : Build :=
  ⟨⟨[], ⟨[⟨none, [.always "a" (.ofParts .unsigned (some .oneByte) none)]⟩]⟩⟩, []⟩

theorem faulty_leaves_reported :
    ∃ tree outer inner, Grammar.parse faultyLeavesText = .ok tree ∧
      tree.conditions = [outer, inner] ∧
      (faultyLeavesBuild.report
        (outer.resolve faultyLeavesBuild.schema.forest ⟨0⟩).problems).diagnostics =
          [⟨⟨2, 19⟩, .unresolvedReference "b" .notVisible⟩,
            ⟨⟨3, 3⟩, .integerOutOfRange "0x8000000000000000"⟩] ∧
      ∃ found, inner.resolve faultyLeavesBuild.schema.forest ⟨0⟩ = .accepted found ∧
        found.references = [⟨⟨0⟩, "a"⟩, ⟨⟨0⟩, "a"⟩] := by
  have passed : (Grammar.parse faultyLeavesText).toOption.any (fun tree =>
      decide (tree.conditions.map (fun condition =>
          (condition.leaves.filterMap (Tree.Value.fault? faultyLeavesBuild.schema.forest ⟨0⟩),
            condition.leaves.filterMap Tree.Value.name?)) =
        [([⟨⟨2, 19⟩, .unresolvedReference "b" .notVisible⟩,
            ⟨⟨3, 3⟩, .integerOutOfRange "0x8000000000000000"⟩], ["b", "a", "a"]),
          ([], ["a", "a"])])) = true := by
    decide +kernel
  obtain ⟨tree, parsed, tested⟩ := exists_ok passed
  have walk : faultyLeavesBuild.schema.forest.HandsOut (some ⟨0⟩) [⟨0⟩] := .further .ended
  have issued : ∀ id ∈ [(⟨0⟩ : ScopeId)], faultyLeavesBuild.schema.forest.Issued id := by decide
  obtain ⟨outer, others, listed, outerFound, found⟩ :=
    List.map_eq_cons_iff.mp (of_decide_eq_true tested)
  obtain ⟨inner, none, rfl, innerFound, empty⟩ := List.map_eq_cons_iff.mp found
  cases List.map_eq_nil_iff.mp empty
  obtain ⟨outerFaults, -⟩ := Prod.mk.inj outerFound
  obtain ⟨innerFaults, names⟩ := Prod.mk.inj innerFound
  obtain ⟨reported, -⟩ := condition_reports_its_leaves parsed
    (by rw [listed]; exact List.mem_cons_self : outer ∈ tree.conditions) walk issued
  obtain ⟨-, -, -, accepted, referred⟩ := condition_reports_its_leaves parsed
    (by rw [listed]; exact List.mem_cons_of_mem _ List.mem_cons_self : inner ∈ tree.conditions)
    walk issued
  obtain ⟨condition, resolved⟩ := accepted.mpr (List.filterMap_eq_nil_iff.mp innerFaults)
  refine ⟨tree, outer, inner, parsed, listed, ?_, condition, resolved, ?_⟩
  · rw [reported, outerFaults]
    rfl
  · have same := referred condition resolved
    have known : ["a", "a"].map (faultyLeavesBuild.schema.forest.resolve ⟨0⟩) =
        [⟨⟨0⟩, "a"⟩, ⟨⟨0⟩, "a"⟩].map .ok := by decide
    rw [names, known] at same
    exact (List.map_injective_iff.mpr (fun _ _ => Except.ok.inj) same).symm

end PacketSchema
