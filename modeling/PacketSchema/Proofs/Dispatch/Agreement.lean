import PacketSchema.Proofs.Image.Edges
import PacketSchema.Proofs.Walk.Faults

/-!
# Edges agree with parents

That a packet derives from another one is stored twice: the packet names its parent, and the
parent has an edge to it. The first is written when the packet is registered, the second right
after, and only where the condition of the packet resolved and no edge of its parent has the same
one. Each visit leaves a mark of this, and the edges of a packet are read off the marks, in the
order of the visits.
-/

namespace PacketSchema

section Marks

variable {id : PacketId} {start : Nat} {marks : List Derived} {child : Child}

theorem mem_edges_from : child ∈ edgesFrom id start marks ↔
    ∃ place, child.packet.index = start + place ∧
      marks[place]? = some (some id, child.condition) := by
  induction marks generalizing start with
  | nil => simp [edgesFrom]
  | cons mark rest later =>
      obtain ⟨parent, condition⟩ := mark
      have deeper : child ∈ edgesFrom id (start + 1) rest ↔
          ∃ place, child.packet.index = start + (place + 1) ∧
            rest[place]? = some (some id, child.condition) := by
        rw [later]
        exact exists_congr fun place => by rw [Nat.add_assoc, Nat.add_comm 1 place]
      have split : (∃ place, child.packet.index = start + place ∧
          ((parent, condition) :: rest)[place]? = some (some id, child.condition)) ↔
          (child.packet.index = start ∧ parent = some id ∧ condition = child.condition) ∨
            ∃ place, child.packet.index = start + (place + 1) ∧
              rest[place]? = some (some id, child.condition) := by
        constructor
        · rintro ⟨_ | place, number, found⟩
          · simp only [List.getElem?_cons_zero, Option.some.injEq, Prod.mk.injEq] at found
            exact .inl ⟨number, found.1, found.2⟩
          · exact .inr ⟨place, number, found⟩
        · rintro (⟨number, rfl, rfl⟩ | ⟨place, number, found⟩)
          · exact ⟨0, number, rfl⟩
          · exact ⟨place + 1, number, found⟩
      rw [split, edgesFrom]
      by_cases here : parent = some id
      · rw [if_pos here, List.mem_cons, deeper]
        refine or_congr_left ⟨?_, ?_⟩
        · rintro rfl
          exact ⟨rfl, here, rfl⟩
        · rintro ⟨number, _, same⟩
          obtain ⟨⟨index⟩, selected⟩ := child
          simp only at number same
          rw [number, same]
      · rw [if_neg here, deeper]
        exact ⟨.inr, fun either => either.resolve_left fun first => here first.2.1⟩

/-- Edges go up by number. -/
theorem edges_from_ordered (id : PacketId) (start : Nat) (marks : List Derived) :
    (edgesFrom id start marks).Pairwise fun first second =>
      first.packet.index < second.packet.index := by
  induction marks generalizing start with
  | nil => exact .nil
  | cons mark rest later =>
      obtain ⟨parent, condition⟩ := mark
      rw [edgesFrom]
      split
      · refine .cons ?_ (later (start + 1))
        intro child member
        obtain ⟨place, number, _⟩ := mem_edges_from.mp member
        simp only
        omega
      · exact later (start + 1)

/-- In a list that goes up by number a packet has no more than one edge. -/
theorem edges_to_member {children : List Child}
    (ordered : children.Pairwise fun first second => first.packet.index < second.packet.index)
    (member : child ∈ children) :
    children.filter (fun other => other.packet = child.packet) = [child] := by
  induction children with
  | nil => cases member
  | cons first rest later =>
      obtain ⟨smaller, sorted⟩ := List.pairwise_cons.mp ordered
      rcases List.mem_cons.mp member with rfl | further
      · have others : rest.filter (fun other => other.packet = child.packet) = [] := by
          rw [List.filter_eq_nil_iff]
          intro other inside
          have bound := smaller other inside
          rw [decide_eq_true_eq]
          intro same
          rw [same] at bound
          exact Nat.lt_irrefl _ bound
        rw [List.filter_cons_of_pos (by simp), others]
      · have bound := smaller child further
        have different : ¬first.packet = child.packet := by
          intro same
          rw [same] at bound
          exact Nat.lt_irrefl _ bound
        rw [List.filter_cons_of_neg (by simpa using different), later sorted further]

end Marks

/-- Inside a packet nothing is at fault in how packets stand to each other. -/
theorem Tree.Statement.Faulty.no_conflict {statement : Tree.Statement} {diagnostic : Diagnostic}
    (fault : statement.Faulty diagnostic) (parent : String) (condition : Option Condition) :
    diagnostic.error ≠ .dispatchConflict parent condition := by
  cases fault with
  | value _ faulty => cases faulty <;> nofun
  | bare | redefined | arm => nofun

namespace Visit

variable (visit : Visit) {failFast : Bool} {id : PacketId}

/-- In this visit the packet with a number is registered. -/
def Admits (failFast : Bool) (id : PacketId) : Prop :=
  visit.before.schema.packets.length = id.index ∧
    (visit.after failFast).schema.packets.length = id.index + 1

/-- In this visit something is reported against an edge: the condition of the packet is at fault,
or its parent already dispatches on it. -/
def Withholds (failFast : Bool) : Prop :=
  visit.clauseFaults ≠ [] ∨
    ∃ diagnostic ∈ visit.reported failFast, ∃ parent condition,
      diagnostic.error = .dispatchConflict parent condition

/-- What a visit does to the packets: nothing, one more packet, or one more with an edge to it. -/
inductive Outcome (failFast : Bool) : Prop
  | refused (same : (visit.after failFast).schema.packets = visit.before.schema.packets)
  | alone
      (packets : (visit.after failFast).schema.packets =
        visit.before.schema.packets ++ [visit.record])
      (parentless : ¬visit.Withholds failFast → visit.record.parent = none)
  | joined {parent : PacketId} {upper : Packet}
      (found : visit.before.schema.packet? parent = some upper)
      (derives : visit.record.parent = some parent)
      (packets : (visit.after failFast).schema.packets =
        (visit.before.schema.packets ++ [visit.record]).set parent.index
          { upper with children := upper.children ++
            [⟨⟨visit.before.schema.packets.length⟩, visit.record.condition⟩] })
      (given : ¬visit.Withholds failFast)

/-- Up to where the packet is registered, the faults of its clause and of its body are reported. -/
theorem walked_diagnostics (failFast : Bool) (coherent : visit.before.schema.Coherent) : ∃ body,
    (visit.walked failFast).diagnostics =
        visit.before.diagnostics ++ (visit.clauseFaults ++ body) ∧
      ∀ diagnostic ∈ body, Tree.FaultAmong (Tree.blockSites [] visit.packet.body) diagnostic := by
  obtain ⟨body, added, blamed⟩ := @walked_adds visit failFast coherent []
  have opened : visit.opened.diagnostics = visit.before.diagnostics ++ visit.clauseFaults := rfl
  rw [opened, List.append_assoc] at added
  exact ⟨body, added, blamed⟩

theorem reported_of {added : List Diagnostic}
    (diagnostics : (visit.after failFast).diagnostics = visit.before.diagnostics ++ added) :
    visit.reported failFast = added := by
  rw [reported, diagnostics, List.drop_left]

variable {origin : Derivation}

/-- Where a clause is followed, its faults are those of its condition. -/
theorem clause_faults_of_derivation (followed : visit.derivation = some origin) :
    visit.clauseFaults = origin.selection.problems ∧ origin.selection.Reasoned := by
  obtain ⟨_, _, _, _, _, selected, faults⟩ :=
    Tree.Packet.derivation_eq_some (Prod.ext followed rfl)
  refine ⟨faults, ?_⟩
  rw [selected]
  exact Checked.reasoned_option _ fun condition => condition.reasoned

/-- The condition of a clause is resolved in the scope of the packet that the clause names. -/
theorem selection_of_derivation (followed : visit.derivation = some origin) :
    ∃ upper written, upper ∈ visit.before.schema.packets ∧
      origin.selection = Checked.option (fun condition : Tree.Disjunction =>
        condition.resolve visit.before.schema.forest upper.scope) written := by
  obtain ⟨clause, upper, _, found, _, selected, _⟩ :=
    Tree.Packet.derivation_eq_some (Prod.ext followed rfl)
  exact ⟨upper, clause.condition, Schema.mem_of_packet found, selected⟩

theorem parent_of_derivation (followed : visit.derivation = some origin) :
    ∃ upper, visit.before.schema.packet? origin.parent = some upper := by
  obtain ⟨upper, found, _⟩ := Tree.Packet.derivation_spec (Prod.ext followed rfl)
  exact ⟨upper, found⟩

theorem outcome (failFast : Bool) (coherent : visit.before.schema.Coherent) :
    visit.Outcome failFast := by
  obtain ⟨body, diagnostics, blamed⟩ := visit.walked_diagnostics failFast coherent
  have packets := visit.walked_packets failFast
  have registers := visit.registers failFast
  generalize afterIs : visit.after failFast = after at registers
  cases registers with
  | refused rejected =>
      apply Outcome.refused
      rw [afterIs]
      exact packets
  | unlinked accepted unselected =>
      obtain ⟨_, _, rfl⟩ := Schema.append_packet_eq_ok accepted
      apply Outcome.alone
      · rw [afterIs, ← packets]
      · intro given
        rw [visit.record_parent]
        cases followed : visit.derivation with
        | none => rfl
        | some derivation =>
            obtain ⟨faults, reasoned⟩ := visit.clause_faults_of_derivation followed
            obtain ⟨parent, selection⟩ := derivation
            cases selection with
            | accepted condition => exact absurd followed (unselected parent condition)
            | refused problems =>
                exfalso
                apply given
                left
                rw [faults]
                intro empty
                exact reasoned (congrArg Checked.refused empty)
  | @conflicting _ parent condition error accepted selected rejected =>
      obtain ⟨_, _, rfl⟩ := Schema.append_packet_eq_ok accepted
      apply Outcome.alone
      · rw [afterIs, ← packets]
        rfl
      · intro given
        exfalso
        apply given
        right
        obtain ⟨upper, found⟩ := visit.parent_of_derivation selected
        rw [Schema.packet?, ← packets] at found
        have bound := (List.getElem?_eq_some_iff.mp found).1
        have reason := Schema.append_child_conflict rejected
          ((List.getElem?_append_left bound).trans found)
        have reported : visit.reported failFast = visit.clauseFaults ++ body ++
            [⟨visit.packet.ident.location, error⟩] := by
          apply visit.reported_of
          rw [afterIs, ← List.append_assoc, ← diagnostics]
          rfl
        refine ⟨⟨visit.packet.ident.location, error⟩, ?_, upper.ident, condition, reason⟩
        rw [reported]
        exact List.mem_append_right _ (List.mem_singleton_self _)
  | @linked _ last parent condition accepted selected joined =>
      obtain ⟨_, _, rfl⟩ := Schema.append_packet_eq_ok accepted
      obtain ⟨upper, found⟩ := visit.parent_of_derivation selected
      obtain ⟨faults, _⟩ := visit.clause_faults_of_derivation selected
      have conditionIs : visit.record.condition = condition := by
        rw [record, selected]
        rfl
      have derives : visit.record.parent = some parent := by
        rw [visit.record_parent, selected]
        rfl
      have inBefore := found
      rw [Schema.packet?, ← packets] at found
      have bound := (List.getElem?_eq_some_iff.mp found).1
      obtain ⟨present, there, _, rfl⟩ := Schema.append_child_eq_ok joined
      obtain rfl : upper = present :=
        Option.some.inj (((List.getElem?_append_left bound).trans found).symm.trans there)
      refine .joined inBefore derives ?_ ?_
      · rw [afterIs, ← packets, conditionIs]
      · have reported : visit.reported failFast = visit.clauseFaults ++ body := by
          apply visit.reported_of
          rw [afterIs, ← diagnostics]
        rintro (faulty | ⟨diagnostic, member, above, other, reason⟩)
        · exact faulty faults
        · rw [reported, faults] at member
          obtain ⟨site, _, fault⟩ := blamed diagnostic member
          exact fault.no_conflict above other reason

end Visit

/-- The marks that the visits so far have left: for each packet its parent, unless the edge was
withheld, and its condition. The edges of a packet are those that the marks tell. -/
structure Marked (failFast : Bool) (seen : List Visit) (schema : Schema) (marks : List Derived) :
    Prop where
  length : marks.length = schema.packets.length
  parents : ∀ mark ∈ marks, ∀ above ∈ mark.1, above.index < marks.length
  edges : ∀ id record, schema.packet? id = some record → record.children = edgesFrom id 0 marks
  visited : ∀ id, schema.Registered id → ∃ visit ∈ seen, visit.Admits failFast id
  admitted : ∀ visit ∈ seen, ∀ id, visit.Admits failFast id →
    ∃ record, schema.packet? id = some record ∧
      record = { visit.record with children := record.children } ∧
      (visit.Withholds failFast → marks[id.index]? = some (none, record.condition)) ∧
      (¬visit.Withholds failFast → marks[id.index]? = some (record.parent, record.condition))

theorem marked_empty (failFast : Bool) : Marked failFast [] .empty [] where
  length := rfl
  parents mark member := by cases member
  edges id record found := by cases found
  visited id registered := absurd registered (Nat.not_lt_zero _)
  admitted visit member := by cases member

namespace Visit

variable (visit : Visit) {failFast : Bool} {seen : List Visit} {marks : List Derived}

/-- Nothing is registered, nothing is marked. -/
theorem marked_refused (marked : Marked failFast seen visit.before.schema marks)
    (same : (visit.after failFast).schema.packets = visit.before.schema.packets) :
    Marked failFast (seen ++ [visit]) (visit.after failFast).schema marks where
  length := by rw [same, marked.length]
  parents := marked.parents
  edges id record found := by
    rw [Schema.packet?, same] at found
    exact marked.edges id record found
  visited id registered := by
    rw [Schema.Registered, same] at registered
    obtain ⟨earlier, member, admits⟩ := marked.visited id registered
    exact ⟨earlier, List.mem_append_left _ member, admits⟩
  admitted other member id admits := by
    rcases List.mem_append.mp member with earlier | last
    · obtain ⟨record, found, rest⟩ := marked.admitted other earlier id admits
      exact ⟨record, by rw [Schema.packet?, same]; exact found, rest⟩
    · cases List.mem_singleton.mp last
      have grown := admits.2
      rw [same, admits.1] at grown
      omega

/-- A packet is registered: all that was there is kept but for edges, and its mark is the last. -/
theorem marked_admitted (marked : Marked failFast seen visit.before.schema marks)
    {parent : Option PacketId}
    (length : (visit.after failFast).schema.packets.length =
      visit.before.schema.packets.length + 1)
    (known : ∀ above ∈ parent, above.index < visit.before.schema.packets.length)
    (kept : ∀ id record, visit.before.schema.packet? id = some record →
      ∃ children, (visit.after failFast).schema.packet? id = some { record with children })
    (registered : ∃ children, (visit.after failFast).schema.packet?
      ⟨visit.before.schema.packets.length⟩ = some { visit.record with children })
    (edges : ∀ id record, (visit.after failFast).schema.packet? id = some record →
      record.children = edgesFrom id 0 (marks ++ [(parent, visit.record.condition)]))
    (withheld : visit.Withholds failFast → parent = none)
    (given : ¬visit.Withholds failFast → parent = visit.record.parent) :
    Marked failFast (seen ++ [visit]) (visit.after failFast).schema
      (marks ++ [(parent, visit.record.condition)]) where
  length := by rw [List.length_append, List.length_singleton, marked.length, length]
  parents mark member above written := by
    rw [List.length_append, List.length_singleton]
    rcases List.mem_append.mp member with old | last
    · exact Nat.lt_succ_of_lt (marked.parents mark old above written)
    · cases List.mem_singleton.mp last
      rw [marked.length]
      exact Nat.lt_succ_of_lt (known above written)
  edges := edges
  visited id found := by
    rw [Schema.Registered, length] at found
    rcases Nat.lt_succ_iff_lt_or_eq.mp found with old | new
    · obtain ⟨earlier, member, admits⟩ := marked.visited id old
      exact ⟨earlier, List.mem_append_left _ member, admits⟩
    · exact ⟨visit, List.mem_append_right _ (List.mem_singleton_self _), new.symm,
        by rw [length, new]⟩
  admitted other member id admits := by
    rcases List.mem_append.mp member with earlier | last
    · obtain ⟨record, found, same, off, on⟩ := marked.admitted other earlier id admits
      obtain ⟨children, still⟩ := kept id record found
      have bound := (List.getElem?_eq_some_iff.mp found).1
      rw [← marked.length] at bound
      refine ⟨_, still, ?_, fun withholds => ?_, fun gives => ?_⟩
      · rw [same]
      · rw [List.getElem?_append_left bound]
        exact off withholds
      · rw [List.getElem?_append_left bound]
        exact on gives
    · cases List.mem_singleton.mp last
      obtain ⟨children, found⟩ := registered
      have here : id = ⟨visit.before.schema.packets.length⟩ := by
        cases id
        exact congrArg PacketId.mk admits.1.symm
      have mark : (marks ++ [(parent, visit.record.condition)])[id.index]? =
          some (parent, visit.record.condition) := by
        rw [here, ← marked.length, List.getElem?_concat_length]
      refine ⟨_, here ▸ found, rfl, fun withholds => ?_, fun gives => ?_⟩
      · rw [mark, withheld withholds]
      · rw [mark, given gives]

theorem marked_alone (marked : Marked failFast seen visit.before.schema marks)
    (packets : (visit.after failFast).schema.packets =
      visit.before.schema.packets ++ [visit.record])
    (parentless : ¬visit.Withholds failFast → visit.record.parent = none) :
    Marked failFast (seen ++ [visit]) (visit.after failFast).schema
      (marks ++ [(none, visit.record.condition)]) := by
  have nobody : ∀ id, edgesFrom id marks.length [(none, visit.record.condition)] = [] :=
    fun id => edges_from_other (by simp)
  apply visit.marked_admitted marked
  · rw [packets, List.length_append, List.length_singleton]
  · intro above member
    cases member
  · intro id record found
    have bound := (List.getElem?_eq_some_iff.mp found).1
    refine ⟨record.children, ?_⟩
    rw [Schema.packet?, packets, List.getElem?_append_left bound]
    exact found
  · refine ⟨visit.record.children, ?_⟩
    rw [Schema.packet?, packets, List.getElem?_concat_length]
  · intro id record found
    rw [edges_from_append, Nat.zero_add, nobody, List.append_nil]
    rw [Schema.packet?, packets] at found
    rcases Schema.packet_registered visit.before.schema visit.record found with old | ⟨rfl, rfl⟩
    · exact marked.edges id record old
    · rw [visit.record_childless, ← marked.length, edges_from_other]
      intro mark member above
      exact Nat.lt_irrefl _ (marked.parents mark member _ above)
  · exact fun _ => rfl
  · exact fun given => (parentless given).symm

theorem marked_joined (marked : Marked failFast seen visit.before.schema marks)
    {parent : PacketId} {upper : Packet}
    (found : visit.before.schema.packet? parent = some upper)
    (derives : visit.record.parent = some parent)
    (packets : (visit.after failFast).schema.packets =
      (visit.before.schema.packets ++ [visit.record]).set parent.index
        { upper with children := upper.children ++
          [⟨⟨visit.before.schema.packets.length⟩, visit.record.condition⟩] })
    (given : ¬visit.Withholds failFast) :
    Marked failFast (seen ++ [visit]) (visit.after failFast).schema
      (marks ++ [(some parent, visit.record.condition)]) := by
  have bound := (List.getElem?_eq_some_iff.mp found).1
  have lookup : ∀ id : PacketId, (visit.after failFast).schema.packet? id =
      if parent.index = id.index then some { upper with children := upper.children ++
          [⟨⟨visit.before.schema.packets.length⟩, visit.record.condition⟩] }
      else (visit.before.schema.packets ++ [visit.record])[id.index]? := by
    intro id
    rw [Schema.packet?, packets, List.getElem?_set, List.length_append, List.length_singleton]
    by_cases here : parent.index = id.index
    · rw [if_pos here, if_pos here, if_pos (by omega)]
    · rw [if_neg here, if_neg here]
  have last : ∀ id, edgesFrom id marks.length [(some parent, visit.record.condition)] =
      if parent = id then [⟨⟨marks.length⟩, visit.record.condition⟩] else [] := by
    intro id
    simp only [edgesFrom, Option.some.injEq]
  apply visit.marked_admitted marked
  · rw [packets, List.length_set, List.length_append, List.length_singleton]
  · intro above member
    cases Option.mem_some.mp member
    exact bound
  · intro id record located
    have inside := (List.getElem?_eq_some_iff.mp located).1
    rw [lookup]
    by_cases here : parent.index = id.index
    · rw [if_pos here]
      rw [Schema.packet?, here] at found
      rw [Schema.packet?, found] at located
      cases located
      exact ⟨_, rfl⟩
    · rw [if_neg here, List.getElem?_append_left inside]
      exact ⟨record.children, located⟩
  · refine ⟨visit.record.children, ?_⟩
    rw [lookup, if_neg (Nat.ne_of_lt bound), List.getElem?_concat_length]
  · intro id record located
    rw [edges_from_append, Nat.zero_add, last]
    rw [lookup] at located
    by_cases here : parent.index = id.index
    · rw [if_pos here] at located
      cases located
      have same : parent = id := by
        cases parent
        cases id
        exact congrArg PacketId.mk here
      rw [if_pos same, ← same, ← marked.edges parent upper found, marked.length]
    · rw [if_neg here] at located
      have different : ¬parent = id := fun same => here (congrArg PacketId.index same)
      rw [if_neg different, List.append_nil]
      rcases Schema.packet_registered visit.before.schema visit.record located with
        old | ⟨rfl, rfl⟩
      · exact marked.edges id record old
      · rw [visit.record_childless, ← marked.length, edges_from_other]
        intro mark member above
        exact Nat.lt_irrefl _ (marked.parents mark member _ above)
  · exact fun withholds => absurd withholds given
  · exact fun _ => derives.symm

/-- Every visit leaves the marks as they were, or adds one. -/
theorem marked_after (coherent : visit.before.schema.Coherent)
    (marked : Marked failFast seen visit.before.schema marks) :
    ∃ marks, Marked failFast (seen ++ [visit]) (visit.after failFast).schema marks := by
  cases visit.outcome failFast coherent with
  | refused same => exact ⟨_, visit.marked_refused marked same⟩
  | alone packets parentless => exact ⟨_, visit.marked_alone marked packets parentless⟩
  | joined found derives packets given =>
      exact ⟨_, visit.marked_joined marked found derives packets given⟩

variable {origin : Derivation}

/-- What is at fault in a clause is reported in the visit of its packet; where the clause is
followed, it is a reference that does not resolve or an integer that is out of range. -/
structure BlamesLeaves (failFast : Bool) : Prop where
  reported : visit.clauseFaults <+: visit.reported failFast
  leaves : visit.derivation.isSome → ∀ problem ∈ visit.clauseFaults,
    (∃ numeral, problem.error = .integerOutOfRange numeral) ∨
      ∃ ident reason, problem.error = .unresolvedReference ident reason

theorem clause_faults_reported (coherent : visit.before.schema.Coherent) :
    visit.clauseFaults <+: visit.reported failFast := by
  obtain ⟨body, diagnostics, _⟩ := visit.walked_diagnostics failFast coherent
  obtain ⟨more, added⟩ : (visit.walked failFast).diagnostics <+:
      (visit.after failFast).diagnostics := Build.register_diagnostics _ _ _ _
  rw [diagnostics, List.append_assoc] at added
  rw [visit.reported_of added.symm, List.append_assoc]
  exact List.prefix_append _ _

theorem blames_leaves (coherent : visit.before.schema.Coherent) : visit.BlamesLeaves failFast where
  reported := visit.clause_faults_reported coherent
  leaves followed problem found := by
    obtain ⟨origin, same⟩ := Option.isSome_iff_exists.mp followed
    rw [(visit.clause_faults_of_derivation same).1] at found
    obtain ⟨upper, written, member, selected⟩ := visit.selection_of_derivation same
    rw [selected] at found
    obtain ⟨leaf, _, wrong⟩ := Tree.selection_problem found
    cases wrong.faulty coherent.ordered (coherent.formed.issued upper member) with
    | number numeral => exact .inl ⟨numeral.item, rfl⟩
    | reference ident reason => exact .inr ⟨ident.item, reason, rfl⟩

end Visit

/-- Edges agree with parents. The edges of a packet go up by number, and each leads to a packet
that derives from it under the condition of the edge. Each packet has a visit of its own, and a
packet with a parent has one edge there, unless its visit withholds it. -/
structure Schema.EdgesAgree (schema : Schema) (failFast : Bool) (visits : List Visit) : Prop where
  ordered : ∀ id record, schema.packet? id = some record →
    record.children.Pairwise fun first second => first.packet.index < second.packet.index
  linked : ∀ id record, schema.packet? id = some record → ∀ child ∈ record.children,
    ∃ derived, schema.packet? child.packet = some derived ∧ derived.parent = some id ∧
      derived.condition = child.condition
  visited : ∀ id, schema.Registered id → ∃ visit ∈ visits, visit.Admits failFast id
  joined : ∀ visit ∈ visits, ∀ id, visit.Admits failFast id → ∃ derived,
    schema.packet? id = some derived ∧
      derived = { visit.record with children := derived.children } ∧
      ∀ parent, derived.parent = some parent → ∃ record, schema.packet? parent = some record ∧
        (visit.Withholds failFast → ∀ child ∈ record.children, child.packet ≠ id) ∧
        (¬visit.Withholds failFast →
          record.children.filter (fun child => child.packet = id) = [⟨id, derived.condition⟩])
  blamed : ∀ visit ∈ visits, visit.BlamesLeaves failFast

theorem Marked.edges_agree {failFast : Bool} {visits : List Visit} {schema : Schema}
    {marks : List Derived} (marked : Marked failFast visits schema marks)
    (derive : ∀ packet ∈ schema.packets, schema.Derives packet)
    (blamed : ∀ visit ∈ visits, visit.BlamesLeaves failFast) :
    schema.EdgesAgree failFast visits := by
  have ordered : ∀ id record, schema.packet? id = some record →
      record.children.Pairwise fun first second => first.packet.index < second.packet.index := by
    intro id record found
    rw [marked.edges id record found]
    exact edges_from_ordered id 0 marks
  constructor
  · exact ordered
  · intro id record found child member
    rw [marked.edges id record found] at member
    obtain ⟨place, number, mark⟩ := mem_edges_from.mp member
    have bound := (List.getElem?_eq_some_iff.mp mark).1
    rw [Nat.zero_add] at number
    rw [← number] at mark bound
    rw [marked.length] at bound
    obtain ⟨visit, visited, admits⟩ := marked.visited child.packet bound
    obtain ⟨derived, there, _, off, on⟩ := marked.admitted visit visited child.packet admits
    by_cases withholds : visit.Withholds failFast
    · rw [off withholds] at mark
      cases mark
    · rw [on withholds] at mark
      simp only [Option.some.injEq, Prod.mk.injEq] at mark
      exact ⟨derived, there, mark.1, mark.2⟩
  · exact marked.visited
  · intro visit visited id admits
    obtain ⟨derived, there, same, off, on⟩ := marked.admitted visit visited id admits
    refine ⟨derived, there, same, ?_⟩
    intro parent written
    have derives := derive derived (Schema.mem_of_packet there)
    unfold Schema.Derives at derives
    rw [written] at derives
    obtain ⟨record, found, _⟩ := derives
    refine ⟨record, found, fun withholds child member here => ?_, fun gives => ?_⟩
    · rw [marked.edges parent record found] at member
      obtain ⟨place, number, mark⟩ := mem_edges_from.mp member
      rw [Nat.zero_add, here] at number
      rw [← number, off withholds] at mark
      cases mark
    · have edge : (⟨id, derived.condition⟩ : Child) ∈ record.children := by
        rw [marked.edges parent record found]
        refine mem_edges_from.mpr ⟨id.index, (Nat.zero_add _).symm, ?_⟩
        rw [on gives, written]
      exact edges_to_member (ordered parent record found) edge
  · exact blamed

/-- Whatever is compiled, fast or not and with whatever faults, edges agree with parents; and
where nothing is at fault, the edges of a packet are all packets that derive from it. -/
theorem compile_edges_agree (failFast : Bool) {source : String} {tree : Tree.Module}
    (parsed : Grammar.parse source = .ok tree) :
    ∃ compilation, compile failFast source = .ok compilation ∧
      compilation.schema.EdgesAgree failFast (tree.visits failFast) ∧
      (compilation.diagnostics = [] → ∀ id record, compilation.schema.packet? id = some record →
        record.children = edgesFrom id 0 compilation.schema.derived) := by
  have compiled : compile failFast source = .ok ⟨_, _⟩ := compile_eq_build parsed
  refine ⟨_, compiled, ?_, ?_⟩
  · obtain ⟨⟨marks, marked⟩, blamed⟩ := tree.induction
      (motive := fun seen build => (∃ marks, Marked failFast seen build.schema marks) ∧
        ∀ visit ∈ seen, visit.BlamesLeaves failFast)
      failFast ⟨⟨[], marked_empty failFast⟩, fun visit member => by cases member⟩
      (fun seen visit coherent ⟨⟨marks, marked⟩, blamed⟩ => by
        refine ⟨visit.marked_after coherent marked, fun other member => ?_⟩
        rcases List.mem_append.mp member with earlier | last
        · exact blamed other earlier
        · cases List.mem_singleton.mp last
          exact visit.blames_leaves coherent)
    exact marked.edges_agree (Schema.Reaches.all_derive (compile_reaches compiled)) blamed
  · intro clean
    change (tree.build failFast).diagnostics = [] at clean
    have valid : compile failFast source = .ok ⟨(tree.build failFast).schema, []⟩ := by
      rw [compiled, clean]
    exact (compile_edged valid).children

/-- Four packets derive from one here: two of them get an edge, one repeats the condition of
another one, and the condition of one does not resolve. -/
def dispatchText : String :=
  "A" ++ braced "always n uint:1 bytes;" ++ "B:A(&n==1)" ++ braced "" ++
  "C:A(&n==1)" ++ braced "" ++ "D:A(&z==1)" ++ braced "" ++ "E:A" ++ braced ""

theorem dispatch_text_edges_agree :
    ∃ tree compilation, Grammar.parse dispatchText = .ok tree ∧
      compile false dispatchText = .ok compilation ∧
      compilation.schema.packets.map (fun packet => packet.children.map Child.packet) =
        [[⟨1⟩, ⟨4⟩], [], [], [], []] ∧
      compilation.schema.EdgesAgree false (tree.visits false) := by
  have passed : (compile false dispatchText).toOption.any (fun compilation =>
      compilation.schema.packets.map (fun packet => packet.children.map Child.packet) =
        [[⟨1⟩, ⟨4⟩], [], [], [], []]) = true := by decide +kernel
  obtain ⟨found, counted, edges⟩ := exists_compiled passed
  obtain ⟨tree, parsed, _⟩ := parsed_of_compile counted
  obtain ⟨compilation, compiled, agree, _⟩ := compile_edges_agree false parsed
  rw [counted] at compiled
  cases compiled
  exact ⟨tree, found, parsed, counted, of_decide_eq_true edges, agree⟩

end PacketSchema
