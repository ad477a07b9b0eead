import PacketSchema.Proofs.Grammar.Standing
import PacketSchema.Proofs.Numbers.Answered
import PacketSchema.Proofs.Walk.Visits

/-!
# What is found at fault

Whatever a walk reports about a text is reported about one part of its tree: a number or a
reference in it, a declaration, an arm, a descriptor, a packet or the clause that names its parent.
A diagnostic holds the place of that part and its name. A walk asks the schema only about numbers
that it was given, so no question of its own is ever at fault. While a block is walked the parts at
fault are among the statements inside it: each step answers for its own statement and hands on what
its block has.
-/

namespace PacketSchema

open Schema (Formed Reaches)

namespace ScopeForest

variable {forest grown : ScopeForest} {scope : ScopeId} {ident : String} {error : SchemaError}

theorem Ordered.resolve_error (ordered : forest.Ordered) (issued : forest.Issued scope)
    (refused : forest.resolve scope ident = .error error) :
    ∃ reason, error = .unresolvedReference ident reason := by
  rcases resolve_answers (ordered.lookup_ok issued ident) with ⟨_, resolved⟩ | ⟨reason, answered⟩
  · rw [resolved] at refused
    cases refused
  · rw [answered] at refused
    cases refused
    exact ⟨reason, rfl⟩

def DeclaresUnion (forest : ScopeForest) (scope : ScopeId) (ident : String) : Prop :=
  ∃ choice, forest.field? scope ident = some (.union choice)

theorem DeclaresUnion.kept (declares : forest.DeclaresUnion scope ident)
    (same : grown.scope? scope = forest.scope? scope) : grown.DeclaresUnion scope ident := by
  obtain ⟨choice, declared⟩ := declares
  exact ⟨choice, by rw [field?, same, ← field?, declared]⟩

theorem DeclaresUnion.arm_error (declares : forest.DeclaresUnion scope ident) {arm : Arm}
    (refused : forest.appendArm scope ident arm = .error error) :
    ∃ conflict, error = .armRefused ident conflict := by
  rcases append_arm_eq_error refused with rfl | refusal
  · obtain ⟨choice, declared⟩ := declares
    unfold appendArm at refused
    rw [declared] at refused
    cases appended : choice.append arm with
    | ok grown => simp [appended] at refused
    | error reason =>
        obtain ⟨conflict, rfl⟩ := Union.append_eq_error appended
        simp [appended] at refused
  · exact refusal

end ScopeForest

namespace Tree

/-- A number out of range, or a reference to nothing that it may refer to. -/
inductive Value.Faulty : Value → Diagnostic → Prop
  | number (numeral : Token) :
      Faulty (.integer numeral) ⟨numeral.location, .integerOutOfRange numeral.item⟩
  | reference (ident : Token) (reason : Unresolved) :
      Faulty (.reference ident) ⟨ident.location, .unresolvedReference ident.item reason⟩

inductive Arm.Faulty (ident : String) (arm : Arm) : Diagnostic → Prop
  | value {value : Value} {diagnostic : Diagnostic} (written : value ∈ arm.values)
      (fault : value.Faulty diagnostic) : Faulty ident arm diagnostic
  | refused (conflict : ArmConflict) : Faulty ident arm ⟨arm.location, .armRefused ident conflict⟩

inductive Statement.Faulty (statement : Statement) : Diagnostic → Prop
  | value {value : Value} {diagnostic : Diagnostic} (written : value ∈ statement.values)
      (fault : value.Faulty diagnostic) : Faulty statement diagnostic
  | bare {descriptor : Descriptor} (described : statement.descriptor? = some descriptor) :
      Faulty statement ⟨descriptor.scalar.location, .bareDescriptor statement.binding.ident⟩
  | redefined :
      Faulty statement ⟨statement.location, .fieldRedefined statement.binding.ident⟩
  | arm {arm : Arm} (inside : arm ∈ statement.arms) (conflict : ArmConflict) :
      Faulty statement ⟨arm.location, .armRefused statement.binding.ident conflict⟩

inductive Packet.Faulty (packet : Packet) : Diagnostic → Prop
  | value {value : Value} {diagnostic : Diagnostic} (written : value ∈ packet.values)
      (fault : value.Faulty diagnostic) : Faulty packet diagnostic
  | unknownParent {clause : Inheritance} (derived : packet.inheritance = some clause) :
      Faulty packet
        ⟨clause.parent.location, .unknownParent packet.ident.item clause.parent.item⟩
  | redefined : Faulty packet ⟨packet.ident.location, .packetRedefined packet.ident.item⟩
  | conflict {clause : Inheritance} (derived : packet.inheritance = some clause)
      (condition : Option Condition) :
      Faulty packet ⟨packet.ident.location, .dispatchConflict clause.parent.item condition⟩

def FaultAmong (sites : List Site) (diagnostic : Diagnostic) : Prop :=
  ∃ site ∈ sites, site.statement.Faulty diagnostic

theorem FaultAmong.within {sites others : List Site} {diagnostic : Diagnostic}
    (fault : FaultAmong sites diagnostic) (within : sites ⊆ others) :
    FaultAmong others diagnostic := by
  obtain ⟨site, member, faulty⟩ := fault
  exact ⟨site, within member, faulty⟩

theorem Statement.Faulty.among {statement : Statement} {diagnostic : Diagnostic}
    (fault : statement.Faulty diagnostic) (visible : List Binding) :
    FaultAmong (statement.sites visible) diagnostic := by
  refine ⟨⟨visible, statement⟩, ?_, fault⟩
  cases statement with
  | always => exact List.mem_cons_self
  | optional => exact List.mem_cons_self
  | union => exact List.mem_cons_self

theorem Arm.Faulty.of_union {location : Location} {ident : Token} {arms : List Arm} {arm : Arm}
    {diagnostic : Diagnostic} (fault : arm.Faulty ident.item diagnostic) (inside : arm ∈ arms) :
    (Statement.union location ident arms).Faulty diagnostic := by
  cases fault with
  | value written faulty => exact .value (List.mem_flatMap.mpr ⟨arm, inside, written⟩) faulty
  | refused conflict => exact .arm inside conflict

theorem Value.Problem.faulty {forest : ScopeForest} {scope : ScopeId} {value : Value}
    {problem : Diagnostic} (wrong : value.Problem forest scope problem)
    (ordered : forest.Ordered) (issued : forest.Issued scope) : value.Faulty problem := by
  cases wrong with
  | number numeral => exact .number numeral
  | @reference ident error refused =>
      obtain ⟨reason, rfl⟩ := ordered.resolve_error issued refused
      exact .reference ident reason

end Tree

namespace Build

variable {build : Build} {scope : ScopeId} {ident : String} {refused : Option Union}

theorem declare_adds_redefined (field : Field) (location : Location)
    (ordered : build.schema.forest.Ordered) (issued : build.schema.forest.Issued scope) :
    Adds (· = ⟨location, .fieldRedefined field.ident⟩) build
      (build.declare scope field location).2 := by
  apply (build.declare_adds scope field location).weaken
  rintro diagnostic ⟨error, rejected, rfl⟩
  unfold Schema.appendField at rejected
  split at rejected
  next reason appended =>
    cases rejected
    rw [ordered.append_error issued appended]
  · cases rejected

/-- An arm that comes next finds its union: the one of the schema is declared, and one of its own
has the name of the statement. -/
structure Takes (build : Build) (scope : ScopeId) (ident : String) (refused : Option Union) :
    Prop where
  declared : refused = none → build.schema.forest.DeclaresUnion scope ident
  named : ∀ choice ∈ refused, choice.ident = ident

theorem takes_declared (declares : build.schema.forest.DeclaresUnion scope ident) :
    build.Takes scope ident none where
  declared _ := declares
  named choice own := by cases own

theorem takes_own {choice : Union} (named : choice.ident = ident) :
    build.Takes scope ident (some choice) where
  declared none := by cases none
  named other own := by
    cases own
    exact named

theorem Takes.arm_added (takes : build.Takes scope ident refused) (location : Location)
    (arm : Arm) :
    Adds (∃ conflict, · = ⟨location, .armRefused ident conflict⟩) build
      (build.addArm scope ident location arm refused).2 := by
  apply (build.add_arm_adds scope ident location arm refused).weaken
  rintro diagnostic ⟨error, ⟨own, rejected⟩ | ⟨choice, rfl, rejected⟩, rfl⟩
  · unfold Schema.appendArm at rejected
    split at rejected
    next reason appended =>
      cases rejected
      obtain ⟨conflict, rfl⟩ := (takes.declared own).arm_error appended
      exact ⟨conflict, rfl⟩
    · cases rejected
  · obtain ⟨conflict, rfl⟩ := Union.append_eq_error rejected
    exact ⟨conflict, by rw [takes.named choice rfl]⟩

theorem Takes.after_arm (takes : build.Takes scope ident refused) (location : Location)
    (arm : Arm) :
    (build.addArm scope ident location arm refused).2.Takes scope ident
      (build.addArm scope ident location arm refused).1 := by
  cases refused with
  | none =>
      cases accepted : build.schema.appendArm scope ident arm with
      | error error =>
          simp only [addArm, accepted]
          exact takes_declared (takes.declared rfl)
      | ok grown =>
          simp only [addArm, accepted]
          obtain ⟨choice, declared⟩ := takes.declared rfl
          have added := ScopeForest.field_arm_added declared (Schema.append_arm_eq_ok accepted).1
          exact takes_declared ⟨_, added⟩
  | some choice =>
      have named : choice.ident = ident := takes.named choice rfl
      cases appended : choice.append arm with
      | error error =>
          simp only [addArm, appended]
          exact takes_own named
      | ok grown =>
          simp only [addArm, appended]
          apply takes_own
          unfold Union.append at appended
          split at appended
          · cases appended
          · cases appended
            exact named

end Build

namespace Tree

open Build (Adds)

variable {failFast : Bool} {build walked : Build} {scope : ScopeId}

theorem optional_opened_adds (formed : build.schema.Formed)
    (issued : build.schema.forest.Issued scope) (location : Location) (ident : Token)
    (condition : Disjunction) (body : List Statement) :
    Adds (Statement.optional location ident condition body).Faulty build
      (optionalOpened scope location ident condition build) := by
  obtain ⟨_, created, _, _⟩ := build.create_scope_spec issued
  have opened : Adds (Statement.optional location ident condition body).Faulty build
      (build.createScope scope).2 := .of_same rfl
  rw [optionalOpened]
  cases checked : condition.resolve build.schema.forest scope with
  | refused problems =>
      rw [← Checked.problems_of_refused checked]
      apply opened.trans (Build.report_adds _)
      intro problem found
      obtain ⟨leaf, inside, wrong⟩ := condition.problem_of_leaf found
      exact .value inside (wrong.faulty formed.ordered issued)
  | accepted resolved =>
      have declared := Build.declare_adds_redefined
        (.optional ident.item resolved ⟨build.schema.forest.size⟩) location
        (Reaches.formed created formed).ordered (Reaches.parent_kept created formed issued).1
      apply opened.trans (declared.weaken _)
      rintro diagnostic rfl
      exact .redefined

theorem union_opened_takes (scope : ScopeId) (location : Location) (ident : Token)
    (build : Build) :
    (unionOpened scope location ident build).2.Takes scope ident.item
      (unionOpened scope location ident build).1 := by
  rw [unionOpened]
  rcases build.declare_cases scope (.union (.empty ident.item)) location with
    ⟨error, _, same⟩ | ⟨grown, accepted, same⟩
  · rw [same]
    exact Build.takes_own rfl
  · rw [same]
    have declared := ScopeForest.field_declared (Schema.append_field_eq_ok accepted).1
    exact Build.takes_declared ⟨_, declared⟩

theorem arm_opened_adds (formed : build.schema.Formed)
    (issued : build.schema.forest.Issued scope) (location : Location)
    (guard : Option Disjunction) (tag : Tag) (body : List Statement) (ident : String) :
    Adds ((Arm.mk location guard tag body).Faulty ident) build
      (armOpened scope guard tag build) := by
  apply (Build.report_adds _).trans (.of_same rfl)
  intro problem found
  obtain ⟨value, written, wrong⟩ := arm_problem found
  exact .value written (wrong.faulty formed.ordered issued)

/-- A body that is walked at a new scope leaves the union to which its arm belongs. -/
theorem arm_walked_takes {ident : String} {refused : Option Union} {guard : Option Disjunction}
    {tag : Tag} (takes : build.Takes scope ident refused)
    (issued : build.schema.forest.Issued scope)
    (confined : Build.ConfinedTo ⟨build.schema.forest.size⟩ (armOpened scope guard tag build)
      walked) : walked.Takes scope ident refused := by
  refine ⟨fun own => (takes.declared own).kept ?_, takes.named⟩
  have opened : (armOpened scope guard tag build).schema.forest.scope? scope =
      build.schema.forest.scope? scope := ScopeForest.scope_create_old issued (some scope)
  have old : (armOpened scope guard tag build).schema.forest.Issued scope :=
    ScopeForest.issued_create issued (some scope)
  have different := (ScopeForest.ne_of_issued issued (Nat.le_refl _)).symm
  rw [confined.others scope old different, opened]

theorem arm_closed_adds {ident : String} {reached : Option Union × Build}
    (takes : walked.Takes scope ident reached.1) (location : Location)
    (guard : Option Disjunction) (tag : Tag) (body : List Statement) :
    Adds ((Arm.mk location guard tag body).Faulty ident) walked
        (armClosed scope ident location guard tag reached walked).2 ∧
      (armClosed scope ident location guard tag reached walked).2.Takes scope ident
        (armClosed scope ident location guard tag reached walked).1 := by
  rw [armClosed]
  split
  · exact ⟨.of_same rfl, takes⟩
  · refine ⟨(takes.arm_added location _).weaken ?_, takes.after_arm location _⟩
    rintro diagnostic ⟨conflict, rfl⟩
    exact .refused conflict

/-- From a formed schema, and at a scope that is there, all that a walk reports is at fault in what
is walked; and arms find their union. -/
def Account.blame : Account where
  statement statement scope before after :=
    before.schema.Formed → before.schema.forest.Issued scope →
      ∀ visible, Adds (FaultAmong (statement.sites visible)) before after
  arm arm scope ident before after :=
    before.2.schema.Formed → before.2.schema.forest.Issued scope →
      before.2.Takes scope ident before.1 →
      after.2.Takes scope ident after.1 ∧ ∀ visible, Adds (fun diagnostic =>
        arm.Faulty ident diagnostic ∨ FaultAmong (arm.sites visible) diagnostic) before.2 after.2
  block body scope before after :=
    before.schema.Formed → before.schema.forest.Issued scope →
      ∀ visible, Adds (FaultAmong (blockSites visible body)) before after
  arms arms scope ident before after :=
    before.2.schema.Formed → before.2.schema.forest.Issued scope →
      before.2.Takes scope ident before.1 →
      ∀ visible, Adds (fun diagnostic => (∃ arm ∈ arms, arm.Faulty ident diagnostic) ∨
        FaultAmong (armSites visible arms) diagnostic) before.2 after

theorem walks_blame : Account.blame.Holds failFast where
  always location ident descriptor scope build formed issued visible := by
    rw [always_build_eq]
    cases checked : descriptor.resolve build.schema.forest scope ident.item with
    | refused problems =>
        rw [← Checked.problems_of_refused checked]
        apply Build.report_adds
        intro problem found
        apply Statement.Faulty.among
        rcases descriptor.problem_of_leaf ident.item found with rfl | ⟨leaf, inside, wrong⟩
        · exact .bare rfl
        · exact .value inside (wrong.faulty formed.ordered issued)
    | accepted encoding =>
        apply (Build.declare_adds_redefined _ location formed.ordered issued).weaken
        rintro diagnostic rfl
        exact Statement.Faulty.redefined.among visible
  optional location ident condition body scope build inside formed issued visible := by
    obtain ⟨opened, childIssued⟩ := optional_opened_reaches formed issued location ident condition
    have entered := optional_opened_adds formed issued location ident condition body
    have inner := inside (Reaches.formed opened formed) childIssued
      (visible ++ [⟨ident.item, .optional⟩])
    apply (entered.weaken fun diagnostic fault => fault.among visible).trans (inner.weaken _)
    intro diagnostic fault
    rw [Statement.sites]
    exact fault.within (List.subset_cons_self _ _)
  union location ident arms scope build inside formed issued visible := by
    have declared := Build.declare_adds_redefined (.union (.empty ident.item)) location
      formed.ordered issued
    have opened := union_opened_reaches scope location ident build
    have walked := inside (Reaches.formed opened formed)
      (Reaches.parent_kept opened formed issued).1 (union_opened_takes scope location ident build)
      (visible ++ [⟨ident.item, .union⟩])
    apply (declared.weaken _).trans (walked.weaken _)
    · rintro diagnostic rfl
      exact Statement.Faulty.redefined.among visible
    · rintro diagnostic (⟨arm, listed, fault⟩ | fault)
      · exact (fault.of_union listed).among visible
      · rw [Statement.sites]
        exact fault.within (List.subset_cons_self _ _)
  arm location guard tag body scope ident reached inside formed issued takes := by
    obtain ⟨opened, childIssued, _⟩ := arm_opened_spec issued guard tag
    have entered := arm_opened_adds formed issued location guard tag body ident
    have inner := inside (Reaches.formed opened formed) childIssued
    have confined : Build.ConfinedTo ⟨reached.2.schema.forest.size⟩
        (armOpened scope guard tag reached.2)
        (buildBlock failFast ⟨reached.2.schema.forest.size⟩ body
          (armOpened scope guard tag reached.2)) := buildBlock_confined body _ _
    have kept := arm_walked_takes takes issued confined
    obtain ⟨closed, after⟩ := arm_closed_adds kept location guard tag body
    refine ⟨after, fun visible => ?_⟩
    rw [Arm.sites]
    exact ((entered.weaken fun _ => .inl).trans ((inner visible).weaken fun _ => .inr)).trans
      (closed.weaken fun _ => .inl)
  still _ _ _ _ _ _ _ := .of_same rfl
  goes_on statement rest scope build first later formed issued visible := by
    have reaches : build.schema.Reaches (statement.build failFast scope build).schema :=
      statement.build_reaches scope build formed issued
    have others := later (Reaches.formed reaches formed)
      (Reaches.parent_kept reaches formed issued).1 (visible ++ [statement.binding])
    rw [blockSites]
    apply ((first formed issued visible).weaken _).trans (others.weaken _)
    · exact fun diagnostic fault => fault.within (List.subset_append_left _ _)
    · exact fun diagnostic fault => fault.within (List.subset_append_right _ _)
  arms_still _ _ _ _ _ _ _ _ _ := .of_same rfl
  arms_go_on arm rest scope ident reached first later formed issued takes visible := by
    have reaches : reached.2.schema.Reaches
        (arm.build failFast scope ident reached.1 reached.2).2.schema :=
      arm.build_reaches scope ident reached.1 reached.2 formed issued
    obtain ⟨kept, blamed⟩ := first formed issued takes
    have others := later (Reaches.formed reaches formed)
      (Reaches.parent_kept reaches formed issued).1 kept visible
    rw [armSites]
    apply ((blamed visible).weaken _).trans (others.weaken _)
    · rintro diagnostic (fault | inside)
      · exact .inl ⟨arm, List.mem_cons_self, fault⟩
      · exact .inr (inside.within (List.subset_append_left _ _))
    · rintro diagnostic (⟨other, member, fault⟩ | inside)
      · exact .inl ⟨other, List.mem_cons_of_mem _ member, fault⟩
      · exact .inr (inside.within (List.subset_append_right _ _))

end Tree

namespace Visit

variable (visit : Visit) {failFast : Bool} {origin : Derivation} {diagnostic : Diagnostic}

theorem clause_of_derivation (followed : visit.derivation = some origin) :
    ∃ clause upper, visit.packet.inheritance = some clause ∧
      visit.before.schema.packet? origin.parent = some upper ∧
      upper.ident = clause.parent.item := by
  obtain ⟨clause, upper, written, found, same, _⟩ :=
    Tree.Packet.derivation_eq_some (Prod.ext followed rfl)
  exact ⟨clause, upper, written, found, same⟩

/-- A clause names no earlier packet, or something in its condition is wrong as seen from the packet
that it names. -/
theorem clause_problem (found : diagnostic ∈ visit.clauseFaults) :
    (∃ clause, visit.packet.inheritance = some clause ∧ diagnostic =
        ⟨clause.parent.location, .unknownParent visit.packet.ident.item clause.parent.item⟩) ∨
      ∃ upper ∈ visit.before.schema.packets, ∃ value ∈ visit.packet.values,
        value.Problem visit.before.schema.forest upper.scope diagnostic := by
  unfold clauseFaults Tree.Packet.derivation at found
  split at found
  next => cases found
  next clause written =>
    unfold Tree.Inheritance.resolve at found
    split at found
    next => exact .inl ⟨clause, written, List.mem_singleton.mp found⟩
    next id upper named =>
      obtain ⟨value, inside, wrong⟩ := Tree.selection_problem found
      have there := Schema.mem_of_packet (Schema.named_eq_some named).1
      refine .inr ⟨upper, there, value, ?_, wrong⟩
      unfold Tree.Packet.values
      rw [written]
      exact inside

theorem clause_faulty (coherent : visit.before.schema.Coherent)
    (found : diagnostic ∈ visit.clauseFaults) : visit.packet.Faulty diagnostic := by
  rcases visit.clause_problem found with
    ⟨clause, written, rfl⟩ | ⟨upper, there, value, inside, wrong⟩
  · exact .unknownParent written
  · exact .value inside (wrong.faulty coherent.ordered (coherent.formed.issued upper there))

/-- What is reported while the body of a packet is walked is about what is inside it. -/
theorem walked_adds (coherent : visit.before.schema.Coherent) (visible : List Tree.Binding) :
    Build.Adds (Tree.FaultAmong (Tree.blockSites visible visit.packet.body)) visit.opened
      (visit.walked failFast) :=
  Tree.walks_blame.block visit.packet.body visit.scope visit.opened
    (Reaches.formed visit.opened_reaches coherent.formed) visit.opened_issued visible

theorem register_adds :
    Build.Adds visit.packet.Faulty (visit.walked failFast) (visit.after failFast) := by
  apply (visit.registers failFast).adds.weaken
  rintro diagnostic
    ⟨error, rejected | ⟨grown, parent, condition, accepted, selected, rejected⟩, rfl⟩
  · rw [Schema.append_packet_eq_error rejected, visit.record_ident]
    exact .redefined
  · obtain ⟨_, _, rfl⟩ := Schema.append_packet_eq_ok accepted
    obtain ⟨clause, upper, derived, found, named⟩ := visit.clause_of_derivation selected
    have kept : Schema.packet? ⟨(visit.walked failFast).schema.packets ++ [visit.record],
        (visit.walked failFast).schema.forest⟩ parent = some upper := by
      rw [Schema.packet?, visit.walked_packets,
        List.getElem?_append_left (Schema.registered_of_packet found)]
      exact found
    rw [Schema.append_child_conflict rejected kept, named]
    exact .conflict derived condition

/-- What is reported while a packet is visited is about the packet or about what is inside it. -/
theorem adds (coherent : visit.before.schema.Coherent) (visible : List Tree.Binding) :
    Build.Adds (fun diagnostic => visit.packet.Faulty diagnostic ∨
      Tree.FaultAmong (Tree.blockSites visible visit.packet.body) diagnostic)
      visit.before (visit.after failFast) := by
  have opened : Build.Adds visit.packet.Faulty visit.before visit.opened :=
    Build.report_adds fun _ found => visit.clause_faulty coherent found
  exact ((opened.weaken fun _ => .inl).trans
    ((visit.walked_adds coherent visible).weaken fun _ => .inr)).trans
    (visit.register_adds.weaken fun _ => .inl)

end Visit

namespace Tree

variable {failFast : Bool}

def PacketSite.Faulty (site : PacketSite) (diagnostic : Diagnostic) : Prop :=
  site.packet.Faulty diagnostic ∨
    FaultAmong (blockSites site.inherited site.packet.body) diagnostic

theorem buildPackets_adds (packets earlier : List Packet) (build : Build)
    (coherent : build.schema.Coherent) :
    Build.Adds (fun diagnostic => ∃ site ∈ packetSites earlier packets, site.Faulty diagnostic)
      build (buildPackets failFast packets build) := by
  induction packets generalizing earlier build with
  | nil => exact .of_same rfl
  | cons packet rest later =>
      rw [buildPackets, packetSites]
      split
      · exact .of_same rfl
      · have first : Build.Adds (PacketSite.Faulty ⟨earlier, packet⟩) build
            (packet.build failFast build) :=
          Visit.adds ⟨packet, build⟩ coherent (PacketSite.inherited ⟨earlier, packet⟩)
        have reaches : build.schema.Reaches (packet.build failFast build).schema :=
          Visit.after_reaches ⟨packet, build⟩ coherent
        have others := later (packet :: earlier) _ (coherent.reached reaches)
        apply (first.weaken _).trans (others.weaken _)
        · exact fun diagnostic fault => ⟨⟨earlier, packet⟩, List.mem_cons_self, fault⟩
        · rintro diagnostic ⟨site, member, fault⟩
          exact ⟨site, List.mem_cons_of_mem _ member, fault⟩

/-- Whatever is reported about a text is reported about a packet, or about a statement, of its
tree. -/
theorem Module.build_faulty {tree : Module} {diagnostic : Diagnostic}
    (reported : diagnostic ∈ (tree.build failFast).diagnostics) :
    (∃ packet ∈ tree.packets, packet.Faulty diagnostic) ∨ FaultAmong tree.sites diagnostic := by
  obtain ⟨added, same, blamed⟩ := buildPackets_adds tree.packets [] .empty Schema.coherent_empty
  change (tree.build failFast).diagnostics = [] ++ added at same
  rw [same] at reported
  obtain ⟨site, member, fault | ⟨inner, inside, fault⟩⟩ := blamed diagnostic reported
  · exact .inl ⟨site.packet, packet_of_site member, fault⟩
  · exact .inr ⟨inner, List.mem_flatMap.mpr ⟨site, member, inside⟩, fault⟩

end Tree

end PacketSchema
