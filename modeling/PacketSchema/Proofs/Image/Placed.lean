import PacketSchema.Proofs.Image.Blocks
import PacketSchema.Proofs.Resolving
import PacketSchema.Proofs.Walk.Confinement

/-!
# What became of each statement

A statement or an arm with a fault is left out of the schema, and then something is reported at
one of its places. What is not left out says what was written and stands in the order of the
text, and a field or an arm with a block has the number of that block. So the fields of a scope
tell which body was walked there, whatever was left out of it.
-/

namespace PacketSchema

def Reported (diagnostics : List Diagnostic) (places : List Location) : Prop :=
  ∃ diagnostic ∈ diagnostics, diagnostic.location ∈ places

theorem Reported.later {early late : List Diagnostic} {places : List Location}
    (reported : Reported early places) (grown : early <+: late) : Reported late places := by
  obtain ⟨diagnostic, member, place⟩ := reported
  exact ⟨diagnostic, grown.subset member, place⟩

theorem Reported.among {diagnostics : List Diagnostic} {location : Location}
    {places : List Location} (reported : Reported diagnostics [location])
    (member : location ∈ places) : Reported diagnostics places := by
  obtain ⟨diagnostic, present, place⟩ := reported
  rw [List.mem_singleton] at place
  exact ⟨diagnostic, present, by rwa [place]⟩

/-- A refusal with reasons at some places is reported there. -/
theorem Checked.reported {Item : Type} {checked : Checked Item} {problems : List Diagnostic}
    {places : List Location} (refused : checked = .refused problems) (reasoned : checked.Reasoned)
    (located : ∀ problem ∈ checked.problems, problem.location ∈ places)
    (earlier : List Diagnostic) : Reported (earlier ++ problems) places := by
  subst refused
  obtain ⟨problem, member⟩ := List.exists_mem_of_ne_nil problems fun none => reasoned (by rw [none])
  exact ⟨problem, List.mem_append_right _ member, located problem member⟩

namespace Tree

/-- The places where a fault of a statement itself is reported; what stands in its blocks has
places of its own. -/
def Statement.places : Statement → List Location
  | .always location _ descriptor =>
      location :: descriptor.scalar.location :: descriptor.leaves.map Value.location
  | .optional location _ condition _ => location :: condition.leaves.map Value.location
  | .union location _ _ => [location]

def Arm.places : Arm → List Location
  | .mk location guard tag _ =>
      location :: tag.value.location :: (selectionLeaves guard).map Value.location

section Located

variable {forest : ScopeForest} {scope : ScopeId} {problem : Diagnostic}

theorem Value.Problem.located {value : Value} (wrong : value.Problem forest scope problem) :
    problem.location = value.location := by
  cases wrong <;> rfl

theorem Disjunction.located (condition : Disjunction)
    (found : problem ∈ (condition.resolve forest scope).problems) :
    problem.location ∈ condition.leaves.map Value.location := by
  obtain ⟨leaf, member, wrong⟩ := condition.problem_of_leaf found
  rw [wrong.located]
  exact List.mem_map_of_mem member

theorem Descriptor.located (descriptor : Descriptor) (ident : String)
    (found : problem ∈ (descriptor.resolve forest scope ident).problems) :
    problem.location ∈ descriptor.scalar.location :: descriptor.leaves.map Value.location := by
  rcases descriptor.problem_of_leaf ident found with rfl | ⟨leaf, member, wrong⟩
  · exact List.mem_cons_self
  · rw [wrong.located]
    exact List.mem_cons_of_mem _ (List.mem_map_of_mem member)

theorem Arm.located {location : Location} {guard : Option Disjunction} {tag : Tag}
    {body : List Statement}
    (found : problem ∈ (Checked.both Prod.mk
      (.option (fun written : Disjunction => written.resolve forest scope) guard)
      tag.resolve).problems) : problem.location ∈ (Arm.mk location guard tag body).places := by
  obtain ⟨leaf, member, wrong⟩ := arm_problem found
  rw [wrong.located, Arm.places]
  apply List.mem_cons_of_mem
  rcases List.mem_append.mp member with guarded | tagged
  · exact List.mem_cons_of_mem _ (List.mem_map_of_mem guarded)
  · cases List.mem_singleton.mp tagged
    exact List.mem_cons_self

theorem Arm.reported {location : Location} {guard : Option Disjunction} {tag : Tag}
    {body : List Statement} {problems : List Diagnostic}
    (refused : Checked.both Prod.mk
      (.option (fun written : Disjunction => written.resolve forest scope) guard) tag.resolve =
        .refused problems) (earlier : List Diagnostic) :
    Reported (earlier ++ problems) (Arm.mk location guard tag body).places :=
  Checked.reported refused
    ((Checked.reasoned_option guard fun written => written.reasoned).both tag.reasoned _)
    (fun _ => Arm.located) earlier

end Located

/-- What an arm has become: nothing, or an arm of a union; `next` is the number of its block. -/
inductive Arm.PlacedAs (blocks : List Block) (diagnostics : List Diagnostic) (outer next : Nat)
    (written : Arm) : List PacketSchema.Arm → Prop
  | left (reported : Reported diagnostics written.places) :
      PlacedAs blocks diagnostics outer next written []
  | kept {present : PacketSchema.Arm} (means : written.Means present)
      (number : present.scope = ⟨next⟩) (own : blocks[next]? = some (.arm outer written)) :
      PlacedAs blocks diagnostics outer next written [present]

inductive ArmsPlacedAs (blocks : List Block) (diagnostics : List Diagnostic) (outer : Nat) :
    Nat → List Arm → List PacketSchema.Arm → Prop
  | nil {next : Nat} : ArmsPlacedAs blocks diagnostics outer next [] []
  | cons {next : Nat} {written : Arm} {rest : List Arm} {presents others : List PacketSchema.Arm}
      (first : written.PlacedAs blocks diagnostics outer next presents)
      (later : ArmsPlacedAs blocks diagnostics outer (next + written.blocks) rest others) :
      ArmsPlacedAs blocks diagnostics outer next (written :: rest) (presents ++ others)

/-- What a statement of the block with the number `outer` has become: nothing, or a field; `next`
is the number of the statement's first block. -/
inductive Statement.PlacedAs (blocks : List Block) (diagnostics : List Diagnostic)
    (outer next : Nat) : Statement → List Field → Prop
  | left {statement : Statement} (reported : Reported diagnostics statement.places) :
      PlacedAs blocks diagnostics outer next statement []
  | always {location : Location} {ident : Token} {descriptor : Descriptor} {encoding : Encoding}
      (layout : encoding.layout = descriptor.layout) :
      PlacedAs blocks diagnostics outer next (.always location ident descriptor)
        [.always ident.item encoding]
  | optional {location : Location} {ident : Token} {condition : Disjunction}
      {body : List Statement} {resolved : Condition}
      (reads : resolved.formula = condition.formula)
      (own : blocks[next]? = some (.optional outer location ident condition body)) :
      PlacedAs blocks diagnostics outer next (.optional location ident condition body)
        [.optional ident.item resolved ⟨next⟩]
  | union {location : Location} {ident : Token} {arms : List Arm}
      {presents : List PacketSchema.Arm}
      (inside : ArmsPlacedAs blocks diagnostics outer next arms presents) :
      PlacedAs blocks diagnostics outer next (.union location ident arms)
        [.union ⟨ident.item, presents⟩]

inductive BlockPlacedAs (blocks : List Block) (diagnostics : List Diagnostic) (outer : Nat) :
    Nat → List Statement → List Field → Prop
  | nil {next : Nat} : BlockPlacedAs blocks diagnostics outer next [] []
  | cons {next : Nat} {statement : Statement} {rest : List Statement} {fields others : List Field}
      (first : statement.PlacedAs blocks diagnostics outer next fields)
      (later : BlockPlacedAs blocks diagnostics outer (next + statement.blocks) rest others) :
      BlockPlacedAs blocks diagnostics outer next (statement :: rest) (fields ++ others)

section Later

variable {blocks : List Block} {early late : List Diagnostic} {outer next : Nat}

theorem Arm.PlacedAs.later {written : Arm} {presents : List PacketSchema.Arm}
    (placed : written.PlacedAs blocks early outer next presents) (grown : early <+: late) :
    written.PlacedAs blocks late outer next presents := by
  cases placed with
  | left reported => exact .left (reported.later grown)
  | kept means number own => exact .kept means number own

theorem ArmsPlacedAs.later {arms : List Arm} {presents : List PacketSchema.Arm}
    (placed : ArmsPlacedAs blocks early outer next arms presents) (grown : early <+: late) :
    ArmsPlacedAs blocks late outer next arms presents := by
  induction placed with
  | nil => exact .nil
  | cons first _ rest => exact .cons (first.later grown) rest

theorem Statement.PlacedAs.later {statement : Statement} {fields : List Field}
    (placed : statement.PlacedAs blocks early outer next fields) (grown : early <+: late) :
    statement.PlacedAs blocks late outer next fields := by
  cases placed with
  | left reported => exact .left (reported.later grown)
  | always layout => exact .always layout
  | optional reads own => exact .optional reads own
  | union inside => exact .union (inside.later grown)

theorem BlockPlacedAs.later {statements : List Statement} {fields : List Field}
    (placed : BlockPlacedAs blocks early outer next statements fields) (grown : early <+: late) :
    BlockPlacedAs blocks late outer next statements fields := by
  induction placed with
  | nil => exact .nil
  | cons first _ rest => exact .cons (first.later grown) rest

end Later

section Own

variable {blocks : List Block} {diagnostics : List Diagnostic} {outer next : Nat}

/-- A field that has a block was written as one, and its scope is the number of its own block. -/
theorem BlockPlacedAs.optional_own {statements : List Statement} {fields : List Field}
    (placed : BlockPlacedAs blocks diagnostics outer next statements fields) {ident : String}
    {condition : Condition} {child : ScopeId} (member : .optional ident condition child ∈ fields) :
    ∃ location name written body,
      blocks[child.index]? = some (.optional outer location name written body) ∧
        ident = name.item ∧ condition.formula = written.formula := by
  induction placed with
  | nil => cases member
  | cons first _ rest =>
      rcases List.mem_append.mp member with here | later
      · cases first with
        | left => cases here
        | always => cases List.mem_singleton.mp here
        | union => cases List.mem_singleton.mp here
        | optional reads own =>
            cases List.mem_singleton.mp here
            exact ⟨_, _, _, _, own, rfl, reads⟩
      · exact rest later

theorem ArmsPlacedAs.arm_own {arms : List Arm} {presents : List PacketSchema.Arm}
    (placed : ArmsPlacedAs blocks diagnostics outer next arms presents) {arm : PacketSchema.Arm}
    (member : arm ∈ presents) :
    ∃ written, blocks[arm.scope.index]? = some (.arm outer written) ∧ written.Means arm := by
  induction placed with
  | nil => cases member
  | cons first _ rest =>
      rcases List.mem_append.mp member with here | later
      · cases first with
        | left => cases here
        | kept means number own =>
            cases List.mem_singleton.mp here
            exact ⟨_, by rw [number, own], means⟩
      · exact rest later

theorem BlockPlacedAs.arm_own {statements : List Statement} {fields : List Field}
    (placed : BlockPlacedAs blocks diagnostics outer next statements fields) {choice : Union}
    (declared : .union choice ∈ fields) {arm : PacketSchema.Arm} (member : arm ∈ choice.arms) :
    ∃ written, blocks[arm.scope.index]? = some (.arm outer written) ∧ written.Means arm := by
  induction placed with
  | nil => cases declared
  | cons first _ rest =>
      rcases List.mem_append.mp declared with here | later
      · cases first with
        | left => cases here
        | always => cases List.mem_singleton.mp here
        | optional => cases List.mem_singleton.mp here
        | union inside =>
            cases List.mem_singleton.mp here
            exact inside.arm_own member
      · exact rest later

end Own

def firstNamed (name : String) (blocks : List Block) : Option Nat :=
  blocks.findIdx? (Block.isNamed name)

/-- The block whose scope is the parent of a block's scope. For a packet it is the first packet of
the name that its clause gives, if that one stands before it. -/
def Block.parent (earlier : List Block) : Block → Option Nat
  | .packet written => written.inheritance.bind fun clause =>
      firstNamed clause.parent.item earlier
  | .optional outer _ _ _ _ => some outer
  | .arm outer _ => some outer

/-- The scope with the number of a block is the scope of that block: its parent is the right one,
and its fields are what became of the block's body. -/
def Mirrored (blocks : List Block) (build : Build) (number : Nat) (block : Block) : Prop :=
  ∃ fields, build.schema.forest.scope? ⟨number⟩ =
      some ⟨(block.parent (blocks.take number)).map ScopeId.mk, fields⟩ ∧
    BlockPlacedAs blocks build.diagnostics number (number + 1) block.body fields

theorem Mirrored.kept {blocks : List Block} {before after : Build} {number : Nat} {block : Block}
    (mirrored : Mirrored blocks before number block)
    (same : after.schema.forest.scope? ⟨number⟩ = before.schema.forest.scope? ⟨number⟩)
    (grown : before.diagnostics <+: after.diagnostics) : Mirrored blocks after number block := by
  obtain ⟨fields, found, placed⟩ := mirrored
  exact ⟨fields, same.trans found, placed.later grown⟩

/-- Each block of a part of the list has a property; `next` is the number of the first of them. -/
def Throughout (property : Nat → Block → Prop) (next : Nat) (part : List Block) : Prop :=
  ∀ (offset : Nat) (block : Block), part[offset]? = some block → property (next + offset) block

section Throughout

variable {property other : Nat → Block → Prop} {next : Nat} {block : Block}
  {first second part : List Block}

theorem throughout_nil : Throughout property next [] := by
  intro offset block found
  cases found

theorem throughout_cons : Throughout property next (block :: part) ↔
    property next block ∧ Throughout property (next + 1) part := by
  constructor
  · intro all
    refine ⟨all 0 block rfl, fun offset here found => ?_⟩
    have later := all (offset + 1) here found
    rwa [Nat.add_assoc, Nat.add_comm 1]
  · rintro ⟨here, later⟩ (_ | offset) present found
    · cases found
      exact here
    · have rest := later offset present found
      rwa [Nat.add_assoc, Nat.add_comm 1] at rest

theorem throughout_append : Throughout property next (first ++ second) ↔
    Throughout property next first ∧ Throughout property (next + first.length) second := by
  induction first generalizing next with
  | nil => simp [throughout_nil]
  | cons block rest later =>
      rw [List.cons_append, throughout_cons, later, throughout_cons, and_assoc, List.length_cons,
        Nat.add_assoc, Nat.add_comm 1]

theorem Throughout.imp (all : Throughout property next part)
    (each : ∀ number block, next ≤ number → number < next + part.length →
      property number block → other number block) : Throughout other next part := by
  intro offset block found
  have bound := (List.getElem?_eq_some_iff.mp found).1
  exact each _ _ (by omega) (by omega) (all offset block found)

end Throughout

/-- A part of the list of blocks stands where its numbers say. -/
def Stands (blocks : List Block) (next : Nat) (part : List Block) : Prop :=
  Throughout (fun number block => blocks[number]? = some block) next part

theorem stands_append (earlier part : List Block) :
    Stands (earlier ++ part) earlier.length part := by
  intro offset block found
  rw [List.getElem?_append_right (Nat.le_add_right _ _), Nat.add_sub_cancel_left]
  exact found

end Tree

end PacketSchema
