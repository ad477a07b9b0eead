import PacketSchema.Build.Walk

/-!
# The course of a walk

At a statement or an arm a walk does something of its own, and then it walks what is inside. What
it does of its own is named here. What is said of a walk, or of two walks side by side, is shown for
these parts and for walks put one behind the other; that it holds of the walk of a whole body is an
induction over the tree, which is made here.
-/

namespace PacketSchema

theorem Build.never_halted (build : Build) : ¬build.halted false = true := by
  simp [halted]

namespace Tree

/-- The build in which the body of an optional block is walked. -/
def optionalOpened (scope : ScopeId) (location : Location) (ident : Token)
    (condition : Disjunction) (build : Build) : Build :=
  match condition.resolve build.schema.forest scope with
  | .refused problems => (build.createScope scope).2.report problems
  | .accepted resolved => ((build.createScope scope).2.declare scope
      (.optional ident.item resolved ⟨build.schema.forest.size⟩) location).2

/-- Where the arms of a union are walked from. -/
def unionOpened (scope : ScopeId) (location : Location) (ident : Token) (build : Build) :
    Option Union × Build :=
  let (allowed, declared) := build.declare scope (.union (.empty ident.item)) location
  (if allowed then none else some (.empty ident.item), declared)

/-- The condition and the tag of an arm, as far as they could be resolved. -/
def armChecked (scope : ScopeId) (guard : Option Disjunction) (tag : Tag) (build : Build) :
    Checked (Option Condition × PacketSchema.Tag) :=
  .both Prod.mk (.option (fun written => written.resolve build.schema.forest scope) guard)
    tag.resolve

/-- The build in which the body of an arm is walked. -/
def armOpened (scope : ScopeId) (guard : Option Disjunction) (tag : Tag) (build : Build) : Build :=
  ((build.report (armChecked scope guard tag build).problems).createScope scope).2

/-- An arm is offered to its union once its body was walked. -/
def armClosed (scope : ScopeId) (ident : String) (location : Location)
    (guard : Option Disjunction) (tag : Tag) (reached : Option Union × Build) (walked : Build) :
    Option Union × Build :=
  match armChecked scope guard tag reached.2 with
  | .refused _ => (reached.1, walked)
  | .accepted (condition, resolved) => walked.addArm scope ident location
      ⟨condition, resolved, ⟨reached.2.schema.forest.size⟩⟩ reached.1

variable {failFast : Bool} {scope : ScopeId} {ident : String} {build : Build}

theorem always_build_eq (location : Location) (ident : Token) (descriptor : Descriptor) :
    (Statement.always location ident descriptor).build failFast scope build =
      match descriptor.resolve build.schema.forest scope ident.item with
      | .refused problems => build.report problems
      | .accepted encoding => (build.declare scope (.always ident.item encoding) location).2 := by
  cases checked : descriptor.resolve build.schema.forest scope ident.item with
  | refused problems => rw [Statement.build, checked]
  | accepted encoding => rw [Statement.build, checked]

theorem optional_build_eq {location : Location} {ident : Token} {condition : Disjunction}
    {body : List Statement} :
    (Statement.optional location ident condition body).build failFast scope build =
      buildBlock failFast ⟨build.schema.forest.size⟩ body
        (optionalOpened scope location ident condition build) := by
  rw [Statement.build]
  rfl

theorem union_build_arms (location : Location) (ident : Token) (arms : List Arm) :
    (Statement.union location ident arms).build failFast scope build =
      buildArms failFast scope ident.item arms (unionOpened scope location ident build).1
        (unionOpened scope location ident build).2 := by
  rw [Statement.build]
  rfl

theorem arm_build_eq (location : Location) (guard : Option Disjunction) (tag : Tag)
    (body : List Statement) (reached : Option Union × Build) :
    (Arm.mk location guard tag body).build failFast scope ident reached.1 reached.2 =
      armClosed scope ident location guard tag reached
        (buildBlock failFast ⟨reached.2.schema.forest.size⟩ body
          (armOpened scope guard tag reached.2)) := by
  rw [Arm.build]
  rfl

/-- What is said of walks: for a part of a tree and the scope that it is walked at, a relation
between what the walk starts from and what it comes to. -/
structure Account where
  statement : Statement → ScopeId → Build → Build → Prop
  arm : Arm → ScopeId → String → Option Union × Build → Option Union × Build → Prop
  block : List Statement → ScopeId → Build → Build → Prop
  arms : List Arm → ScopeId → String → Option Union × Build → Build → Prop

namespace Account

/-- An account that says of every part the same thing about the builds before and after. -/
def throughout (relation : ScopeId → Build → Build → Prop) : Account where
  statement _ := relation
  arm _ scope _ before after := relation scope before.2 after.2
  block _ := relation
  arms _ scope _ before after := relation scope before.2 after

/-- An account is true of a walk of one part if it is true of the walks inside this part, and a
walk that is over, or that stops, satisfies it as well. -/
structure Holds (account : Account) (failFast : Bool) : Prop where
  always (location : Location) (ident : Token) (descriptor : Descriptor) (scope : ScopeId)
    (build : Build) : account.statement (.always location ident descriptor) scope build
      ((Statement.always location ident descriptor).build failFast scope build)
  optional (location : Location) (ident : Token) (condition : Disjunction)
    (body : List Statement) (scope : ScopeId) (build : Build)
    (inside : account.block body ⟨build.schema.forest.size⟩
      (optionalOpened scope location ident condition build)
      (buildBlock failFast ⟨build.schema.forest.size⟩ body
        (optionalOpened scope location ident condition build))) :
    account.statement (.optional location ident condition body) scope build
      (buildBlock failFast ⟨build.schema.forest.size⟩ body
        (optionalOpened scope location ident condition build))
  union (location : Location) (ident : Token) (arms : List Arm) (scope : ScopeId) (build : Build)
    (inside : account.arms arms scope ident.item (unionOpened scope location ident build)
      (buildArms failFast scope ident.item arms (unionOpened scope location ident build).1
        (unionOpened scope location ident build).2)) :
    account.statement (.union location ident arms) scope build
      (buildArms failFast scope ident.item arms (unionOpened scope location ident build).1
        (unionOpened scope location ident build).2)
  arm (location : Location) (guard : Option Disjunction) (tag : Tag) (body : List Statement)
    (scope : ScopeId) (ident : String) (reached : Option Union × Build)
    (inside : account.block body ⟨reached.2.schema.forest.size⟩
      (armOpened scope guard tag reached.2)
      (buildBlock failFast ⟨reached.2.schema.forest.size⟩ body
        (armOpened scope guard tag reached.2))) :
    account.arm (.mk location guard tag body) scope ident reached
      (armClosed scope ident location guard tag reached
        (buildBlock failFast ⟨reached.2.schema.forest.size⟩ body
          (armOpened scope guard tag reached.2)))
  still (body : List Statement) (scope : ScopeId) (build : Build)
    (ended : body = [] ∨ build.halted failFast = true) : account.block body scope build build
  goes_on (statement : Statement) (rest : List Statement) (scope : ScopeId) (build : Build)
    (first : account.statement statement scope build (statement.build failFast scope build))
    (later : account.block rest scope (statement.build failFast scope build)
      (buildBlock failFast scope rest (statement.build failFast scope build))) :
    account.block (statement :: rest) scope build
      (buildBlock failFast scope rest (statement.build failFast scope build))
  arms_still (arms : List Arm) (scope : ScopeId) (ident : String) (reached : Option Union × Build)
    (ended : arms = [] ∨ reached.2.halted failFast = true) :
    account.arms arms scope ident reached reached.2
  arms_go_on (arm : Arm) (rest : List Arm) (scope : ScopeId) (ident : String)
    (reached : Option Union × Build)
    (first : account.arm arm scope ident reached
      (arm.build failFast scope ident reached.1 reached.2))
    (later : account.arms rest scope ident (arm.build failFast scope ident reached.1 reached.2)
      (buildArms failFast scope ident rest (arm.build failFast scope ident reached.1 reached.2).1
        (arm.build failFast scope ident reached.1 reached.2).2)) :
    account.arms (arm :: rest) scope ident reached
      (buildArms failFast scope ident rest (arm.build failFast scope ident reached.1 reached.2).1
        (arm.build failFast scope ident reached.1 reached.2).2)

variable {account : Account}

mutual

theorem Holds.statement (holds : account.Holds failFast) : ∀ (statement : Statement)
    (scope : ScopeId) (build : Build),
    account.statement statement scope build (statement.build failFast scope build)
  | .always location ident descriptor, scope, build =>
      holds.always location ident descriptor scope build
  | .optional location ident condition body, scope, build => by
      rw [optional_build_eq]
      exact holds.optional location ident condition body scope build (holds.block body _ _)
  | .union location ident arms, scope, build => by
      rw [union_build_arms]
      exact holds.union location ident arms scope build (holds.arms arms scope ident.item _)

theorem Holds.arm_built (holds : account.Holds failFast) : ∀ (arm : Arm) (scope : ScopeId)
    (ident : String) (reached : Option Union × Build),
    account.arm arm scope ident reached (arm.build failFast scope ident reached.1 reached.2)
  | .mk location guard tag body, scope, ident, reached => by
      rw [arm_build_eq]
      exact holds.arm location guard tag body scope ident reached (holds.block body _ _)

theorem Holds.block (holds : account.Holds failFast) : ∀ (body : List Statement)
    (scope : ScopeId) (build : Build),
    account.block body scope build (buildBlock failFast scope body build)
  | [], scope, build => by
      rw [buildBlock]
      exact holds.still [] scope build (.inl rfl)
  | statement :: rest, scope, build => by
      rw [buildBlock]
      split
      next stops => exact holds.still _ scope build (.inr stops)
      next =>
        exact holds.goes_on statement rest scope build (holds.statement statement scope build)
          (holds.block rest scope _)

theorem Holds.arms (holds : account.Holds failFast) : ∀ (arms : List Arm) (scope : ScopeId)
    (ident : String) (reached : Option Union × Build),
    account.arms arms scope ident reached
      (buildArms failFast scope ident arms reached.1 reached.2)
  | [], scope, ident, reached => by
      rw [buildArms]
      exact holds.arms_still [] scope ident reached (.inl rfl)
  | arm :: rest, scope, ident, reached => by
      rw [buildArms]
      split
      next stops => exact holds.arms_still _ scope ident reached (.inr stops)
      next =>
        exact holds.arms_go_on arm rest scope ident reached
          (holds.arm_built arm scope ident reached) (holds.arms rest scope ident _)

end

end Account

end Tree

end PacketSchema
