import PacketSchema.Proofs.Arms.Around

/-!
# Arms are checked alike

Whether the name of a union was free or taken, its arms are checked in the same way: what is
reported at them is what a new union answers that is given, in their order, all arms that could be
resolved. If the name was free, the union in the scope is this one in the end. If it was taken, the
arms come into no union at all.
-/

namespace PacketSchema

namespace Tree

open Build (ConfinedTo UnionAt)

theorem Arm.arm_locations_eq (arm : Arm) :
    arm.armLocations = arm.location :: blockArmLocations arm.body := by
  cases arm
  rfl

/-- No arm inside the block of an arm begins where an arm of the union begins. -/
theorem arm_places_apart {arms : List Arm} (apart : (armListLocations arms).Nodup) :
    ∀ arm ∈ arms, ∀ place ∈ blockArmLocations arm.body, place ∉ arms.map Arm.location := by
  induction arms with
  | nil => exact List.forall_mem_nil _
  | cons first rest others =>
      rw [armListLocations, first.arm_locations_eq, List.nodup_append', List.nodup_cons] at apart
      obtain ⟨⟨own, -⟩, further, disjoint⟩ := apart
      have among : ∀ {place : Location} {arm : Arm}, arm ∈ rest → place ∈ arm.armLocations →
          place ∈ armListLocations rest := by
        intro place arm listed inside
        rw [arm_list_locations_eq]
        exact List.mem_flatMap.mpr ⟨arm, listed, inside⟩
      intro arm member place inside
      rw [List.map_cons, List.mem_cons, not_or]
      rcases List.mem_cons.mp member with rfl | listed
      · refine ⟨fun same => own (same ▸ inside), ?_⟩
        intro behind
        obtain ⟨other, there, rfl⟩ := List.mem_map.mp behind
        refine disjoint (List.mem_cons_of_mem _ inside) (among there ?_)
        rw [other.arm_locations_eq]
        exact List.mem_cons_self
      · refine ⟨?_, others further arm listed place inside⟩
        rintro rfl
        refine disjoint List.mem_cons_self (among listed ?_)
        rw [arm.arm_locations_eq]
        exact List.mem_cons_of_mem _ inside

section Statement

variable {scope : ScopeId} {build : Build} {present : Scope} {ident : Token}

/-- A union whose name is free is declared as it is when it is new. The arms of one whose name is
taken are for a new union, too, but apart, and the schema stays as it is. -/
theorem union_opened_cases (location : Location) (ident : Token)
    (ordered : build.schema.forest.Ordered)
    (found : build.schema.forest.scope? scope = some present) :
    Carries scope present.parent present.fields (.empty ident.item)
        (unionOpened scope location ident build) ∧
      (build.schema.forest.lookup scope ident.item = .ok none ∧
          (unionOpened scope location ident build).1 = none ∨
        (∃ bound, build.schema.forest.lookup scope ident.item = .ok (some bound)) ∧
          ∃ noted, noted.schema = build.schema ∧
            unionOpened scope location ident build = (some (.empty ident.item), noted)) := by
  rcases build.declare_cases scope (.union (.empty ident.item)) location with
    ⟨error, rejected, same⟩ | ⟨grown, accepted, same⟩
  · have opened : unionOpened scope location ident build =
        (some (.empty ident.item), build.note location error) := by
      rw [unionOpened, same]
      rfl
    rw [opened]
    refine ⟨⟨⟨_, found, .refused⟩, by simp⟩, .inr ⟨?_, build.note location error, rfl, rfl⟩⟩
    obtain ⟨binding, answer⟩ :=
      ordered.lookup_ok (ScopeForest.issued_of_scope found) ident.item
    cases binding with
    | some bound => exact ⟨bound, answer⟩
    | none =>
        unfold Schema.appendField ScopeForest.append at rejected
        rw [show Field.ident (.union (.empty ident.item)) = ident.item from rfl, answer] at rejected
        cases rejected
  · have opened : unionOpened scope location ident build =
        (none, { build with schema := grown }) := by
      rw [unionOpened, same]
      rfl
    rw [opened]
    obtain ⟨there, fresh⟩ := union_opened found accepted
    have free := (ScopeForest.append_eq_ok (Schema.append_field_eq_ok accepted).1).1
    exact ⟨⟨⟨_, there, .declared fresh⟩, by simp⟩, .inl ⟨free, rfl⟩⟩

theorem walk_arms_is_none (outer : ScopeId) (name : String) (arms : List Arm)
    (reached : Option Union × Build) :
    (walkArms outer name arms reached).1.isNone = reached.1.isNone := by
  induction arms generalizing reached with
  | nil => rfl
  | cons arm rest later =>
      rw [walkArms, List.foldl_cons]
      exact (later _).trans (arm.build_is_none outer name reached.1 reached.2)

theorem offered_ident (name : String) (offers : List (Located PacketSchema.Arm)) :
    ((Union.empty name).offerPlaced offers).2.ident = name :=
  congrArg Union.ident (Union.offer_all_kept name (offers.map Located.item))

end Statement

namespace ModuleHole

variable (hole : ModuleHole) (location : Location) (ident : Token) (arms : List Arm)

/-- How the walk comes to the arms of a union statement that stands at the place. -/
def unionOpened : Option Union × Build :=
  Tree.unionOpened hole.station.scope location ident hole.station.build

def armVisits : List ArmVisit :=
  Tree.armVisits hole.station.scope ident.item arms (hole.unionOpened location ident)

/-- What is refused by a new union that is given what these arms offer, and the union in the
end. -/
def offered : List Diagnostic × Union :=
  (Union.empty ident.item).offerPlaced
    (offers hole.station.scope (hole.armVisits location ident arms))

theorem visited_union : hole.visited (.union location ident arms) =
    (walkArms hole.station.scope ident.item arms (hole.unionOpened location ident)).2 :=
  union_build_eq location ident arms

/-- The arms are refused as a new union refuses what they offer. -/
theorem union_refused_at
    (apart : (hole.fill [.union location ident arms]).armLocations.Nodup) :
    refusedAt (arms.map Arm.location)
        ((hole.fill [.union location ident arms]).build false).diagnostics =
      (hole.offered location ident arms).1 := by
  have own : (armListLocations arms).Nodup := by
    rw [hole.arm_locations_fill] at apart
    have inside := (List.nodup_append'.mp (List.nodup_append'.mp apart).2.1).1
    rwa [blockArmLocations, Statement.armLocations, blockArmLocations, List.append_nil] at inside
  have among : arms.map Arm.location ⊆ blockArmLocations [.union location ident arms] := by
    intro place member
    obtain ⟨arm, listed, rfl⟩ := List.mem_map.mp member
    rw [blockArmLocations, Statement.armLocations, blockArmLocations, List.append_nil,
      arm_list_locations_eq]
    refine List.mem_flatMap.mpr ⟨arm, listed, ?_⟩
    rw [arm.arm_locations_eq]
    exact List.mem_cons_self
  obtain ⟨present, found⟩ := ScopeForest.issued_iff_scope.mp hole.station_reached.issued
  have carries := (union_opened_cases location ident hole.station_coherent.ordered found).1
  have walked := (carries.walked_all rfl arms).2 (arms.map Arm.location)
    fun arm member => ⟨List.mem_map_of_mem member, arm_places_apart own arm member⟩
  have opened := (@union_opened_refuses hole.station.build hole.station.scope location
    ident).refused_at (List.forall_mem_nil (· ∉ arms.map Arm.location))
  obtain ⟨clean, same⟩ := hole.refused_at_fill apart among
  rw [opened, clean, List.nil_append] at walked
  rw [same, buildBlock_cons, buildBlock, union_build_eq]
  exact walked

/-- If the name is free, the union of the run is declared behind all fields of the scope, and it is
what is found there by this name in the end. -/
theorem union_declared
    (free : hole.station.build.schema.forest.lookup hole.station.scope ident.item = .ok none) :
    (∃ present, hole.station.build.schema.forest.scope? hole.station.scope = some present ∧
      (hole.visited (.union location ident arms)).schema.forest.scope? hole.station.scope =
        some ⟨present.parent,
          present.fields ++ [.union (hole.offered location ident arms).2]⟩) ∧
    ((hole.fill [.union location ident arms]).build false).schema.forest.field?
      hole.station.scope ident.item = some (.union (hole.offered location ident arms).2) := by
  obtain ⟨present, found⟩ := ScopeForest.issued_iff_scope.mp hole.station_reached.issued
  obtain ⟨carries, ⟨-, declared⟩ | ⟨⟨bound, taken⟩, -⟩⟩ :=
    union_opened_cases location ident hole.station_coherent.ordered found
  · obtain ⟨current, there, held⟩ := (carries.walked_all rfl arms).1.held
    have named : (hole.offered location ident arms).2.ident = ident.item :=
      offered_ident ident.item _
    rw [walk_arms_is_none, declared] at held
    change UnionAt (hole.offered location ident arms).2.ident present.fields
      (hole.offered location ident arms).2.arms true current at held
    change (walkArms hole.station.scope ident.item arms
      (hole.unionOpened location ident)).2.schema.forest.scope? _ = _ at there
    rw [← hole.visited_union] at there
    cases held with
    | declared fresh =>
        obtain ⟨more, last⟩ := (hole.visited_kept _).1 _ there
        rw [List.append_assoc] at last
        exact ⟨⟨present, found, there⟩, (congrArg _ named.symm).trans (field_declared last fresh)⟩
  · rw [free] at taken
    cases taken

/-- If the name is taken, no scope that is there changes any more when the block of an arm has been
walked: the arm comes into no union. -/
theorem union_apart {bound : ScopeId × Field}
    (taken : hole.station.build.schema.forest.lookup hole.station.scope ident.item =
      .ok (some bound)) :
    hole.station.build.schema.forest.scopes <+:
        (hole.visited (.union location ident arms)).schema.forest.scopes ∧
      ∀ visit ∈ hole.armVisits location ident arms,
        (visit.walked hole.station.scope).schema.forest.scopes <+:
          (hole.visited (.union location ident arms)).schema.forest.scopes := by
  obtain ⟨present, found⟩ := ScopeForest.issued_iff_scope.mp hole.station_reached.issued
  obtain ⟨-, ⟨free, -⟩ | ⟨-, noted, same, opened⟩⟩ :=
    union_opened_cases location ident hole.station_coherent.ordered found
  · rw [taken] at free
    cases free
  · have apart := @walk_arms_apart hole.station.scope ident.item arms
      (.empty ident.item) noted
    rw [same, ← opened] at apart
    rw [visited_union]
    exact apart

/-- The block of an arm is below the scope of the union, and all that was walked in it stays as it
is, whatever comes of the arm. -/
theorem block_kept {visit : ArmVisit} (member : visit ∈ hole.armVisits location ident arms) :
    ((hole.fill [.union location ident arms]).build false).schema.forest.parent? visit.block =
        some hole.station.scope ∧
      ∀ id, ¬hole.station.build.schema.forest.Issued id →
        (visit.walked hole.station.scope).schema.forest.Issued id →
          ((hole.fill [.union location ident arms]).build false).schema.forest.scope? id =
            (visit.walked hole.station.scope).schema.forest.scope? id := by
  have left := visits_confined arms (hole.unionOpened location ident) member
  rw [← visited_union] at left
  have kept : ∀ id, ¬hole.station.build.schema.forest.Issued id →
      (visit.walked hole.station.scope).schema.forest.Issued id →
        ((hole.fill [.union location ident arms]).build false).schema.forest.scope? id =
          (visit.walked hole.station.scope).schema.forest.scope? id := by
    intro id new issued
    have other : id ≠ hole.station.scope := by
      rintro rfl
      exact new hole.station_reached.issued
    exact ((hole.visited_kept _).2 id new (left.issued issued)).trans (left.others id issued other)
  have created : (armOpened hole.station.scope visit.arm.guard visit.arm.tag
      visit.before).schema.forest.scope? visit.block = some ⟨some hole.station.scope, []⟩ :=
    ScopeForest.scope_create_new _ _
  obtain ⟨more, walked⟩ := block_appends visit.arm.body created
  have opened : hole.station.build.schema.forest.size ≤
      (hole.unionOpened location ident).2.schema.forest.size :=
    (Build.confined_declare hole.station.build hole.station.scope _ location).size
  have new : ¬hole.station.build.schema.forest.Issued visit.block :=
    Nat.not_lt_of_le (opened.trans (visits_later arms _ member))
  have last := (kept visit.block new (ScopeForest.issued_of_scope walked)).trans walked
  exact ⟨ScopeForest.parent_of_scope last, kept⟩

end ModuleHole

end Tree

open PacketSchema.Tree in
/-- For every union statement of a text, wherever it stands, the arms are visited in order, each
where the walk of the arms before it has come to, and each opens a block of its own below the scope
of the union, in which nothing changes when it has been walked. What is reported as refused at
these arms is what a new union refuses that is given all arms whose condition and value are
resolved. If the name of the union was free, it has the arms of that new union, and nothing else is
changed when the block of an arm has been walked. If the name was taken, nothing at all is changed
then. -/
theorem arms_checked_alike {source : String} {tree : Tree.Module}
    (parsed : Grammar.parse source = .ok tree) :
    (∀ site ∈ tree.sites, ∃ hole : ModuleHole, hole.fill [site.statement] = tree) ∧
    ∀ (hole : ModuleHole) (location : Location) (ident : Token) (arms : List Tree.Arm),
      hole.fill [.union location ident arms] = tree →
      let scope := hole.station.scope
      let before := hole.station.build.schema.forest
      let after := (hole.visited (.union location ident arms)).schema.forest
      let visits := hole.armVisits location ident arms
      let run := (Union.empty ident.item).offerPlaced (offers scope visits)
      ∃ schema diagnostics, compile false source = .ok ⟨schema, diagnostics⟩ ∧
        (∀ earlier arm later, arms = earlier ++ arm :: later →
          visits[earlier.length]? =
            some ⟨arm, (walkArms scope ident.item earlier (hole.unionOpened location ident)).2⟩) ∧
        visits.length = arms.length ∧ (visits.map ArmVisit.block).Nodup ∧
        (∀ visit ∈ visits, schema.forest.parent? visit.block = some scope ∧
          ∀ id, ¬before.Issued id → (visit.walked scope).schema.forest.Issued id →
            schema.forest.scope? id = (visit.walked scope).schema.forest.scope? id) ∧
        refusedAt (arms.map Arm.location) diagnostics = run.1 ∧
        (before.lookup scope ident.item = .ok none ∧
            schema.forest.field? scope ident.item = some (.union run.2) ∧
            (∃ present, before.scope? scope = some present ∧
              after.scope? scope = some ⟨present.parent, present.fields ++ [.union run.2]⟩) ∧
            (∀ visit ∈ visits, ∀ id, id ≠ scope →
              (visit.walked scope).schema.forest.Issued id →
                after.scope? id = (visit.walked scope).schema.forest.scope? id) ∨
          (∃ bound, before.lookup scope ident.item = .ok (some bound)) ∧
            before.scopes <+: after.scopes ∧
            ∀ visit ∈ visits, (visit.walked scope).schema.forest.scopes <+: after.scopes) := by
  refine ⟨fun site member => Module.hole_of_site member, ?_⟩
  rintro hole location ident arms rfl
  refine ⟨_, _, compile_eq_build parsed, ?behind, ?length, ?blocks, ?kept, ?refused, ?outcome⟩
  case behind =>
    rintro earlier arm later rfl
    exact visit_behind ident.item earlier arm later (hole.unionOpened location ident)
  case length =>
    have visited := congrArg List.length (@visits_arms hole.station.scope ident.item arms
      (hole.unionOpened location ident))
    rwa [List.length_map] at visited
  case blocks => exact visits_apart ident.item arms (hole.unionOpened location ident)
  case kept => exact fun visit member => hole.block_kept location ident arms member
  case refused => exact hole.union_refused_at location ident arms (Grammar.arms_apart parsed)
  case outcome =>
    obtain ⟨binding, answer⟩ := hole.station_coherent.ordered.lookup_ok
      hole.station_reached.issued ident.item
    cases binding with
    | none =>
        obtain ⟨own, last⟩ := hole.union_declared location ident arms answer
        refine .inl ⟨answer, last, own, ?_⟩
        intro visit member id other issued
        have left := visits_confined arms (hole.unionOpened location ident) member
        rw [← ModuleHole.visited_union] at left
        exact left.others id issued other
    | some bound => exact .inr ⟨⟨bound, answer⟩, hole.union_apart location ident arms answer⟩

structure UnionPlace where
  hole : Tree.ModuleHole
  location : Location
  ident : Tree.Token
  arms : List Tree.Arm

namespace UnionPlace

variable (place : UnionPlace)

def statement : Tree.Statement := .union place.location place.ident place.arms

def fill : Tree.Module := place.hole.fill [place.statement]

def offered : List Diagnostic × Union :=
  place.hole.offered place.location place.ident place.arms

/-- What the name of the union is bound to before it is declared. -/
def bound : Except SchemaError (Option (ScopeId × Field)) :=
  place.hole.station.build.schema.forest.lookup place.hole.station.scope place.ident.item

end UnionPlace

/-- A union with an arm that it refuses, and another union of this name with three arms, of which
one cannot be resolved and one is refused. -/
def twoUnionsText : String :=
  "P " ++ braced ("always n uint: 1 bytes;\nvariable v " ++
      braced ("case (&n == 1) |X: 1| " ++
          braced ("variable w " ++ braced ("otherwise |Y: 2| " ++ braced "")) ++
        "\n  otherwise |X: 2| " ++ braced "") ++
    "\nvariable v " ++
      braced ("case (&n == 3) |X: 1| " ++ braced "" ++ "case (&z) |Z: 1| " ++ braced "" ++
        "\n  otherwise |Y: 1| " ++ braced ""))

def unionPlaces? : Tree.Module → Option (UnionPlace × UnionPlace)
  | ⟨[⟨ident, clause, [field, .union here name arms, .union there again others]⟩], finish⟩ =>
      some (⟨⟨[], ident, clause, .here [field] [.union there again others], [], finish⟩, here,
          name, arms⟩,
        ⟨⟨[], ident, clause, .here [field, .union here name arms] [], [], finish⟩, there, again,
          others⟩)
  | _ => none

theorem union_places_fill {tree : Tree.Module} {free taken : UnionPlace}
    (found : unionPlaces? tree = some (free, taken)) : free.fill = tree ∧ taken.fill = tree := by
  unfold unionPlaces? at found
  split at found
  · cases found
    exact ⟨rfl, rfl⟩
  · cases found

theorem two_unions_checked_alike :
    ∃ (free taken : UnionPlace) (schema : Schema) (diagnostics : List Diagnostic),
      Grammar.parse twoUnionsText = .ok free.fill ∧ free.fill = taken.fill ∧
      compile false twoUnionsText = .ok ⟨schema, diagnostics⟩ ∧
      refusedAt (free.arms.map Tree.Arm.location) diagnostics =
        [⟨⟨3, 3⟩, .armRefused "v" (.repeatedLabel "X")⟩] ∧
      refusedAt (taken.arms.map Tree.Arm.location) diagnostics =
        [⟨⟨5, 3⟩, .armRefused "v" (.repeatedValue 1)⟩] ∧
      schema.forest.field? ⟨0⟩ "v" = some (.union ⟨"v",
        [⟨some (.relation .equal (.field ⟨⟨0⟩, "n"⟩) (.integer 1)), ⟨"X", 1⟩, ⟨1⟩⟩]⟩) ∧
      taken.hole.station.build.schema.forest.scopes <+:
        (taken.hole.visited taken.statement).schema.forest.scopes := by
  have passed : (Grammar.parse twoUnionsText).toOption.any (fun tree =>
      (unionPlaces? tree).any fun found =>
        decide (found.1.hole.station.scope = ⟨0⟩ ∧ found.1.ident.item = "v" ∧
          found.1.bound.toOption = some none ∧ found.2.bound.toOption ≠ some none ∧
          found.1.offered = ([⟨⟨3, 3⟩, .armRefused "v" (.repeatedLabel "X")⟩], ⟨"v",
            [⟨some (.relation .equal (.field ⟨⟨0⟩, "n"⟩) (.integer 1)), ⟨"X", 1⟩, ⟨1⟩⟩]⟩) ∧
          found.2.offered.1 = [⟨⟨5, 3⟩, .armRefused "v" (.repeatedValue 1)⟩])) = true := by
    decide +kernel
  obtain ⟨tree, parsed, tested⟩ := exists_ok passed
  obtain ⟨⟨free, taken⟩, found, outcome⟩ := (Option.any_eq_true _ _).mp tested
  obtain ⟨scope, named, unbound, bound, first, second⟩ := of_decide_eq_true outcome
  obtain ⟨rfl, same⟩ := union_places_fill found
  obtain ⟨-, places⟩ := arms_checked_alike parsed
  obtain ⟨schema, diagnostics, compiled, -, -, -, -, refused, accepted⟩ :=
    places free.hole free.location free.ident free.arms rfl
  obtain ⟨_, _, again, -, -, -, -, others, apart⟩ :=
    places taken.hole taken.location taken.ident taken.arms same
  rw [compiled] at again
  cases again
  refine ⟨free, taken, schema, diagnostics, parsed, same.symm, compiled,
    refused.trans (congrArg Prod.fst first), others.trans second, ?_, ?_⟩
  · rcases accepted with ⟨-, declared, -⟩ | ⟨⟨_, answer⟩, -⟩
    · have there := congrArg₂ schema.forest.field? scope named
      exact there.symm.trans (declared.trans (congrArg (some ∘ Field.union ∘ Prod.snd) first))
    · rw [UnionPlace.bound, answer] at unbound
      cases unbound
  · rcases apart with ⟨answer, -⟩ | ⟨-, kept, -⟩
    · rw [UnionPlace.bound, answer] at bound
      exact absurd rfl bound
    · exact kept

end PacketSchema
