import PacketSchema.Proofs.Grammar.Joining
import PacketSchema.Proofs.Grammar.Ordering
import PacketSchema.Proofs.Grammar.Standing

/-!
# Arms and values in the order of the text

The arms of a text, those inside other arms included, and its integers and references begin one
behind another: an arm begins with its keyword, a value has a character, and whatever else is read
only leads on. So no two of them begin at one place, and what is reported at the place of an arm or
of an integer is reported about this one.
-/

namespace PacketSchema

open Grammar (Keyword Spells)

/-- What a value is there for. -/
inductive Use where
  | size
  | operand
  | tag
deriving DecidableEq, Repr

/-- A place that a diagnostic may be about: where an arm begins, or a value with its use. -/
inductive Stop where
  | arm (location : Location)
  | value (use : Use) (written : Tree.Value)

namespace Stop

def location : Stop → Location
  | .arm location => location
  | .value _ written => written.location

def arm? : Stop → Option Location
  | .arm location => some location
  | .value _ _ => none

def Numbered : Stop → Prop
  | .arm _ => True
  | .value _ written => written.Numbered

theorem location_of_arm {stop : Stop} {place : Location} (found : stop.arm? = some place) :
    stop.location = place := by
  cases stop with
  | arm => exact Option.some.inj found
  | value => cases found

end Stop

/-- Stops one behind another, none before the start and all before the finish. -/
structure Between (start : Location) (stops : List Stop) (finish : Location) : Prop where
  onward : finish.isBefore start = false
  ordered : stops.Pairwise fun early late => early.location.isBefore late.location = true
  inside : ∀ stop ∈ stops,
    stop.location.isBefore start = false ∧ stop.location.isBefore finish = true
  numbered : ∀ stop ∈ stops, stop.Numbered

namespace Between

variable {start middle finish : Location} {first second : List Stop}

theorem none (onward : finish.isBefore start = false) : Between start [] finish :=
  ⟨onward, .nil, List.forall_mem_nil _, List.forall_mem_nil _⟩

theorem append (left : Between start first middle) (right : Between middle second finish) :
    Between start (first ++ second) finish := by
  have early := left.onward
  have late := right.onward
  rw [Location.not_before_iff] at early late
  refine ⟨?_, List.pairwise_append.mpr ⟨left.ordered, right.ordered, ?_⟩, ?_, ?_⟩
  · rw [Location.not_before_iff]
    omega
  · intro before listed behind follows
    have below := (left.inside before listed).2
    have above := (right.inside behind follows).1
    rw [Location.is_before_iff] at below ⊢
    rw [Location.not_before_iff] at above
    omega
  · intro stop member
    rw [Location.not_before_iff, Location.is_before_iff]
    rcases List.mem_append.mp member with listed | listed
    · obtain ⟨lower, upper⟩ := left.inside stop listed
      rw [Location.not_before_iff] at lower
      rw [Location.is_before_iff] at upper
      omega
    · obtain ⟨lower, upper⟩ := right.inside stop listed
      rw [Location.not_before_iff] at lower
      rw [Location.is_before_iff] at upper
      omega
  · exact List.forall_mem_append.mpr ⟨left.numbered, right.numbered⟩

theorem single {stop : Stop} (onward : stop.location.isBefore start = false)
    (ahead : stop.location.isBefore finish = true) (numbered : stop.Numbered) :
    Between start [stop] finish where
  onward := by
    rw [Location.not_before_iff] at onward ⊢
    rw [Location.is_before_iff] at ahead
    omega
  ordered := List.pairwise_singleton _ _
  inside := List.forall_mem_singleton.mpr ⟨onward, ahead⟩
  numbered := List.forall_mem_singleton.mpr numbered

end Between

/-- The leaves of a condition that stand one after another are such stops. -/
theorem Tree.Ascending.between {start finish : Location} {leaves : List Tree.Value}
    (ascending : Tree.Ascending start leaves finish) (use : Use) :
    Between start (leaves.map (.value use)) finish := by
  induction ascending with
  | nil onward => exact .none onward
  | cons onward further numbered _ later =>
      exact (@Between.single _ _ (.value use _) onward further numbered).append later

/-- Of two places of a source, the one with less text left is not before the other. -/
theorem TextAt.not_before {source text rest : List Char} {start finish : Location}
    (early : TextAt source start text) (late : TextAt source finish rest)
    (shorter : rest.length ≤ text.length) : finish.isBefore start = false := by
  obtain ⟨before, whole, rfl⟩ := text_at_iff.mp early
  obtain ⟨further, also, rfl⟩ := text_at_iff.mp late
  have lengths : before.length + text.length = further.length + rest.length := by
    rw [← List.length_append, ← List.length_append, whole, also]
  obtain ⟨more, rfl⟩ := List.prefix_of_prefix_length_le ⟨text, whole⟩ ⟨rest, also⟩ (by omega)
  rw [Location.after_append]
  exact Location.after_not_before _ _

namespace Tree

mutual

/-- The arms and the values inside a statement, in the order of the text. -/
def Statement.stops : Statement → List Stop
  | .always _ _ descriptor => descriptor.leaves.map (.value .size)
  | .optional _ _ condition body => condition.leaves.map (.value .operand) ++ blockStops body
  | .union _ _ arms => armListStops arms

def Arm.stops : Arm → List Stop
  | .mk location guard tag body =>
      .arm location :: ((selectionLeaves guard).map (.value .operand) ++
        .value .tag (.integer tag.value) :: blockStops body)

def blockStops : List Statement → List Stop
  | [] => []
  | statement :: rest => statement.stops ++ blockStops rest

def armListStops : List Arm → List Stop
  | [] => []
  | arm :: rest => arm.stops ++ armListStops rest

end

def Packet.clauseStops (packet : Packet) : List Stop :=
  (packet.inheritance.elim [] fun clause => selectionLeaves clause.condition).map
    (.value .operand)

def Packet.stops (packet : Packet) : List Stop := packet.clauseStops ++ blockStops packet.body

def Module.stops (tree : Module) : List Stop := tree.packets.flatMap Packet.stops

theorem arm_list_stops_eq (arms : List Arm) : armListStops arms = arms.flatMap Arm.stops := by
  induction arms with
  | nil => rfl
  | cons arm rest later => rw [armListStops, later, List.flatMap_cons]

mutual

/-- Where the arms begin that are inside a statement, in the order of the text. -/
def Statement.armLocations : Statement → List Location
  | .always _ _ _ => []
  | .optional _ _ _ body => blockArmLocations body
  | .union _ _ arms => armListLocations arms

def Arm.armLocations : Arm → List Location
  | .mk location _ _ body => location :: blockArmLocations body

def blockArmLocations : List Statement → List Location
  | [] => []
  | statement :: rest => statement.armLocations ++ blockArmLocations rest

def armListLocations : List Arm → List Location
  | [] => []
  | arm :: rest => arm.armLocations ++ armListLocations rest

end

def Module.armLocations (tree : Module) : List Location :=
  tree.packets.flatMap fun packet => blockArmLocations packet.body

theorem arm_stops_of_values (use : Use) (leaves : List Value) :
    (leaves.map (Stop.value use)).filterMap Stop.arm? = [] := by
  rw [List.filterMap_map, List.filterMap_eq_nil_iff]
  intro leaf _
  rfl

mutual

/-- The arms are those among the stops. -/
theorem Statement.arm_stops : ∀ statement : Statement,
    statement.stops.filterMap Stop.arm? = statement.armLocations
  | .always _ _ descriptor => by
      rw [Statement.stops, arm_stops_of_values, Statement.armLocations]
  | .optional _ _ condition body => by
      rw [Statement.stops, List.filterMap_append, arm_stops_of_values, block_arm_stops body,
        Statement.armLocations, List.nil_append]
  | .union _ _ arms => by
      rw [Statement.stops, arm_list_arm_stops arms, Statement.armLocations]

theorem Arm.arm_stops : ∀ arm : Arm, arm.stops.filterMap Stop.arm? = arm.armLocations
  | .mk location guard tag body => by
      have own : (Stop.arm location).arm? = some location := rfl
      have value : (Stop.value .tag (.integer tag.value)).arm? = none := rfl
      rw [Arm.stops, List.filterMap_cons_some own, List.filterMap_append, arm_stops_of_values,
        List.filterMap_cons_none value, block_arm_stops body, Arm.armLocations, List.nil_append]

theorem block_arm_stops : ∀ body : List Statement,
    (blockStops body).filterMap Stop.arm? = blockArmLocations body
  | [] => rfl
  | statement :: rest => by
      rw [blockStops, List.filterMap_append, statement.arm_stops, block_arm_stops rest,
        blockArmLocations]

theorem arm_list_arm_stops : ∀ arms : List Arm,
    (armListStops arms).filterMap Stop.arm? = armListLocations arms
  | [] => rfl
  | arm :: rest => by
      rw [armListStops, List.filterMap_append, arm.arm_stops, arm_list_arm_stops rest,
        armListLocations]

end

theorem Module.arm_stops (tree : Module) :
    tree.stops.filterMap Stop.arm? = tree.armLocations := by
  rw [Module.stops, List.filterMap_flatMap, Module.armLocations]
  apply List.flatMap_congr
  intro packet _
  rw [Packet.stops, List.filterMap_append, Packet.clauseStops, arm_stops_of_values,
    block_arm_stops, List.nil_append]

theorem block_arm_locations_append (first second : List Statement) :
    blockArmLocations (first ++ second) = blockArmLocations first ++ blockArmLocations second := by
  induction first with
  | nil => rfl
  | cons statement rest later =>
      rw [List.cons_append, blockArmLocations, later, blockArmLocations, List.append_assoc]

theorem arm_list_locations_append (first second : List Arm) :
    armListLocations (first ++ second) = armListLocations first ++ armListLocations second := by
  induction first with
  | nil => rfl
  | cons arm rest later =>
      rw [List.cons_append, armListLocations, later, armListLocations, List.append_assoc]

theorem arm_list_locations_eq (arms : List Arm) :
    armListLocations arms = arms.flatMap Arm.armLocations := by
  induction arms with
  | nil => rfl
  | cons arm rest later => rw [armListLocations, later, List.flatMap_cons]

end Tree

namespace Grammar.Parser

open PacketSchema.Tree (Statement Descriptor Value blockStops armListStops selectionLeaves)

variable {Item Other : Type} {source : List Char} {told : Item → List Stop → Prop}
  {also : Other → List Stop → Prop} {stops : Item → List Stop} {parser : Parser Item}
  {next : Item → Parser Other}

/-- From a place of the source the parser leads to another one, and the stops in between stand in a
relation to the item that it answers. -/
structure Climbs (source : List Char) (told : Item → List Stop → Prop)
    (parser : Parser Item) : Prop where
  holds : ∀ cursor item after, TextAt source cursor.location cursor.rest →
    parser.run cursor = some (item, after) →
      TextAt source after.location after.rest ∧
        ∃ passed, told item passed ∧ Between cursor.location passed after.location

def ClimbsBy (source : List Char) (stops : Item → List Stop) (parser : Parser Item) : Prop :=
  parser.Climbs source fun item passed => passed = stops item

/-- What has no stops only has to lead from one place to another and to leave a part of the text. -/
theorem climbs_flat {stands : Item → Prop} {spelled : Item → List Lexeme → Prop}
    (placed : parser.Places source stands) (accounts : parser.Accounts spelled) :
    parser.ClimbsBy source fun _ => [] := by
  constructor
  intro cursor item after start accepted
  obtain ⟨-, reached⟩ := placed.holds cursor item after start accepted
  obtain ⟨taken, -, spells⟩ := accounts.holds cursor item after accepted
  have shorter := spells.length_le
  exact ⟨reached, [], rfl, .none (start.not_before reached (by omega))⟩

theorem climbs_pure {item : Item} (holds : told item []) :
    Climbs source told (pure item : Parser Item) := by
  constructor
  intro cursor found after placed accepted
  cases accepted
  exact ⟨placed, [], holds, .none (Location.after_not_before cursor.location [])⟩

theorem climbs_refuse : Climbs source told (refuse : Parser Item) := by
  constructor
  intro cursor item after placed accepted
  cases accepted

theorem Climbs.bind (first : parser.Climbs source told)
    (second : ∀ item passed, told item passed →
      (next item).Climbs source fun other more => also other (passed ++ more)) :
    (parser >>= next).Climbs source also := by
  constructor
  intro cursor other after placed accepted
  obtain ⟨item, middle, read, rest⟩ := bind_eq_some_iff.mp accepted
  obtain ⟨reached, passed, relation, front⟩ := first.holds cursor item middle placed read
  obtain ⟨last, more, tells, back⟩ :=
    (second item passed relation).holds middle other after reached rest
  exact ⟨last, passed ++ more, tells, front.append back⟩

theorem ClimbsBy.bind (first : parser.ClimbsBy source stops)
    (second : ∀ item,
      (next item).Climbs source fun other more => also other (stops item ++ more)) :
    (parser >>= next).Climbs source also := by
  apply Climbs.bind first
  rintro item passed rfl
  exact second item

/-- What has no stops may come first. -/
theorem climbs_behind {stands : Item → Prop} {spelled : Item → List Lexeme → Prop}
    (placed : parser.Places source stands) (accounts : parser.Accounts spelled)
    (second : ∀ item, (next item).Climbs source also) : (parser >>= next).Climbs source also :=
  (climbs_flat placed accounts).bind second

/-- To tell the place leads nowhere. -/
theorem climbs_here {next : Location → Parser Other}
    (second : ∀ location, (next location).Climbs source also) :
    (here >>= next).Climbs source also := by
  constructor
  intro cursor other after placed accepted
  rw [run_bind_some (run_here cursor)] at accepted
  exact (second cursor.location).holds cursor other after placed accepted

theorem Climbs.or_else {second : Parser Item} (left : parser.Climbs source told)
    (right : second.Climbs source told) : (parser <|> second).Climbs source told := by
  constructor
  intro cursor item after placed accepted
  rw [run_orElse] at accepted
  rcases Option.or_eq_some_iff.mp accepted with first | ⟨-, last⟩
  · exact left.holds cursor item after placed first
  · exact right.holds cursor item after placed last

theorem Climbs.named (body : parser.Climbs source told) (rule : Rule) :
    (named rule parser).Climbs source told := by
  constructor
  intro cursor item after placed accepted
  rw [run_named] at accepted
  exact body.holds cursor item after placed accepted

theorem ClimbsBy.option (body : parser.ClimbsBy source stops) :
    (option parser).ClimbsBy source fun answer => answer.elim [] stops := by
  apply Climbs.or_else
  · apply body.bind
    intro item
    exact climbs_pure (List.append_nil _)
  · exact climbs_pure rfl

theorem ClimbsBy.many (body : parser.ClimbsBy source stops) (bound : Nat) :
    (many bound parser).ClimbsBy source fun items => items.flatMap stops := by
  induction bound with
  | zero => exact climbs_pure rfl
  | succ bound rest =>
      apply body.option.bind
      intro answer
      cases answer with
      | none => exact climbs_pure rfl
      | some item =>
          apply rest.bind
          intro items
          exact climbs_pure (by rw [List.append_nil]; rfl)

theorem climbs_mark (mark : Mark) (second : Parser Other) (later : second.Climbs source also) :
    (do
      Parser.mark mark.text
      second).Climbs source also :=
  climbs_behind (places_mark mark.text) (mark_writes mark) fun _ => later

theorem braced_climbs (body : parser.ClimbsBy source stops) :
    (braced parser).ClimbsBy source stops := by
  apply climbs_mark .openBrace
  apply body.bind
  intro item
  apply climbs_mark .closeBrace
  exact climbs_pure (List.append_nil _)

/-- What begins with a keyword may be an arm. -/
theorem climbs_opened {keyword : Keyword} {next : Location → Parser Item}
    (later : ∀ location,
      (next location).Climbs source fun item more => told item (.arm location :: more)) :
    Climbs source told (do
      let location ← here
      reserved keyword
      next location) := by
  constructor
  intro cursor item after placed accepted
  rw [run_bind_some (run_here cursor)] at accepted
  obtain ⟨_, middle, read, rest⟩ := bind_eq_some_iff.mp accepted
  obtain ⟨more, passes⟩ := (reserved_fronts keyword).holds cursor _ middle read
  obtain ⟨last, passed, tells, back⟩ :=
    (later cursor.location).holds middle item after (placed.passes passes) rest
  have ahead : cursor.location.isBefore middle.location = true := by
    rw [passes.location]
    apply Location.before_after
    cases keyword <;> exact List.cons_ne_nil _ _
  have opens : Between cursor.location [.arm cursor.location] middle.location :=
    .single (Location.after_not_before cursor.location []) ahead trivial
  exact ⟨last, _, tells, opens.append back⟩

/-- Values that are read in their order are passed in this order. -/
theorem climbs_orders {leaves : Item → List Value} {stands : Item → Prop}
    (orders : parser.Orders leaves) (placed : parser.Places source stands) (use : Use) :
    parser.ClimbsBy source fun item => (leaves item).map (.value use) := by
  constructor
  intro cursor item after start accepted
  obtain ⟨_, rfl, ascending⟩ := orders.holds cursor item after accepted
  exact ⟨(placed.holds cursor item after start accepted).2, _, rfl, ascending.between use⟩

theorem value_climbs (use : Use) : value.ClimbsBy source fun found => [.value use found] :=
  climbs_orders value_orders value_stands use

theorem after_colon_climbs (body : parser.ClimbsBy source stops) :
    (afterColon parser).ClimbsBy source stops := by
  apply climbs_mark .colon
  exact body

theorem width_climbs : width.ClimbsBy source fun found =>
    [.value .size found.count] := by
  apply Climbs.named
  apply (value_climbs .size).bind
  intro count
  apply climbs_behind places_unit unit_writes
  intro unit
  exact climbs_pure rfl

theorem descriptor_climbs : descriptor.ClimbsBy source fun found =>
    found.leaves.map (.value .size) := by
  apply Climbs.named
  apply climbs_behind scalar_type_stands scalar_writes
  intro scalar
  apply (after_colon_climbs width_climbs).option.bind
  intro width
  apply (after_colon_climbs (value_climbs .size)).option.bind
  intro count
  apply climbs_pure
  cases width <;> cases count <;> rfl

theorem guard_climbs (bound : Nat) : (guard bound).ClimbsBy source fun found =>
    found.leaves.map (.value .operand) := by
  apply climbs_mark .openGroup
  apply (climbs_orders (condition_orders bound) (condition_stands bound) .operand).bind
  intro condition
  apply climbs_mark .closeGroup
  exact climbs_pure (List.append_nil _)

theorem tag_climbs : tag.ClimbsBy source fun found =>
    [.value .tag (.integer found.value)] := by
  apply Climbs.named
  apply climbs_here
  intro location
  apply climbs_mark .bar
  apply climbs_behind ident_stands ident_writes
  intro label
  apply climbs_mark .colon
  apply (climbs_orders integer_orders integer_stands .tag).bind
  intro number
  apply climbs_mark .bar
  exact climbs_pure rfl

theorem always_climbs : alwaysStatement.ClimbsBy source Statement.stops := by
  apply Climbs.named
  apply climbs_here
  intro location
  apply climbs_behind (places_reserved .always) (reserved_writes .always)
  intro _
  apply climbs_behind ident_stands ident_writes
  intro ident
  apply descriptor_climbs.bind
  intro descriptor
  apply climbs_mark .semicolon
  exact climbs_pure (List.append_nil _)

section Blocks

variable {block : Parser (List Statement)}

theorem optional_climbs (bound : Nat) (inner : block.ClimbsBy source blockStops) :
    (optionalOf bound block).ClimbsBy source Statement.stops := by
  apply Climbs.named
  apply climbs_here
  intro location
  apply climbs_behind (places_reserved .optional) (reserved_writes .optional)
  intro _
  apply climbs_behind ident_stands ident_writes
  intro ident
  apply climbs_behind (places_reserved .when) (reserved_writes .when)
  intro _
  apply (guard_climbs bound).bind
  intro condition
  apply (braced_climbs inner).bind
  intro body
  exact climbs_pure (congrArg (condition.leaves.map _ ++ ·) (List.append_nil _))

theorem case_climbs (bound : Nat) (inner : block.ClimbsBy source blockStops) :
    (caseOf bound block).ClimbsBy source Tree.Arm.stops := by
  apply Climbs.named
  apply climbs_opened
  intro location
  apply (guard_climbs bound).bind
  intro condition
  apply tag_climbs.bind
  intro tag
  apply (braced_climbs inner).bind
  intro body
  apply climbs_pure
  rw [List.append_nil]
  rfl

theorem otherwise_climbs (inner : block.ClimbsBy source blockStops) :
    (otherwiseOf block).ClimbsBy source Tree.Arm.stops := by
  apply Climbs.named
  apply climbs_opened
  intro location
  apply tag_climbs.bind
  intro tag
  apply (braced_climbs inner).bind
  intro body
  apply climbs_pure
  rw [List.append_nil]
  rfl

theorem union_climbs (bound : Nat) (inner : block.ClimbsBy source blockStops) :
    (unionOf bound block).ClimbsBy source Statement.stops := by
  apply Climbs.named
  apply climbs_here
  intro location
  apply climbs_behind (places_reserved .union) (reserved_writes .union)
  intro _
  apply climbs_behind ident_stands ident_writes
  intro ident
  have arms : ClimbsBy source armListStops (do
      let cases ← many bound (caseOf bound block)
      let otherwise ← option (otherwiseOf block)
      return cases ++ otherwise.toList) := by
    apply ((case_climbs bound inner).many bound).bind
    intro cases
    apply (otherwise_climbs inner).option.bind
    intro otherwise
    apply climbs_pure
    rw [List.append_nil, Tree.arm_list_stops_eq, List.flatMap_append]
    cases otherwise with
    | none => rfl
    | some arm => exact congrArg (cases.flatMap _ ++ ·) (List.append_nil arm.stops).symm
  apply (braced_climbs arms).bind
  intro found
  exact climbs_pure (List.append_nil _)

theorem statement_climbs (bound : Nat) (inner : block.ClimbsBy source blockStops) :
    (statementOf bound block).ClimbsBy source
      fun answer => answer.elim [] Statement.stops := by
  apply Climbs.or_else
  · have statement : ClimbsBy source Statement.stops
        (alwaysStatement <|> optionalOf bound block <|> unionOf bound block) :=
      always_climbs.or_else ((optional_climbs bound inner).or_else (union_climbs bound inner))
    apply statement.bind
    intro found
    exact climbs_pure (List.append_nil _)
  · apply climbs_mark .semicolon
    exact climbs_pure rfl

end Blocks

theorem block_climbs (bound : Nat) : (block bound).ClimbsBy source blockStops := by
  induction bound with
  | zero => exact climbs_refuse
  | succ bound inner =>
      apply ((statement_climbs bound inner).many bound).bind
      intro answers
      apply climbs_pure
      rw [List.append_nil]
      induction answers with
      | nil => rfl
      | cons answer rest later =>
          rw [List.flatMap_cons, later]
          cases answer <;> rfl

theorem inheritance_climbs (bound : Nat) : (inheritance bound).ClimbsBy source fun clause =>
    (selectionLeaves clause.condition).map (.value .operand) := by
  apply Climbs.named
  apply climbs_here
  intro location
  apply climbs_mark .colon
  apply climbs_behind ident_stands ident_writes
  intro parent
  apply (guard_climbs bound).option.bind
  intro condition
  apply climbs_pure
  cases condition with
  | none => rfl
  | some written => exact List.append_nil _

theorem packet_climbs (bound : Nat) : (packet bound).ClimbsBy source Tree.Packet.stops := by
  apply Climbs.named
  apply climbs_behind ident_stands ident_writes
  intro ident
  apply (inheritance_climbs bound).option.bind
  intro inheritance
  apply (braced_climbs (block_climbs bound)).bind
  intro body
  apply climbs_pure
  rw [List.append_nil, Tree.Packet.stops, Tree.Packet.clauseStops]
  cases inheritance <;> rfl

theorem packets_climb (bound : Nat) : (many bound (packet bound)).ClimbsBy source
    fun packets => packets.flatMap Tree.Packet.stops :=
  (packet_climbs bound).many bound

end Grammar.Parser

/-- The stops of a text are one behind another, and its integers have the shape of numerals. -/
theorem Grammar.stops_between {source : String} {tree : Tree.Module}
    (parsed : Grammar.parse source = .ok tree) :
    ∃ start finish, Between start tree.stops finish := by
  obtain ⟨after, accepted⟩ := Grammar.parse_eq_ok_iff.mp parsed
  obtain ⟨read, -, -⟩ := Parser.module_iff.mp accepted
  have margin : Parser.gap.run (.ofText source.toList) = some ((), _) := rfl
  have placed := (Parser.places_gap.holds _ _ _ (text_at_start source.toList) margin).2
  obtain ⟨-, _, rfl, between⟩ :=
    (Parser.packets_climb (boundOf source.toList)).holds _ _ after placed read
  exact ⟨_, _, between⟩

/-- No two arms of a text begin at one place. -/
theorem Grammar.arms_apart {source : String} {tree : Tree.Module}
    (parsed : Grammar.parse source = .ok tree) : tree.armLocations.Nodup := by
  obtain ⟨start, finish, between⟩ := Grammar.stops_between parsed
  rw [← tree.arm_stops]
  apply between.ordered.filterMap
  intro early late before first early_arm last late_arm
  rw [Stop.location_of_arm early_arm, Stop.location_of_arm late_arm, Location.is_before_iff]
    at before
  rintro rfl
  omega

end PacketSchema
