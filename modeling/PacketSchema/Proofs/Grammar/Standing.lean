import PacketSchema.Proofs.Grammar.Placing
import PacketSchema.Proofs.Rules.Lawful

/-!
# Where the parts of a tree stand

Every place in a tree is one of the source, and what stands there is what the tree says: a packet
and a parent their names, a number its digits, a reference its ampersand and its name, a statement
its keyword and, after a gap, its name, an arm its keyword, a descriptor its scalar type.
-/

namespace PacketSchema

namespace Tree

open Grammar (Keyword)

def Value.text : Value → List Char
  | .integer numeral => numeral.item.toList
  | .reference ident => '&' :: ident.item.toList

def Statement.location : Statement → Location
  | .always location _ _ => location
  | .optional location _ _ _ => location
  | .union location _ _ => location

def Arm.location : Arm → Location
  | .mk location _ _ _ => location

def Arm.keyword : Arm → Keyword
  | .mk _ (some _) _ _ => .case
  | .mk _ none _ _ => .otherwise

/-- The numbers and references that an arm has itself, what stands inside it left aside. -/
def Arm.values (arm : Arm) : List Value := selectionLeaves arm.guard ++ [.integer arm.tag.value]

def Statement.values : Statement → List Value
  | .always _ _ descriptor => descriptor.leaves
  | .optional _ _ condition _ => condition.leaves
  | .union _ _ arms => arms.flatMap Arm.values

def Packet.values (packet : Packet) : List Value :=
  packet.inheritance.elim [] fun clause => selectionLeaves clause.condition

def Statement.conditions : Statement → List Disjunction
  | .always _ _ _ => []
  | .optional _ _ condition _ => [condition]
  | .union _ _ arms => arms.filterMap Arm.guard

def Packet.condition? (packet : Packet) : Option Disjunction :=
  packet.inheritance.bind Inheritance.condition

variable (source : List Char)

def Token.Stands (token : Token) : Prop := Shows source token.location token.item.toList

def Value.Stands (value : Value) : Prop := Shows source value.location value.text

def Operand.Stands (operand : Operand) : Prop := ∀ leaf ∈ operand.leaves, leaf.Stands source

def Relation.Stands (relation : Relation) : Prop := ∀ leaf ∈ relation.leaves, leaf.Stands source

def Conjunction.Stands (conjunction : Conjunction) : Prop :=
  ∀ leaf ∈ conjunction.leaves, leaf.Stands source

def Disjunction.Stands (condition : Disjunction) : Prop :=
  ∀ leaf ∈ condition.leaves, leaf.Stands source

/-- Somewhere in the source the reader of conditions answers the condition. -/
def Disjunction.IsRead (condition : Disjunction) : Prop :=
  ∃ bound cursor after, TextAt source cursor.location cursor.rest ∧
    (Grammar.Parser.condition bound).run cursor = some (condition, after)

def Descriptor.Stands (descriptor : Descriptor) : Prop :=
  Shows source descriptor.scalar.location descriptor.scalar.item.keyword.toList ∧
    ∀ leaf ∈ descriptor.leaves, leaf.Stands source

structure Arm.Stands (arm : Arm) : Prop where
  keyword : Shows source arm.location arm.keyword.letters
  values : ∀ value ∈ arm.values, value.Stands source
  guard : ∀ condition ∈ arm.guard, condition.IsRead source

structure Statement.Stands (statement : Statement) : Prop where
  announced : Announced source statement.location statement.binding.kind.keyword.toList
    statement.binding.ident
  descriptor : ∀ descriptor ∈ statement.descriptor?, descriptor.Stands source
  values : ∀ value ∈ statement.values, value.Stands source
  arms : ∀ arm ∈ statement.arms, arm.Stands source
  conditions : ∀ condition ∈ statement.conditions, condition.IsRead source

def Statement.AllStand (statement : Statement) : Prop :=
  ∀ visible, ∀ site ∈ statement.sites visible, site.statement.Stands source

def BlockStands (body : List Statement) : Prop := ∀ statement ∈ body, statement.AllStand source

def Arm.AllStand (arm : Arm) : Prop :=
  arm.Stands source ∧ ∀ visible, ∀ site ∈ arm.sites visible, site.statement.Stands source

structure Packet.Stands (packet : Packet) : Prop where
  ident : Token.Stands source packet.ident
  parent : ∀ clause ∈ packet.inheritance, Token.Stands source clause.parent
  values : ∀ value ∈ packet.values, value.Stands source
  condition : ∀ condition ∈ packet.condition?, condition.IsRead source

section Blocks

variable {source}

theorem BlockStands.sites {body : List Statement} (stand : BlockStands source body)
    (visible : List Binding) : ∀ site ∈ blockSites visible body, site.statement.Stands source := by
  induction body generalizing visible with
  | nil =>
      intro site member
      cases member
  | cons statement rest later =>
      obtain ⟨stands, restStand⟩ := List.forall_mem_cons.mp stand
      intro site member
      rcases List.mem_append.mp member with first | others
      · exact stands visible site first
      · exact later restStand _ site others

theorem arms_stand {arms : List Arm} (stand : ∀ arm ∈ arms, arm.AllStand source)
    (visible : List Binding) : ∀ site ∈ armSites visible arms, site.statement.Stands source := by
  induction arms with
  | nil =>
      intro site member
      cases member
  | cons arm rest later =>
      obtain ⟨stands, restStand⟩ := List.forall_mem_cons.mp stand
      intro site member
      rcases List.mem_append.mp member with first | others
      · exact stands.2 visible site first
      · exact later restStand site others

end Blocks

end Tree

namespace Grammar.Parser

open PacketSchema.Tree (Located Statement Disjunction Conjunction Relation Operand)

variable {source : List Char}

theorem ident_stands : ident.Places source (Tree.Token.Stands source) :=
  (bare_ident_fronts.named .ident).located.before_gap

theorem integer_stands : integer.Places source (Tree.Token.Stands source) :=
  (bare_integer_fronts.named .integer).located.before_gap

theorem reference_stands :
    reference.Places source fun token => Tree.Value.Stands source (.reference token) :=
  (bare_reference_fronts.named .reference).located.before_gap

theorem value_stands : value.Places source (Tree.Value.Stands source) := by
  apply Places.named
  apply Places.or_else
  · apply integer_stands.bind
    intro numeral stands
    exact places_pure stands
  · apply reference_stands.bind
    intro ident stands
    exact places_pure stands

theorem scalar_type_stands :
    scalarType.Places source fun found => Shows source found.location
      found.item.keyword.toList := by
  have fronts : Fronts (fun scalar : ScalarType => scalar.keyword.toList) (Parser.named .scalarType
      ((do
        mark ['_']
        return .ignored) <|>
      meaning .signed .signed <|> meaning .unsigned .unsigned)) := by
    apply Fronts.named
    apply Fronts.or_else
    · apply Fronts.meaning _ ScalarType.ignored
      exact (literal_fronts ['_']).before_gap
    · apply Fronts.or_else
      · exact Fronts.meaning _ ScalarType.signed (reserved_fronts .signed)
      · exact Fronts.meaning _ ScalarType.unsigned (reserved_fronts .unsigned)
  exact fronts.located

theorem width_stands : width.Places source fun found => found.count.Stands source := by
  apply Places.named
  apply value_stands.bind
  intro count stands
  apply places_unit.bind
  intro unit _
  exact places_pure stands

theorem descriptor_stands : descriptor.Places source (Tree.Descriptor.Stands source) := by
  apply Places.named
  apply scalar_type_stands.bind
  intro scalar shown
  apply (after_colon_places width_stands).option.bind
  intro width widthStands
  apply (after_colon_places value_stands).option.bind
  intro count countStands
  apply places_pure
  refine ⟨shown, ?_⟩
  intro leaf member
  rcases List.mem_append.mp member with inWidth | inCount
  · rcases Option.map_eq_some_iff.mp (Option.mem_toList.mp inWidth) with ⟨written, same, rfl⟩
    exact widthStands written same
  · exact countStands leaf (Option.mem_toList.mp inCount)

section Conditions

variable {operand : Parser Operand}

theorem relation_stands (inner : operand.Places source (Operand.Stands source)) :
    (relationOf operand).Places source (Relation.Stands source) := by
  apply Places.named
  apply inner.bind
  intro left leftStands
  have compared : Places source (fun found : Located Comparison × Operand =>
      found.2.Stands source) (do
        let comparison ← comparison
        let right ← operand
        return (comparison, right)) := by
    apply places_comparison.bind
    intro comparison _
    apply inner.bind
    intro right rightStands
    exact places_pure rightStands
  apply compared.option.bind
  intro rest restStands
  apply places_pure
  cases rest with
  | none => exact leftStands
  | some found =>
      intro leaf member
      rcases List.mem_append.mp member with first | last
      · exact leftStands leaf first
      · exact restStands found rfl leaf last

theorem conjunction_stands (bound : Nat) (inner : operand.Places source (Operand.Stands source)) :
    (conjunctionOf bound operand).Places source (Conjunction.Stands source) := by
  apply Places.named
  apply (relation_stands inner).bind
  intro first firstStands
  have conjunct : Places source (Relation.Stands source) (do
      mark ['&', '&']
      relationOf operand) := by
    apply (places_mark ['&', '&']).bind
    intro _ _
    exact relation_stands inner
  apply (conjunct.many bound).bind
  intro others othersStand
  apply places_pure
  apply List.foldlRecOn others Conjunction.and
  · exact firstStands
  · intro left leftStands next member leaf inside
    rcases List.mem_append.mp inside with before | here
    · exact leftStands leaf before
    · exact othersStand next member leaf here

theorem disjunction_stands (bound : Nat) (inner : operand.Places source (Operand.Stands source)) :
    (disjunctionOf bound operand).Places source (Disjunction.Stands source) := by
  apply Places.named
  apply (conjunction_stands bound inner).bind
  intro first firstStands
  have alternative : Places source (Conjunction.Stands source) (do
      mark ['|', '|']
      conjunctionOf bound operand) := by
    apply (places_mark ['|', '|']).bind
    intro _ _
    exact conjunction_stands bound inner
  apply (alternative.many bound).bind
  intro others othersStand
  apply places_pure
  apply List.foldlRecOn others Disjunction.or
  · exact firstStands
  · intro left leftStands next member leaf inside
    rcases List.mem_append.mp inside with before | here
    · exact leftStands leaf before
    · exact othersStand next member leaf here

end Conditions

theorem operand_stands (bound : Nat) :
    (operand bound).Places source (Operand.Stands source) := by
  induction bound with
  | zero => exact places_refuse
  | succ bound inner =>
      apply Places.or_else
      · apply Places.named
        apply places_here.bind
        intro location _
        apply (places_mark ['!']).bind
        intro _ _
        apply inner.bind
        intro found stands
        exact places_pure stands
      · apply Places.or_else
        · apply places_here.bind
          intro location _
          apply (places_mark ['(']).bind
          intro _ _
          apply (disjunction_stands bound inner).bind
          intro found stands
          apply (places_mark [')']).bind
          intro _ _
          exact places_pure stands
        · apply value_stands.bind
          intro written stands
          apply places_pure
          intro leaf member
          cases List.mem_singleton.mp member
          exact stands

theorem condition_stands (bound : Nat) :
    (condition bound).Places source fun found => found.Stands source ∧ found.IsRead source := by
  have places := @disjunction_stands source _ bound (operand_stands bound)
  constructor
  intro cursor found after placed accepted
  obtain ⟨stands, reached⟩ := places.holds cursor found after placed accepted
  exact ⟨⟨stands, bound, cursor, after, placed, accepted⟩, reached⟩

theorem guard_stands (bound : Nat) :
    (guard bound).Places source fun found => found.Stands source ∧ found.IsRead source := by
  apply (places_mark ['(']).bind
  intro _ _
  apply (condition_stands bound).bind
  intro condition stands
  apply (places_mark [')']).bind
  intro _ _
  exact places_pure stands

theorem tag_stands : tag.Places source fun found => Tree.Token.Stands source found.value := by
  apply Places.named
  apply places_here.bind
  intro location _
  apply (places_mark ['|']).bind
  intro _ _
  apply ident_stands.bind
  intro label _
  apply (places_mark [':']).bind
  intro _ _
  apply integer_stands.bind
  intro value stands
  apply (places_mark ['|']).bind
  intro _ _
  exact places_pure stands

theorem always_stands :
    alwaysStatement.Places source (Statement.AllStand source) := by
  apply Places.named
  apply Places.announced
  intro location name announced
  apply descriptor_stands.bind
  intro descriptor stands
  apply (places_mark [';']).bind
  intro _ _
  apply places_pure
  intro visible site member
  cases List.mem_singleton.mp member
  constructor
  · exact announced
  · intro written same
    cases same
    exact stands
  · exact stands.2
  · intro arm inside
    cases inside
  · intro condition inside
    cases inside

section Blocks

variable {block : Parser (List Statement)}

theorem optional_stands (bound : Nat) (inner : block.Places source (Tree.BlockStands source)) :
    (optionalOf bound block).Places source (Statement.AllStand source) := by
  apply Places.named
  apply Places.announced
  intro location name announced
  apply (places_reserved .when).bind
  intro _ _
  apply (guard_stands bound).bind
  intro condition stands
  apply (braced_places inner).bind
  intro body bodyStands
  apply places_pure
  intro visible site member
  rw [Statement.sites] at member
  rcases List.mem_cons.mp member with rfl | inside
  · constructor
    · exact announced
    · intro written same
      cases same
    · exact stands.1
    · intro arm member
      cases member
    · exact List.forall_mem_singleton.mpr stands.2
  · exact bodyStands.sites _ site inside

theorem case_stands (bound : Nat) (inner : block.Places source (Tree.BlockStands source)) :
    (caseOf bound block).Places source (Tree.Arm.AllStand source) := by
  apply Places.named
  apply Places.opened
  intro location shown
  apply (guard_stands bound).bind
  intro condition conditionStands
  apply tag_stands.bind
  intro found tagStands
  apply (braced_places inner).bind
  intro body bodyStands
  apply places_pure
  constructor
  · constructor
    · exact shown
    · intro value member
      rcases List.mem_append.mp member with inGuard | inTag
      · exact conditionStands.1 value inGuard
      · cases List.mem_singleton.mp inTag
        exact tagStands
    · rintro written ⟨⟩
      exact conditionStands.2
  · intro visible site member
    rw [Tree.Arm.sites] at member
    exact bodyStands.sites visible site member

theorem otherwise_stands (inner : block.Places source (Tree.BlockStands source)) :
    (otherwiseOf block).Places source (Tree.Arm.AllStand source) := by
  apply Places.named
  apply Places.opened
  intro location shown
  apply tag_stands.bind
  intro found tagStands
  apply (braced_places inner).bind
  intro body bodyStands
  apply places_pure
  constructor
  · constructor
    · exact shown
    · intro value member
      cases List.mem_singleton.mp member
      exact tagStands
    · rintro written ⟨⟩
  · intro visible site member
    rw [Tree.Arm.sites] at member
    exact bodyStands.sites visible site member

theorem union_stands (bound : Nat) (inner : block.Places source (Tree.BlockStands source)) :
    (unionOf bound block).Places source (Statement.AllStand source) := by
  apply Places.named
  apply Places.announced
  intro location name announced
  have arms : Places source (fun arms => ∀ arm ∈ arms, arm.AllStand source) (do
      let cases ← many bound (caseOf bound block)
      let otherwise ← option (otherwiseOf block)
      return cases ++ otherwise.toList) := by
    apply ((case_stands bound inner).many bound).bind
    intro cases casesStand
    apply (otherwise_stands inner).option.bind
    intro otherwise otherwiseStands
    apply places_pure
    intro arm member
    rcases List.mem_append.mp member with early | last
    · exact casesStand arm early
    · exact otherwiseStands arm (Option.mem_toList.mp last)
  apply (braced_places arms).bind
  intro found stand
  apply places_pure
  intro visible site member
  rw [Statement.sites] at member
  rcases List.mem_cons.mp member with rfl | inside
  · constructor
    · exact announced
    · intro written same
      cases same
    · intro value member
      obtain ⟨arm, listed, among⟩ := List.mem_flatMap.mp member
      exact (stand arm listed).1.values value among
    · exact fun arm listed => (stand arm listed).1
    · intro condition member
      obtain ⟨arm, listed, guarded⟩ := List.mem_filterMap.mp member
      exact (stand arm listed).1.guard condition guarded
  · exact Tree.arms_stand stand _ site inside

theorem statement_stands (bound : Nat) (inner : block.Places source (Tree.BlockStands source)) :
    (statementOf bound block).Places source fun found =>
      ∀ statement ∈ found, statement.AllStand source := by
  have statement : Places source (Statement.AllStand source)
      (alwaysStatement <|> optionalOf bound block <|> unionOf bound block) :=
    always_stands.or_else ((optional_stands bound inner).or_else (union_stands bound inner))
  apply Places.or_else
  · apply statement.bind
    intro found stands
    apply places_pure
    intro other same
    cases same
    exact stands
  · apply (places_mark [';']).bind
    intro _ _
    apply places_pure
    intro other same
    cases same

end Blocks

theorem block_stands (bound : Nat) : (block bound).Places source (Tree.BlockStands source) := by
  induction bound with
  | zero => exact places_refuse
  | succ bound inner =>
      apply ((statement_stands bound inner).many bound).bind
      intro statements stand
      apply places_pure
      intro statement member
      rcases List.mem_filterMap.mp member with ⟨found, inside, same⟩
      exact stand found inside statement same

theorem inheritance_stands (bound : Nat) :
    (inheritance bound).Places source fun clause => Tree.Token.Stands source clause.parent ∧
      ∀ condition ∈ clause.condition, condition.Stands source ∧ condition.IsRead source := by
  apply Places.named
  apply places_here.bind
  intro location _
  apply (places_mark [':']).bind
  intro _ _
  apply ident_stands.bind
  intro parent parentStands
  apply (guard_stands bound).option.bind
  intro condition conditionStands
  exact places_pure ⟨parentStands, conditionStands⟩

theorem packet_stands (bound : Nat) : (packet bound).Places source fun packet =>
    packet.Stands source ∧ Tree.BlockStands source packet.body := by
  apply Places.named
  apply ident_stands.bind
  intro name nameStands
  apply (inheritance_stands bound).option.bind
  intro clause clauseStands
  apply (braced_places (block_stands bound)).bind
  intro body bodyStands
  apply places_pure
  refine ⟨⟨nameStands, fun written same => (clauseStands written same).1, ?_, ?_⟩, bodyStands⟩
  · intro value member
    cases clause with
    | none => cases member
    | some written =>
        obtain ⟨parent, conditionStands⟩ := clauseStands written rfl
        obtain ⟨location, name, _ | condition⟩ := written
        · cases member
        · exact (conditionStands condition rfl).1 value member
  · intro condition member
    obtain ⟨written, same, given⟩ := Option.bind_eq_some_iff.mp member
    exact ((clauseStands written same).2 condition given).2

theorem module_stands (bound : Nat) :
    (module bound).Places source fun tree => ∀ packet ∈ tree.packets,
      packet.Stands source ∧ Tree.BlockStands source packet.body := by
  apply Places.named
  apply places_gap.bind
  intro _ _
  apply ((packet_stands bound).many bound).bind
  intro packets stand
  have finish : endOfInput.Places source fun _ => True := by
    apply Places.named
    apply places_here.bind
    intro location _
    have ends : bareEndOfInput.Places source fun _ => True := by
      constructor
      intro cursor item after placed accepted
      cases (bare_end_of_input_iff.mp accepted).2
      exact ⟨trivial, placed⟩
    apply ends.bind
    intro _ _
    exact places_pure trivial
  apply finish.bind
  intro location _
  exact places_pure stand

end Grammar.Parser

namespace Tree

/-- Everything in a tree that a message may point at stands in the source where it says. -/
structure Module.Stands (source : List Char) (tree : Module) : Prop where
  packets : ∀ packet ∈ tree.packets, packet.Stands source
  sites : ∀ site ∈ tree.sites, site.statement.Stands source

theorem packet_of_site {packets earlier : List Packet} {site : PacketSite}
    (member : site ∈ packetSites earlier packets) : site.packet ∈ packets := by
  induction packets generalizing earlier with
  | nil => cases member
  | cons packet rest later =>
      rcases List.mem_cons.mp member with rfl | others
      · exact List.mem_cons_self
      · exact List.mem_cons_of_mem packet (later others)

end Tree

theorem Grammar.parse_stands {source : String} {tree : Tree.Module}
    (parsed : Grammar.parse source = .ok tree) : tree.Stands source.toList := by
  obtain ⟨after, accepted⟩ := Grammar.parse_eq_ok_iff.mp parsed
  have stand := ((Parser.module_stands (boundOf source.toList)).holds _ tree after
    (text_at_start source.toList) accepted).1
  constructor
  · exact fun packet member => (stand packet member).1
  · intro site member
    obtain ⟨packet, listed, inside⟩ := List.mem_flatMap.mp member
    exact (stand packet.packet (Tree.packet_of_site listed)).2.sites _ site inside

end PacketSchema
