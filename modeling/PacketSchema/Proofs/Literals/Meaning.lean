import PacketSchema.Proofs.Literals.Positional
import PacketSchema.Proofs.Literals.Reported
import PacketSchema.Proofs.Literals.Spelling

/-!
# Integers mean what they count

An integer of a text is taken as the number that it counts where its use admits that number, and
otherwise it is reported, once and with its text, at its place. Nothing else about it matters: texts
that spell the same numbers mean the same.
-/

namespace PacketSchema

open Numeral (meaning)

def Use.limit : Use → Nat
  | .size => 2 ^ 64
  | .operand => 2 ^ 63
  | .tag => 2 ^ 63

namespace Literal

variable {Item : Type} {literal : Literal}

def text (literal : Literal) : String := literal.numeral.item

def location (literal : Literal) : Location := literal.numeral.location

def fault? (literal : Literal) : Option Diagnostic :=
  if meaning literal.text < literal.use.limit then none
  else some ⟨literal.location, .integerOutOfRange literal.text⟩

/-- An integer is accepted as the number that it counts, or refused. -/
def outcome (literal : Literal) (item : Nat → Item) : Checked Item :=
  if meaning literal.text < literal.use.limit then .accepted (item (meaning literal.text))
  else .refused [⟨literal.location, .integerOutOfRange literal.text⟩]

/-- Wherever it is looked at, an integer comes to its outcome. -/
def Judged : Literal → Prop
  | ⟨.size, numeral⟩ => ∀ forest scope, (Tree.Value.integer numeral).resolveSize forest scope =
      outcome ⟨.size, numeral⟩ fun number => .literal (.ofNat number)
  | ⟨.operand, numeral⟩ => ∀ forest scope, (Tree.Value.integer numeral).resolveLeaf forest scope =
      outcome ⟨.operand, numeral⟩ fun number => .integer (.ofNat number)
  | ⟨.tag, numeral⟩ => ∀ location label, Tree.Tag.resolve ⟨location, label, numeral⟩ =
      outcome ⟨.tag, numeral⟩ fun number => ⟨label.item, .ofNat number⟩

theorem outcome_below (item : Nat → Item) (below : meaning literal.text < literal.use.limit) :
    literal.outcome item = .accepted (item (meaning literal.text)) := if_pos below

theorem outcome_above (item : Nat → Item) (above : ¬meaning literal.text < literal.use.limit) :
    literal.outcome item = .refused [⟨literal.location, .integerOutOfRange literal.text⟩] :=
  if_neg above

theorem outcome_problems (item : Nat → Item) :
    (literal.outcome item).problems = literal.fault?.toList := by
  unfold outcome fault?
  split <;> rfl

theorem outcome_map {Other : Type} (item : Nat → Item) (change : Item → Other) :
    (literal.outcome item).map change = literal.outcome fun number => change (item number) := by
  unfold outcome
  split <;> rfl

theorem unsigned_outcome (size : literal.use.limit = UInt64.size)
    (shaped : Grammar.IsNumeral literal.text) :
    Tree.unsignedNumber literal.numeral = literal.outcome UInt64.ofNat := by
  have value := shaped.value
  rw [← size] at value
  rw [Tree.unsignedNumber]
  by_cases below : meaning literal.text < literal.use.limit
  · have known : Numeral.value? literal.numeral.item = some (.ofNat (meaning literal.text)) :=
      value.trans (if_pos below)
    rw [known, outcome_below _ below]
  · have unknown : Numeral.value? literal.numeral.item = none := value.trans (if_neg below)
    rw [unknown, outcome_above _ below]
    rfl

/-- A number of 2^63 or more is refused, whether it has 64 bits or not. -/
theorem signed_outcome (half : literal.use.limit = signedSize)
    (shaped : Grammar.IsNumeral literal.text) :
    Tree.signedNumber literal.numeral = literal.outcome Int64.ofNat := by
  have narrow : signedSize < UInt64.size := by decide
  rw [Tree.signedNumber]
  by_cases small : meaning literal.text < UInt64.size
  · have known : Numeral.value? literal.numeral.item = some (.ofNat (meaning literal.text)) :=
      shaped.value.trans (if_pos small)
    rw [known, outcome, half]
    dsimp only
    rw [UInt64.toNat_ofNat_of_lt' small]
    rfl
  · have unknown : Numeral.value? literal.numeral.item = none := shaped.value.trans (if_neg small)
    have above : ¬meaning literal.text < literal.use.limit := by
      rw [half]
      exact fun below => small (below.trans narrow)
    rw [unknown, outcome_above _ above]
    rfl

theorem judged (shaped : Grammar.IsNumeral literal.text) : literal.Judged := by
  obtain ⟨use, numeral⟩ := literal
  cases use with
  | size =>
      intro forest scope
      have checked := @unsigned_outcome ⟨.size, numeral⟩ rfl shaped
      rw [Tree.Value.resolveSize, checked, outcome_map]
  | operand =>
      intro forest scope
      have checked := @signed_outcome ⟨.operand, numeral⟩ rfl shaped
      rw [Tree.Value.resolveLeaf, checked, outcome_map]
  | tag =>
      intro location label
      have checked := @signed_outcome ⟨.tag, numeral⟩ rfl shaped
      rw [Tree.Tag.resolve, checked, outcome_map]

theorem problems_eq (shaped : Grammar.IsNumeral literal.text) :
    literal.problems = literal.fault?.toList := by
  obtain ⟨use, numeral⟩ := literal
  cases use with
  | size =>
      have checked := @unsigned_outcome ⟨.size, numeral⟩ rfl shaped
      rw [← outcome_problems UInt64.ofNat, ← checked]
      rfl
  | operand =>
      have checked := @signed_outcome ⟨.operand, numeral⟩ rfl shaped
      rw [← outcome_problems Int64.ofNat, ← checked]
      rfl
  | tag =>
      have checked := @signed_outcome ⟨.tag, numeral⟩ rfl shaped
      rw [← outcome_problems Int64.ofNat, ← checked]
      rfl

theorem location_of_fault {fault : Diagnostic} (found : literal.fault? = some fault) :
    fault.location = literal.location := by
  unfold fault? at found
  split at found
  · cases found
  · cases found
    rfl

/-- Where no two integers have one place, the place of one of them has no faults but its own. -/
theorem faults_at {literals : List Literal} (apart : literals.Pairwise fun early late =>
      early.location.isBefore late.location = true) (member : literal ∈ literals) :
    ((literals.filterMap fault?).filter fun fault => fault.location = literal.location) =
      literal.fault?.toList := by
  have elsewhere : ∀ others : List Literal,
      (∀ other ∈ others, other.location ≠ literal.location) →
        ((others.filterMap fault?).filter fun fault => fault.location = literal.location) = [] := by
    intro others different
    rw [List.filter_eq_nil_iff]
    intro fault listed here
    obtain ⟨other, among, found⟩ := List.mem_filterMap.mp listed
    rw [decide_eq_true_eq, location_of_fault found] at here
    exact different other among here
  obtain ⟨before, behind, rfl⟩ := List.append_of_mem member
  obtain ⟨-, later, earlier⟩ := List.pairwise_append.mp apart
  have early := elsewhere before fun other among same => by
    have strict := earlier other among literal List.mem_cons_self
    rw [same, Location.is_before_iff] at strict
    omega
  have late := elsewhere behind fun other among same => by
    have strict := (List.pairwise_cons.mp later).1 other among
    rw [same, Location.is_before_iff] at strict
    omega
  rw [List.filterMap_append, List.filter_append, early, List.nil_append]
  cases found : literal.fault? with
  | none => rw [List.filterMap_cons_none found, late]; rfl
  | some fault =>
      rw [List.filterMap_cons_some found, List.filter_cons_of_pos, late]
      · rfl
      · exact decide_eq_true (location_of_fault found)

end Literal

namespace Tree

/-- The visited integers of a text begin one behind another, and each has the shape of one. -/
theorem Module.literals_apart {source : String} {tree : Module}
    (parsed : Grammar.parse source = .ok tree) :
    (tree.literals.Pairwise fun early late => early.location.isBefore late.location = true) ∧
      ∀ literal ∈ tree.literals, Grammar.IsNumeral literal.text := by
  obtain ⟨start, finish, between⟩ := Grammar.stops_between parsed
  have among := visited_sublist [] tree.packets
  have stop_of_literal : ∀ {stop : Stop} {literal : Literal}, stop.literal? = some literal →
      stop = .value literal.use (.integer literal.numeral) := by
    intro stop literal found
    cases stop with
    | arm => cases found
    | value use written =>
        cases written with
        | integer => cases found; rfl
        | reference => cases found
  constructor
  · apply (between.ordered.sublist among).filterMap
    intro early late before first early_found last late_found
    rw [stop_of_literal early_found, stop_of_literal late_found] at before
    exact before
  · intro literal member
    obtain ⟨stop, listed, found⟩ := List.mem_filterMap.mp member
    have numbered := between.numbered stop (among.subset listed)
    rw [stop_of_literal found] at numbered
    exact numbered

end Tree

theorem Numeral.neat_of_shaped {text : String} (shaped : Grammar.IsNumeral text) :
    neat text = toString (meaning text) := by
  rw [neat, shaped.trimmed, shaped.means]

theorem Checked.accepted_of_neat {Item : Type} {left right : Checked Item}
    (same : left.neat = right.neat) (item : Item) :
    left = .accepted item ↔ right = .accepted item := by
  cases left <;> cases right <;> simp_all [neat]

/-- All that is wrong with a text but its integers out of range: names that are not known or taken,
arms that are refused and packets that are dispatched to alike. -/
def otherErrors (diagnostics : List Diagnostic) : List SchemaError :=
  (diagnostics.map Diagnostic.error).filter fun error => !error.isOutOfRange

theorem other_errors_neat (diagnostics : List Diagnostic) :
    otherErrors (diagnostics.map Diagnostic.neat) = otherErrors diagnostics := by
  have kind : ∀ error : SchemaError, error.neat.isOutOfRange = error.isOutOfRange := by
    intro error
    cases error <;> rfl
  have kept : ∀ error : SchemaError, error.isOutOfRange = false → error.neat = error := by
    intro error other
    cases error <;> first | rfl | cases other
  induction diagnostics with
  | nil => rfl
  | cons diagnostic rest later =>
      rw [otherErrors, otherErrors] at later ⊢
      rw [List.map_cons, List.map_cons, List.map_cons, List.filter_cons, List.filter_cons, later]
      rw [Diagnostic.neat, kind]
      cases outside : diagnostic.error.isOutOfRange with
      | true => rfl
      | false => rw [kept _ outside]

/-- An integer that the grammar reads has the value that its digits count by their places, if this
is below 2^64. In a text each visited integer is accepted as what it counts where it is below the
limit of its use, 2^64 for a size and 2^63 for an operand or a tag, and otherwise one diagnostic
with its text is reported at its place; no other integer is reported. Conditions and tags that
differ in places and spellings alone are equal once they are resolved, and so are the schemas of
texts that do, with all that is found wrong in them. -/
theorem integers_mean_what_they_count :
    (∀ text, (Grammar.IsInteger text ↔ Grammar.IsNumeral text) ∧
      (Grammar.IsInteger text →
        Numeral.value? text =
          (if meaning text < 2 ^ 64 then some (.ofNat (meaning text)) else none) ∧
        Numeral.neat text = toString (meaning text))) ∧
    (∀ (source : String) (tree : Tree.Module), Grammar.parse source = .ok tree →
      rangeFaults (tree.build false).diagnostics = tree.literals.filterMap Literal.fault? ∧
      ∀ literal ∈ tree.literals, Grammar.IsInteger literal.text ∧ literal.Judged ∧
        ((rangeFaults (tree.build false).diagnostics).filter fun fault =>
          fault.location = literal.location) = literal.fault?.toList) ∧
    (∀ left right : Tree.Disjunction, left.neat = right.neat → ∀ forest scope found,
      left.resolve forest scope = .accepted found ↔
        right.resolve forest scope = .accepted found) ∧
    (∀ left right : Tree.Tag, left.neat = right.neat → ∀ found,
      left.resolve = .accepted found ↔ right.resolve = .accepted found) ∧
    ∀ tree also : Tree.Module, tree.neat = also.neat →
      (tree.build false).schema = (also.build false).schema ∧
      (tree.build false).diagnostics.map Diagnostic.neat =
        (also.build false).diagnostics.map Diagnostic.neat ∧
      otherErrors (tree.build false).diagnostics = otherErrors (also.build false).diagnostics := by
  refine ⟨?values, ?literals, ?conditions, ?tags, ?texts⟩
  case values =>
    intro text
    refine ⟨⟨Grammar.IsInteger.shaped, Grammar.IsNumeral.whole⟩, fun whole => ?_⟩
    exact ⟨whole.shaped.value, Numeral.neat_of_shaped whole.shaped⟩
  case literals =>
    intro source tree parsed
    obtain ⟨apart, shaped⟩ := Tree.Module.literals_apart parsed
    have faults : rangeFaults (tree.build false).diagnostics =
        tree.literals.filterMap Literal.fault? := by
      rw [tree.range_faults, List.filterMap_eq_flatMap_toList]
      exact List.flatMap_congr fun literal member => Literal.problems_eq (shaped literal member)
    refine ⟨faults, fun literal member => ?_⟩
    have form := shaped literal member
    rw [faults]
    exact ⟨form.whole, Literal.judged form, Literal.faults_at apart member⟩
  case conditions =>
    intro left right same forest scope found
    apply Checked.accepted_of_neat
    rw [← left.resolve_neat, ← right.resolve_neat, same]
  case tags =>
    intro left right same found
    apply Checked.accepted_of_neat
    rw [← left.resolve_neat, ← right.resolve_neat, same]
  case texts =>
    intro tree also same
    have builds : (tree.build false).neat = (also.build false).neat := by
      rw [← tree.build_neat, ← also.build_neat, same]
    have schemas := congrArg Build.schema builds
    have diagnostics := congrArg Build.diagnostics builds
    refine ⟨schemas, diagnostics, ?_⟩
    rw [← other_errors_neat, ← other_errors_neat (also.build false).diagnostics]
    exact congrArg otherErrors diagnostics

/-- Integers on both sides of each limit, one of them where no condition is visited. -/
def borderText : String :=
  "P" ++ braced ("always a uint:0x00ffffffffffffffff bits:0018446744073709551616;\n" ++
    "optional o when(0X7FFFffffFFFFffff||09223372036854775808)" ++ braced "" ++
    "\nvariable v" ++ braced ("case(1)|L:0x8000000000000000|" ++ braced "")) ++
  "Q:R(0xffffffffffffffffff)" ++ braced ""

/-- Two arms with one condition, which is spelled in two ways. -/
def repeatedText : String :=
  "P " ++ braced ("variable v " ++ braced ("case (16) |K: 1| " ++ braced "" ++
    "case (0x10) |L: 2| " ++ braced ""))

/-- The same text with its integers spelled in other ways. -/
def respelledText : String :=
  "P " ++ braced ("variable v " ++ braced ("case (0X0010) |K: 0x01| " ++ braced "" ++
    "case (016) |L: 0002| " ++ braced ""))

def sixteen (text : String) : Tree.Disjunction :=
  .single (.single (.operand (.value (.integer ⟨.start, text⟩))))

theorem border_integers_mean_what_they_count :
    Numeral.value? "0x00ffffffffffffffff" = some 18446744073709551615 ∧
    Numeral.value? "0018446744073709551616" = none ∧
    (∃ tree, Grammar.parse borderText = .ok tree ∧
      rangeFaults (tree.build false).diagnostics =
        [⟨⟨1, 44⟩, .integerOutOfRange "0018446744073709551616"⟩,
          ⟨⟨2, 37⟩, .integerOutOfRange "09223372036854775808"⟩,
          ⟨⟨3, 23⟩, .integerOutOfRange "0x8000000000000000"⟩]) ∧
    (sixteen "0X0010").resolve .empty ⟨0⟩ = .accepted (.integer 16) ∧
    ∃ tree also, Grammar.parse repeatedText = .ok tree ∧
      Grammar.parse respelledText = .ok also ∧
      (tree.build false).schema = (also.build false).schema ∧
      otherErrors (tree.build false).diagnostics =
        [.armRefused "v" (.repeatedCondition (.integer 16))] ∧
      otherErrors (also.build false).diagnostics =
        [.armRefused "v" (.repeatedCondition (.integer 16))] := by
  obtain ⟨values, literals, conditions, -, texts⟩ := integers_mean_what_they_count
  have border : (Grammar.parse borderText).toOption.any (fun tree =>
      decide ((tree.literals.take 2).map Literal.text =
          ["0x00ffffffffffffffff", "0018446744073709551616"] ∧
        tree.literals.filterMap Literal.fault? =
          [⟨⟨1, 44⟩, .integerOutOfRange "0018446744073709551616"⟩,
            ⟨⟨2, 37⟩, .integerOutOfRange "09223372036854775808"⟩,
            ⟨⟨3, 23⟩, .integerOutOfRange "0x8000000000000000"⟩])) = true := by
    decide +kernel
  obtain ⟨tree, parsed, tested⟩ := exists_ok border
  obtain ⟨first, faults⟩ := of_decide_eq_true tested
  obtain ⟨reported, each⟩ := literals borderText tree parsed
  have written : ∀ text ∈ (tree.literals.take 2).map Literal.text, Grammar.IsInteger text := by
    rw [List.forall_mem_map]
    exact fun literal member => (each literal (List.mem_of_mem_take member)).1
  rw [first] at written
  have largest := (values "0x00ffffffffffffffff").2 (written _ List.mem_cons_self)
  have larger := (values "0018446744073709551616").2
    (written _ (List.mem_cons_of_mem _ List.mem_cons_self))
  refine ⟨largest.1.trans (by decide), larger.1.trans (by decide),
    ⟨tree, parsed, reported.trans faults⟩, ?_, ?_⟩
  · exact (conditions (sixteen "0X0010") (sixteen "16") (by cbv) .empty ⟨0⟩ (.integer 16)).mpr
      (by cbv)
  · have same : (Grammar.parse repeatedText).toOption.map Tree.Module.neat =
        (Grammar.parse respelledText).toOption.map Tree.Module.neat := by cbv
    have refused : (Grammar.parse repeatedText).toOption.any (fun tree =>
        decide (otherErrors (tree.build false).diagnostics =
          [.armRefused "v" (.repeatedCondition (.integer 16))])) = true := by decide +kernel
    obtain ⟨anew, found, errors⟩ := exists_ok refused
    have conflicts := of_decide_eq_true errors
    cases other : Grammar.parse respelledText with
    | error error =>
        rw [found, other] at same
        cases same
    | ok also =>
        rw [found, other] at same
        obtain ⟨schemas, -, others⟩ := texts anew also (Option.some.inj same)
        exact ⟨anew, also, found, rfl, schemas, conflicts, others.symm.trans conflicts⟩

end PacketSchema
