import PacketSchema.Grammar.Production
import PacketSchema.Proofs.Grammar.Numerals
import PacketSchema.Proofs.Grammar.Reading.Condition
import PacketSchema.Proofs.Resolving

/-!
# What a written condition means

A written condition is a list of alternatives, each of them a list of conjuncts. Its meaning folds
the alternatives from the left and the conjuncts of each from the left; a comparison takes the two
operands on its sides, and a negation takes the operand after it and no more, so that a comparison
after that operand compares the negation. Parentheses mean what stands in them. However a condition
is laid out, it is read whole and resolves to its meaning, and a pair of parentheses that can be
dropped at some place of it has no part in that meaning.
-/

namespace PacketSchema

open Grammar (Lexeme IsNumeral Writing)

namespace Draft

section Meaning

variable (leaf : Value → Condition)

mutual

/-- What a condition means, where each value in it means what `leaf` says. -/
def Disjunction.meaning : Disjunction → Condition
  | .mk first others => (alternativeMeanings others).foldl (.conjunction .either) first.meaning

def alternativeMeanings : List Conjunction → List Condition
  | [] => []
  | next :: rest => next.meaning :: alternativeMeanings rest

def Conjunction.meaning : Conjunction → Condition
  | .mk first others => (conjunctMeanings others).foldl (.conjunction .both) first.meaning

def conjunctMeanings : List Relation → List Condition
  | [] => []
  | next :: rest => next.meaning :: conjunctMeanings rest

def Relation.meaning : Relation → Condition
  | .operand only => only.meaning
  | .compare left comparison right => .relation comparison left.meaning right.meaning

def Operand.meaning : Operand → Condition
  | .value value => leaf value
  | .negation operand => .negation operand.meaning
  | .group inner => inner.meaning

end

end Meaning

mutual

/-- Parentheses can be dropped around the first of several alternatives or conjuncts, where they
hold what a chain of the same kind can begin with, around a whole item and around a single
operand. -/
inductive Disjunction.Drops : Disjunction → Disjunction → Prop where
  | outer {first : Conjunction} {inner others : List Conjunction} :
      Disjunction.Drops (.mk (.mk (.operand (.group (.mk first inner))) []) others)
        (.mk first (inner ++ others))
  | first {first looser : Conjunction} {others : List Conjunction}
      (drops : Conjunction.Drops first looser) :
      Disjunction.Drops (.mk first others) (.mk looser others)
  | later {first next looser : Conjunction} {before after : List Conjunction}
      (drops : Conjunction.Drops next looser) :
      Disjunction.Drops (.mk first (before ++ next :: after))
        (.mk first (before ++ looser :: after))

inductive Conjunction.Drops : Conjunction → Conjunction → Prop where
  | outer {first : Relation} {inner others : List Relation} :
      Conjunction.Drops (.mk (.operand (.group (.mk (.mk first inner) []))) others)
        (.mk first (inner ++ others))
  | first {first looser : Relation} {others : List Relation}
      (drops : Relation.Drops first looser) :
      Conjunction.Drops (.mk first others) (.mk looser others)
  | later {first next looser : Relation} {before after : List Relation}
      (drops : Relation.Drops next looser) :
      Conjunction.Drops (.mk first (before ++ next :: after))
        (.mk first (before ++ looser :: after))

inductive Relation.Drops : Relation → Relation → Prop where
  | outer {item : Relation} : Relation.Drops (.operand (.group (.mk (.mk item []) []))) item
  | only {only looser : Operand} (drops : Operand.Drops only looser) :
      Relation.Drops (.operand only) (.operand looser)
  | left {left looser right : Operand} {comparison : Comparison}
      (drops : Operand.Drops left looser) :
      Relation.Drops (.compare left comparison right) (.compare looser comparison right)
  | right {left right looser : Operand} {comparison : Comparison}
      (drops : Operand.Drops right looser) :
      Relation.Drops (.compare left comparison right) (.compare left comparison looser)

inductive Operand.Drops : Operand → Operand → Prop where
  | outer {operand : Operand} :
      Operand.Drops (.group (.mk (.mk (.operand operand) []) [])) operand
  | negation {operand looser : Operand} (drops : Operand.Drops operand looser) :
      Operand.Drops (.negation operand) (.negation looser)
  | group {inner looser : Disjunction} (drops : Disjunction.Drops inner looser) :
      Operand.Drops (.group inner) (.group looser)

end

section Dropping

variable {leaf : Value → Condition}

theorem alternative_meanings_eq (rest : List Conjunction) :
    alternativeMeanings leaf rest = rest.map (Conjunction.meaning leaf) := by
  induction rest with
  | nil => rfl
  | cons next rest later => rw [alternativeMeanings, later, List.map_cons]

theorem conjunct_meanings_eq (rest : List Relation) :
    conjunctMeanings leaf rest = rest.map (Relation.meaning leaf) := by
  induction rest with
  | nil => rfl
  | cons next rest later => rw [conjunctMeanings, later, List.map_cons]

/-- The meaning of a condition is the fold of its alternatives from the left. -/
theorem Disjunction.meaning_eq (first : Conjunction) (others : List Conjunction) :
    (Disjunction.mk first others).meaning leaf =
      (others.map (Conjunction.meaning leaf)).foldl (.conjunction .either)
        (first.meaning leaf) := by
  rw [Disjunction.meaning, alternative_meanings_eq]

/-- The meaning of an alternative is the fold of its conjuncts from the left. -/
theorem Conjunction.meaning_eq (first : Relation) (others : List Relation) :
    (Conjunction.mk first others).meaning leaf =
      (others.map (Relation.meaning leaf)).foldl (.conjunction .both) (first.meaning leaf) := by
  rw [Conjunction.meaning, conjunct_meanings_eq]

mutual

theorem Disjunction.Drops.meaning_eq {draft looser : Disjunction} :
    Disjunction.Drops draft looser → looser.meaning leaf = draft.meaning leaf
  | .outer => by
      simp only [Disjunction.meaning_eq, Conjunction.meaning_eq, Relation.meaning,
        Operand.meaning, List.map_nil, List.foldl_nil, List.map_append, List.foldl_append]
  | .first drops => by
      simp only [Disjunction.meaning_eq, drops.meaning_eq]
  | .later drops => by
      simp only [Disjunction.meaning_eq, List.map_append, List.map_cons, drops.meaning_eq]

theorem Conjunction.Drops.meaning_eq {draft looser : Conjunction} :
    Conjunction.Drops draft looser → looser.meaning leaf = draft.meaning leaf
  | .outer => by
      simp only [Disjunction.meaning_eq, Conjunction.meaning_eq, Relation.meaning,
        Operand.meaning, List.map_nil, List.foldl_nil, List.map_append, List.foldl_append]
  | .first drops => by
      simp only [Conjunction.meaning_eq, drops.meaning_eq]
  | .later drops => by
      simp only [Conjunction.meaning_eq, List.map_append, List.map_cons, drops.meaning_eq]

theorem Relation.Drops.meaning_eq {draft looser : Relation} :
    Relation.Drops draft looser → looser.meaning leaf = draft.meaning leaf
  | .outer => by
      simp only [Disjunction.meaning_eq, Conjunction.meaning_eq, Relation.meaning,
        Operand.meaning, List.map_nil, List.foldl_nil]
  | .only drops => by
      simp only [Relation.meaning, drops.meaning_eq]
  | .left drops => by
      simp only [Relation.meaning, drops.meaning_eq]
  | .right drops => by
      simp only [Relation.meaning, drops.meaning_eq]

theorem Operand.Drops.meaning_eq {draft looser : Operand} :
    Operand.Drops draft looser → looser.meaning leaf = draft.meaning leaf
  | .outer => by
      simp only [Disjunction.meaning_eq, Conjunction.meaning_eq, Relation.meaning,
        Operand.meaning, List.map_nil, List.foldl_nil]
  | .negation drops => by
      simp only [Operand.meaning, drops.meaning_eq]
  | .group drops => by
      simp only [Operand.meaning, drops.meaning_eq]

end

omit leaf in
theorem joined_lexemes_append {Part : Type} (join : Grammar.Mark) (lexemes : Part → List Lexeme)
    (first second : List Part) :
    joinedLexemes join lexemes (first ++ second) =
      joinedLexemes join lexemes first ++ joinedLexemes join lexemes second := by
  induction first with
  | nil => rfl
  | cons next rest later =>
      rw [List.cons_append, joinedLexemes, joinedLexemes, later, List.cons_append,
        List.append_assoc]

/-! What is left when parentheses are dropped are lexemes that were there before. -/

omit leaf in
/-- A first part without its parentheses, with the chain that it opens. -/
theorem unwrapped_sublist (inner others : List Lexeme) :
    (inner ++ others).Sublist (parenthesized inner ++ others) := by
  rw [parenthesized, List.cons_append, List.append_assoc]
  exact .cons _ ((List.Sublist.refl inner).append (.cons _ (.refl others)))

mutual

theorem Disjunction.Drops.lexemes_sublist {draft looser : Disjunction} :
    Disjunction.Drops draft looser → looser.lexemes.Sublist draft.lexemes
  | .outer => by
      simpa [Disjunction.lexemes, Conjunction.lexemes, Relation.lexemes, Operand.lexemes,
        conjunctLexemes, alternative_lexemes_eq, joined_lexemes_append]
        using unwrapped_sublist (_ ++ _) _
  | .first drops => by
      rw [Disjunction.lexemes, Disjunction.lexemes]
      exact drops.lexemes_sublist.append (.refl _)
  | .later drops => by
      simp only [Disjunction.lexemes, alternative_lexemes_eq, joined_lexemes_append, joinedLexemes]
      exact (List.Sublist.refl _).append
        ((List.Sublist.refl _).append ((drops.lexemes_sublist.append (.refl _)).cons_cons _))

theorem Conjunction.Drops.lexemes_sublist {draft looser : Conjunction} :
    Conjunction.Drops draft looser → looser.lexemes.Sublist draft.lexemes
  | .outer => by
      simpa [Disjunction.lexemes, Conjunction.lexemes, Relation.lexemes, Operand.lexemes,
        alternativeLexemes, conjunct_lexemes_eq, joined_lexemes_append]
        using unwrapped_sublist (_ ++ _) _
  | .first drops => by
      rw [Conjunction.lexemes, Conjunction.lexemes]
      exact drops.lexemes_sublist.append (.refl _)
  | .later drops => by
      simp only [Conjunction.lexemes, conjunct_lexemes_eq, joined_lexemes_append, joinedLexemes]
      exact (List.Sublist.refl _).append
        ((List.Sublist.refl _).append ((drops.lexemes_sublist.append (.refl _)).cons_cons _))

theorem Relation.Drops.lexemes_sublist {draft looser : Relation} :
    Relation.Drops draft looser → looser.lexemes.Sublist draft.lexemes
  | .outer => by
      simpa [Disjunction.lexemes, Conjunction.lexemes, Relation.lexemes, Operand.lexemes,
        alternativeLexemes, conjunctLexemes] using unwrapped_sublist _ []
  | .only drops => by
      rw [Relation.lexemes, Relation.lexemes]
      exact drops.lexemes_sublist
  | .left drops => by
      rw [Relation.lexemes, Relation.lexemes]
      exact drops.lexemes_sublist.append (.refl _)
  | .right drops => by
      rw [Relation.lexemes, Relation.lexemes]
      exact (List.Sublist.refl _).append (drops.lexemes_sublist.cons_cons _)

theorem Operand.Drops.lexemes_sublist {draft looser : Operand} :
    Operand.Drops draft looser → looser.lexemes.Sublist draft.lexemes
  | .outer => by
      simpa [Disjunction.lexemes, Conjunction.lexemes, Relation.lexemes, Operand.lexemes,
        alternativeLexemes, conjunctLexemes] using unwrapped_sublist _ []
  | .negation drops => by
      rw [Operand.lexemes, Operand.lexemes]
      exact drops.lexemes_sublist.cons_cons _
  | .group drops => by
      rw [Operand.lexemes, Operand.lexemes, parenthesized, parenthesized]
      exact (drops.lexemes_sublist.append (.refl _)).cons_cons _

end

end Dropping

/-- What a value means that can be resolved: a number below 2^63, or the field that its name
resolves to. -/
inductive Value.Means (forest : ScopeForest) (scope : ScopeId) : Value → Condition → Prop where
  | integer {numeral : String} {number : Nat}
      (spelled : Numeral.natural? numeral.toList = some number) (small : number < signedSize) :
      Value.Means forest scope (.integer numeral) (.integer (Int64.ofNat number))
  | reference {name : String} {reference : FieldRef}
      (resolved : forest.resolve scope name = .ok reference) :
      Value.Means forest scope (.reference name) (.field reference)

section Resolving

variable {forest : ScopeForest} {scope : ScopeId} {leaf : Value → Condition}
  {place : Nat → Location}

theorem Value.Means.resolves {value : Value} {condition : Condition}
    (means : value.Means forest scope condition) (legal : value.lexeme.Legal) (index : Nat) :
    (value.tree place index).resolveLeaf forest scope = .accepted condition := by
  cases means with
  | @integer numeral number spelled small =>
      have shaped : IsNumeral numeral := legal
      have found : Tree.signedNumber ⟨place index, numeral⟩ =
          .accepted (Int64.ofNat number) := by
        rw [Tree.signed_eq_accepted]
        refine ⟨number, ?_, small, Int64.toInt_ofNat_of_lt small⟩
        rw [Tree.number?, shaped.trimmed, spelled]
      exact Checked.map_eq_accepted.mpr ⟨_, found, rfl⟩
  | @reference name reference resolved =>
      have found : Tree.resolveReference forest scope ⟨place index, name⟩ =
          .accepted reference := Tree.reference_eq_accepted.mpr resolved
      exact Checked.map_eq_accepted.mpr ⟨reference, found, rfl⟩

/-- The values among some lexemes resolve to what they mean, wherever they stand. -/
def LeavesResolve (forest : ScopeForest) (scope : ScopeId) (place : Nat → Location)
    (leaf : Value → Condition) (lexemes : List Lexeme) : Prop :=
  ∀ value : Value, value.lexeme ∈ lexemes → ∀ index,
    (value.tree place index).resolveLeaf forest scope = .accepted (leaf value)

theorem LeavesResolve.mono {lexemes fewer : List Lexeme}
    (known : LeavesResolve forest scope place leaf lexemes) (among : fewer ⊆ lexemes) :
    LeavesResolve forest scope place leaf fewer :=
  fun value member => known value (among member)

theorem LeavesResolve.parts {first second : List Lexeme}
    (known : LeavesResolve forest scope place leaf (first ++ second)) :
    LeavesResolve forest scope place leaf first ∧ LeavesResolve forest scope place leaf second :=
  ⟨known.mono (List.subset_append_left first second),
    known.mono (List.subset_append_right first second)⟩

theorem LeavesResolve.tail {lexeme : Lexeme} {rest : List Lexeme}
    (known : LeavesResolve forest scope place leaf (lexeme :: rest)) :
    LeavesResolve forest scope place leaf rest :=
  known.mono (List.subset_cons_self lexeme rest)

theorem alternatives_fold {first : Tree.Disjunction} {trees : List Tree.Conjunction}
    {meaning : Condition} {meanings : List Condition}
    (known : first.resolve forest scope = .accepted meaning)
    (each : List.Forall₂ (fun tree meaning => tree.resolve forest scope = .accepted meaning)
      trees meanings) :
    (trees.foldl .or first).resolve forest scope =
      .accepted (meanings.foldl (.conjunction .either) meaning) := by
  induction each generalizing first meaning with
  | nil => exact known
  | cons next _ later =>
      apply later
      rw [Tree.Disjunction.resolve, known, next]
      rfl

theorem conjuncts_fold {first : Tree.Conjunction} {trees : List Tree.Relation}
    {meaning : Condition} {meanings : List Condition}
    (known : first.resolve forest scope = .accepted meaning)
    (each : List.Forall₂ (fun tree meaning => tree.resolve forest scope = .accepted meaning)
      trees meanings) :
    (trees.foldl .and first).resolve forest scope =
      .accepted (meanings.foldl (.conjunction .both) meaning) := by
  induction each generalizing first meaning with
  | nil => exact known
  | cons next _ later =>
      apply later
      rw [Tree.Conjunction.resolve, known, next]
      rfl

mutual

theorem Disjunction.tree_resolves : ∀ (draft : Disjunction) (index : Nat),
    LeavesResolve forest scope place leaf draft.lexemes →
      (draft.tree place index).resolve forest scope = .accepted (draft.meaning leaf)
  | .mk first others, index, known => by
      rw [Disjunction.lexemes] at known
      obtain ⟨firstKnown, othersKnown⟩ := known.parts
      rw [Disjunction.tree, Disjunction.meaning]
      apply alternatives_fold
      · rw [Tree.Disjunction.resolve]
        exact first.tree_resolves index firstKnown
      · exact alternative_trees_resolve others _ othersKnown

theorem alternative_trees_resolve : ∀ (rest : List Conjunction) (index : Nat),
    LeavesResolve forest scope place leaf (alternativeLexemes rest) →
      List.Forall₂ (fun tree meaning => tree.resolve forest scope = .accepted meaning)
        (alternativeTrees place index rest) (alternativeMeanings leaf rest)
  | [], index, known => by
      rw [alternativeTrees, alternativeMeanings]
      exact .nil
  | next :: rest, index, known => by
      rw [alternativeLexemes] at known
      obtain ⟨nextKnown, restKnown⟩ := known.tail.parts
      rw [alternativeTrees, alternativeMeanings]
      exact .cons (next.tree_resolves _ nextKnown) (alternative_trees_resolve rest _ restKnown)

theorem Conjunction.tree_resolves : ∀ (draft : Conjunction) (index : Nat),
    LeavesResolve forest scope place leaf draft.lexemes →
      (draft.tree place index).resolve forest scope = .accepted (draft.meaning leaf)
  | .mk first others, index, known => by
      rw [Conjunction.lexemes] at known
      obtain ⟨firstKnown, othersKnown⟩ := known.parts
      rw [Conjunction.tree, Conjunction.meaning]
      apply conjuncts_fold
      · rw [Tree.Conjunction.resolve]
        exact first.tree_resolves index firstKnown
      · exact conjunct_trees_resolve others _ othersKnown

theorem conjunct_trees_resolve : ∀ (rest : List Relation) (index : Nat),
    LeavesResolve forest scope place leaf (conjunctLexemes rest) →
      List.Forall₂ (fun tree meaning => tree.resolve forest scope = .accepted meaning)
        (conjunctTrees place index rest) (conjunctMeanings leaf rest)
  | [], index, known => by
      rw [conjunctTrees, conjunctMeanings]
      exact .nil
  | next :: rest, index, known => by
      rw [conjunctLexemes] at known
      obtain ⟨nextKnown, restKnown⟩ := known.tail.parts
      rw [conjunctTrees, conjunctMeanings]
      exact .cons (next.tree_resolves _ nextKnown) (conjunct_trees_resolve rest _ restKnown)

theorem Relation.tree_resolves : ∀ (draft : Relation) (index : Nat),
    LeavesResolve forest scope place leaf draft.lexemes →
      (draft.tree place index).resolve forest scope = .accepted (draft.meaning leaf)
  | .operand only, index, known => by
      rw [Relation.lexemes] at known
      rw [Relation.tree, Relation.meaning, Tree.Relation.resolve]
      exact only.tree_resolves index known
  | .compare left comparison right, index, known => by
      rw [Relation.lexemes] at known
      obtain ⟨leftKnown, rightKnown⟩ := known.parts
      rw [Relation.tree, Relation.meaning, Tree.Relation.resolve,
        left.tree_resolves index leftKnown, right.tree_resolves _ rightKnown.tail]
      rfl

theorem Operand.tree_resolves : ∀ (draft : Operand) (index : Nat),
    LeavesResolve forest scope place leaf draft.lexemes →
      (draft.tree place index).resolve forest scope = .accepted (draft.meaning leaf)
  | .value value, index, known => by
      rw [Operand.lexemes] at known
      rw [Operand.tree, Operand.meaning, Tree.Operand.resolve]
      exact known value (List.mem_singleton_self _) index
  | .negation operand, index, known => by
      rw [Operand.lexemes] at known
      rw [Operand.tree, Operand.meaning, Tree.Operand.resolve,
        operand.tree_resolves _ known.tail]
      rfl
  | .group inner, index, known => by
      rw [Operand.lexemes, parenthesized] at known
      rw [Operand.tree, Operand.meaning, Tree.Operand.resolve]
      exact inner.tree_resolves _ known.tail.parts.1

end

end Resolving

open Grammar in
/-- However a condition is laid out, the whole of it is read and resolves to its meaning; it does so
wherever it stands in a schema; and without a pair of parentheses that can be dropped it still has
that meaning. -/
theorem condition_resolves_to_meaning {draft : Disjunction} {writing : Writing} {source : String}
    (forest : ScopeForest) (scope : ScopeId) (leaf : Value → Condition) (legal : writing.Legal)
    (bare : writing.margin = []) (spelled : writing.lexemes = draft.lexemes)
    (written : source.toList = writing.text)
    (known : ∀ value : Value, value.lexeme ∈ draft.lexemes →
      value.Means forest scope (leaf value)) :
    (∃ tree : Tree.Disjunction,
      (Parser.condition (boundOf source.toList)).run (.ofText source.toList) =
        some (tree, ⟨Location.start.after source.toList, []⟩) ∧
      (Production.rule .disjunction).read source = .ok [tree.node] ∧
      tree.resolve forest scope = .accepted (draft.meaning leaf)) ∧
    (∀ place index,
      (draft.tree place index).resolve forest scope = .accepted (draft.meaning leaf)) ∧
    ∀ looser : Disjunction, draft.Drops looser → ∀ place index,
      (looser.tree place index).resolve forest scope = .accepted (draft.meaning leaf) := by
  have leaves : ∀ place, LeavesResolve forest scope place leaf draft.lexemes := by
    intro place value member index
    have listed : value.lexeme ∈ writing.entries.map Entry.lexeme := by
      rw [← Writing.lexemes, spelled]
      exact member
    obtain ⟨entry, inside, same⟩ := List.mem_map.mp listed
    have shaped := legal.lexemes entry inside
    rw [same] at shaped
    exact (known value member).resolves shaped index
  have few : draft.lexemes.length ≤ boundOf source.toList := by
    have fewer := legal.length_le_text
    rw [spelled, ← written] at fewer
    exact Nat.le_succ_of_le fewer
  have run := (Writing.whole_condition_reads legal spelled few).whole bare
  rw [← written] at run
  refine ⟨⟨_, run, read_front_of_run (Parser.run_bind_some run), ?_⟩, ?_, ?_⟩
  · exact draft.tree_resolves 0 (leaves _)
  · exact fun place index => draft.tree_resolves index (leaves place)
  · intro looser drops place index
    rw [← drops.meaning_eq]
    exact looser.tree_resolves index ((leaves place).mono drops.lexemes_sublist.subset)

/-- A comparison of a negation, and a group that holds the first two of three conjuncts. -/
def groupedCondition : Disjunction :=
  .mk (.mk (.compare (.negation (.value (.reference "a"))) .less (.value (.integer "0x10"))) [])
    [.mk (.operand (.group (.mk (.mk (.operand (.value (.reference "b")))
      [.operand (.value (.integer "1"))]) []))) [.operand (.value (.reference "a"))]]

def ungroupedCondition : Disjunction :=
  .mk (.mk (.compare (.negation (.value (.reference "a"))) .less (.value (.integer "0x10"))) [])
    [.mk (.operand (.value (.reference "b")))
      [.operand (.value (.integer "1")), .operand (.value (.reference "a"))]]

def groupedForest : ScopeForest :=
  ⟨[⟨none, [.always "a" (.ofParts .unsigned none none), .always "b" (.ofParts .signed none none)]⟩]⟩

def groupedLeaf : Value → Condition
  | .integer numeral => .integer (Int64.ofNat ((Numeral.natural? numeral.toList).getD 0))
  | .reference name => .field ⟨⟨0⟩, name⟩

def groupedMeaning : Condition :=
  .conjunction .either
    (.relation .less (.negation (.field ⟨⟨0⟩, "a"⟩)) (.integer 16))
    (.conjunction .both (.conjunction .both (.field ⟨⟨0⟩, "b"⟩) (.integer 1)) (.field ⟨⟨0⟩, "a"⟩))

theorem grouped_condition_resolves :
    (∃ tree : Tree.Disjunction,
      (Grammar.Production.rule .disjunction).read "! &a < 0x10 || ( &b && 1 ) && &a" =
        .ok [tree.node] ∧
      tree.resolve groupedForest ⟨0⟩ = .accepted groupedMeaning) ∧
    (∀ place index,
      (ungroupedCondition.tree place index).resolve groupedForest ⟨0⟩ =
        .accepted groupedMeaning) := by
  have spelled : groupedCondition.lexemes = [.mark .negation, .reference "a",
      .mark (.comparison .less), .integer "0x10", .mark .either, .mark .openGroup, .reference "b",
      .mark .both, .integer "1", .mark .closeGroup, .mark .both, .reference "a"] := by
    decide
  have legal : (Grammar.Writing.spaced groupedCondition.lexemes).Legal := by
    apply Grammar.Writing.spaced_legal
    rw [spelled]
    decide
  have known : ∀ value : Value, value.lexeme ∈ groupedCondition.lexemes →
      value.Means groupedForest ⟨0⟩ (groupedLeaf value) := by
    intro value member
    rw [spelled] at member
    cases value with
    | integer numeral =>
        have listed : numeral = "0x10" ∨ numeral = "1" := by simpa [Value.lexeme] using member
        rcases listed with rfl | rfl
        all_goals exact .integer (by decide) (by decide)
    | reference name =>
        have listed : name = "a" ∨ name = "b" ∨ name = "a" := by simpa [Value.lexeme] using member
        rcases listed with rfl | rfl | rfl
        all_goals exact .reference (by decide)
  have resolves := condition_resolves_to_meaning groupedForest ⟨0⟩ groupedLeaf legal rfl
    (Grammar.Writing.lexemes_spaced _)
    (by decide +kernel : "! &a < 0x10 || ( &b && 1 ) && &a".toList = _) known
  have drops : groupedCondition.Drops ungroupedCondition :=
    @Disjunction.Drops.later _ _ _ [] [] .outer
  have meaning : groupedCondition.meaning groupedLeaf = groupedMeaning := by
    decide
  rw [meaning] at resolves
  obtain ⟨⟨tree, -, read, resolved⟩, -, loosened⟩ := resolves
  exact ⟨⟨tree, read, resolved⟩, loosened ungroupedCondition drops⟩

end Draft

end PacketSchema
