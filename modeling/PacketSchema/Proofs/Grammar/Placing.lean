import PacketSchema.Proofs.Grammar.Position

/-!
# Parsers at places

A parser that starts at a place of the source ends at one, and what it answers is located in
between. A parser whose text begins with a word shows that word where it starts; where a keyword
declares a name, a gap stands between the two.
-/

namespace PacketSchema.Grammar.Parser

open PacketSchema.Tree (Located)

variable {Item Other : Type} {source : List Char} {stands : Item → Prop} {also : Other → Prop}
  {word : Item → List Char} {parser : Parser Item} {next : Item → Parser Other}

/-- Between two places of the source, the parser answers what stands there. -/
structure Places (source : List Char) (stands : Item → Prop) (parser : Parser Item) : Prop where
  holds : ∀ cursor item after, TextAt source cursor.location cursor.rest →
    parser.run cursor = some (item, after) → stands item ∧ TextAt source after.location after.rest

/-- What the parser takes begins with a word that the item tells. -/
structure Fronts (word : Item → List Char) (parser : Parser Item) : Prop where
  holds : ∀ cursor item after, parser.run cursor = some (item, after) →
    ∃ more, cursor.Passes (word item ++ more) after

theorem places_pure {item : Item} (holds : stands item) :
    (pure item : Parser Item).Places source stands := by
  constructor
  intro cursor found after placed accepted
  cases accepted
  exact ⟨holds, placed⟩

theorem places_refuse : (refuse : Parser Item).Places source stands := by
  constructor
  intro cursor item after placed accepted
  cases accepted

theorem Places.bind (first : parser.Places source stands)
    (second : ∀ item, stands item → (next item).Places source also) :
    (parser >>= next).Places source also := by
  constructor
  intro cursor item after placed accepted
  obtain ⟨read, middle, taken, rest⟩ := bind_eq_some_iff.mp accepted
  obtain ⟨has, reached⟩ := first.holds cursor read middle placed taken
  exact (second read has).holds middle item after reached rest

theorem Places.or_else {second : Parser Item} (left : parser.Places source stands)
    (right : second.Places source stands) : (parser <|> second).Places source stands := by
  constructor
  intro cursor item after placed accepted
  rw [run_orElse] at accepted
  rcases Option.or_eq_some_iff.mp accepted with first | ⟨_, last⟩
  · exact left.holds cursor item after placed first
  · exact right.holds cursor item after placed last

theorem Places.option (holds : parser.Places source stands) :
    (option parser).Places source fun answer => ∀ item ∈ answer, stands item := by
  unfold Parser.option
  apply Places.or_else
  · apply holds.bind
    intro item has
    apply places_pure
    intro other member
    cases member
    exact has
  · apply places_pure
    intro item member
    cases member

theorem Places.many (holds : parser.Places source stands) (bound : Nat) :
    (many bound parser).Places source fun items => ∀ item ∈ items, stands item := by
  induction bound with
  | zero =>
      apply places_pure
      intro item member
      cases member
  | succ bound rest =>
      apply holds.option.bind
      intro answer has
      cases answer with
      | none =>
          apply places_pure
          intro item member
          cases member
      | some first =>
          apply rest.bind
          intro items have_all
          apply places_pure
          intro item member
          rcases List.mem_cons.mp member with rfl | later
          · exact has item rfl
          · exact have_all item later

theorem Places.named (holds : parser.Places source stands) (rule : Rule) :
    (named rule parser).Places source stands := by
  constructor
  intro cursor item after placed accepted
  rw [run_named] at accepted
  exact holds.holds cursor item after placed accepted

theorem places_gap : gap.Places source fun _ => True := by
  constructor
  intro cursor item after placed accepted
  cases accepted
  obtain ⟨taken, passes, _⟩ := passes_after_gap cursor
  exact ⟨trivial, placed.passes passes⟩

theorem Places.before_gap (holds : parser.Places source stands) :
    (beforeGap parser).Places source stands := by
  unfold beforeGap
  apply holds.bind
  intro item has
  apply places_gap.bind
  intro _ _
  exact places_pure has

theorem places_here : here.Places source fun _ => True := by
  constructor
  intro cursor location after placed accepted
  cases accepted
  exact ⟨trivial, placed⟩

theorem Places.located (holds : parser.Places source fun _ => True) :
    (located parser).Places source fun _ => True := by
  apply places_here.bind
  intro location _
  apply holds.bind
  intro item _
  exact places_pure trivial

theorem Fronts.named (fronts : parser.Fronts word) (rule : Rule) :
    (named rule parser).Fronts word := by
  constructor
  intro cursor item after accepted
  rw [run_named] at accepted
  exact fronts.holds cursor item after accepted

theorem Fronts.or_else {second : Parser Item} (left : parser.Fronts word)
    (right : second.Fronts word) : (parser <|> second).Fronts word := by
  constructor
  intro cursor item after accepted
  rw [run_orElse] at accepted
  rcases Option.or_eq_some_iff.mp accepted with first | ⟨_, last⟩
  · exact left.holds cursor item after first
  · exact right.holds cursor item after last

theorem Fronts.before_gap (fronts : parser.Fronts word) : (beforeGap parser).Fronts word := by
  constructor
  intro cursor item after accepted
  obtain ⟨read, middle, taken, rest⟩ := bind_eq_some_iff.mp accepted
  cases rest
  obtain ⟨more, front⟩ := fronts.holds cursor item middle taken
  obtain ⟨further, passes, _⟩ := passes_after_gap middle
  refine ⟨more ++ further, ?_⟩
  rw [← List.append_assoc]
  exact front.append passes

/-- Where the item does not matter, a parser still goes from one place to another. -/
theorem Fronts.places (fronts : parser.Fronts word) :
    parser.Places source fun _ => True := by
  constructor
  intro cursor item after placed accepted
  obtain ⟨more, passes⟩ := fronts.holds cursor item after accepted
  exact ⟨trivial, placed.passes passes⟩

theorem located_eq_some_iff {cursor after : Cursor} {found : Located Item} :
    (located parser).run cursor = some (found, after) ↔
      found.location = cursor.location ∧ parser.run cursor = some (found.item, after) := by
  obtain ⟨location, item⟩ := found
  rw [run_located, Option.map_eq_some_iff, Prod.exists]
  constructor
  · rintro ⟨read, middle, taken, same⟩
    cases same
    exact ⟨rfl, taken⟩
  · rintro ⟨rfl, taken⟩
    exact ⟨item, after, taken, rfl⟩

theorem Fronts.located (fronts : parser.Fronts word) :
    (located parser).Places source fun found => Shows source found.location (word found.item) := by
  constructor
  intro cursor found after placed accepted
  obtain ⟨here, read⟩ := located_eq_some_iff.mp accepted
  obtain ⟨more, passes⟩ := fronts.holds cursor found.item after read
  rw [here]
  exact ⟨.of_passes placed passes, placed.passes passes⟩

theorem Fronts.token (fronts : parser.Fronts word) :
    (Parser.located parser).Fronts fun found => word found.item := by
  constructor
  intro cursor found after accepted
  exact fronts.holds cursor found.item after (located_eq_some_iff.mp accepted).2

theorem fronts_of_passes (takes : ∀ cursor item after, parser.run cursor = some (item, after) →
    cursor.Passes (word item) after) : parser.Fronts word := by
  constructor
  intro cursor item after accepted
  refine ⟨[], ?_⟩
  rw [List.append_nil]
  exact takes cursor item after accepted

theorem literal_fronts (text : List Char) : (literal text).Fronts fun _ => text :=
  fronts_of_passes fun _ _ _ accepted => literal_iff.mp accepted

theorem bare_reserved_fronts (keyword : Keyword) :
    (bareReserved keyword).Fronts fun _ => keyword.letters :=
  fronts_of_passes fun _ _ _ accepted => (bare_reserved_iff.mp accepted).1

theorem bare_ident_fronts : bareIdent.Fronts String.toList :=
  fronts_of_passes fun _ _ _ accepted => (bare_ident_iff.mp accepted).2.1

theorem bare_integer_fronts : bareInteger.Fronts String.toList :=
  fronts_of_passes fun _ _ _ accepted => (bare_integer_shaped accepted).2.1

theorem bare_reference_fronts : bareReference.Fronts fun name => '&' :: name.toList :=
  fronts_of_passes fun _ _ _ accepted => (bare_reference_iff.mp accepted).2.1

theorem bare_comparison_fronts : bareComparison.Fronts fun symbol => symbol.symbol.toList :=
  fronts_of_passes fun _ _ _ accepted => (bare_comparison_iff.mp accepted).2

theorem reserved_fronts (keyword : Keyword) : (reserved keyword).Fronts fun _ => keyword.letters :=
  (bare_reserved_fronts keyword).before_gap

/-- What is read may stand for an item of which it is the word. -/
theorem Fronts.meaning (spoken : Other → List Char) (item : Other)
    (fronts : parser.Fronts fun _ => spoken item) :
    (do
      let _ ← parser
      return item : Parser Other).Fronts spoken := by
  constructor
  intro cursor found after accepted
  obtain ⟨read, middle, taken, rest⟩ := bind_eq_some_iff.mp accepted
  cases rest
  exact fronts.holds cursor read after taken

theorem places_mark (text : List Char) : (mark text).Places source fun _ => True :=
  (literal_fronts text).before_gap.places

theorem places_reserved (keyword : Keyword) : (reserved keyword).Places source fun _ => True :=
  (reserved_fronts keyword).places

theorem ident_fronts : ident.Fronts fun token => token.item.toList :=
  (bare_ident_fronts.named .ident).token.before_gap

theorem places_comparison : comparison.Places source fun _ => True :=
  (bare_comparison_fronts.named .comparison).places.located.before_gap

theorem places_meaning (keyword : Keyword) (item : Item) :
    (meaning keyword item).Places source fun _ => True := by
  apply (places_reserved keyword).bind
  intro _ _
  exact places_pure trivial

theorem places_unit : unit.Places source fun _ => True := by
  have order : byteOrder.Places source fun _ => True := by
    apply Places.located
    apply Places.named
    exact Places.or_else (places_meaning .big _) (places_meaning .little _)
  have bytes : bytes.Places source fun _ => True := by
    apply Places.named
    apply (places_reserved .bytes).bind
    intro _ _
    apply order.option.bind
    intro _ _
    exact places_pure trivial
  apply Places.located
  apply Places.named
  apply Places.or_else
  · exact (places_meaning .bits _).named .bits
  · exact bytes

theorem after_colon_places (holds : parser.Places source stands) :
    (afterColon parser).Places source stands := by
  apply (places_mark [':']).bind
  intro _ _
  exact holds

theorem braced_places (holds : parser.Places source stands) :
    (braced parser).Places source stands := by
  apply (places_mark _).bind
  intro _ _
  apply holds.bind
  intro item has
  apply (places_mark _).bind
  intro _ _
  exact places_pure has

/-- What begins with a keyword begins at the place of the keyword. -/
theorem Places.opened {keyword : Keyword} {next : Location → Parser Item}
    (later : ∀ location, Shows source location keyword.letters →
      (next location).Places source stands) :
    Places source stands (do
      let location ← here
      reserved keyword
      next location) := by
  constructor
  intro cursor item after placed accepted
  obtain ⟨location, _, here, reading⟩ := bind_eq_some_iff.mp accepted
  cases here
  obtain ⟨_, middle, read, rest⟩ := bind_eq_some_iff.mp reading
  obtain ⟨more, passes⟩ := (reserved_fronts keyword).holds cursor _ middle read
  exact (later cursor.location (.of_passes placed passes)).holds middle item after
    (placed.passes passes) rest

/-- Between a keyword and a name there is a gap: the name would go on with the keyword. -/
theorem Places.announced {keyword : Keyword} {next : Location → Tree.Token → Parser Item}
    (later : ∀ location name, Announced source location keyword.letters name.item →
      (next location name).Places source stands) :
    Places source stands (do
      let location ← here
      reserved keyword
      let name ← ident
      next location name) := by
  constructor
  intro cursor item after placed accepted
  obtain ⟨location, _, here, reading⟩ := bind_eq_some_iff.mp accepted
  cases here
  obtain ⟨_, behind, read, further⟩ := bind_eq_some_iff.mp reading
  obtain ⟨name, last, named, remaining⟩ := bind_eq_some_iff.mp further
  obtain ⟨_, middle, spelled, rest⟩ := bind_eq_some_iff.mp read
  cases rest
  obtain ⟨passes, ends⟩ := bare_reserved_iff.mp spelled
  obtain ⟨gap, across, legal⟩ := passes_after_gap middle
  obtain ⟨more, front⟩ := ident_fronts.holds _ name last named
  obtain ⟨first, others, written, _⟩ := (ident_word.holds _ name last named).start
  have starts : isWordCharacter first = true := by
    apply (ident_word.holds _ name last named).within
    rw [written]
    exact List.mem_cons_self
  have goes_on : (afterGap middle).rest = first :: (others ++ more ++ last.rest) := by
    rw [front.rest, written]
    simp
  have parted : gap ≠ [] := by
    rintro rfl
    have outside : isWordCharacter first = false := by
      apply ends
      rw [across.rest, List.nil_append, goes_on]
      rfl
    rw [starts] at outside
    cases outside
  have whole := (passes.append across).append front
  rw [← List.append_assoc] at whole
  have announced : Announced source cursor.location keyword.letters name.item :=
    ⟨gap, legal (by rw [goes_on]; exact List.cons_ne_nil _ _), parted, .of_passes placed whole⟩
  exact (later cursor.location name announced).holds last item after (placed.passes whole) remaining

end PacketSchema.Grammar.Parser
