import PacketSchema.Proofs.Grammar.Bare
import PacketSchema.Proofs.Grammar.Writing

/-!
# Reading a writing

On a legal writing a parser goes from one lexeme to another. It reads an item when it accepts it
and stops where a lexeme begins, and it refuses where it accepts nothing. The combinators put
readings together, and each reader of one lexeme reads the lexemes of its kind and refuses others.
-/

namespace PacketSchema.Grammar

open PacketSchema.Grammar.Parser
open PacketSchema.Tree (Located)

namespace Writing

variable {Item Other : Type} {writing : Writing} {parser : Parser Item}
  {next : Item → Parser Other} {start middle finish : Nat} {item : Item} {other : Other}

/-- From the lexeme with one number on, the parser reads an item, up to the lexeme with another. -/
structure Reads (writing : Writing) (parser : Parser Item) (start : Nat) (item : Item)
    (finish : Nat) : Prop where
  run : parser.run (writing.cursor start) = some (item, writing.cursor finish)

/-- From the lexeme with a number on, the parser accepts nothing. -/
structure Refuses (writing : Writing) (parser : Parser Item) (start : Nat) : Prop where
  run : parser.run (writing.cursor start) = none

theorem reads_pure : writing.Reads (pure item : Parser Item) start item start := ⟨rfl⟩

theorem reads_accept : writing.Reads (accept item) start item start := ⟨rfl⟩

theorem reads_here : writing.Reads here start (writing.place start) start := ⟨rfl⟩

theorem Reads.bind (first : writing.Reads parser start item middle)
    (second : writing.Reads (next item) middle other finish) :
    writing.Reads (parser >>= next) start other finish :=
  ⟨(run_bind_some first.run).trans second.run⟩

theorem Reads.bind_refuses (first : writing.Reads parser start item middle)
    (second : writing.Refuses (next item) middle) : writing.Refuses (parser >>= next) start :=
  ⟨(run_bind_some first.run).trans second.run⟩

theorem Refuses.bind (first : writing.Refuses parser start) :
    writing.Refuses (parser >>= next) start :=
  ⟨run_bind_none first.run⟩

theorem Reads.named (body : writing.Reads parser start item finish) (rule : Rule) :
    writing.Reads (named rule parser) start item finish :=
  ⟨(run_named rule parser _).trans body.run⟩

theorem Refuses.named (body : writing.Refuses parser start) (rule : Rule) :
    writing.Refuses (named rule parser) start :=
  ⟨(run_named rule parser _).trans body.run⟩

theorem Reads.first {second : Parser Item} (reads : writing.Reads parser start item finish) :
    writing.Reads (parser <|> second) start item finish := by
  constructor
  rw [run_orElse, reads.run, Option.some_or]

theorem Reads.second {first : Parser Item} (reads : writing.Reads parser start item finish)
    (refused : writing.Refuses first start) :
    writing.Reads (first <|> parser) start item finish := by
  constructor
  rw [run_orElse, refused.run, Option.none_or, reads.run]

theorem Refuses.both {second : Parser Item} (first : writing.Refuses parser start)
    (last : writing.Refuses second start) : writing.Refuses (parser <|> second) start := by
  constructor
  rw [run_orElse, first.run, last.run, Option.none_or]

theorem Reads.option (reads : writing.Reads parser start item finish) :
    writing.Reads (option parser) start (some item) finish := by
  apply Reads.first
  apply reads.bind
  exact reads_pure

theorem Refuses.option (refused : writing.Refuses parser start) :
    writing.Reads (option parser) start none start :=
  reads_accept.second refused.bind

theorem Reads.located (reads : writing.Reads parser start item finish) :
    writing.Reads (located parser) start ⟨writing.place start, item⟩ finish := by
  apply reads_here.bind
  apply reads.bind
  exact reads_pure

theorem Refuses.before_gap (refused : writing.Refuses parser start) :
    writing.Refuses (beforeGap parser) start := by
  unfold beforeGap
  exact refused.bind

theorem Refuses.located (refused : writing.Refuses parser start) :
    writing.Refuses (located parser) start := by
  apply reads_here.bind_refuses
  exact refused.bind

/-- The parser reads one item after another, each of one lexeme at least. -/
inductive ReadsAll (writing : Writing) (parser : Parser Item) : Nat → List Item → Nat → Prop where
  | nil {start : Nat} : ReadsAll writing parser start [] start
  | cons {start middle finish : Nat} {item : Item} {items : List Item} (onward : start < middle)
      (reads : writing.Reads parser start item middle)
      (later : ReadsAll writing parser middle items finish) :
      ReadsAll writing parser start (item :: items) finish

theorem ReadsAll.room {items : List Item} (all : writing.ReadsAll parser start items finish) :
    start + items.length ≤ finish := by
  induction all with
  | nil => exact Nat.le_refl _
  | cons onward _ _ room =>
      rw [List.length_cons]
      omega

/-- A repetition reads the items that are there when nothing more is accepted after them. -/
theorem ReadsAll.many {items : List Item} {bound : Nat}
    (all : writing.ReadsAll parser start items finish) (stops : writing.Refuses parser finish)
    (small : finish ≤ start + bound) : writing.Reads (many bound parser) start items finish := by
  have enough : items.length ≤ bound := by
    have room := all.room
    omega
  clear small
  induction all generalizing bound with
  | nil =>
      cases bound with
      | zero => exact reads_accept
      | succ bound => exact stops.option.bind reads_accept
  | cons _ reads _ later =>
      cases bound with
      | zero => cases enough
      | succ bound =>
          have rest := later stops (Nat.le_of_succ_le_succ enough)
          apply reads.option.bind
          apply rest.bind
          exact reads_accept

variable {lexeme : Lexeme} {name : String}

theorem Meets.passes {tail : List Char} (meets : writing.Meets start lexeme tail) :
    (writing.cursor start).Passes lexeme.text ⟨(writing.place start).after lexeme.text, tail⟩ :=
  ⟨meets.text, rfl⟩

/-- What reads the text of a lexeme reads the lexeme together with the gap after it. -/
theorem Meets.reads {tail : List Char} (meets : writing.Meets start lexeme tail)
    (accepts : parser.run (writing.cursor start) =
      some (item, ⟨(writing.place start).after lexeme.text, tail⟩)) :
    writing.Reads (beforeGap parser) start item (start + 1) := by
  constructor
  rw [run_before_gap, accepts, ← meets.resumes]
  rfl

theorem Meets.reads_token {tail : List Char} {rule : Rule}
    (meets : writing.Meets start lexeme tail)
    (accepts : parser.run (writing.cursor start) =
      some (item, ⟨(writing.place start).after lexeme.text, tail⟩)) :
    writing.Reads (beforeGap (located (named rule parser))) start ⟨writing.place start, item⟩
      (start + 1) := by
  apply meets.reads
  rw [run_located, run_named, accepts]
  rfl

theorem mark_refused_by_head {mark : Mark}
    (other : (writing.rest start).head? ≠ mark.text.head?) :
    writing.Refuses (Parser.mark mark.text) start := by
  have nonempty : mark.text ≠ [] := @Lexeme.Legal.nonempty (.mark mark) trivial
  apply Refuses.before_gap
  constructor
  rw [literal_refuses_iff]
  rintro ⟨rest, written⟩
  change mark.text ++ rest = writing.rest start at written
  rw [← written, List.head?_append_of_ne_nil _ nonempty] at other
  exact other rfl

theorem reserved_refused_by_head {keyword : Keyword}
    (other : (writing.rest start).head? ≠ keyword.letters.head?) :
    writing.Refuses (reserved keyword) start := by
  have nonempty : keyword.letters ≠ [] := @Lexeme.Legal.nonempty (.keyword keyword) trivial
  apply Refuses.before_gap
  constructor
  rw [Option.eq_none_iff_forall_ne_some]
  rintro ⟨taken, after⟩ read
  have rest : writing.rest start = keyword.letters ++ after.rest :=
    (bare_reserved_iff.mp read).1.rest
  rw [rest, List.head?_append_of_ne_nil _ nonempty] at other
  exact other rfl

section Lexemes

variable (legal : writing.Legal)

include legal

theorem mark_reads {mark : Mark} (found : writing.lexemes[start]? = some (.mark mark)) :
    writing.Reads (Parser.mark mark.text) start () (start + 1) := by
  obtain ⟨tail, meets⟩ := legal.meets found
  exact meets.reads (literal_iff.mpr meets.passes)

theorem reserved_reads {keyword : Keyword}
    (found : writing.lexemes[start]? = some (.keyword keyword)) :
    writing.Reads (reserved keyword) start () (start + 1) := by
  obtain ⟨tail, meets⟩ := legal.meets found
  exact meets.reads (bare_reserved_iff.mpr ⟨meets.passes, meets.breaks rfl⟩)

theorem ident_reads (found : writing.lexemes[start]? = some (.ident name)) :
    writing.Reads ident start ⟨writing.place start, name⟩ (start + 1) := by
  obtain ⟨tail, meets⟩ := legal.meets found
  exact meets.reads_token (bare_ident_iff.mpr ⟨meets.legal, meets.passes, meets.breaks rfl⟩)

theorem integer_reads (found : writing.lexemes[start]? = some (.integer name)) :
    writing.Reads integer start ⟨writing.place start, name⟩ (start + 1) := by
  obtain ⟨tail, meets⟩ := legal.meets found
  exact meets.reads_token (bare_integer_of_shaped meets.legal meets.passes (meets.breaks rfl))

theorem reference_reads (found : writing.lexemes[start]? = some (.reference name)) :
    writing.Reads reference start ⟨writing.place start, name⟩ (start + 1) := by
  obtain ⟨tail, meets⟩ := legal.meets found
  exact meets.reads_token (bare_reference_iff.mpr ⟨meets.legal, meets.passes, meets.breaks rfl⟩)

/-- The first character of the text at a lexeme is that of the lexeme. -/
theorem head_of_lexeme (found : writing.lexemes[start]? = some lexeme) :
    (writing.rest start).head? = lexeme.text.head? := by
  obtain ⟨tail, meets⟩ := legal.meets found
  rw [meets.text, List.head?_append_of_ne_nil _ meets.legal.nonempty]

theorem comparison_reads {comparison : Comparison}
    (found : writing.lexemes[start]? = some (.mark (.comparison comparison)))
    (later : writing.lexemes[start + 1]? = some lexeme) (apart : lexeme.text.head? ≠ some '=') :
    writing.Reads Parser.comparison start ⟨writing.place start, comparison⟩ (start + 1) := by
  obtain ⟨tail, meets⟩ := legal.meets found
  apply meets.reads_token
  apply bare_comparison_of_symbol meets.passes
  intro equal
  rcases meets.front '=' equal with opens | first
  · cases opens
  · rw [head_of_lexeme legal later] at first
    exact apart first

theorem mark_refused {mark : Mark} (found : writing.lexemes[start]? = some lexeme)
    (other : lexeme.text.head? ≠ mark.text.head?) :
    writing.Refuses (Parser.mark mark.text) start := by
  apply mark_refused_by_head
  rwa [head_of_lexeme legal found]

theorem reserved_refused_at_keyword {keyword word : Keyword}
    (found : writing.lexemes[start]? = some (.keyword word)) (different : word ≠ keyword) :
    writing.Refuses (reserved keyword) start := by
  apply Refuses.before_gap
  constructor
  rw [Option.eq_none_iff_forall_ne_some]
  rintro ⟨taken, after⟩ read
  have rest : writing.rest start = keyword.letters ++ after.rest :=
    (bare_reserved_iff.mp read).1.rest
  obtain ⟨tail, meets⟩ := legal.meets found
  exact different (keyword_unique ⟨tail, meets.text.symm⟩ ⟨after.rest, rest.symm⟩)

theorem integer_refused (found : writing.lexemes[start]? = some lexeme)
    (other : ∀ character ∈ lexeme.text.head?, character.isDigit = false) :
    writing.Refuses integer start := by
  apply Refuses.before_gap
  apply Refuses.located
  apply Refuses.named
  constructor
  apply bare_integer_refused
  intro character first
  apply other
  rwa [← head_of_lexeme legal found]

end Lexemes

theorem rest_at_end (writing : Writing) : writing.rest writing.lexemes.length = [] := by
  apply rest_of_no_entry
  rw [lexemes, List.length_map, List.getElem?_length]

theorem ident_refused_at_end (writing : Writing) :
    writing.Refuses ident writing.lexemes.length := by
  apply Refuses.before_gap
  apply Refuses.located
  apply Refuses.named
  constructor
  rw [Option.eq_none_iff_forall_ne_some]
  rintro ⟨name, after⟩ read
  obtain ⟨identifier, passes, -⟩ := bare_ident_iff.mp read
  have empty : [] = name.toList ++ after.rest := (rest_at_end writing).symm.trans passes.rest
  exact identifier.word.nonempty (List.append_eq_nil_iff.mp empty.symm).1

theorem cursor_at_end (writing : Writing) :
    writing.cursor writing.lexemes.length = ⟨Location.start.after writing.text, []⟩ := by
  have whole : writing.entries.take writing.lexemes.length = writing.entries := by
    rw [lexemes, List.length_map, List.take_length]
  rw [cursor, rest_at_end, place, whole, text]

theorem end_reads (writing : Writing) :
    writing.Reads endOfInput writing.lexemes.length (writing.place writing.lexemes.length)
      writing.lexemes.length := by
  have done : writing.Reads bareEndOfInput writing.lexemes.length () writing.lexemes.length := by
    constructor
    exact bare_end_of_input_iff.mpr ⟨rest_at_end writing, rfl⟩
  apply Reads.named
  apply reads_here.bind
  apply done.bind
  exact reads_pure

theorem cursor_at_front (bare : writing.margin = []) :
    writing.cursor 0 = .ofText writing.text := by
  rw [cursor, place, text, bare]
  rfl

/-- What reads all the lexemes reads the whole text. -/
theorem Reads.whole (reads : writing.Reads parser 0 item writing.lexemes.length)
    (bare : writing.margin = []) :
    parser.run (.ofText writing.text) =
      some (item, ⟨Location.start.after writing.text, []⟩) := by
  rw [← cursor_at_front bare, reads.run, cursor_at_end]

def Stops (writing : Writing) (index : Nat) (marks : List Mark) : Prop :=
  index = writing.lexemes.length ∨ ∃ mark ∈ marks, writing.lexemes[index]? = some (.mark mark)

theorem stops_at_mark {index : Nat} {mark : Mark}
    (found : writing.lexemes[index]? = some (.mark mark)) : writing.Stops index [mark] :=
  .inr ⟨mark, List.mem_singleton_self mark, found⟩

theorem Stops.mono {index : Nat} {marks more : List Mark} (stops : writing.Stops index marks)
    (fewer : marks ⊆ more) : writing.Stops index more := by
  rcases stops with ends | ⟨mark, member, found⟩
  · exact .inl ends
  · exact .inr ⟨mark, fewer member, found⟩

section Stops

variable {marks : List Mark} (legal : writing.Legal) (stops : writing.Stops start marks)

include legal stops

/-- What comes at a stop, if anything does, begins like one of its marks. -/
theorem head_at_stop : (writing.rest start).head? = none ∨
    ∃ mark ∈ marks, (writing.rest start).head? = mark.text.head? := by
  rcases stops with rfl | ⟨mark, member, found⟩
  · exact .inl (congrArg List.head? (rest_at_end writing))
  · exact .inr ⟨mark, member, head_of_lexeme legal found⟩

theorem mark_refused_at_stop {mark : Mark}
    (other : ∀ stop ∈ marks, stop.text.head? ≠ mark.text.head?) :
    writing.Refuses (Parser.mark mark.text) start := by
  have nonempty : mark.text ≠ [] := @Lexeme.Legal.nonempty (.mark mark) trivial
  apply mark_refused_by_head
  rcases head_at_stop legal stops with none | ⟨stop, member, front⟩
  · rw [none]
    exact fun empty => nonempty (List.head?_eq_none_iff.mp empty.symm)
  · rw [front]
    exact other stop member

theorem reserved_refused_at_stop {keyword : Keyword} :
    writing.Refuses (reserved keyword) start := by
  have nonempty : keyword.letters ≠ [] := @Lexeme.Legal.nonempty (.keyword keyword) trivial
  apply reserved_refused_by_head
  rcases head_at_stop legal stops with none | ⟨stop, -, front⟩
  · rw [none]
    exact fun empty => nonempty (List.head?_eq_none_iff.mp empty.symm)
  · rw [front]
    exact stop.head_ne_letters keyword

theorem comparison_refused_at_stop
    (other : ∀ stop ∈ marks, ∀ symbol ∈ ['>', '<', '=', '!'], stop.text.head? ≠ some symbol) :
    writing.Refuses Parser.comparison start := by
  apply Refuses.before_gap
  apply Refuses.located
  apply Refuses.named
  constructor
  apply bare_comparison_refused
  intro character first
  change character ∈ (writing.rest start).head? at first
  rcases head_at_stop legal stops with none | ⟨stop, member, front⟩
  · rw [none] at first
    cases first
  · rw [front] at first
    exact fun symbol => other stop member character symbol first

end Stops

theorem reserved_refused_at_mark (legal : writing.Legal) {keyword : Keyword} {mark : Mark}
    (found : writing.lexemes[start]? = some (.mark mark)) :
    writing.Refuses (reserved keyword) start :=
  reserved_refused_at_stop legal (stops_at_mark found)

end Writing

theorem read_front_of_run {Item : Type} {parser : Nat → Parser Item} {source : String}
    {item : Item} {after : Cursor}
    (read : (parser (boundOf source.toList)).run (.ofText source.toList) = some (item, after)) :
    readFront parser source = .ok item := by
  unfold Parser.run at read
  simp only [readFront, read]

end PacketSchema.Grammar
