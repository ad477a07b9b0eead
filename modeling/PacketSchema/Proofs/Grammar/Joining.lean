import PacketSchema.Proofs.Grammar.Accounting
import PacketSchema.Proofs.Grammar.Locality

/-!
# Texts one after another

Two texts that are read can be joined by a line feed, and the packets of the first are the first
packets of the whole, at the same places. Each packet of the first text is read as before, since
what follows its closing brace does not matter. The gap behind its last packet may end in a comment
that runs to the end of the first text: the line feed ends it.
-/

namespace PacketSchema.Grammar

open PacketSchema.Grammar.Parser

/-- Every lexeme has a character at least. -/
theorem Spells.length_le {text rest : List Char} {lexemes : List Lexeme}
    (spells : Spells text lexemes rest) : lexemes.length + rest.length ≤ text.length := by
  induction spells with
  | done => exact Nat.le_of_eq (Nat.zero_add _)
  | blank _ _ later =>
      rw [List.length_cons]
      omega
  | @line text _ _ _ later =>
      have shorter := List.length_dropWhile_le (· != '\n') text
      rw [List.length_cons, List.length_cons]
      omega
  | block _ _ later =>
      simp only [List.length_cons, List.length_append]
      omega
  | lexeme legal _ _ later =>
      have length := List.length_pos_iff.mpr legal.nonempty
      rw [List.length_cons, List.length_append]
      omega

/-- A comment to the end of its line leaves the gap at the line feed or at the end of the text,
and nothing but a line feed can be put there without going on with the comment. -/
theorem line_comment_ends (location : Location) (text : List Char) {more : List Char}
    (ends : Breaks (· != '\n') more) :
    afterGapFrom .lineComment location (text ++ more) =
      afterGap ⟨location.after (text.takeWhile (· != '\n')),
        text.dropWhile (· != '\n') ++ more⟩ := by
  induction text generalizing location with
  | nil =>
      cases more with
      | nil => rfl
      | cons first more =>
          have feed : first = '\n' := bne_eq_false_iff_eq.mp (ends first rfl)
          subst feed
          exact (gap_after_blank (by decide)).symm
  | cons character text later =>
      by_cases feed : character = '\n'
      · subst feed
        exact (gap_after_blank (by decide)).symm
      · have inside : (character != '\n') = true := bne_iff_ne.mpr feed
        rw [List.cons_append, afterGapFrom, if_neg feed, List.takeWhile_cons, if_pos inside,
          List.dropWhile_cons, if_pos inside, later, Location.after_cons]

/-- A gap before a line feed or the end of a text goes on behind any layout. -/
theorem Spells.gap_goes_on {text rest : List Char} (layout : Spells text [] rest)
    (location : Location) :
    ∃ place, ∀ more, Breaks (· != '\n') more →
      afterGap ⟨location, text ++ more⟩ = afterGap ⟨place, rest ++ more⟩ := by
  generalize nothing : ([] : List Lexeme) = lexemes at layout
  induction layout generalizing location with
  | done => exact ⟨location, fun _ _ => rfl⟩
  | @blank character _ _ _ blank _ goes =>
      obtain ⟨place, on⟩ := goes (location.next character) nothing
      exact ⟨place, fun more ends => (gap_after_blank blank).trans (on more ends)⟩
  | @line text _ _ _ goes =>
      obtain ⟨place, on⟩ := goes
        (((location.next '/').next '/').after (text.takeWhile (· != '\n'))) nothing
      exact ⟨place, fun more ends => (line_comment_ends _ text ends).trans (on more ends)⟩
  | @block body text _ _ whole _ goes =>
      obtain ⟨place, on⟩ := goes
        (((((location.next '/').next '*').after body).next '*').next '/') nothing
      refine ⟨place, fun more ends => ?_⟩
      have written : '/' :: '*' :: (body ++ '*' :: '/' :: text) ++ more =
          '/' :: '*' :: (body ++ '*' :: '/' :: (text ++ more)) := by simp
      rw [written]
      exact (block_comment_stops whole).trans (on more ends)
  | lexeme => cases nothing

section Gaps

variable {cursor : Cursor} (stops : Breaks opensGap (afterGap cursor).rest)

include stops

/-- A gap that reaches something solid or the end of the text ends there at any place, and goes on
from there with a line feed behind the text. -/
theorem gap_elsewhere (location : Location) :
    ∃ place, afterGap ⟨location, cursor.rest⟩ = ⟨place, (afterGap cursor).rest⟩ ∧
      ∀ more, afterGap ⟨location, cursor.rest ++ '\n' :: more⟩ =
        afterGap ⟨place, (afterGap cursor).rest ++ '\n' :: more⟩ := by
  obtain ⟨place, on⟩ := (spells_after_gap cursor).gap_goes_on location
  have whole := on [] (breaks_nil _)
  rw [List.append_nil, List.append_nil] at whole
  refine ⟨place, whole.trans (gap_stops stops), fun more => ?_⟩
  exact on ('\n' :: more) (breaks_cons (by decide))

theorem gap_before_feed (more : List Char) :
    afterGap ⟨cursor.location, cursor.rest ++ '\n' :: more⟩ =
      afterGap ⟨(afterGap cursor).location, (afterGap cursor).rest ++ '\n' :: more⟩ := by
  obtain ⟨place, reached, on⟩ := gap_elsewhere stops cursor.location
  have same : (afterGap cursor).location = place := congrArg Cursor.location reached
  rw [same]
  exact on more

end Gaps

inductive ReadsOn {Item : Type} (parser : Parser Item) : Cursor → List Item → Cursor → Prop where
  | nil {cursor : Cursor} : ReadsOn parser cursor [] cursor
  | cons {cursor middle last : Cursor} {item : Item} {items : List Item}
      (read : parser.run cursor = some (item, middle)) (later : ReadsOn parser middle items last) :
      ReadsOn parser cursor (item :: items) last

namespace ReadsOn

variable {Item : Type} {parser : Parser Item} {cursor middle last : Cursor}
  {items later : List Item} {bound : Nat}

theorem append (first : ReadsOn parser cursor items middle)
    (second : ReadsOn parser middle later last) : ReadsOn parser cursor (items ++ later) last := by
  induction first with
  | nil => exact second
  | cons read _ goes => exact .cons read (goes second)

theorem of_many (read : (many bound parser).run cursor = some (items, last)) :
    ReadsOn parser cursor items last := by
  induction bound generalizing cursor items with
  | zero =>
      cases read
      exact .nil
  | succ bound goes =>
      cases found : parser.run cursor with
      | none =>
          rw [many_refused found] at read
          cases read
          exact .nil
      | some answer =>
          rw [many_accepted found] at read
          obtain ⟨⟨rest, stop⟩, others, same⟩ := Option.map_eq_some_iff.mp read
          cases same
          exact .cons found (goes others)

theorem many (reads : ReadsOn parser cursor items last) (stops : parser.run last = none)
    (room : items.length ≤ bound) : (many bound parser).run cursor = some (items, last) := by
  induction reads generalizing bound with
  | nil =>
      cases bound with
      | zero => rfl
      | succ bound => exact many_refused stops
  | cons read _ goes =>
      obtain ⟨bound, rfl⟩ := Nat.exists_eq_add_one.mpr (Nat.zero_lt_of_lt room)
      rw [many_accepted read, goes stops (Nat.le_of_succ_le_succ room)]
      rfl

end ReadsOn

section Packets

variable {bound another : Nat} {cursor after last : Cursor} {found : Tree.Packet}
  {packets : List Tree.Packet}

theorem packet_begins (read : (packet bound).run cursor = some (found, after)) :
    Breaks opensGap cursor.rest ∧ cursor.rest ≠ [] := by
  rw [packet, run_named] at read
  obtain ⟨token, middle, first, -⟩ := bind_eq_some_iff.mp read
  obtain ⟨_, behind, word, -⟩ := bind_eq_some_iff.mp first
  rw [located, run_bind_some (run_here cursor)] at word
  obtain ⟨name, _, bare, -⟩ := bind_eq_some_iff.mp word
  rw [run_named] at bare
  obtain ⟨identifier, passes, -⟩ := bare_ident_iff.mp bare
  have legal : (Lexeme.ident name).Legal := identifier
  obtain ⟨opening, others, written⟩ := List.exists_cons_of_ne_nil legal.nonempty
  have solid : opensGap opening = false := legal.solid opening (by rw [written]; exact .head _)
  have text := passes.rest
  rw [show name.toList = opening :: others from written] at text
  rw [text]
  exact ⟨breaks_cons solid, List.cons_ne_nil _ _⟩

/-- What a packet is read from begins with a text up to its closing brace, and less is left. -/
theorem packet_enclosed (read : (packet bound).run cursor = some (found, after)) :
    (∃ front tail, cursor.rest = front ++ tail ∧ Enclosed 0 front) ∧
      after.rest.length < cursor.rest.length := by
  obtain ⟨_, ⟨draft, -, rfl⟩, spells⟩ := (packet_accounts bound).holds _ _ _ read
  have shorter := spells.length_le
  rw [Draft.Packet.lexemes, List.length_cons] at shorter
  exact ⟨spells.enclosed draft.closes, by omega⟩

section Placed

variable {place : Location} {text : List Char}
  (read : (packet bound).run ⟨place, text⟩ = some (found, after))
  (fits : text.length ≤ bound) (also : text.length ≤ another)
  (stops : Breaks opensGap after.rest)

include read fits also stops

/-- A packet is read wherever its text stands. -/
theorem packet_elsewhere (elsewhere : Location) :
    ∃ other shut, (packet another).run ⟨elsewhere, text⟩ = some (other, ⟨shut, after.rest⟩) := by
  obtain ⟨⟨front, tail, rfl, enclosed⟩, -⟩ := packet_enclosed read
  rw [List.length_append] at fits also
  have within : front.length ≤ bound := by omega
  have room : front.length ≤ another := by omega
  have places : False → place = elsewhere := False.elim
  obtain ⟨other, close, shut, beside, rfl, -⟩ :=
    Sides.packet_beside ⟨tail, tail, False⟩ enclosed within room places read
  obtain ⟨last, ends, -⟩ := gap_elsewhere stops shut
  exact ⟨other, last, beside.trans (congrArg (fun found => some (other, found)) ends)⟩

/-- A packet is read as it is when a line feed and another text are put behind its text. -/
theorem packet_before_feed (more : List Char) :
    (packet another).run ⟨place, text ++ '\n' :: more⟩ =
      some (found, afterGap ⟨after.location, after.rest ++ '\n' :: more⟩) := by
  obtain ⟨⟨front, tail, rfl, enclosed⟩, -⟩ := packet_enclosed read
  rw [List.length_append] at fits also
  have within : front.length ≤ bound := by omega
  have room : front.length ≤ another := by omega
  have places : True → place = place := fun _ => rfl
  obtain ⟨other, close, shut, beside, rfl, items, ends⟩ :=
    Sides.packet_beside ⟨tail, tail ++ '\n' :: more, True⟩ enclosed within room places read
  cases items trivial
  cases ends trivial
  rw [List.append_assoc]
  exact beside.trans (congrArg (fun last => some (found, last)) (gap_before_feed stops more))

end Placed

/-- Each packet has a character at least. -/
theorem ReadsOn.packets_length (reads : ReadsOn (packet bound) cursor packets last) :
    packets.length ≤ cursor.rest.length := by
  induction reads with
  | nil => exact Nat.zero_le _
  | cons read _ later =>
      have shorter := (packet_enclosed read).2
      rw [List.length_cons]
      omega

/-- Packets that are read to the end of a text begin with something solid, if there are any. -/
theorem ReadsOn.stops (reads : ReadsOn (packet bound) cursor packets last)
    (ended : last.rest = []) : Breaks opensGap cursor.rest := by
  cases reads with
  | nil =>
      rw [ended]
      exact breaks_nil opensGap
  | cons read _ => exact (packet_begins read).1

/-- Packets that are read to the end of a text are read wherever it stands, as many of them. -/
theorem ReadsOn.elsewhere (reads : ReadsOn (packet bound) cursor packets last)
    (ended : last.rest = []) (fits : cursor.rest.length ≤ bound)
    (also : cursor.rest.length ≤ another) (place : Location) :
    ∃ others stop, ReadsOn (packet another) ⟨place, cursor.rest⟩ others stop ∧ stop.rest = [] ∧
      others.length = packets.length := by
  induction reads generalizing place with
  | @nil cursor => exact ⟨[], ⟨place, cursor.rest⟩, .nil, ended, rfl⟩
  | @cons cursor middle last packet packets read later goes =>
      have shorter := (packet_enclosed read).2
      obtain ⟨other, shut, first⟩ := packet_elsewhere read fits also (later.stops ended) place
      obtain ⟨others, stop, rest, nothing, many⟩ := goes ended (by omega) (by omega) shut
      exact ⟨other :: others, stop, .cons first rest, nothing, by simp [many]⟩

/-- Packets that are read to the end of a text are read as they are when a line feed and another
text are put behind it, and the gap goes on behind them. -/
theorem ReadsOn.before_feed (reads : ReadsOn (packet bound) cursor packets last)
    (ended : last.rest = []) (fits : cursor.rest.length ≤ bound)
    (also : cursor.rest.length ≤ another) (more : List Char) :
    ReadsOn (packet another) (afterGap ⟨cursor.location, cursor.rest ++ '\n' :: more⟩) packets
      (afterGap ⟨last.location, '\n' :: more⟩) := by
  induction reads with
  | nil =>
      rw [ended]
      exact .nil
  | @cons cursor middle last packet packets read later goes =>
      have shorter := (packet_enclosed read).2
      obtain ⟨begins, nonempty⟩ := packet_begins read
      have solid : Breaks opensGap (cursor.rest ++ '\n' :: more) := by
        unfold Breaks
        rwa [List.head?_append_of_ne_nil _ nonempty]
      rw [afterGap, gap_stops solid]
      exact .cons (packet_before_feed read fits also (later.stops ended) more)
        (goes ended (by omega) (by omega))

end Packets

theorem margin_length (text : List Char) :
    (afterGap (.ofText text)).rest.length ≤ text.length := by
  have shorter := (spells_after_gap (.ofText text)).length_le
  rwa [List.length_nil, Nat.zero_add] at shorter

/-- A text that is read is a gap and packets to its end. -/
theorem module_reads {bound : Nat} {text : List Char} {tree : Tree.Module} {after : Cursor}
    (accepted : (module bound).run (.ofText text) = some (tree, after)) :
    ReadsOn (packet bound) (afterGap (.ofText text)) tree.packets after ∧ after.rest = [] := by
  obtain ⟨read, ended, -⟩ := module_iff.mp accepted
  exact ⟨.of_many read, ended⟩

theorem module_of_reads {bound : Nat} {text : List Char} {packets : List Tree.Packet}
    {last : Cursor} (reads : ReadsOn (packet bound) (afterGap (.ofText text)) packets last)
    (ended : last.rest = []) (room : text.length ≤ bound) :
    (module bound).run (.ofText text) = some (⟨packets, last.location⟩, last) := by
  have stops : (packet bound).run last = none := by
    rw [Option.eq_none_iff_forall_ne_some]
    rintro ⟨found, after⟩ read
    exact (packet_begins read).2 ended
  have fewer := reads.packets_length.trans (margin_length text)
  exact module_iff.mpr ⟨reads.many stops (fewer.trans room), ended, rfl⟩

/-- With a line feed between them, two texts that are read are read together. The packets of the
first one come first, and they are the same packets at the same places. -/
theorem parse_joined {first second : String} {early late : Tree.Module}
    (parsed : parse first = .ok early) (also : parse second = .ok late) :
    ∃ later finish, parse (first ++ "\n" ++ second) = .ok ⟨early.packets ++ later, finish⟩ ∧
      later.length = late.packets.length := by
  obtain ⟨last, accepted⟩ := parse_eq_ok_iff.mp parsed
  obtain ⟨stop, alike⟩ := parse_eq_ok_iff.mp also
  obtain ⟨reads, ended⟩ := module_reads accepted
  obtain ⟨others, finished⟩ := module_reads alike
  have front := margin_length first.toList
  have back := margin_length second.toList
  generalize joined : first.toList ++ '\n' :: second.toList = whole
  have length : boundOf whole = first.toList.length + second.toList.length + 2 := by
    rw [← joined, boundOf, List.length_append, List.length_cons]
    omega
  have room : (afterGap (.ofText first.toList)).rest.length ≤ boundOf whole := by omega
  have space : (afterGap (.ofText second.toList)).rest.length ≤ boundOf whole := by omega
  -- The first packets, and the gap behind them up to the second text.
  have margin := gap_before_feed (reads.stops ended) second.toList
  have begun := reads.before_feed ended (Nat.le_succ_of_le front) room second.toList
  rw [← margin] at begun
  -- The packets of the second text, wherever it begins.
  obtain ⟨place, resumed, -⟩ := gap_elsewhere (others.stops finished) (last.location.next '\n')
  obtain ⟨later, final, rest, done, many⟩ :=
    others.elsewhere finished (Nat.le_succ_of_le back) space place
  have reached : afterGap ⟨last.location, '\n' :: second.toList⟩ =
      ⟨place, (afterGap (.ofText second.toList)).rest⟩ :=
    (gap_after_blank (by decide)).trans resumed
  rw [reached] at begun
  have complete : ReadsOn (packet (boundOf whole)) (afterGap (.ofText whole))
      (early.packets ++ later) final := by
    rw [← joined] at begun rest ⊢
    exact begun.append rest
  have text : (first ++ "\n" ++ second).toList = whole := by
    rw [← joined]
    simp
  refine ⟨later, final.location, ?_, many⟩
  rw [parse_eq_ok_iff, text]
  exact ⟨final, module_of_reads complete done (Nat.le_succ _)⟩

end PacketSchema.Grammar
