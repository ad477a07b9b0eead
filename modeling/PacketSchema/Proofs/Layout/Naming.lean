import PacketSchema.Proofs.Layout.Places
import PacketSchema.Proofs.Numbers.Answered
import PacketSchema.Proofs.Walk.Visits

/-!
# No field hides another one

A field is refused when its identifier is seen from its scope, so it differs from every field that
is declared further up by then. A field that is declared further up later may take its name:
nothing looks down. What is left is decided by when scopes are closed. A block is walked while its
field is the last one, so what it declares differs from that field and from those before; a packet
is closed before another one derives from it, so the names of a packet differ from all names of
its ancestors.
-/

namespace PacketSchema

open Schema (Coherent Enters Entered Exits Nests Reaches Spares)

namespace ScopeForest

/-- What is declared in a scope or below it shares no identifier with what is declared above. -/
def Clear (forest : ScopeForest) (below : ScopeId) : Prop :=
  ∀ inner, below ∈ forest.lineage inner → ∀ outer ∈ forest.lineage below, outer ≠ below →
    ∀ ident ∈ forest.identsOf inner, ident ∉ forest.identsOf outer

/-- What is declared in a block or below it shares no identifier with the field of the block and
those before it. -/
def Unhidden (forest : ScopeForest) : Prop :=
  ∀ outer below inner place holder, forest.Descends outer below inner →
    (forest.fieldsOf outer)[place]? = some holder → below ∈ holder.blocks →
      ∀ ident ∈ forest.identsOf inner, ident ∉ (forest.identsOf outer).take (place + 1)

variable {forest grown : ScopeForest} {id ancestor target : ScopeId} {field : Field}
  {ident : String} {index : Nat}

theorem issued_of_ident (listed : ident ∈ forest.identsOf id) : forest.Issued id := by
  by_contra absent
  rw [identsOf, fields_of_not_issued absent] at listed
  cases listed

theorem Ordered.unseen_in_lineage (ordered : forest.Ordered)
    (absent : forest.lookup id ident = .ok none) (member : ancestor ∈ forest.lineage id) :
    ident ∉ forest.identsOf ancestor := by
  intro listed
  obtain ⟨field, declared, same⟩ := List.mem_map.mp listed
  obtain ⟨scope, found, inside⟩ := scope_of_field declared
  exact ordered.ident_ne_of_unseen absent member found inside same

theorem idents_appended_other (accepted : forest.append target field = .ok grown)
    (other : id ≠ target) : grown.identsOf id = forest.identsOf id := by
  rw [identsOf, fields_appended_other accepted other, identsOf]

theorem ident_appended_cases (accepted : forest.append target field = .ok grown)
    (listed : ident ∈ grown.identsOf id) :
    ident ∈ forest.identsOf id ∨ id = target ∧ ident = field.ident := by
  by_cases here : id = target
  · subst here
    rw [idents_appended accepted] at listed
    rcases List.mem_append.mp listed with old | last
    · exact .inl old
    · exact .inr ⟨rfl, List.mem_singleton.mp last⟩
  · rw [idents_appended_other accepted here] at listed
    exact .inl listed

/-- Up to a field that was there, a scope declares what it declared. -/
theorem idents_appended_take (accepted : forest.append target field = .ok grown)
    {present : Field} (found : (forest.fieldsOf id)[index]? = some present) :
    (grown.identsOf id).take (index + 1) = (forest.identsOf id).take (index + 1) := by
  by_cases here : id = target
  · subst here
    obtain ⟨bound, _⟩ := List.getElem?_eq_some_iff.mp found
    rw [idents_appended accepted, List.take_append_of_le_length]
    rw [identsOf, List.length_map]
    exact bound
  · rw [idents_appended_other accepted here]

end ScopeForest

namespace Schema

open ScopeForest (Clear Descends Unhidden)

variable {before middle entered walked after : Schema} {scope fresh below : ScopeId}
  {field : Field} {ident : String} {arm : Arm}

theorem clear_of_same (coherent : before.Coherent) (reaches : Reaches before after)
    (issued : before.forest.Issued below)
    (same : ∀ id, after.forest.identsOf id = before.forest.identsOf id)
    (clear : before.forest.Clear below) : after.forest.Clear below := by
  intro inner under outer above different ident listed
  rw [coherent.lineage_kept reaches issued] at above
  rw [same] at listed ⊢
  rw [coherent.lineage_kept reaches (ScopeForest.issued_of_ident listed)] at under
  exact clear inner under outer above different ident listed

theorem unhidden_created (coherent : before.Coherent) (reaches : Reaches before after)
    (same : ∀ id, after.forest.fieldsOf id = before.forest.fieldsOf id)
    (unhidden : before.forest.Unhidden) : after.forest.Unhidden := by
  intro outer below inner place holder descends declared names ident listed
  rw [same] at declared
  rw [ScopeForest.identsOf, same] at listed ⊢
  have issued := ScopeForest.issued_of_ident listed
  exact unhidden outer below inner place holder
    (descends_reflected coherent reaches issued descends) declared names ident listed

/-- A field that is accepted in a scope shares its name with nothing above. -/
theorem clear_declared (coherent : before.Coherent) (reaches : Reaches before after)
    (accepted : before.forest.append scope field = .ok after.forest)
    (clear : before.forest.Clear scope) : after.forest.Clear scope := by
  have unseen := (ScopeForest.append_eq_ok accepted).1
  intro inner under outer above different ident listed
  rw [coherent.lineage_kept reaches (ScopeForest.issued_of_lookup unseen)] at above
  rw [ScopeForest.idents_appended_other accepted different]
  rcases ScopeForest.ident_appended_cases accepted listed with old | ⟨_, rfl⟩
  · rw [coherent.lineage_kept reaches (ScopeForest.issued_of_ident old)] at under
    exact clear inner under outer above different ident old
  · exact coherent.ordered.unseen_in_lineage unseen above

/-- A field is declared, and nothing was declared in its blocks. -/
theorem unhidden_declared (coherent : before.Coherent) (reaches : Reaches before after)
    (accepted : before.forest.append scope field = .ok after.forest)
    (bare : ∀ block ∈ field.blocks, ∀ id, block ∈ before.forest.lineage id →
      before.forest.fieldsOf id = [])
    (unhidden : before.forest.Unhidden) : after.forest.Unhidden := by
  have unseen := (ScopeForest.append_eq_ok accepted).1
  intro outer below inner place holder descends declared names ident listed
  have issued : before.forest.Issued inner := by
    rcases ScopeForest.ident_appended_cases accepted listed with old | ⟨rfl, _⟩
    · exact ScopeForest.issued_of_ident old
    · exact ScopeForest.issued_of_lookup unseen
  have above := descends_reflected coherent reaches issued descends
  have higher := coherent.ordered.mem_lineage_trans
    (coherent.ordered.parent_mem_lineage above.linked) above.member
  rcases ScopeForest.field_appended_cases accepted declared with was | ⟨here, _, rfl⟩
  · rw [ScopeForest.idents_appended_take accepted was]
    rcases ScopeForest.ident_appended_cases accepted listed with old | ⟨rfl, rfl⟩
    · exact unhidden outer below inner place holder above was names ident old
    · intro earlier
      exact coherent.ordered.unseen_in_lineage unseen higher (List.mem_of_mem_take earlier)
  · have different : inner ≠ scope := by
      rintro rfl
      rw [here] at above
      exact Nat.lt_irrefl _ (above.outer_lt coherent.ordered)
    rw [ScopeForest.idents_appended_other accepted different, ScopeForest.identsOf,
      bare below names inner above.member] at listed
    cases listed

/-- A union takes an arm; what is declared in its block is told apart from all that is above. -/
theorem unhidden_arm_added (coherent : before.Coherent) (reaches : Reaches before after)
    (accepted : before.forest.appendArm scope ident arm = .ok after.forest)
    (inside : before.forest.parent? arm.scope = some scope)
    (clear : before.forest.Clear arm.scope) (unhidden : before.forest.Unhidden) :
    after.forest.Unhidden := by
  intro outer below inner place holder descends declared names name listed
  rw [ScopeForest.idents_arm_added accepted] at listed ⊢
  have issued := ScopeForest.issued_of_ident listed
  have above := descends_reflected coherent reaches issued descends
  rcases ScopeForest.field_arm_added_cases accepted (coherent.idents_distinct scope) declared with
    was | ⟨rfl, choice, _, was, rfl⟩
  · exact unhidden outer below inner place holder above was names name listed
  · rw [Field.blocks, List.map_append] at names
    rcases List.mem_append.mp names with earlier | last
    · exact unhidden outer below inner place _ above was earlier name listed
    · cases List.mem_singleton.mp last
      intro taken
      have different : outer ≠ arm.scope := by
        intro same
        have smaller := coherent.ordered arm.scope outer inside
        rw [same] at smaller
        exact Nat.lt_irrefl _ smaller
      exact clear inner above.member outer (coherent.ordered.parent_mem_lineage inside) different
        name listed (List.mem_of_mem_take taken)

theorem Entered.fresh_clear (opened : Entered scope before entered) (coherent : before.Coherent) :
    entered.forest.Clear ⟨before.forest.size⟩ := by
  have enteredCoherent := coherent.reached opened.spares.reaches
  intro inner under outer above different ident listed
  have issued := ScopeForest.issued_of_ident listed
  have bound := enteredCoherent.ordered.mem_lineage_le inner _ under
  rw [ScopeForest.Issued, opened.size] at issued
  have same : inner = ⟨before.forest.size⟩ := by
    cases inner
    simp only [ScopeId.mk.injEq] at bound issued ⊢
    omega
  rw [ScopeForest.identsOf, same, opened.bare] at listed
  cases listed

theorem Enters.unhidden (enters : Enters scope before entered) (coherent : before.Coherent)
    (issued : before.forest.Issued scope) (unhidden : before.forest.Unhidden)
    (clear : before.forest.Clear scope) :
    entered.forest.Unhidden ∧ entered.forest.Clear scope := by
  have created := spares_created issued
  have same := ScopeForest.fields_created before.forest (some scope)
  have first := unhidden_created coherent created.reaches same unhidden
  have stillClear := clear_of_same coherent created.reaches issued
    (fun id => congrArg (List.map Field.ident) (same id)) clear
  cases enters with
  | plain => exact ⟨first, stillClear⟩
  | declaring accepted grounded blocks =>
      have openedCoherent := coherent.reached created.reaches
      obtain ⟨reaches, _, bare⟩ := declaring_spec coherent issued accepted grounded blocks
      have appended := (append_field_eq_ok accepted).1
      exact ⟨unhidden_declared openedCoherent reaches appended bare first,
        clear_declared openedCoherent reaches appended stillClear⟩

/-- What is walked at a fresh scope and shares no name with what is above it keeps the scopes
clear that were there. -/
theorem clear_regained (coherent : before.Coherent) (inside : Nests fresh before after)
    (freshIssued : before.forest.Issued fresh) (issued : before.forest.Issued below)
    (older : below.index < fresh.index) (clear : before.forest.Clear below)
    (apart : after.forest.Clear fresh) : after.forest.Clear below := by
  have spares := inside.spares coherent freshIssued
  have afterCoherent := coherent.reached spares.reaches
  intro inner under outer above different ident listed
  have aboveBefore := above
  rw [coherent.lineage_kept spares.reaches issued] at aboveBefore
  have outerIssued := coherent.ordered.issued_of_mem_lineage issued aboveBefore
  have bound := coherent.ordered.mem_lineage_le below outer aboveBefore
  have notFresh : outer ≠ fresh := by
    rintro rfl
    exact Nat.not_lt_of_le bound older
  by_cases inFresh : fresh ∈ after.forest.lineage inner
  · have onTheWay := afterCoherent.ordered.mem_lineage_of_le under inFresh (Nat.le_of_lt older)
    have reached := afterCoherent.ordered.mem_lineage_trans above onTheWay
    exact apart inner inFresh outer reached notFresh ident listed
  · have old : before.forest.Issued inner := by
      by_contra new
      exact inFresh (inside.created_below coherent freshIssued new
        (ScopeForest.issued_of_ident listed))
    have other : inner ≠ fresh := by
      rintro rfl
      exact inFresh (ScopeForest.mem_lineage_self _ _)
    rw [ScopeForest.identsOf, spares.fields old other] at listed
    rw [ScopeForest.identsOf, spares.fields outerIssued notFresh]
    rw [coherent.lineage_kept spares.reaches old] at under
    exact clear inner under outer aboveBefore different ident listed

/-- What is walked at a clear scope leaves it clear, and hides nothing. -/
theorem Nests.unhidden (nests : Nests scope before after) (coherent : before.Coherent)
    (issued : before.forest.Issued scope) (unhidden : before.forest.Unhidden)
    (clear : before.forest.Clear scope) :
    after.forest.Unhidden ∧ after.forest.Clear scope := by
  induction nests with
  | done => exact ⟨unhidden, clear⟩
  | @declare scope before middle after field walk accepted grounded blockless earlier =>
      obtain ⟨middleCoherent, _⟩ := walk.coherent coherent issued
      obtain ⟨first, stillClear⟩ := earlier coherent issued unhidden clear
      have reaches := (spares_declared accepted grounded (by simp [blockless])).reaches
      have appended := (append_field_eq_ok accepted).1
      exact ⟨unhidden_declared middleCoherent reaches appended (by simp [blockless]) first,
        clear_declared middleCoherent reaches appended stillClear⟩
  | @block scope before middle entered walked after walk enters inside leaves earlier inner =>
      obtain ⟨middleCoherent, middleIssued⟩ := walk.coherent coherent issued
      obtain ⟨first, stillClear⟩ := earlier coherent issued unhidden clear
      have entry := enters.opens middleCoherent middleIssued
      have enteredCoherent := middleCoherent.reached entry.spares.reaches
      obtain ⟨atEntry, entryClear⟩ :=
        enters.unhidden middleCoherent middleIssued first stillClear
      obtain ⟨atWalked, childClear⟩ := inner enteredCoherent entry.issued_child atEntry
        (entry.fresh_clear middleCoherent)
      have walkedClear := clear_regained enteredCoherent inside entry.issued_child
        (Reaches.parent_kept entry.spares.reaches middleCoherent.formed middleIssued).1
        middleIssued entryClear childClear
      have walkedSpares := inside.spares enteredCoherent entry.issued_child
      have whole := entry.spares.inner middleCoherent middle.new_not_issued walkedSpares
      have walkedCoherent := middleCoherent.reached whole.reaches
      have below := (Reaches.parent_kept walkedSpares.reaches enteredCoherent.formed
        entry.issued_child).2.trans entry.below
      have last := (leaves.spares middleCoherent whole.reaches below).1
      cases leaves with
      | plain => exact ⟨atWalked, walkedClear⟩
      | joining accepted grounded block ends =>
          have appended := (append_arm_eq_ok accepted).1
          rw [← block] at below childClear
          have walkedIssued := (Reaches.parent_kept whole.reaches middleCoherent.formed
            middleIssued).1
          exact ⟨unhidden_arm_added walkedCoherent last.reaches appended below childClear atWalked,
            clear_of_same walkedCoherent last.reaches walkedIssued
              (ScopeForest.idents_arm_added appended) walkedClear⟩

def fieldNames (schema : Schema) (id : PacketId) : List String :=
  ((schema.packet? id).map fun packet => schema.forest.identsOf packet.scope).getD []

/-- What a packet and its ancestors declare has no name twice. -/
theorem ancestors_nodup {schema : Schema} (coherent : schema.Coherent)
    (derive : ∀ packet ∈ schema.packets, schema.Derives packet)
    (clear : ∀ packet ∈ schema.packets, schema.forest.Clear packet.scope) (steps : Nat)
    (id : PacketId) (packet : Packet) (found : schema.packet? id = some packet)
    (above : List PacketId) (answered : schema.ancestorsWithin steps id = .ok above) :
    ((id :: above).flatMap schema.fieldNames).Nodup ∧
      ∀ name ∈ above.flatMap schema.fieldNames, ∃ outer ∈ schema.forest.lineage packet.scope,
        outer ≠ packet.scope ∧ name ∈ schema.forest.identsOf outer := by
  induction steps generalizing id packet above with
  | zero => cases answered
  | succ steps further =>
      have own : schema.fieldNames id = schema.forest.identsOf packet.scope := by
        rw [fieldNames, found]
        rfl
      have member := mem_of_packet found
      have derives := derive packet member
      rw [ancestorsWithin, found] at answered
      simp only at answered
      split at answered
      next free =>
        cases answered
        refine ⟨?_, fun name listed => by cases listed⟩
        rw [List.flatMap_singleton, own]
        exact coherent.idents_distinct _
      next parent written =>
        split at answered
        next => cases answered
        next rest deeper =>
          cases answered
          unfold Derives at derives
          rw [written] at derives
          obtain ⟨record, known, below, _⟩ := derives
          obtain ⟨distinct, higher⟩ := further parent record known rest deeper
          have parentNames : schema.fieldNames parent = schema.forest.identsOf record.scope := by
            rw [fieldNames, known]
            rfl
          have smaller := coherent.ordered packet.scope record.scope below
          have upward : ∀ name ∈ (parent :: rest).flatMap schema.fieldNames,
              ∃ outer ∈ schema.forest.lineage packet.scope,
                outer ≠ packet.scope ∧ name ∈ schema.forest.identsOf outer := by
            intro name listed
            rw [List.flatMap_cons, List.mem_append] at listed
            rcases listed with first | later
            · refine ⟨record.scope, coherent.ordered.parent_mem_lineage below, ?_, ?_⟩
              · intro same
                rw [same] at smaller
                exact Nat.lt_irrefl _ smaller
              · rwa [parentNames] at first
            · obtain ⟨outer, inLineage, _, declared⟩ := higher name later
              refine ⟨outer, coherent.ordered.mem_lineage_parent below inLineage, ?_, declared⟩
              have bound := coherent.ordered.mem_lineage_le _ outer inLineage
              rintro rfl
              omega
          refine ⟨?_, upward⟩
          rw [List.flatMap_cons]
          refine List.nodup_append.mpr ⟨?_, distinct, ?_⟩
          · rw [own]
            exact coherent.idents_distinct _
          · intro name declared other listed same
            rw [own] at declared
            rw [← same] at listed
            obtain ⟨outer, inLineage, different, there⟩ := upward name listed
            exact clear packet member packet.scope (ScopeForest.mem_lineage_self _ _) outer
              inLineage different name declared there

/-- What the visits of packets leave: nothing is hidden, the scope of each packet, refused ones
not left out, is clear, and registered packets have such a scope. -/
structure ClearSoFar (scopes : List ScopeId) (schema : Schema) : Prop where
  unhidden : schema.forest.Unhidden
  clear : ∀ scope ∈ scopes, schema.forest.Issued scope ∧ schema.forest.Clear scope
  packets : ∀ packet ∈ schema.packets, packet.scope ∈ scopes

theorem clear_so_far_empty : ClearSoFar [] .empty where
  unhidden outer below inner place holder _ declared := by
    have none : Schema.empty.forest.fieldsOf outer = [] :=
      ScopeForest.fields_of_not_issued (Nat.not_lt_zero _)
    rw [none] at declared
    cases declared
  clear scope member := by cases member
  packets packet member := by cases member

end Schema

namespace Visit

open Schema (ClearSoFar)

variable (visit : Visit) {failFast : Bool}

/-- The scope of a packet is new, and nothing is declared there yet. -/
theorem opened_clear (coherent : visit.before.schema.Coherent) :
    visit.opened.schema.forest.Clear visit.scope := by
  have openedCoherent := coherent.reached visit.opened_reaches
  intro inner under outer above different ident listed
  rw [ScopeForest.identsOf, visit.opened_fields] at listed
  have issued := ScopeForest.issued_of_ident listed
  have bound := openedCoherent.ordered.mem_lineage_le inner _ under
  exact absurd issued (Nat.not_lt_of_le bound)

theorem clear_so_far {scopes : List ScopeId} (coherent : visit.before.schema.Coherent)
    (soFar : ClearSoFar scopes visit.before.schema) :
    ClearSoFar (scopes ++ [visit.scope]) (visit.after failFast).schema := by
  have openedCoherent := coherent.reached visit.opened_reaches
  have walk := visit.walk_nests failFast coherent
  have spares := walk.spares openedCoherent visit.opened_issued
  have first := Schema.unhidden_created coherent visit.opened_reaches visit.opened_fields
    soFar.unhidden
  obtain ⟨unhidden, own⟩ := walk.unhidden openedCoherent visit.opened_issued first
    (visit.opened_clear coherent)
  have kept : ∀ {id : ScopeId}, visit.opened.schema.forest.Issued id →
      (visit.walked failFast).schema.forest.Issued id :=
    fun issued => (Reaches.parent_kept spares.reaches openedCoherent.formed issued).1
  constructor
  · rw [visit.after_forest]
    exact unhidden
  · intro scope member
    rw [visit.after_forest]
    rcases List.mem_append.mp member with earlier | last
    · obtain ⟨issued, clear⟩ := soFar.clear scope earlier
      have openedIssued := (Reaches.parent_kept visit.opened_reaches coherent.formed issued).1
      have stillClear := Schema.clear_of_same coherent visit.opened_reaches issued
        (fun id => congrArg (List.map Field.ident) (visit.opened_fields id)) clear
      exact ⟨kept openedIssued, Schema.clear_regained openedCoherent walk visit.opened_issued
        openedIssued issued stillClear own⟩
    · cases List.mem_singleton.mp last
      exact ⟨kept visit.opened_issued, own⟩
  · intro packet member
    rcases (visit.registers failFast).packet_origin member with ⟨children, old⟩ | ⟨children, rfl⟩
    · rw [spares.packets] at old
      exact List.mem_append_left _ (soFar.packets { packet with children } old)
    · exact List.mem_append_right _ (List.mem_singleton.mpr visit.record_scope)

end Visit

/-- No field hides another one that stands in a layout before it: not one of a packet or of its
ancestors, not one that stands before the block it is in, nor one of a packet that its own packet
derives from. The scopes of packets are those of the given list. -/
structure Schema.NamesApart (schema : Schema) (packetScopes : List ScopeId) : Prop where
  registered : ∀ packet ∈ schema.packets, packet.scope ∈ packetScopes
  packets : ∀ id, schema.Registered id → ∃ above, schema.ancestors id = .ok above ∧
    ((id :: above).flatMap schema.fieldNames).Nodup
  blocks : ∀ outer below inner (place : Nat) (holder : Field),
    schema.forest.Descends outer below inner →
      (schema.forest.fieldsOf outer)[place]? = some holder → below ∈ holder.blocks →
        ∀ field ∈ schema.forest.fieldsOf inner,
          field.ident ∉ (schema.forest.identsOf outer).take (place + 1)
  derived : ∀ outer below inner, schema.forest.Descends outer below inner →
    below ∈ packetScopes → ∀ field ∈ schema.forest.fieldsOf inner,
      field.ident ∉ schema.forest.identsOf outer

theorem Schema.ClearSoFar.names_apart {scopes : List ScopeId} {schema : Schema}
    (soFar : ClearSoFar scopes schema) (reaches : Reaches .empty schema) :
    schema.NamesApart scopes where
  registered := soFar.packets
  packets id registered := by
    have coherent := Schema.coherent_empty.reached reaches
    have numbered := coherent.numbered.well_numbered coherent.formed coherent.grounded
    obtain ⟨above, answered⟩ := numbered.answers.ancestors id registered
    obtain ⟨packet, found⟩ := Schema.packet_of_registered registered
    refine ⟨above, answered, ?_⟩
    exact (Schema.ancestors_nodup coherent (Reaches.all_derive reaches)
      (fun packet member => (soFar.clear _ (soFar.packets packet member)).2) _ id packet found
      above answered).1
  blocks outer below inner place holder descends declared names field member :=
    soFar.unhidden outer below inner place holder descends declared names field.ident
      (List.mem_map_of_mem member)
  derived outer below inner descends listed field member := by
    have coherent := Schema.coherent_empty.reached reaches
    have smaller := coherent.ordered below outer descends.linked
    have different : outer ≠ below := by
      rintro rfl
      exact Nat.lt_irrefl _ smaller
    exact (soFar.clear below listed).2 inner descends.member outer
      (coherent.ordered.parent_mem_lineage descends.linked) different field.ident
      (List.mem_map_of_mem member)

/-- Whatever is compiled, fast or not and with whatever faults, no field hides one that is declared
before it in an enclosing layout. The scopes of packets are those that the visits open, whether
the packet is registered then or refused. -/
theorem compile_names_apart (failFast : Bool) {source : String} {tree : Tree.Module}
    (parsed : Grammar.parse source = .ok tree) :
    ∃ compilation, compile failFast source = .ok compilation ∧
      compilation.schema.NamesApart ((tree.visits failFast).map Visit.scope) := by
  have compiled : compile failFast source = .ok ⟨_, _⟩ := compile_eq_build parsed
  refine ⟨_, compiled, ?_⟩
  have soFar := tree.induction
    (motive := fun seen build => Schema.ClearSoFar (seen.map Visit.scope) build.schema)
    failFast Schema.clear_so_far_empty (fun seen visit coherent earlier => by
      rw [List.map_append, List.map_singleton]
      exact visit.clear_so_far coherent earlier)
  exact soFar.names_apart (compile_reaches compiled)

/-- In this text a block repeats a name of the packet around it, and a packet is defined twice;
three packets are visited. -/
theorem refused_text_names_apart :
    ∃ tree compilation, Grammar.parse refusedText = .ok tree ∧
      compile false refusedText = .ok compilation ∧
      (tree.visits false).map Visit.scope = [⟨0⟩, ⟨2⟩, ⟨3⟩] ∧
      compilation.schema.packets.map Packet.scope = [⟨0⟩, ⟨3⟩] ∧
      compilation.schema.NamesApart ((tree.visits false).map Visit.scope) := by
  obtain ⟨tree, parsed⟩ := refused_text_parsed
  obtain ⟨compilation, compiled, apart⟩ := compile_names_apart false parsed
  have visited : (Grammar.parse refusedText).toOption.any (fun tree =>
      (tree.visits false).map Visit.scope = [⟨0⟩, ⟨2⟩, ⟨3⟩]) = true := by decide +kernel
  have registered : (compile false refusedText).toOption.any (fun compilation =>
      compilation.schema.packets.map Packet.scope = [⟨0⟩, ⟨3⟩]) = true := by decide +kernel
  rw [parsed] at visited
  rw [compiled] at registered
  exact ⟨tree, compilation, parsed, compiled, of_decide_eq_true visited,
    of_decide_eq_true registered, apart⟩

end PacketSchema
