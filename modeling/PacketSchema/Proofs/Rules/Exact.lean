import PacketSchema.Proofs.Rules.Packets

/-!
# The checker is exact

A text that can be read compiles without a diagnostic exactly where its tree is lawful. Packet by
packet, the walk succeeds exactly where the rules hold for the packet among those before it; that
the rules of a whole text are those of its packets, each among those before it, is a matter of
lists and not of schemas.
-/

namespace PacketSchema

namespace Schema

variable {schema grown : Schema} {id child other : PacketId} {record parent : Packet}
  {condition : Option Condition} {earlier joined : List Tree.Packet} {packet : Tree.Packet}

/-- A packet after an edge was added is the parent with its new edge, or as it was. -/
theorem packet_linked (accepted : schema.appendChild id child condition = .ok grown)
    (parentFound : schema.packet? id = some parent) {found : Packet}
    (located : grown.packet? other = some found) :
    other = id ∧ found = { parent with children := parent.children ++ [⟨child, condition⟩] } ∨
      other ≠ id ∧ schema.packet? other = some found := by
  rcases link_spec accepted parentFound with ⟨_, _, linked, kept⟩
  by_cases same : other = id
  · rw [same, linked] at located
    exact .inl ⟨same, (Option.some.inj located).symm⟩
  · rw [kept other same] at located
    exact .inr ⟨same, located⟩

theorem idents_linked (accepted : schema.appendChild id child condition = .ok grown) :
    grown.idents = schema.idents :=
  packets_map_linked Packet.ident (fun _ _ => rfl) accepted

theorem Declares.linked (declares : schema.Declares earlier)
    (accepted : schema.appendChild id child condition = .ok grown)
    (parentFound : schema.packet? id = some parent) : grown.Declares earlier := by
  have names := idents_linked accepted
  constructor
  · rw [names]
    exact declares.distinct
  · rw [names]
    exact declares.named
  · intro number found located
    have sameForest : grown.forest = schema.forest := by
      rcases append_child_eq_ok accepted with ⟨_, _, _, rfl⟩
      rfl
    rw [sameForest]
    rcases packet_linked accepted parentFound located with ⟨rfl, rfl⟩ | old
    · exact declares.sees _ parent parentFound
    · exact declares.sees number found old.2
  · rw [names]
    exact declares.parents

/-- The edge that is added is the clause of the packet that was registered last. -/
theorem Links.linked (links : schema.Links joined) (distinct : schema.idents.Nodup)
    (accepted : schema.appendChild id child condition = .ok grown)
    (parentFound : schema.packet? id = some parent)
    (derives : ∀ name formula, packet.Derives name formula ↔
      parent.ident = name ∧ condition.map Condition.formula = formula) :
    grown.Links (packet :: joined) := by
  intro number found located formula
  rw [List.exists_mem_cons_iff, derives]
  rcases packet_linked accepted parentFound located with ⟨_, rfl⟩ | ⟨different, old⟩
  · rw [← links id parent parentFound formula]
    simp only [List.mem_append, List.mem_singleton, or_and_right, exists_or, exists_eq_left,
      true_and]
    exact or_comm
  · have otherName : parent.ident ≠ found.ident :=
      fun same => different (id_eq_of_ident distinct parentFound old same).symm
    rw [links number found old formula]
    simp only [otherName, false_and, false_or]

/-- An edge is refused where a packet with the same parent and the same condition has one. -/
theorem Links.append_child_iff (links : schema.Links joined)
    (parentFound : schema.packet? id = some parent)
    (edgesGrounded : ∀ child ∈ parent.children,
      schema.forest.Grounds parent.scope (selectionReferences child.condition))
    (grounded : schema.forest.Grounds parent.scope (selectionReferences condition)) :
    (∃ grown, schema.appendChild id child condition = .ok grown) ↔
      ¬∃ packet ∈ joined, packet.Derives parent.ident (condition.map Condition.formula) := by
  rw [← links id parent parentFound]
  have accepted : (∃ grown, schema.appendChild id child condition = .ok grown) ↔
      ∀ present ∈ parent.children, present.condition ≠ condition := by
    unfold appendChild Packet.appendChild
    simp only [parentFound]
    by_cases conflict : (parent.children.any fun present => present.condition = condition) = true
    · rw [if_pos conflict]
      simpa using conflict
    · rw [if_neg conflict]
      simpa using conflict
  rw [accepted]
  constructor
  · intro apart edge
    rcases edge with ⟨present, member, same⟩
    have equal := ScopeForest.selection_eq_of_formula (edgesGrounded present member) grounded same
    exact apart present member equal
  · intro none present member same
    exact none ⟨present, member, congrArg (Option.map Condition.formula) same⟩

theorem Declares.append_packet_iff (declares : schema.Declares earlier)
    (ident : record.ident = packet.ident.item) :
    (∃ grown id, schema.appendPacket record = .ok (id, grown)) ↔
      ∀ other ∈ earlier, other.ident.item ≠ packet.ident.item := by
  have accepted : (∃ grown id, schema.appendPacket record = .ok (id, grown)) ↔
      record.ident ∉ schema.idents := by
    unfold appendPacket idents
    by_cases taken : (schema.packets.any fun present => present.ident = record.ident) = true
    · rw [if_pos taken]
      simpa using taken
    · rw [if_neg taken]
      simpa using taken
  rw [accepted, declares.named, ident]
  simp only [not_exists, not_and, ne_eq]

end Schema

namespace Tree

variable {schema grown walked : Schema} {scope : ScopeId} {visible : List Binding}
  {earlier : List Packet} {packet : Packet} {clause : Inheritance}

theorem block_sees_added {statements : List Statement} (sound : schema.Sound)
    (sees : schema.forest.Sees scope visible)
    (answered : faultlessBlock scope statements schema = some grown) :
    grown.forest.Sees scope (visible ++ statements.map Statement.binding) := by
  induction statements generalizing schema visible with
  | nil =>
      cases answered
      rw [List.map_nil, List.append_nil]
      exact sees
  | cons statement rest later =>
      rcases faultless_block_cons_eq_some.mp answered with ⟨middle, first, remaining⟩
      have added := later ((Statement.walked first).sound sound sees.issued)
        (Statement.sees_added sound sees first) remaining
      rwa [List.append_assoc] at added

structure PacketInside (schema walked : Schema) (earlier : List Packet)
    (visible : List Binding) : Prop where
  packets : walked.packets = schema.packets
  reaches : schema.Reaches walked
  declares : walked.Declares earlier
  links : walked.Links earlier
  sees : walked.forest.Sees ⟨schema.forest.size⟩ visible

theorem packet_inside {parent : Option ScopeId} {body : List Statement} (sound : schema.Sound)
    (declares : schema.Declares earlier) (links : schema.Links earlier)
    (parentIssued : ∀ above ∈ parent, schema.forest.Issued above)
    (opens : schema.Reaches (schema.createScope parent).2)
    (sees : (schema.createScope parent).2.forest.Sees ⟨schema.forest.size⟩ visible)
    (inside : faultlessBlock ⟨schema.forest.size⟩ body (schema.createScope parent).2 =
      some walked) :
    PacketInside schema walked earlier (visible ++ body.map Statement.binding) := by
  have opened := Schema.Reaches.sound opens sound
  have walk := block_walked inside
  have packets : walked.packets = schema.packets := walk.confined.packets
  constructor
  · exact packets
  · exact opens.trans (walk.reaches opened.formed sees.issued)
  · apply declares.walked packets
    intro id record _ seen recordSees
    have openedSees : (schema.createScope parent).2.forest.Sees record.scope seen :=
      recordSees.create_kept parentIssued
    exact walk.sees_kept opened sees.issued openedSees recordSees.issued
  · intro id record found
    rw [Schema.packet?, packets] at found
    exact links id record found
  · exact block_sees_added opened sees inside

/-- A clause can be followed exactly where the rules hold for it. -/
theorem clause_answered_iff (declares : schema.Declares earlier) :
    (∃ derivation, clause.faultless schema = some derivation) ↔ clause.Lawful earlier := by
  constructor
  · intro answered
    rcases answered with ⟨⟨id, record, condition⟩, answered⟩
    rcases faultless_clause_eq_some.mp answered with ⟨named, accepted⟩
    rcases Schema.named_eq_some named with ⟨found, same⟩
    have sees := declares.sees id record found
    rw [same] at sees
    have admitted := (selection_accepted_iff sees clause.condition).mp ⟨condition, accepted⟩
    refine ⟨?_, fun leaf member => (admitted leaf member).1,
      fun leaf member => (admitted leaf member).2⟩
    rw [← declares.named, ← same]
    exact Schema.mem_idents found
  · intro lawful
    have known := (declares.named _).mpr lawful.declared
    rcases Schema.exists_named_iff.mpr known with ⟨⟨id, record⟩, named⟩
    rcases Schema.named_eq_some named with ⟨found, same⟩
    have sees := declares.sees id record found
    rw [same] at sees
    have admitted : ∀ leaf ∈ selectionLeaves clause.condition,
        leaf.Admitted (ancestral earlier clause.parent.item) signedSize :=
      fun leaf member => ⟨lawful.referred leaf member, lawful.inRange leaf member⟩
    rcases (selection_accepted_iff sees clause.condition).mpr admitted with ⟨condition, accepted⟩
    exact ⟨(id, record, condition), faultless_clause_eq_some.mpr ⟨named, accepted⟩⟩

structure PacketSite.Lawful (site : PacketSite) : Prop where
  clause : ∀ clause ∈ site.packet.inheritance, clause.Lawful site.earlier
  body : ∀ inner ∈ blockSites site.inherited site.packet.body, inner.Lawful
  distinct : ∀ other ∈ site.earlier, other.ident.item ≠ site.packet.ident.item
  apart : ∀ other ∈ site.earlier, other.Apart site.packet

structure Before (schema : Schema) (earlier : List Packet) : Prop where
  sound : schema.Sound
  declares : schema.Declares earlier
  links : schema.Links earlier

theorem root_opens (before : Before schema earlier) :
    schema.Reaches (schema.createScope none).2 ∧
      (schema.createScope none).2.forest.Sees ⟨schema.forest.size⟩ [] := by
  have step : schema.Step (schema.createPacketScope none).2 := .openPacket (by simp)
  exact ⟨.single step, before.sound.formed.ordered.sees_root⟩

theorem root_inside (before : Before schema earlier)
    (inside : faultlessBlock ⟨schema.forest.size⟩ packet.body (schema.createScope none).2 =
      some walked) :
    PacketInside schema walked earlier (packet.body.map Statement.binding) :=
  packet_inside before.sound before.declares before.links (by simp) (root_opens before).1
    (root_opens before).2 inside

theorem root_answered_iff (before : Before schema earlier) (free : packet.inheritance = none) :
    (∃ grown, packet.faultless schema = some grown) ↔
      PacketSite.Lawful ⟨earlier, packet⟩ := by
  have opens := root_opens before
  have openedSound := Schema.Reaches.sound opens.1 before.sound
  have inherited : PacketSite.inherited ⟨earlier, packet⟩ = [] := by
    rw [PacketSite.inherited, free]
    rfl
  simp only [faultless_root_eq_some free]
  rw [exists_both_iff (block_answered_iff packet.body openedSound opens.2)]
  · constructor
    · intro allowed
      refine ⟨?_, ?_, allowed.2, ?_⟩
      · intro clause written
        rw [free] at written
        cases written
      · rw [inherited]
        exact allowed.1
      · intro other _ clause _ own written
        rw [free] at written
        cases written
    · intro lawful
      have body := lawful.body
      rw [inherited] at body
      exact ⟨body, lawful.distinct⟩
  · intro walked inside
    exact (root_inside before inside).declares.append_packet_iff rfl

theorem root_kept (before : Before schema earlier) (free : packet.inheritance = none)
    (answered : packet.faultless schema = some grown) : Before grown (packet :: earlier) := by
  rcases (faultless_root_eq_some free).mp answered with ⟨walked, inside, id, registered⟩
  have state := root_inside before inside
  have visible : ancestral (packet :: earlier) packet.ident.item =
      packet.body.map Statement.binding := by
    rw [ancestral, if_pos rfl, free]
    rfl
  have seen := state.sees
  rw [← visible] at seen
  have noClause : ∀ clause, packet.inheritance ≠ some clause := by
    intro clause written
    rw [free] at written
    cases written
  have links := state.links.registered state.declares registered rfl
  constructor
  · exact Schema.Reaches.sound (Packet.reaches answered before.sound.formed) before.sound
  · exact state.declares.registered registered rfl seen
      fun clause written => absurd written (noClause clause)
  · intro number record found formula
    rw [links number record found formula, List.exists_mem_cons_iff]
    constructor
    · exact .inr
    · intro derived
      rcases derived with ⟨clause, written, _⟩ | earlier
      · exact absurd written (noClause clause)
      · exact earlier

/-- A packet derives from the parent that its clause names, under its condition. -/
theorem derives_iff (written : packet.inheritance = some clause) (name : String)
    (formula : Option Formula) :
    packet.Derives name formula ↔
      clause.parent.item = name ∧ selectionFormula clause.condition = formula := by
  constructor
  · intro derives
    rcases derives with ⟨other, also, named⟩
    rw [written] at also
    cases also
    exact named
  · intro named
    exact ⟨clause, written, named⟩

theorem apart_iff_underived (written : packet.inheritance = some clause) :
    (∀ other ∈ earlier, other.Apart packet) ↔
      ¬∃ other ∈ earlier, other.Derives clause.parent.item (selectionFormula clause.condition) := by
  constructor
  · intro apart derived
    rcases derived with ⟨other, member, own, ownWritten, parent, same⟩
    exact apart other member own ownWritten clause written parent same
  · intro underived other member own ownWritten second secondWritten parent same
    rw [written] at secondWritten
    cases secondWritten
    exact underived ⟨other, member, own, ownWritten, parent, same⟩

/-- What a followed clause gives: the parent, and a scope that sees what is inherited. -/
theorem derived_opens {id : PacketId} {record : PacketSchema.Packet}
    {condition : Option Condition} (before : Before schema earlier)
    (answered : clause.faultless schema = some (id, record, condition)) :
    schema.packet? id = some record ∧ record.ident = clause.parent.item ∧
      schema.Reaches (schema.createScope (some record.scope)).2 ∧
      (schema.createScope (some record.scope)).2.forest.Sees ⟨schema.forest.size⟩
        (ancestral earlier clause.parent.item) := by
  have named := (faultless_clause_eq_some.mp answered).1
  rcases Schema.named_eq_some named with ⟨found, same⟩
  have sees := before.declares.sees id record found
  rw [same] at sees
  have opened : schema.createPacketScope (some id) = schema.createScope (some record.scope) := by
    simp only [Schema.createPacketScope, Option.bind_some, found, Option.map_some]
  have step : schema.Step (schema.createPacketScope (some id)).2 :=
    .openPacket (by simpa using ⟨record, found⟩)
  rw [opened] at step
  exact ⟨found, same, .single step, sees.created⟩

theorem derived_walked {id : PacketId} {record : PacketSchema.Packet}
    {condition : Option Condition} (before : Before schema earlier)
    (followed : clause.faultless schema = some (id, record, condition))
    (inside : faultlessBlock ⟨schema.forest.size⟩ packet.body
      (schema.createScope (some record.scope)).2 = some walked) :
    PacketInside schema walked earlier
      (ancestral earlier clause.parent.item ++ packet.body.map Statement.binding) := by
  rcases derived_opens before followed with ⟨found, _, opens, opensSees⟩
  have parentIssued : ∀ above ∈ some record.scope, schema.forest.Issued above := by
    simpa using (before.declares.sees id record found).issued
  exact packet_inside before.sound before.declares before.links parentIssued opens opensSees inside

/-- The body of a packet whose clause was followed is walked exactly where the rules hold for its
statements. -/
theorem derived_body_iff {id : PacketId} {record : PacketSchema.Packet}
    {condition : Option Condition} (before : Before schema earlier)
    (followed : clause.faultless schema = some (id, record, condition)) :
    (∃ walked, faultlessBlock ⟨schema.forest.size⟩ packet.body
      (schema.createScope (some record.scope)).2 = some walked) ↔
        ∀ site ∈ blockSites (ancestral earlier clause.parent.item) packet.body, site.Lawful := by
  rcases derived_opens before followed with ⟨_, _, opens, opensSees⟩
  exact block_answered_iff packet.body (Schema.Reaches.sound opens before.sound) opensSees

structure DerivedInside (registered : Schema) (earlier : List Packet) (packet : Packet)
    (id child : PacketId) (record : PacketSchema.Packet) (condition : Option Condition) :
    Prop where
  declares : registered.Declares (packet :: earlier)
  links : registered.Links earlier
  found : registered.packet? id = some record
  linkIff : (∃ grown, registered.appendChild id child condition = .ok grown) ↔
    ∀ other ∈ earlier, other.Apart packet

theorem derived_inside {id child : PacketId} {record : PacketSchema.Packet}
    {condition : Option Condition} {registered : Schema} (before : Before schema earlier)
    (written : packet.inheritance = some clause)
    (answered : clause.faultless schema = some (id, record, condition))
    (inside : faultlessBlock ⟨schema.forest.size⟩ packet.body
      (schema.createScope (some record.scope)).2 = some walked)
    (accepted : walked.appendPacket (.derived packet.ident.item id condition
      ⟨schema.forest.size⟩) = .ok (child, registered)) :
    DerivedInside registered earlier packet id child record condition := by
  rcases derived_opens before answered with ⟨found, parentName, _, _⟩
  have resolved := selection_accepted (faultless_clause_eq_some.mp answered).2
  have state := derived_walked before answered inside
  have visible : ancestral (packet :: earlier) packet.ident.item =
      ancestral earlier clause.parent.item ++ packet.body.map Statement.binding := by
    rw [ancestral, if_pos rfl, written]
    rfl
  have seen := state.sees
  rw [← visible] at seen
  have parents : ∀ other, packet.inheritance = some other → other.parent.item ∈ walked.idents := by
    intro other also
    rw [written] at also
    cases also
    rw [Schema.idents, state.packets, ← parentName]
    exact Schema.mem_idents found
  have declares := state.declares.registered accepted rfl seen parents
  have links := state.links.registered state.declares accepted rfl
  rcases Schema.append_packet_eq_ok accepted with ⟨_, _, rfl⟩
  have foundAfter : Schema.packet? ⟨walked.packets ++ [.derived packet.ident.item id condition
      ⟨schema.forest.size⟩], walked.forest⟩ id = some record := by
    have bound := (List.getElem?_eq_some_iff.mp found).1
    rw [Schema.packet?, state.packets, List.getElem?_append_left bound]
    exact found
  have keeps : ∀ {references}, schema.forest.Grounds record.scope references →
      walked.forest.Grounds record.scope references :=
    fun grounded => Schema.Reaches.grounds_kept state.reaches before.sound.formed grounded
  refine ⟨declares, links, foundAfter, ?_⟩
  rw [links.append_child_iff foundAfter _ (keeps resolved.2), parentName, resolved.1,
    apart_iff_underived written]
  intro edge member
  exact keeps (before.sound.grounded.edges record (Schema.mem_of_packet found) edge member)

theorem derived_answered_iff (before : Before schema earlier)
    (written : packet.inheritance = some clause) :
    (∃ grown, packet.faultless schema = some grown) ↔
      PacketSite.Lawful ⟨earlier, packet⟩ := by
  have inherited : PacketSite.inherited ⟨earlier, packet⟩ =
      ancestral earlier clause.parent.item := by
    rw [PacketSite.inherited, written]
    rfl
  have registerIff : ∀ {id record condition walked},
      clause.faultless schema = some (id, record, condition) →
      faultlessBlock ⟨schema.forest.size⟩ packet.body
        (schema.createScope (some record.scope)).2 = some walked →
      ((∃ registered child, walked.appendPacket (.derived packet.ident.item id condition
        ⟨schema.forest.size⟩) = .ok (child, registered)) ↔
          ∀ other ∈ earlier, other.ident.item ≠ packet.ident.item) :=
    fun followed inside =>
      (derived_walked before followed inside).declares.append_packet_iff rfl
  simp only [faultless_derived_eq_some written]
  constructor
  · intro answered
    rcases answered with ⟨grown, id, record, condition, followed, walked, inside, child,
      registered, accepted, linked⟩
    have state := derived_inside before written followed inside accepted
    refine ⟨?_, ?_, (registerIff followed inside).mp ⟨registered, child, accepted⟩,
      state.linkIff.mp ⟨grown, linked⟩⟩
    · intro other also
      rw [written] at also
      cases also
      exact (clause_answered_iff before.declares).mp ⟨_, followed⟩
    · rw [inherited]
      exact (derived_body_iff before followed).mp ⟨walked, inside⟩
  · intro lawful
    rcases (clause_answered_iff before.declares).mpr (lawful.clause clause written) with
      ⟨⟨id, record, condition⟩, followed⟩
    have body := lawful.body
    rw [inherited] at body
    rcases (derived_body_iff before followed).mpr body with ⟨walked, inside⟩
    rcases (registerIff followed inside).mpr lawful.distinct with ⟨registered, child, accepted⟩
    have state := derived_inside before written followed inside accepted
    rcases state.linkIff.mpr lawful.apart with ⟨grown, linked⟩
    exact ⟨grown, id, record, condition, followed, walked, inside, child, registered, accepted,
      linked⟩

theorem derived_kept (before : Before schema earlier) (written : packet.inheritance = some clause)
    (answered : packet.faultless schema = some grown) : Before grown (packet :: earlier) := by
  rcases (faultless_derived_eq_some written).mp answered with ⟨id, record, condition, followed,
    walked, inside, child, registered, accepted, linked⟩
  have state := derived_inside before written followed inside accepted
  have parentName := (derived_opens before followed).2.1
  have formulas := (selection_accepted (faultless_clause_eq_some.mp followed).2).1
  constructor
  · exact Schema.Reaches.sound (Packet.reaches answered before.sound.formed) before.sound
  · exact state.declares.linked linked state.found
  · apply state.links.linked state.declares.distinct linked state.found
    intro name formula
    rw [derives_iff written, parentName, formulas]

theorem packet_answered_iff (before : Before schema earlier) :
    (∃ grown, packet.faultless schema = some grown) ↔
      PacketSite.Lawful ⟨earlier, packet⟩ := by
  cases written : packet.inheritance with
  | none => exact root_answered_iff before written
  | some clause => exact derived_answered_iff before written

theorem packet_kept (before : Before schema earlier)
    (answered : packet.faultless schema = some grown) : Before grown (packet :: earlier) := by
  cases written : packet.inheritance with
  | none => exact root_kept before written answered
  | some clause => exact derived_kept before written answered

theorem packets_kept (packets : List Packet) (before : Before schema earlier)
    (answered : faultlessPackets packets schema = some grown) :
    Before grown (packets.reverse ++ earlier) := by
  induction packets generalizing schema earlier with
  | nil =>
      cases answered
      exact before
  | cons packet rest later =>
      rcases faultless_packets_cons_eq_some.mp answered with ⟨middle, first, remaining⟩
      rw [List.reverse_cons, List.append_assoc, List.singleton_append]
      exact later (packet_kept before first) remaining

theorem packets_answered_iff (packets : List Packet) (before : Before schema earlier) :
    (∃ grown, faultlessPackets packets schema = some grown) ↔
      ∀ site ∈ packetSites earlier packets, site.Lawful := by
  induction packets generalizing schema earlier with
  | nil => simp [faultlessPackets, packetSites]
  | cons packet rest later =>
      simp only [faultless_packets_cons_eq_some]
      rw [packetSites, List.forall_mem_cons]
      apply exists_both_iff (packet_answered_iff before)
      intro middle first
      exact later (packet_kept before first)

/-- A relation between each packet and those before it is one between all pairs in order. -/
theorem packet_sites_pairwise {Relates : Packet → Packet → Prop} (earlier packets : List Packet) :
    (∀ site ∈ packetSites earlier packets, ∀ other ∈ site.earlier, Relates other site.packet) ↔
      (∀ other ∈ earlier, ∀ packet ∈ packets, Relates other packet) ∧
        packets.Pairwise Relates := by
  induction packets generalizing earlier with
  | nil => simp [packetSites]
  | cons packet rest later =>
      rw [packetSites, List.forall_mem_cons, later]
      simp only [List.forall_mem_cons, List.pairwise_cons, forall_and]
      constructor
      · intro related
        exact ⟨⟨related.1, related.2.1.2⟩, related.2.1.1, related.2.2⟩
      · intro related
        exact ⟨related.1.1, ⟨related.2.1, related.1.2⟩, related.2.2⟩

/-- The rules of a text are those of each packet among the packets before it. -/
theorem Module.lawful_iff (tree : Module) :
    tree.Lawful ↔ ∀ site ∈ tree.packetSites, site.Lawful := by
  have pairs : ∀ {Relates : Packet → Packet → Prop},
      (∀ site ∈ tree.packetSites, ∀ other ∈ site.earlier, Relates other site.packet) ↔
        tree.packets.Pairwise Relates := by
    intro Relates
    rw [Module.packetSites, packet_sites_pairwise]
    simp only [List.not_mem_nil, false_implies, implies_true, true_and]
  constructor
  · intro lawful site member
    have distinct := List.pairwise_map.mp lawful.packetsDistinct
    constructor
    · exact lawful.clauses site member
    · intro inner inside
      exact lawful.statements inner (List.mem_flatMap.mpr ⟨site, member, inside⟩)
    · exact pairs.mpr distinct site member
    · exact pairs.mpr lawful.packetsApart site member
  · intro lawful
    constructor
    · exact List.pairwise_map.mpr (pairs.mp fun site member => (lawful site member).distinct)
    · exact fun site member => (lawful site member).clause
    · intro inner inside
      rcases List.mem_flatMap.mp inside with ⟨site, member, found⟩
      exact (lawful site member).body inner found
    · exact pairs.mp fun site member => (lawful site member).apart

theorem before_empty : Before .empty [] where
  sound := ⟨Schema.formed_empty, Schema.grounded_empty⟩
  declares := Schema.declares_empty
  links := Schema.links_empty

theorem Module.answered_iff (tree : Module) :
    (∃ schema, tree.faultless = some schema) ↔ tree.Lawful := by
  rw [Module.lawful_iff]
  exact packets_answered_iff tree.packets before_empty

end Tree

/-- What can be read compiles, and without a diagnostic exactly where its tree is lawful. -/
theorem compile_valid_iff_lawful {failFast : Bool} {source : String} {tree : Tree.Module}
    (parsed : Grammar.parse source = .ok tree) :
    ∃ compilation, compile failFast source = .ok compilation ∧
      (compilation.diagnostics = [] ↔ tree.Lawful) := by
  have valid : ∀ schema, compile failFast source = .ok ⟨schema, []⟩ ↔ _ :=
    compile_valid_iff parsed
  refine ⟨_, compile_eq_build parsed, ?_⟩
  rw [← tree.answered_iff]
  simp only [← valid, compile_eq_build parsed, Except.ok.injEq, Compilation.mk.injEq]
  constructor
  · intro clean
    exact ⟨_, rfl, clean⟩
  · intro answered
    rcases answered with ⟨schema, _, clean⟩
    exact clean

/-- Every kind of statement, in packets of which one derives from the other. -/
def lawfulText : String :=
  "A" ++ braced "always n uint:1 bytes;" ++
  "B:A(&n==1)" ++ braced ("variable v" ++
      braced ("case(&n<0x4)|X:0|" ++ braced "always m _:&n bits;" ++ "otherwise|Y:1|" ++
        braced "") ++
    "optional o when(&n)" ++ braced "")

/-- Two packets of one identifier. -/
def unlawfulText : String := "A" ++ braced "" ++ "A" ++ braced ""

theorem lawful_text_is_lawful :
    (∃ tree, Grammar.parse lawfulText = .ok tree ∧ tree.Lawful) ∧
      ∃ tree, Grammar.parse unlawfulText = .ok tree ∧ ¬tree.Lawful := by
  constructor
  · have passed : (compile false lawfulText).toOption.any (fun compilation =>
        compilation.diagnostics = []) = true := by
      decide +kernel
    rcases exists_compiled passed with ⟨compilation, compiled, clean⟩
    rcases exists_tree compiled with ⟨tree, parsed⟩
    rcases compile_valid_iff_lawful parsed with ⟨other, also, exact⟩
    rw [compiled] at also
    cases also
    exact ⟨tree, parsed, exact.mp (of_decide_eq_true clean)⟩
  · have passed : (compile false unlawfulText).toOption.any (fun compilation =>
        compilation.diagnostics ≠ []) = true := by
      decide +kernel
    rcases exists_compiled passed with ⟨compilation, compiled, faulty⟩
    rcases exists_tree compiled with ⟨tree, parsed⟩
    rcases compile_valid_iff_lawful parsed with ⟨other, also, exact⟩
    rw [compiled] at also
    cases also
    exact ⟨tree, parsed, fun lawful => of_decide_eq_true faulty (exact.mpr lawful)⟩

end PacketSchema
