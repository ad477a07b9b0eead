import PacketSchema.Proofs.Walk.Cut
import PacketSchema.Proofs.ReferenceIntegrity
import PacketSchema.Proofs.Walk.Valid

/-!
# Walks that stop early

A fast walk asks whether to stop before each packet, statement and arm, and finishes what it has
begun. It does what the full walk does until the first fault is met. From then on the full walk
goes on in the bodies that the fast one leaves out; what the fast walk still does on its way out,
adding an arm or registering a packet, it does to parts of the schema that those bodies do not
touch. So the fast walk ends with the full one cut short.
-/

namespace PacketSchema

namespace Build

/-- One build is another one cut short: so are their schemas, and of the diagnostics of the other
one some may be missing, but not the first. -/
structure CutFrom (cut build : Build) : Prop where
  schema : cut.schema.CutFrom build.schema
  diagnostics : cut.diagnostics.Sublist build.diagnostics
  first : ∀ diagnostic, cut.diagnostics.head? = some diagnostic →
    build.diagnostics.head? = some diagnostic

/-- What a fast walk has come to when a full one has come to `full`: it still is where the full
one is, or it has met a fault and is behind. -/
structure Behind (fast full : Build) : Prop where
  cut : fast.CutFrom full
  clean : fast.diagnostics = [] → fast = full

variable {fast full build before after grown : Build} {scope : ScopeId}

theorem cut_refl (build : Build) : build.CutFrom build where
  schema := build.schema.cut_refl
  diagnostics := .refl _
  first _ found := found

theorem behind_refl (build : Build) : build.Behind build := ⟨build.cut_refl, fun _ => rfl⟩

theorem CutFrom.trans (early : before.CutFrom build) (late : build.CutFrom after) :
    before.CutFrom after where
  schema := early.schema.trans late.schema
  diagnostics := early.diagnostics.trans late.diagnostics
  first diagnostic found := late.first diagnostic (early.first diagnostic found)

theorem head_of_prefix {before after : List Diagnostic} (kept : before <+: after)
    {diagnostic : Diagnostic} (found : before.head? = some diagnostic) :
    after.head? = some diagnostic := by
  obtain ⟨more, rfl⟩ := kept
  rw [List.head?_append, found, Option.some_or]

/-- The full walk goes on while the fast one has stopped. -/
theorem Behind.later (behind : fast.Behind full) (faulty : fast.diagnostics ≠ [])
    (schema : full.schema.CutFrom grown.schema) (kept : full.diagnostics <+: grown.diagnostics) :
    fast.Behind grown where
  cut := behind.cut.trans ⟨schema, kept.sublist, fun _ => head_of_prefix kept⟩
  clean clean := absurd clean faulty

/-- A walk that goes on from here: the fast one stays where it is if it has met a fault, while the
full one grows, and otherwise both go on from the same build. -/
theorem Behind.goes_on {fastEnd fullEnd : Build} (behind : fast.Behind full)
    (stops : fast.diagnostics ≠ [] → fastEnd = fast)
    (schema : full.schema.CutFrom fullEnd.schema) (kept : full.diagnostics <+: fullEnd.diagnostics)
    (together : fast.diagnostics = [] → fast = full → fastEnd.Behind fullEnd) :
    fastEnd.Behind fullEnd := by
  by_cases clean : fast.diagnostics = []
  · exact together clean (behind.clean clean)
  · rw [stops clean]
    exact behind.later clean schema kept

/-- Both report the same on their way out. -/
theorem CutFrom.report (cut : fast.CutFrom full) (faulty : fast.diagnostics ≠ [])
    (problems : List Diagnostic) : (fast.report problems).CutFrom (full.report problems) where
  schema := cut.schema
  diagnostics := cut.diagnostics.append (List.Sublist.refl problems)
  first diagnostic found := by
    obtain ⟨earliest, rest, same⟩ := List.exists_cons_of_ne_nil faulty
    have head : fast.diagnostics.head? = some earliest := by rw [same, List.head?_cons]
    have own := head_of_prefix (List.prefix_append fast.diagnostics problems) head
    rw [Build.report, own] at found
    cases found
    exact head_of_prefix (List.prefix_append _ _) (cut.first _ head)

end Build

open Schema (Reaches Formed Distinct)

namespace Schema

variable {fast full grown other : Schema} {scope : ScopeId} {ident : String}

/-- A union of a scope that is the same in both takes the same arm in both, or in neither. -/
theorem CutFrom.append_arm (cut : fast.CutFrom full)
    (agree : fast.forest.scope? scope = full.forest.scope? scope) (ident : String) (arm : Arm) :
    (∃ error, fast.appendArm scope ident arm = .error error ∧
        full.appendArm scope ident arm = .error error) ∨
      ∃ grown other, fast.appendArm scope ident arm = .ok grown ∧
        full.appendArm scope ident arm = .ok other ∧ grown.CutFrom other := by
  have sameField : fast.forest.field? scope ident = full.forest.field? scope ident := by
    rw [ScopeForest.field?, agree, ScopeForest.field?]
  unfold appendArm ScopeForest.appendArm
  rw [sameField]
  cases full.forest.field? scope ident with
  | none => exact .inl ⟨_, rfl, rfl⟩
  | some field =>
      cases field with
      | always _ _ => exact .inl ⟨_, rfl, rfl⟩
      | optional _ _ _ => exact .inl ⟨_, rfl, rfl⟩
      | union choice =>
          simp only
          cases choice.append arm with
          | error error => exact .inl ⟨error, rfl, rfl⟩
          | ok taken =>
              exact .inr ⟨_, _, rfl, rfl, cut.packets, cut.scopes.modify Scope.cut_refl agree _⟩

/-- The packets of both change alike where they are the same. -/
theorem CutFrom.same_packets {packets : List Packet} {forest grove : ScopeForest}
    (scopes : Leads Scope.CutFrom forest.scopes grove.scopes) :
    CutFrom ⟨packets, forest⟩ ⟨packets, grove⟩ :=
  ⟨leads_refl Packet.cut_refl packets, scopes⟩

theorem CutFrom.append_packet (cut : fast.CutFrom full) (agree : fast.packets = full.packets)
    (packet : Packet) :
    (∃ error, fast.appendPacket packet = .error error ∧
        full.appendPacket packet = .error error) ∨
      ∃ id grown other, fast.appendPacket packet = .ok (id, grown) ∧
        full.appendPacket packet = .ok (id, other) ∧ grown.CutFrom other ∧
        grown.packets = other.packets := by
  unfold appendPacket
  rw [agree]
  split
  · exact .inl ⟨_, rfl, rfl⟩
  · exact .inr ⟨_, _, _, rfl, rfl, CutFrom.same_packets cut.scopes, rfl⟩

theorem CutFrom.append_child (cut : fast.CutFrom full) (agree : fast.packets = full.packets)
    (id child : PacketId) (condition : Option Condition) :
    (∃ error, fast.appendChild id child condition = .error error ∧
        full.appendChild id child condition = .error error) ∨
      ∃ grown other, fast.appendChild id child condition = .ok grown ∧
        full.appendChild id child condition = .ok other ∧ grown.CutFrom other := by
  unfold appendChild packet?
  rw [agree]
  cases full.packets[id.index]? with
  | none => exact .inl ⟨_, rfl, rfl⟩
  | some packet =>
      simp only
      cases packet.appendChild child condition with
      | error error => exact .inl ⟨_, rfl, rfl⟩
      | ok linked => exact .inr ⟨_, _, rfl, rfl, CutFrom.same_packets cut.scopes⟩

end Schema

namespace Build

variable {build fast full : Build} {scope : ScopeId}

theorem halted_of_faulty (faulty : build.diagnostics ≠ []) : build.halted true = true := by
  simpa [halted] using faulty

theorem CutFrom.add_arm (cut : fast.CutFrom full) (faulty : fast.diagnostics ≠ [])
    (agree : fast.schema.forest.scope? scope = full.schema.forest.scope? scope)
    (ident : String) (location : Location) (arm : Arm) (refused : Option Union) :
    (fast.addArm scope ident location arm refused).2.CutFrom
      (full.addArm scope ident location arm refused).2 := by
  cases refused with
  | none =>
      rcases cut.schema.append_arm agree ident arm with ⟨error, left, right⟩ |
        ⟨grown, other, left, right, grownCut⟩
      · simp only [addArm, left, right]
        exact cut.report faulty _
      · simp only [addArm, left, right]
        exact ⟨grownCut, cut.diagnostics, cut.first⟩
  | some choice =>
      cases appended : choice.append arm with
      | error error =>
          simp only [addArm, appended]
          exact cut.report faulty _
      | ok grown =>
          simp only [addArm, appended]
          exact cut

/-- Both add an arm once its body was walked: the scope of the union is none that the body can
reach. -/
theorem Behind.arm_added {inside : Build} {child : ScopeId} (behind : fast.Behind full)
    (fastConfined : ConfinedTo child inside fast) (fullConfined : ConfinedTo child inside full)
    (issued : inside.schema.forest.Issued scope) (different : scope ≠ child) (ident : String)
    (location : Location) (arm : Arm) (refused : Option Union) :
    (fast.addArm scope ident location arm refused).2.Behind
        (full.addArm scope ident location arm refused).2 ∧
      ((fast.addArm scope ident location arm refused).2.diagnostics = [] →
        fast.addArm scope ident location arm refused =
          full.addArm scope ident location arm refused) := by
  by_cases clean : fast.diagnostics = []
  · rw [behind.clean clean]
    exact ⟨behind_refl _, fun _ => rfl⟩
  · have agree : fast.schema.forest.scope? scope = full.schema.forest.scope? scope := by
      rw [fastConfined.others scope issued different, fullConfined.others scope issued different]
    have kept := (confined_add_arm fast scope ident location arm refused).diagnostics
    have faulty : (fast.addArm scope ident location arm refused).2.diagnostics ≠ [] :=
      faulty_of_prefix kept clean
    exact ⟨⟨behind.cut.add_arm clean agree ident location arm refused,
      fun none => absurd none faulty⟩, fun none => absurd none faulty⟩

/-- A packet is registered in both where both have the same packets. -/
theorem CutFrom.register (cut : fast.CutFrom full) (faulty : fast.diagnostics ≠ [])
    (agree : fast.schema.packets = full.schema.packets) (packet : Packet) (location : Location)
    (derivation : Option Derivation) :
    (fast.register packet location derivation).CutFrom
      (full.register packet location derivation) := by
  unfold Build.register
  rcases cut.schema.append_packet agree packet with ⟨error, left, right⟩ |
    ⟨id, grown, other, left, right, grownCut, same⟩
  · simp only [left, right]
    exact cut.report faulty _
  · simp only [left, right]
    have registered : CutFrom ⟨grown, fast.diagnostics⟩ ⟨other, full.diagnostics⟩ :=
      ⟨grownCut, cut.diagnostics, cut.first⟩
    match derivation with
    | none => exact registered
    | some ⟨parent, .refused _⟩ => exact registered
    | some ⟨parent, .accepted condition⟩ =>
        rcases grownCut.append_child same parent id condition with ⟨error, left, right⟩ |
          ⟨linked, joined, left, right, linkedCut⟩
        · simp only [left, right]
          exact registered.report faulty _
        · simp only [left, right]
          exact ⟨linkedCut, cut.diagnostics, cut.first⟩

theorem Behind.registered {inside : Build} (behind : fast.Behind full)
    (fastPackets : fast.schema.packets = inside.schema.packets)
    (fullPackets : full.schema.packets = inside.schema.packets) (packet : Packet)
    (location : Location) (derivation : Option Derivation) :
    (fast.register packet location derivation).Behind
      (full.register packet location derivation) := by
  by_cases clean : fast.diagnostics = []
  · rw [behind.clean clean]
    exact behind_refl _
  · have faulty : (fast.register packet location derivation).diagnostics ≠ [] :=
      faulty_of_prefix (register_diagnostics fast packet location derivation) clean
    exact ⟨behind.cut.register clean (fastPackets.trans fullPackets.symm) packet location
      derivation, fun none => absurd none faulty⟩

end Build

namespace Tree

/-- A walk that has met a fault is over. -/
theorem block_stopped (statements : List Statement) (scope : ScopeId) {build : Build}
    (faulty : build.diagnostics ≠ []) : buildBlock true scope statements build = build := by
  cases statements with
  | nil => rw [buildBlock]
  | cons statement rest => rw [buildBlock, Build.halted_of_faulty faulty, if_pos rfl]

theorem arms_stopped (arms : List Arm) (scope : ScopeId) (ident : String)
    (refused : Option Union) {build : Build} (faulty : build.diagnostics ≠ []) :
    buildArms true scope ident arms refused build = build := by
  cases arms with
  | nil => rw [buildArms]
  | cons arm rest => rw [buildArms, Build.halted_of_faulty faulty, if_pos rfl]

theorem packets_stopped (packets : List Packet) {build : Build}
    (faulty : build.diagnostics ≠ []) : buildPackets true packets build = build := by
  cases packets with
  | nil => rw [buildPackets]
  | cons packet rest => rw [buildPackets, Build.halted_of_faulty faulty, if_pos rfl]

/-- What the walk of a body needs: a schema that was built so far, and a scope in it. -/
structure Ready (build : Build) (scope : ScopeId) : Prop where
  formed : build.schema.Formed
  distinct : build.schema.Distinct
  issued : build.schema.forest.Issued scope

namespace Ready

variable {build after : Build} {scope : ScopeId}

theorem entered {child : ScopeId} (ready : Ready build scope)
    (reaches : build.schema.Reaches after.schema) (issued : after.schema.forest.Issued child) :
    Ready after child where
  formed := Reaches.formed reaches ready.formed
  distinct := Reaches.distinct reaches ready.formed ready.distinct
  issued := issued

theorem later (ready : Ready build scope) (reaches : build.schema.Reaches after.schema) :
    Ready after scope :=
  ready.entered reaches (Reaches.parent_kept reaches ready.formed ready.issued).1

/-- What is reached from here is grown from here. -/
theorem grows (ready : Ready build scope)
    (reaches : build.schema.Reaches after.schema) : build.schema.CutFrom after.schema :=
  Reaches.cut reaches ready.formed ready.distinct

end Ready

/-- A fast walk comes to what a full one comes to, or it has met a fault and is behind. -/
def Account.lagging : Account where
  statement statement scope before after :=
    Ready before scope → (statement.build true scope before).Behind after
  arm arm scope ident before after := Ready before.2 scope →
    (arm.build true scope ident before.1 before.2).2.Behind after.2 ∧
      ((arm.build true scope ident before.1 before.2).2.diagnostics = [] →
        arm.build true scope ident before.1 before.2 = after)
  block body scope before after :=
    Ready before scope → (buildBlock true scope body before).Behind after
  arms arms scope ident before after :=
    Ready before.2 scope → (buildArms true scope ident arms before.1 before.2).Behind after

theorem walks_lag : Account.lagging.Holds false where
  always location ident descriptor scope build _ := by
    rw [always_build_eq, always_build_eq]
    exact Build.behind_refl _
  optional location ident condition body scope build inside ready := by
    obtain ⟨opened, childIssued⟩ :=
      optional_opened_reaches ready.formed ready.issued location ident condition
    rw [optional_build_eq]
    exact inside (ready.entered opened childIssued)
  union location ident arms scope build inside ready := by
    rw [union_build_arms]
    exact inside (ready.later (union_opened_reaches scope location ident build))
  arm location guard tag body scope ident reached inside ready := by
    obtain ⟨opened, childIssued, _⟩ := arm_opened_spec ready.issued guard tag
    have inner := inside (ready.entered opened childIssued)
    have fastConfined := @buildBlock_confined true body ⟨reached.2.schema.forest.size⟩
      (armOpened scope guard tag reached.2)
    have fullConfined := @buildBlock_confined false body ⟨reached.2.schema.forest.size⟩
      (armOpened scope guard tag reached.2)
    rw [arm_build_eq, armClosed, armClosed]
    cases armChecked scope guard tag reached.2 with
    | refused problems => exact ⟨inner, fun clean => by simp only [inner.clean clean]⟩
    | accepted resolved =>
        exact inner.arm_added fastConfined fullConfined
          (ScopeForest.issued_create ready.issued (some scope))
          (ScopeForest.ne_of_issued ready.issued (Nat.le_refl _)).symm ident location _ reached.1
  still body scope build ended ready := by
    rw [ended.resolve_right build.never_halted, buildBlock]
    exact Build.behind_refl build
  goes_on statement rest scope build first later ready := by
    have reached : build.schema.Reaches (statement.build false scope build).schema :=
      statement.build_reaches scope build ready.formed ready.issued
    have next : Ready (statement.build false scope build) scope := ready.later reached
    have others : (statement.build false scope build).schema.Reaches
        (buildBlock false scope rest (statement.build false scope build)).schema :=
      buildBlock_reaches rest scope _ next.formed next.issued
    have kept := (@buildBlock_confined false rest scope
      (statement.build false scope build)).diagnostics
    refine (Build.behind_refl build).goes_on (block_stopped _ scope)
      (ready.grows (reached.trans others))
      ((statement.build_confined scope build).diagnostics.trans kept) fun clean _ => ?_
    rw [block_goes_on true clean]
    refine (first ready).goes_on (block_stopped rest scope) (next.grows others) kept
      fun _ same => ?_
    rw [same]
    exact later next
  arms_still arms scope ident reached ended ready := by
    rw [ended.resolve_right reached.2.never_halted, buildArms]
    exact Build.behind_refl reached.2
  arms_go_on arm rest scope ident reached first later ready := by
    have walked : reached.2.schema.Reaches
        (arm.build false scope ident reached.1 reached.2).2.schema :=
      arm.build_reaches scope ident reached.1 reached.2 ready.formed ready.issued
    have next : Ready (arm.build false scope ident reached.1 reached.2).2 scope :=
      ready.later walked
    have others : (arm.build false scope ident reached.1 reached.2).2.schema.Reaches
        (buildArms false scope ident rest (arm.build false scope ident reached.1 reached.2).1
          (arm.build false scope ident reached.1 reached.2).2).schema :=
      buildArms_reaches rest scope ident _ _ next.formed next.issued
    have kept := (@buildArms_confined false rest scope ident
      (arm.build false scope ident reached.1 reached.2).1
      (arm.build false scope ident reached.1 reached.2).2).diagnostics
    obtain ⟨behind, together⟩ := first ready
    refine (Build.behind_refl reached.2).goes_on (arms_stopped _ scope ident reached.1)
      (ready.grows (walked.trans others))
      ((arm.build_confined scope ident reached.1 reached.2).diagnostics.trans kept)
      fun clean _ => ?_
    rw [arms_go_on true clean]
    refine behind.goes_on (arms_stopped rest scope ident _) (next.grows others) kept
      fun stillClean _ => ?_
    rw [together stillClean]
    exact later next

theorem Packet.build_behind (packet : Packet) (build : Build) (formed : build.schema.Formed)
    (distinct : build.schema.Distinct) :
    (packet.build true build).Behind (packet.build false build) := by
  obtain ⟨_, opened, issued, _⟩ := packet.opened_spec build
  have entered : Ready (packet.opened build).2 (packet.opened build).1 :=
    ⟨Reaches.formed opened formed, Reaches.distinct opened formed distinct, issued⟩
  rw [Packet.build_eq, Packet.build_eq]
  exact (walks_lag.block packet.body _ _ entered).registered
    (buildBlock_confined packet.body _ _).packets (buildBlock_confined packet.body _ _).packets
    _ _ _

theorem buildPackets_behind (packets : List Packet) (build : Build)
    (formed : build.schema.Formed) (distinct : build.schema.Distinct) :
    (buildPackets true packets build).Behind (buildPackets false packets build) := by
  induction packets generalizing build with
  | nil => exact Build.behind_refl build
  | cons packet rest later =>
      have all : build.schema.Reaches (buildPackets false (packet :: rest) build).schema :=
        buildPackets_reaches (packet :: rest) build formed
      refine (Build.behind_refl build).goes_on (packets_stopped _)
        (Reaches.cut all formed distinct) (buildPackets_diagnostics _ build) fun clean _ => ?_
      have first := packet.build_behind build formed distinct
      have reached : build.schema.Reaches (packet.build false build).schema :=
        packet.build_reaches build formed
      have formedThen := Reaches.formed reached formed
      have distinctThen := Reaches.distinct reached formed distinct
      have others : (packet.build false build).schema.Reaches
          (buildPackets false rest (packet.build false build)).schema :=
        buildPackets_reaches rest _ formedThen
      rw [packets_go_on true clean, packets_go_on false clean]
      refine first.goes_on (packets_stopped rest) (Reaches.cut others formedThen distinctThen)
        (buildPackets_diagnostics rest _) fun _ same => ?_
      rw [same]
      exact later _ formedThen distinctThen

end Tree

/-- Of every text that can be read the fast compilation is the full one cut short: it reports
something exactly where the full one does, and the same first; it reports nothing that the full
one does not report, in the same order; and its schema is the full one's cut short, or the same
where nothing is wrong. -/
theorem compile_fast_cut {source : String} {tree : Tree.Module}
    (parsed : Grammar.parse source = .ok tree) :
    ∃ fast full, compile true source = .ok fast ∧ compile false source = .ok full ∧
      (fast.diagnostics = [] ↔ full.diagnostics = []) ∧
      (full.diagnostics = [] → fast.schema = full.schema) ∧
      fast.diagnostics.head? = full.diagnostics.head? ∧
      fast.diagnostics.Sublist full.diagnostics ∧ fast.schema.CutFrom full.schema := by
  have behind : (tree.build true).Behind (tree.build false) :=
    Tree.buildPackets_behind tree.packets .empty Schema.formed_empty Schema.distinct_empty
  have cleans : (tree.build true).diagnostics = [] ↔ (tree.build false).diagnostics = [] := by
    constructor
    · intro clean
      rw [← behind.clean clean, clean]
    · intro clean
      have none := behind.cut.diagnostics
      rw [clean] at none
      exact List.sublist_nil.mp none
  refine ⟨_, _, compile_eq_build parsed, compile_eq_build parsed, cleans, ?_, ?_,
    behind.cut.diagnostics, behind.cut.schema⟩
  · intro clean
    simp only [behind.clean (cleans.mpr clean)]
  · cases earliest : (tree.build true).diagnostics.head? with
    | none =>
        have clean := cleans.mp (List.head?_eq_none_iff.mp earliest)
        exact (List.head?_eq_none_iff.mpr clean).symm
    | some diagnostic => exact (behind.cut.first diagnostic earliest).symm

/-- Of three faults a fast run reports the first, and of four scopes it creates two. -/
theorem refused_text_cut :
    ∃ tree, Grammar.parse refusedText = .ok tree ∧
      ∃ fast full, compile true refusedText = .ok fast ∧ compile false refusedText = .ok full ∧
        fast.diagnostics.length = 1 ∧ full.diagnostics.length = 3 ∧
        fast.schema.forest.size = 2 ∧ full.schema.forest.size = 4 ∧
        (fast.diagnostics = [] ↔ full.diagnostics = []) ∧
        (full.diagnostics = [] → fast.schema = full.schema) ∧
        fast.diagnostics.head? = full.diagnostics.head? ∧
        fast.diagnostics.Sublist full.diagnostics ∧ fast.schema.CutFrom full.schema := by
  have stopped : (compile true refusedText).toOption.any (fun fast =>
      fast.diagnostics.length = 1 ∧ fast.schema.forest.size = 2) = true := by decide +kernel
  have finished : (compile false refusedText).toOption.any (fun full =>
      full.diagnostics.length = 3 ∧ full.schema.forest.size = 4) = true := by decide +kernel
  obtain ⟨tree, parsed⟩ := refused_text_parsed
  obtain ⟨fast, full, fastCompiled, fullCompiled, cut⟩ := compile_fast_cut parsed
  rw [fastCompiled] at stopped
  rw [fullCompiled] at finished
  obtain ⟨first, fewer⟩ := of_decide_eq_true stopped
  obtain ⟨all, more⟩ := of_decide_eq_true finished
  exact ⟨tree, parsed, fast, full, fastCompiled, fullCompiled, first, all, fewer, more, cut⟩

end PacketSchema
