import Mathlib.Data.List.Nodup
import PacketSchema.Proofs.Walk.Reach

/-!
# Schemas cut short

A schema is cut from another one when it could have become it by growing on: its packets and its
scopes are the first ones of the other, the fields of each scope are the first ones there, and
where a field differs at all it is a union that lacks its last arms. Every step of a walk cuts
what was there before from what is there after. The one step that rewrites fields does so by
identifier, so it is needed that no scope declares an identifier twice.
-/

namespace PacketSchema

section Lists

variable {Item : Type} {related : Item → Item → Prop} {short middle long : List Item}

/-- The items of a list are related to those at the same places of a list that may be longer. -/
def Leads (related : Item → Item → Prop) (short long : List Item) : Prop :=
  ∀ (index : Nat) (item : Item), short[index]? = some item →
    ∃ other, long[index]? = some other ∧ related item other

theorem leads_refl (reflexive : ∀ item, related item item) (items : List Item) :
    Leads related items items :=
  fun _ item found => ⟨item, found, reflexive item⟩

theorem Leads.trans (transitive : ∀ first second third, related first second →
    related second third → related first third) (early : Leads related short middle)
    (late : Leads related middle long) : Leads related short long := by
  intro index item found
  obtain ⟨next, there, first⟩ := early index item found
  obtain ⟨last, found, second⟩ := late index next there
  exact ⟨last, found, transitive item next last first second⟩

theorem leads_append (reflexive : ∀ item, related item item) (items more : List Item) :
    Leads related items (items ++ more) := by
  intro index item found
  obtain ⟨bound, _⟩ := List.getElem?_eq_some_iff.mp found
  exact ⟨item, by rw [List.getElem?_append_left bound, found], reflexive item⟩

theorem leads_map {change : Item → Item} (changed : ∀ item ∈ short, related item (change item)) :
    Leads related short (short.map change) := by
  intro index item found
  exact ⟨change item, by rw [List.getElem?_map, found, Option.map_some],
    changed item (List.mem_of_getElem? found)⟩

theorem leads_modify (reflexive : ∀ item, related item item) {change : Item → Item} {place : Nat}
    (changed : ∀ item, short[place]? = some item → related item (change item)) :
    Leads related short (short.modify place change) := by
  intro index item found
  rw [List.getElem?_modify, found]
  by_cases here : place = index
  · subst here
    exact ⟨change item, by simp, changed item found⟩
  · exact ⟨item, by simp [here], reflexive item⟩

theorem leads_set (reflexive : ∀ item, related item item) {place : Nat} {old new : Item}
    (found : short[place]? = some old) (changed : related old new) :
    Leads related short (short.set place new) := by
  intro index item here
  rw [List.getElem?_set]
  by_cases same : place = index
  · rw [← same, found] at here
    cases here
    rw [if_pos same, if_pos (List.getElem?_eq_some_iff.mp found).1]
    exact ⟨new, rfl, changed⟩
  · rw [if_neg same]
    exact ⟨item, here, reflexive item⟩

/-- The same change at a place where both lists agree. -/
theorem Leads.modify (reflexive : ∀ item, related item item) (leads : Leads related short long)
    {place : Nat} (agree : short[place]? = long[place]?) (change : Item → Item) :
    Leads related (short.modify place change) (long.modify place change) := by
  intro index item found
  rw [List.getElem?_modify] at found ⊢
  by_cases here : place = index
  · subst here
    rw [agree] at found
    exact ⟨item, found, reflexive item⟩
  · simp only [here, if_false, Option.map_eq_map, Option.map_id'] at found ⊢
    exact leads index item found

end Lists

/-- A field that is cut from another one: the same, or a union with the first of its arms. -/
inductive Field.CutFrom : Field → Field → Prop
  | same (field : Field) : CutFrom field field
  | union (ident : String) (arms more : List Arm) :
      CutFrom (.union ⟨ident, arms⟩) (.union ⟨ident, arms ++ more⟩)

theorem Field.CutFrom.trans {first second third : Field} (early : first.CutFrom second)
    (late : second.CutFrom third) : first.CutFrom third := by
  cases early with
  | same => exact late
  | union ident arms more =>
      cases late with
      | same => exact .union ident arms more
      | union _ _ others =>
          rw [List.append_assoc]
          exact .union ident arms (more ++ others)

theorem Field.CutFrom.ident_eq {short long : Field} (cut : short.CutFrom long) :
    long.ident = short.ident := by
  cases cut <;> rfl

theorem Field.CutFrom.kind_eq {short long : Field} (cut : short.CutFrom long) :
    long.kind = short.kind := by
  cases cut <;> rfl

structure Scope.CutFrom (cut scope : Scope) : Prop where
  parent : cut.parent = scope.parent
  fields : Leads Field.CutFrom cut.fields scope.fields

theorem Scope.cut_refl (scope : Scope) : scope.CutFrom scope where
  parent := rfl
  fields := leads_refl .same scope.fields

theorem Scope.CutFrom.trans {first second third : Scope} (early : first.CutFrom second)
    (late : second.CutFrom third) : first.CutFrom third where
  parent := early.parent.trans late.parent
  fields := early.fields.trans (fun _ _ _ => Field.CutFrom.trans) late.fields

structure Packet.CutFrom (cut packet : Packet) : Prop where
  ident : cut.ident = packet.ident
  parent : cut.parent = packet.parent
  condition : cut.condition = packet.condition
  scope : cut.scope = packet.scope
  children : cut.children <+: packet.children

theorem Packet.cut_refl (packet : Packet) : packet.CutFrom packet :=
  ⟨rfl, rfl, rfl, rfl, List.prefix_refl _⟩

theorem Packet.CutFrom.trans {first second third : Packet} (early : first.CutFrom second)
    (late : second.CutFrom third) : first.CutFrom third where
  ident := early.ident.trans late.ident
  parent := early.parent.trans late.parent
  condition := early.condition.trans late.condition
  scope := early.scope.trans late.scope
  children := early.children.trans late.children

structure Schema.CutFrom (cut schema : Schema) : Prop where
  packets : Leads Packet.CutFrom cut.packets schema.packets
  scopes : Leads Scope.CutFrom cut.forest.scopes schema.forest.scopes

namespace Schema

variable {schema before after : Schema}

theorem cut_refl (schema : Schema) : schema.CutFrom schema where
  packets := leads_refl Packet.cut_refl _
  scopes := leads_refl Scope.cut_refl _

theorem CutFrom.trans {first second third : Schema} (early : first.CutFrom second)
    (late : second.CutFrom third) : first.CutFrom third where
  packets := early.packets.trans (fun _ _ _ => Packet.CutFrom.trans) late.packets
  scopes := early.scopes.trans (fun _ _ _ => Scope.CutFrom.trans) late.scopes

def Distinct (schema : Schema) : Prop :=
  ∀ id scope, schema.forest.scope? id = some scope → (scope.fields.map Field.ident).Nodup

theorem distinct_empty : Distinct .empty := by
  intro id scope found
  cases found

end Schema

namespace ScopeForest

variable {forest grown : ScopeForest} {target id : ScopeId} {field : Field} {ident : String}
  {arm : Arm} {scope : Scope}

theorem idents_create
    (distinct : ∀ id scope, forest.scope? id = some scope → (scope.fields.map Field.ident).Nodup)
    {parent : Option ScopeId} (found : (forest.create parent).2.scope? id = some scope) :
    (scope.fields.map Field.ident).Nodup := by
  by_cases old : forest.Issued id
  · rw [scope_create_old old] at found
    exact distinct id scope found
  · cases eq_new_of_issued_create old (issued_of_scope found)
    rw [scope_create_new] at found
    cases found
    exact List.nodup_nil

/-- A scope declares what it declared before and one more field, or the same identifiers. -/
theorem idents_append (accepted : forest.append target field = .ok grown)
    (distinct : ∀ id scope, forest.scope? id = some scope → (scope.fields.map Field.ident).Nodup)
    (found : grown.scope? id = some scope) : (scope.fields.map Field.ident).Nodup := by
  obtain ⟨fresh, rfl⟩ := append_eq_ok accepted
  rw [scope_update_fields] at found
  obtain ⟨old, present, rfl⟩ := Option.map_eq_some_iff.mp found
  split
  next here =>
    subst here
    have unbound := unbound_of_lookup fresh present
    rw [Scope.find?, List.find?_eq_none] at unbound
    exact nodup_map_concat (distinct _ old present) fun other member same =>
      unbound other member (beq_iff_eq.mpr same)
  · exact distinct id old present

theorem idents_append_arm (accepted : forest.appendArm target ident arm = .ok grown)
    (distinct : ∀ id scope, forest.scope? id = some scope → (scope.fields.map Field.ident).Nodup)
    (found : grown.scope? id = some scope) : (scope.fields.map Field.ident).Nodup := by
  obtain ⟨choice, _, _, _, rfl⟩ := append_arm_eq_ok accepted
  rw [scope_update_fields] at found
  obtain ⟨old, present, rfl⟩ := Option.map_eq_some_iff.mp found
  split
  · rw [List.map_map]
    have kept : Field.ident ∘ exchange ⟨choice.ident, choice.arms ++ [arm]⟩ = Field.ident :=
      funext fun field => ident_exchange _ field
    rw [kept]
    exact distinct id old present
  · exact distinct id old present

/-- In a scope without repetitions the union that takes an arm is the only field of its name, so
no other field is rewritten. -/
theorem cut_exchange {choice : Union} (distinct : (scope.fields.map Field.ident).Nodup)
    (declared : scope.find? choice.ident = some (.union choice)) (member : field ∈ scope.fields) :
    field.CutFrom (exchange ⟨choice.ident, choice.arms ++ [arm]⟩ field) := by
  unfold exchange
  split
  next same =>
    have listed : Field.union choice ∈ scope.fields := List.mem_of_find?_eq_some declared
    have only : field = .union choice :=
      List.inj_on_of_nodup_map distinct member listed same
    rw [only]
    exact .union choice.ident choice.arms [arm]
  · exact .same field

/-- A scope that is created leaves all others as they are. -/
theorem create_cut (forest : ScopeForest) (parent : Option ScopeId) :
    Leads Scope.CutFrom forest.scopes (forest.create parent).2.scopes :=
  leads_append Scope.cut_refl _ _

theorem append_cut (accepted : forest.append target field = .ok grown) :
    Leads Scope.CutFrom forest.scopes grown.scopes := by
  rw [(append_eq_ok accepted).2]
  apply leads_modify Scope.cut_refl
  intro old _
  exact ⟨rfl, leads_append .same _ _⟩

theorem append_arm_cut (accepted : forest.appendArm target ident arm = .ok grown)
    (distinct : ∀ id scope, forest.scope? id = some scope →
      (scope.fields.map Field.ident).Nodup) :
    Leads Scope.CutFrom forest.scopes grown.scopes := by
  obtain ⟨choice, named, declared, _, same⟩ := append_arm_eq_ok accepted
  rw [same]
  apply leads_modify Scope.cut_refl
  intro old present
  refine ⟨rfl, leads_map fun field member => ?_⟩
  rw [field_of_scope present, ← named] at declared
  exact cut_exchange (distinct target old present) declared member

end ScopeForest

namespace Schema

variable {before after : Schema}

theorem Step.distinct (step : Step before after) (formed : Formed before)
    (distinct : before.Distinct) : after.Distinct := by
  intro id scope found
  rcases step.forest_cases formed with ⟨parent, _, same⟩ | ⟨_, _, appended⟩ |
    ⟨_, _, _, appended⟩ | same
  · rw [same] at found
    exact ScopeForest.idents_create distinct found
  · exact ScopeForest.idents_append appended distinct found
  · exact ScopeForest.idents_append_arm appended distinct found
  · rw [same] at found
    exact distinct id scope found

theorem Reaches.distinct (reaches : Reaches before after) (formed : Formed before)
    (distinct : before.Distinct) : after.Distinct := by
  induction reaches with
  | refl => exact distinct
  | tail earlier step inner => exact step.distinct (Reaches.formed earlier formed) inner

/-- The scopes before a step are cut from those after it. -/
theorem Step.scopes_cut (step : Step before after) (formed : Formed before)
    (distinct : before.Distinct) :
    Leads Scope.CutFrom before.forest.scopes after.forest.scopes := by
  rcases step.forest_cases formed with ⟨parent, _, same⟩ | ⟨_, _, appended⟩ |
    ⟨_, _, _, appended⟩ | same
  · rw [same]
    exact ScopeForest.create_cut _ parent
  · exact ScopeForest.append_cut appended
  · exact ScopeForest.append_arm_cut appended distinct
  · rw [same]
    exact leads_refl Scope.cut_refl _

/-- All that an edge changes in a packet is the end of its list of edges. -/
theorem packets_cut_set {schema : Schema} {id : PacketId} {parent : Packet} (edge : Child)
    (found : schema.packet? id = some parent) :
    Leads Packet.CutFrom schema.packets
      (schema.packets.set id.index { parent with children := parent.children ++ [edge] }) :=
  leads_set Packet.cut_refl found ⟨rfl, rfl, rfl, rfl, List.prefix_append _ _⟩

/-- So are the packets: all that a step does to one that is there is to add an edge. -/
theorem Step.packets_cut (step : Step before after) :
    Leads Packet.CutFrom before.packets after.packets := by
  rcases step.packets_cases with same | ⟨record, same, _⟩ |
    ⟨id, parent, child, condition, present, _, same⟩
  · rw [same]
    exact leads_refl Packet.cut_refl _
  · rw [same]
    exact leads_append Packet.cut_refl _ _
  · rw [same]
    exact packets_cut_set _ present

theorem Reaches.cut (reaches : Reaches before after) (formed : Formed before)
    (distinct : before.Distinct) : before.CutFrom after := by
  induction reaches with
  | refl => exact cut_refl before
  | tail earlier step inner =>
      have formedThen := Reaches.formed earlier formed
      have distinctThen := Reaches.distinct earlier formed distinct
      exact inner.trans ⟨step.packets_cut, step.scopes_cut formedThen distinctThen⟩

end Schema

end PacketSchema
