import Mathlib.Logic.Relation
import PacketSchema.Proofs.Walk.Cut

/-!
# Names that keep their meaning

A forest grows by scopes without a parent, by scopes below one that is there, by fields and by
arms of unions. A scope may still take fields when scopes below it are long in use, and nothing
but the look-up at each declaration keeps a new field from standing between a use and what it
means. So a step moves no binding to another scope; and since it only ever cuts what was there
before from what is there after, the binding keeps its position and its kind, and gains at most
arms. What was not visible is all that can come to mean something.
-/

namespace PacketSchema.ScopeForest

open Relation (ReflTransGen)

variable {forest grown later : ScopeForest} {id owner : ScopeId} {ident : String}
  {field further : Field} {place : Nat}

/-- The forest to go on with after a change that may be refused. -/
def settle (forest : ScopeForest) : Except SchemaError ScopeForest → ScopeForest
  | .error _ => forest
  | .ok grown => grown

/-- The four ways to work on a forest. A field or an arm that is refused leaves it as it is. -/
inductive Grows : ScopeForest → ScopeForest → Prop
  | root (forest : ScopeForest) : Grows forest (forest.create none).2
  | child {forest : ScopeForest} {parent : ScopeId} (issued : forest.Issued parent) :
      Grows forest (forest.create (some parent)).2
  | field (forest : ScopeForest) (id : ScopeId) (field : Field) :
      Grows forest (forest.settle (forest.append id field))
  | arm (forest : ScopeForest) (id : ScopeId) (ident : String) (arm : Arm) :
      Grows forest (forest.settle (forest.appendArm id ident arm))

/-- What a step does, where it does anything. -/
theorem Grows.cases (grows : Grows forest grown) :
    grown = forest ∨
      (∃ parent : Option ScopeId, (∀ above ∈ parent, forest.Issued above) ∧
        grown = (forest.create parent).2) ∨
      (∃ id field, forest.append id field = .ok grown) ∨
      (∃ id ident arm, forest.appendArm id ident arm = .ok grown) := by
  cases grows with
  | root => exact .inr (.inl ⟨none, by simp, rfl⟩)
  | child issued => exact .inr (.inl ⟨some _, by simpa using issued, rfl⟩)
  | field id field =>
      cases answer : forest.append id field with
      | error error => exact .inl rfl
      | ok grown => exact .inr (.inr (.inl ⟨id, field, answer⟩))
  | arm id ident arm =>
      cases answer : forest.appendArm id ident arm with
      | error error => exact .inl rfl
      | ok grown => exact .inr (.inr (.inr ⟨id, ident, arm, answer⟩))

/-- No scope declares an identifier twice. -/
def Distinct (forest : ScopeForest) : Prop :=
  ∀ id scope, forest.scope? id = some scope → (scope.fields.map Field.ident).Nodup

structure Sound (forest : ScopeForest) : Prop where
  ordered : forest.Ordered
  distinct : forest.Distinct

theorem sound_empty : Sound .empty where
  ordered := by
    intro id parent linked
    cases linked
  distinct := by
    intro id scope found
    cases found

theorem Grows.sound (grows : Grows forest grown) (sound : forest.Sound) : grown.Sound := by
  rcases grows.cases with rfl | ⟨parent, issued, rfl⟩ | ⟨id, field, accepted⟩ |
    ⟨id, ident, arm, accepted⟩
  · exact sound
  · exact ⟨sound.ordered.create issued, fun _ _ => idents_create sound.distinct⟩
  · refine ⟨?_, fun _ _ => idents_append accepted sound.distinct⟩
    rw [(append_eq_ok accepted).2]
    exact sound.ordered.update_fields id _
  · refine ⟨?_, fun _ _ => idents_append_arm accepted sound.distinct⟩
    obtain ⟨_, _, _, _, rfl⟩ := append_arm_eq_ok accepted
    exact sound.ordered.update_fields id _

theorem Grows.cut (grows : Grows forest grown) (sound : forest.Sound) :
    Leads Scope.CutFrom forest.scopes grown.scopes := by
  rcases grows.cases with rfl | ⟨parent, _, rfl⟩ | ⟨_, _, accepted⟩ | ⟨_, _, _, accepted⟩
  · exact leads_refl Scope.cut_refl _
  · exact create_cut forest parent
  · exact append_cut accepted
  · exact append_arm_cut accepted sound.distinct

/-- A step leaves every binding in the scope where it was found. -/
theorem Grows.owner_kept (grows : Grows forest grown) (ordered : forest.Ordered)
    (found : forest.lookup id ident = .ok (some (owner, field))) :
    ∃ further, grown.lookup id ident = .ok (some (owner, further)) := by
  rcases grows.cases with rfl | ⟨parent, parentIssued, rfl⟩ | ⟨_, _, accepted⟩ |
    ⟨_, _, _, accepted⟩
  · exact ⟨field, found⟩
  · rw [ordered.lookup_create (issued_of_lookup found) parentIssued]
    exact ⟨field, found⟩
  · obtain ⟨fresh, rfl⟩ := append_eq_ok accepted
    exact ⟨field, ordered.lookup_declare_kept fresh found⟩
  · obtain ⟨choice, _, _, _, rfl⟩ := append_arm_eq_ok accepted
    rw [ordered.lookup_map_fields (ident_exchange _), found]
    exact ⟨_, rfl⟩

theorem sound_of_grown (run : ReflTransGen Grows forest later) (sound : forest.Sound) :
    later.Sound := by
  induction run with
  | refl => exact sound
  | tail _ step earlier => exact step.sound earlier

theorem cut_of_grown (run : ReflTransGen Grows forest later) (sound : forest.Sound) :
    Leads Scope.CutFrom forest.scopes later.scopes := by
  induction run with
  | refl => exact leads_refl Scope.cut_refl _
  | tail before step earlier =>
      exact earlier.trans (fun _ _ _ => Scope.CutFrom.trans)
        (step.cut (sound_of_grown before sound))

theorem owner_kept_of_grown (run : ReflTransGen Grows forest later) (sound : forest.Sound)
    (found : forest.lookup id ident = .ok (some (owner, field))) :
    ∃ further, later.lookup id ident = .ok (some (owner, further)) := by
  induction run with
  | refl => exact ⟨field, found⟩
  | tail before step earlier =>
      obtain ⟨between, seen⟩ := earlier
      exact step.owner_kept (sound_of_grown before sound).ordered seen

def fieldAt? (forest : ScopeForest) (id : ScopeId) (place : Nat) : Option Field :=
  (forest.scope? id).bind fun scope => scope.fields[place]?

theorem place_of_lookup (found : forest.lookup id ident = .ok (some (owner, field))) :
    field.ident = ident ∧ ∃ place, forest.fieldAt? owner place = some field := by
  obtain ⟨_, _, _, _, declared⟩ := first_binding_split found
  obtain ⟨scope, present, own⟩ := Option.bind_eq_some_iff.mp declared
  obtain ⟨place, there⟩ := List.getElem?_of_mem (List.mem_of_find?_eq_some own)
  exact ⟨Scope.ident_of_find own, place, by rw [fieldAt?, present, Option.bind_some, there]⟩

/-- A field that is found is the only one of its identifier in its scope. -/
theorem Distinct.eq_of_lookup (distinct : forest.Distinct)
    (found : forest.lookup id ident = .ok (some (owner, field)))
    (there : forest.fieldAt? owner place = some further) (named : further.ident = ident) :
    further = field := by
  obtain ⟨same, other, held⟩ := place_of_lookup found
  obtain ⟨scope, present, first⟩ := Option.bind_eq_some_iff.mp there
  rw [fieldAt?, present, Option.bind_some] at held
  exact List.inj_on_of_nodup_map (distinct owner scope present) (List.mem_of_getElem? first)
    (List.mem_of_getElem? held) (named.trans same.symm)

theorem place_kept (cut : Leads Scope.CutFrom forest.scopes later.scopes)
    (there : forest.fieldAt? owner place = some field) :
    ∃ further, later.fieldAt? owner place = some further ∧ field.CutFrom further := by
  obtain ⟨scope, present, first⟩ := Option.bind_eq_some_iff.mp there
  obtain ⟨grownScope, found, cutFrom⟩ := cut owner.index scope present
  obtain ⟨further, held, grew⟩ := cutFrom.fields place field first
  exact ⟨further, Option.bind_eq_some_iff.mpr ⟨grownScope, found, held⟩, grew⟩

/-- A binding that was found is found again: in the same scope, at the same position, of the same
kind, with at most further arms. -/
theorem binding_kept_of_grown (run : ReflTransGen Grows forest later) (sound : forest.Sound)
    (found : forest.lookup id ident = .ok (some (owner, field))) :
    ∃ place further, forest.fieldAt? owner place = some field ∧
      later.fieldAt? owner place = some further ∧
      later.lookup id ident = .ok (some (owner, further)) ∧ field.CutFrom further := by
  obtain ⟨named, place, there⟩ := place_of_lookup found
  obtain ⟨further, held, cut⟩ := place_kept (cut_of_grown run sound) there
  obtain ⟨seen, found⟩ := owner_kept_of_grown run sound found
  have same := (sound_of_grown run sound).distinct.eq_of_lookup found held
    (cut.ident_eq.trans named)
  exact ⟨place, further, there, held, same ▸ found, cut⟩

/-- An identifier that is bound resolves, or fails to, by the owner and the kind of its field. -/
theorem resolve_eq_of_cut (found : forest.lookup id ident = .ok (some (owner, field)))
    (kept : later.lookup id ident = .ok (some (owner, further))) (cut : field.CutFrom further) :
    later.resolve id ident = forest.resolve id ident := by
  rw [resolve, resolve, found, kept]
  cases cut with
  | same field => rfl
  | union ident arms more => rfl

theorem resolve_not_issued (absent : ¬forest.Issued id) :
    forest.resolve id ident = .error (.unissuedScope id) := by
  rw [resolve, lookup_not_issued absent]

/-- A scope that is there either sees a field of a name, or says that it sees none. -/
theorem Ordered.bound_or_not_visible (ordered : forest.Ordered) (issued : forest.Issued id)
    (ident : String) :
    (∃ owner field, forest.lookup id ident = .ok (some (owner, field))) ∨
      forest.resolve id ident = .error (.unresolvedReference ident .notVisible) := by
  obtain ⟨binding, seen⟩ := ordered.lookup_ok issued ident
  cases binding with
  | none => exact .inr (by rw [resolve, seen])
  | some binding => exact .inl ⟨binding.1, binding.2, seen⟩

theorem resolve_kept_of_grown (run : ReflTransGen Grows forest later) (sound : forest.Sound)
    (issued : forest.Issued id)
    (visible : forest.resolve id ident ≠ .error (.unresolvedReference ident .notVisible)) :
    later.resolve id ident = forest.resolve id ident := by
  rcases sound.ordered.bound_or_not_visible issued ident with ⟨owner, field, found⟩ | unseen
  · obtain ⟨_, further, _, _, kept, cut⟩ := binding_kept_of_grown run sound found
    exact resolve_eq_of_cut found kept cut
  · exact absurd unseen visible

theorem issued_of_resolve {answer : Except SchemaError FieldRef}
    (resolved : forest.resolve id ident = answer) (plain : answer ≠ .error (.unissuedScope id)) :
    forest.Issued id :=
  Decidable.byContradiction fun absent => plain (resolved ▸ resolve_not_issued absent)

/-- A field is refused for its identifier alone, so every field of that identifier is. -/
theorem refused_kept_of_grown (run : ReflTransGen Grows forest later) (sound : forest.Sound)
    (refused : forest.append id field = .error (.fieldRedefined field.ident))
    (same : further.ident = field.ident) :
    later.append id further = .error (.fieldRedefined field.ident) := by
  cases seen : forest.lookup id field.ident with
  | error error =>
      have absent : ¬forest.Issued id := by
        intro issued
        obtain ⟨binding, found⟩ := sound.ordered.lookup_ok issued field.ident
        rw [seen] at found
        cases found
      rw [append, lookup_not_issued absent] at refused
      cases refused
  | ok binding =>
      cases binding with
      | none =>
          rw [append, seen] at refused
          cases refused
      | some binding =>
          obtain ⟨_, _, _, _, kept, _⟩ := binding_kept_of_grown run sound seen
          rw [append, same, kept]

/-- What an identifier means from a scope of one forest, it means in another one too. Of a scope
that was never issued nothing is said, since it gives no answer. -/
structure Keeps (forest later : ScopeForest) (id : ScopeId) (ident : String) : Prop where
  binding : ∀ owner field, forest.lookup id ident = .ok (some (owner, field)) →
    ∃ place further, forest.fieldAt? owner place = some field ∧
      later.fieldAt? owner place = some further ∧
      later.lookup id ident = .ok (some (owner, further)) ∧
      further.kind = field.kind ∧ field.CutFrom further
  resolved : ∀ reference, forest.resolve id ident = .ok reference →
    later.resolve id ident = .ok reference
  notScalar : ∀ kind,
    forest.resolve id ident = .error (.unresolvedReference ident (.notScalar kind)) →
    later.resolve id ident = .error (.unresolvedReference ident (.notScalar kind))
  refused : forest.Issued id → ∀ field error, field.ident = ident →
    forest.append id field = .error error →
    error = .fieldRedefined ident ∧
      ∀ further : Field, further.ident = ident → later.append id further = .error error
  changed : forest.Issued id → later.resolve id ident ≠ forest.resolve id ident →
    forest.resolve id ident = .error (.unresolvedReference ident .notVisible)

/-- Name resolution is stable over every run. -/
theorem names_keep_meaning (reached : ReflTransGen Grows .empty forest)
    (run : ReflTransGen Grows forest later) (id : ScopeId) (ident : String) :
    forest.Keeps later id ident := by
  have sound := sound_of_grown reached sound_empty
  refine ⟨?binding, ?resolved, ?notScalar, ?refused, ?changed⟩
  case binding =>
    intro owner field found
    obtain ⟨place, further, there, held, kept, cut⟩ := binding_kept_of_grown run sound found
    exact ⟨place, further, there, held, kept, cut.kind_eq, cut⟩
  case resolved =>
    intro reference resolved
    have issued := issued_of_resolve resolved (by simp)
    rw [resolve_kept_of_grown run sound issued (by simp [resolved]), resolved]
  case notScalar =>
    intro kind unresolved
    have issued := issued_of_resolve unresolved (by simp)
    rw [resolve_kept_of_grown run sound issued (by simp [unresolved]), unresolved]
  case refused =>
    rintro issued field error rfl refused
    have reason := sound.ordered.append_error issued refused
    subst reason
    exact ⟨rfl, fun further same => refused_kept_of_grown run sound refused same⟩
  case changed =>
    intro issued different
    by_contra visible
    exact different (resolve_kept_of_grown run sound issued visible)

/-- A union, and a scope below the one that declares it. -/
def unionAbove : ScopeForest :=
  ⟨[⟨none, [.union (.empty "body")]⟩, ⟨some ⟨0⟩, []⟩]⟩

/-- The union has taken an arm since, and the scope below sees one more field. -/
def unionGrown : ScopeForest :=
  ⟨[⟨none, [.union ⟨"body", [⟨none, ⟨"rest", 1⟩, ⟨7⟩⟩]⟩,
      .always "length" (.ofParts .unsigned none none)]⟩,
    ⟨some ⟨0⟩, []⟩]⟩

theorem union_above_reached : ReflTransGen Grows .empty unionAbove :=
  ((ReflTransGen.single (.root .empty)).tail (.field _ ⟨0⟩ (.union (.empty "body")))).tail
    (@Grows.child _ ⟨0⟩ (by decide))

/-- Between the two a field is refused. -/
theorem union_above_grows : ReflTransGen Grows unionAbove unionGrown :=
  ((ReflTransGen.single (.arm _ ⟨0⟩ "body" ⟨none, ⟨"rest", 1⟩, ⟨7⟩⟩)).tail
    (.field _ ⟨1⟩ (.union (.empty "body")))).tail
    (.field _ ⟨0⟩ (.always "length" (.ofParts .unsigned none none)))

theorem union_above_keeps_meaning :
    unionAbove.resolve ⟨1⟩ "length" = .error (.unresolvedReference "length" .notVisible) ∧
      unionGrown.resolve ⟨1⟩ "length" = .ok ⟨⟨0⟩, "length"⟩ ∧
      unionAbove.append ⟨1⟩ (.union (.empty "body")) = .error (.fieldRedefined "body") ∧
      ∀ ident, unionAbove.Keeps unionGrown ⟨1⟩ ident :=
  ⟨by decide, by decide, by decide,
    names_keep_meaning union_above_reached union_above_grows ⟨1⟩⟩

end PacketSchema.ScopeForest
