import Mathlib.Data.List.Induction
import PacketSchema.Proofs.Rules.Union
import PacketSchema.Proofs.Session.Refusal

/-!
# The arms that a union keeps

A union is given one arm after another and keeps each that collides with none it has kept so far.
Collisions are looked for in the arms, and those of labels and values in two lists beside them,
which hold what the kept arms have used and nothing of those refused. So an arm that is refused is
refused for the first thing that speaks against it, and the rest goes on as if it had never come.
-/

namespace PacketSchema

section Calls

variable {State Call Answer : Type} (make : State → Call → Answer × State)

/-- The answers to several calls, one made on what the other leaves, and what is left in the
end. -/
def callAll (state : State) : List Call → List Answer × State
  | [] => ([], state)
  | call :: rest =>
      let (answer, left) := make state call
      let (answers, last) := callAll left rest
      (answer :: answers, last)

theorem call_all_cons (state : State) (call : Call) (rest : List Call) :
    callAll make state (call :: rest) =
      ((make state call).1 :: (callAll make (make state call).2 rest).1,
        (callAll make (make state call).2 rest).2) :=
  rfl

theorem call_all_append (state : State) (earlier later : List Call) :
    callAll make state (earlier ++ later) =
      ((callAll make state earlier).1 ++ (callAll make (callAll make state earlier).2 later).1,
        (callAll make (callAll make state earlier).2 later).2) := by
  induction earlier generalizing state with
  | nil => rfl
  | cons call rest behind =>
      rw [List.cons_append, call_all_cons, behind, call_all_cons, List.cons_append]

theorem answers_length (state : State) (calls : List Call) :
    (callAll make state calls).1.length = calls.length := by
  induction calls generalizing state with
  | nil => rfl
  | cons call rest later => exact congrArg Nat.succ (later (make state call).2)

/-- The answer to a call is the one that is given behind the calls before it. -/
theorem answer_behind (state : State) (earlier : List Call) (call : Call) (later : List Call) :
    (callAll make state (earlier ++ call :: later)).1[earlier.length]? =
      some (make (callAll make state earlier).2 call).1 := by
  rw [call_all_append, call_all_cons, List.getElem?_append_right
    (Nat.le_of_eq (answers_length make state earlier)), answers_length, Nat.sub_self]
  rfl

/-- Without a call that leaves all as it was the others are answered as with it. -/
theorem call_all_without {state : State} {earlier : List Call} {call : Call}
    (same : (make (callAll make state earlier).2 call).2 = (callAll make state earlier).2)
    (later : List Call) :
    callAll make state (earlier ++ later) =
      ((callAll make state (earlier ++ call :: later)).1.eraseIdx earlier.length,
        (callAll make state (earlier ++ call :: later)).2) := by
  rw [call_all_append, call_all_append, call_all_cons, same,
    List.eraseIdx_append_of_length_le (Nat.le_of_eq (answers_length make state earlier)),
    answers_length, Nat.sub_self]
  rfl

end Calls

/-- Two arms of one union may not share a condition, a label or a value. To have no condition is
to share it with all others that have none. -/
def Arm.Collides (present arm : Arm) : Prop :=
  present.condition = arm.condition ∨ present.tag.label = arm.tag.label ∨
    present.tag.value = arm.tag.value

instance (present arm : Arm) : Decidable (present.Collides arm) :=
  inferInstanceAs (Decidable (_ ∨ _ ∨ _))

/-- The first thing that speaks against an arm beside some that are kept. -/
inductive Arm.RefusedFor (kept : List Arm) (arm : Arm) : ArmConflict → Prop
  | secondDefault (without : arm.condition = none)
      (taken : ∃ present ∈ kept, present.condition = none) : RefusedFor kept arm .secondDefault
  | repeatedCondition {condition : Condition} (given : arm.condition = some condition)
      (taken : ∃ present ∈ kept, present.condition = some condition) :
      RefusedFor kept arm (.repeatedCondition condition)
  | repeatedLabel (unshared : ∀ present ∈ kept, present.condition ≠ arm.condition)
      (taken : ∃ present ∈ kept, present.tag.label = arm.tag.label) :
      RefusedFor kept arm (.repeatedLabel arm.tag.label)
  | repeatedValue (unshared : ∀ present ∈ kept, present.condition ≠ arm.condition)
      (unlabelled : ∀ present ∈ kept, present.tag.label ≠ arm.tag.label)
      (taken : ∃ present ∈ kept, present.tag.value = arm.tag.value) :
      RefusedFor kept arm (.repeatedValue arm.tag.value)

variable {arm : Arm} {arms kept earlier later : List Arm}

/-- The arms that are left when each is kept that collides with none of those kept before it. -/
def keptArms (arms : List Arm) : List Arm :=
  arms.foldl (fun kept arm =>
    if ∃ present ∈ kept, present.Collides arm then kept else kept ++ [arm]) []

theorem kept_arms_concat (arms : List Arm) (arm : Arm) :
    keptArms (arms ++ [arm]) =
      if ∃ present ∈ keptArms arms, present.Collides arm then keptArms arms
      else keptArms arms ++ [arm] := by
  rw [keptArms, List.foldl_append]
  rfl

theorem kept_arms_sublist (arms : List Arm) : (keptArms arms).Sublist arms := by
  induction arms using List.reverseRecOn with
  | nil => exact .slnil
  | append_singleton arms arm before =>
      rw [kept_arms_concat]
      split
      · exact before.trans (List.sublist_append_left _ _)
      · exact before.append (.refl _)

/-- No two of the arms that are kept collide. -/
theorem kept_arms_apart (arms : List Arm) :
    (keptArms arms).Pairwise fun present arm => ¬present.Collides arm := by
  induction arms using List.reverseRecOn with
  | nil => exact .nil
  | append_singleton arms arm before =>
      rw [kept_arms_concat]
      split
      · exact before
      next free =>
        refine List.pairwise_append.mpr ⟨before, List.pairwise_singleton _ _, ?_⟩
        intro present member other same
        cases List.mem_singleton.mp same
        exact fun collides => free ⟨present, member, collides⟩

/-- Of arms that do not collide the first one without a condition is the only one. -/
theorem without_condition_of_apart
    (apart : arms.Pairwise fun present arm => ¬present.Collides arm) :
    arms.filter (fun arm => arm.condition.isNone) =
      (arms.find? fun arm => arm.condition.isNone).toList := by
  induction apart with
  | nil => rfl
  | @cons arm rest free _ others =>
      cases given : arm.condition with
      | some condition => simpa [given] using others
      | none =>
          have none : rest.filter (fun other => other.condition.isNone) = [] := by
            rw [List.filter_eq_nil_iff]
            intro other member without
            rw [Option.isNone_iff_eq_none] at without
            exact free other member (.inl (given.trans without.symm))
          simp [given, none]

namespace Union

variable {union : Union} {conflict : ArmConflict}

theorem conflict_eq_some_iff :
    union.conflict? arm = some conflict ↔ arm.RefusedFor union.arms conflict := by
  have shared : (union.arms.any fun present => present.condition = arm.condition) = true ↔
      ∃ present ∈ union.arms, present.condition = arm.condition := by simp
  have labelled : (union.arms.any fun present => present.tag.label = arm.tag.label) = true ↔
      ∃ present ∈ union.arms, present.tag.label = arm.tag.label := by simp
  have valued : (union.arms.any fun present => present.tag.value = arm.tag.value) = true ↔
      ∃ present ∈ union.arms, present.tag.value = arm.tag.value := by simp
  simp only [conflict?, shared, labelled, valued]
  constructor
  · intro found
    split at found
    next taken =>
      split at found
      next without =>
        cases found
        exact .secondDefault without (without ▸ taken)
      next condition given =>
        cases found
        exact .repeatedCondition given (given ▸ taken)
    next unshared =>
      have unshared : ∀ present ∈ union.arms, present.condition ≠ arm.condition :=
        fun present member same => unshared ⟨present, member, same⟩
      split at found
      next taken =>
        cases found
        exact .repeatedLabel unshared taken
      next unlabelled =>
        split at found
        next taken =>
          cases found
          exact .repeatedValue unshared
            (fun present member same => unlabelled ⟨present, member, same⟩) taken
        next => cases found
  · intro refused
    cases refused with
    | secondDefault without taken => rw [without, if_pos taken]
    | repeatedCondition given taken => rw [given, if_pos taken]
    | repeatedLabel unshared taken =>
        rw [if_neg (by simpa using unshared), if_pos taken]
    | repeatedValue unshared unlabelled taken =>
        rw [if_neg (by simpa using unshared), if_neg (by simpa using unlabelled), if_pos taken]

theorem conflict_eq_none_iff_apart :
    union.conflict? arm = none ↔ ¬∃ present ∈ union.arms, present.Collides arm := by
  rw [conflict_eq_none_iff]
  simp only [Arm.Collides, not_exists, not_and, not_or, ne_eq]

theorem collides_of_conflict (found : union.conflict? arm = some conflict) :
    ∃ present ∈ union.arms, present.Collides arm := by
  by_contra apart
  rw [conflict_eq_none_iff_apart.mpr apart] at found
  cases found

def offer (union : Union) (arm : Arm) : Except SchemaError Unit × Union :=
  match union.append arm with
  | .error error => (.error error, union)
  | .ok grown => (.ok (), grown)

def offerAll (union : Union) (arms : List Arm) : List (Except SchemaError Unit) × Union :=
  callAll offer union arms

theorem offer_of_none (free : union.conflict? arm = none) :
    union.offer arm = (.ok (), ⟨union.ident, union.arms ++ [arm]⟩) := by
  rw [offer, append, free]

theorem offer_of_some (found : union.conflict? arm = some conflict) :
    union.offer arm = (.error (.armRefused union.ident conflict), union) := by
  rw [offer, append, found]

theorem offer_all_kept (ident : String) (arms : List Arm) :
    ((empty ident).offerAll arms).2 = ⟨ident, keptArms arms⟩ := by
  induction arms using List.reverseRecOn with
  | nil => rfl
  | append_singleton arms arm before =>
      rw [offerAll, call_all_append, ← offerAll, before, call_all_cons, kept_arms_concat]
      cases found : conflict? ⟨ident, keptArms arms⟩ arm with
      | none =>
          rw [offer_of_none found, if_neg (conflict_eq_none_iff_apart.mp found)]
          rfl
      | some conflict =>
          rw [offer_of_some found, if_pos (collides_of_conflict found)]
          rfl

end Union

namespace Indexed.Union

variable {union : Union} {error : SchemaError}

/-- The answer to an arm that is taken in place, and the union that this leaves. -/
def offer (union : Union) (arm : Arm) : Except SchemaError Unit × Union :=
  match (takeArm arm).run union with
  | .ok answer left => (.ok answer, left)
  | .error error left => (.error error, left)

def offerAll (union : Union) (arms : List Arm) : List (Except SchemaError Unit) × Union :=
  callAll offer union arms

theorem offer_eq (union : Union) (arm : Arm) :
    union.offer arm =
      match union.append arm with
      | .error error => (.error error, union)
      | .ok grown => (.ok (), grown) := by
  rw [offer, take_arm_settled]
  cases union.append arm <;> rfl

/-- An arm that is refused leaves the union with its labels and its values as it was. -/
theorem offer_of_refused (refused : (union.offer arm).1 = .error error) :
    (union.offer arm).2 = union := by
  rw [offer_eq] at refused ⊢
  cases appended : union.append arm with
  | error reason => rfl
  | ok grown =>
      rw [appended] at refused
      cases refused

theorem Sound.offered (sound : union.Sound) (arm : Arm) :
    (union.offer arm).2.Sound ∧
      union.plain.offer arm = ((union.offer arm).1, (union.offer arm).2.plain) := by
  rw [PacketSchema.Union.offer, sound.append_plain, offer_eq]
  cases appended : union.append arm with
  | error error => exact ⟨sound, rfl⟩
  | ok grown => exact ⟨sound.append appended, rfl⟩

theorem Sound.after_all (sound : union.Sound) (arms : List Arm) :
    (union.offerAll arms).2.Sound := by
  induction arms generalizing union with
  | nil => exact sound
  | cons arm rest later => exact later (sound.offered arm).1

/-- Arms taken in place are answered as where the labels and the values are searched for. -/
theorem Sound.offered_all (sound : union.Sound) (arms : List Arm) :
    union.plain.offerAll arms = ((union.offerAll arms).1, (union.offerAll arms).2.plain) := by
  induction arms generalizing union with
  | nil => rfl
  | cons arm rest later =>
      obtain ⟨still, same⟩ := sound.offered arm
      rw [PacketSchema.Union.offerAll, call_all_cons, same, ← PacketSchema.Union.offerAll,
        later still]
      rfl

/-- Whatever arms a new union is given, it keeps those that collide with none kept before them, in
their order. The others are answered with the first thing that speaks against them, and all the
rest is answered as without them. Of the arms that are kept, the default one is the only one that
has no condition. -/
theorem new_union_keeps_greedily (ident : String) (arms : List Arm) :
    let run := (ofPlain (.empty ident)).offerAll arms
    run.2.plain = ⟨ident, keptArms arms⟩ ∧ (keptArms arms).Sublist arms ∧
    run.2.arms.filter (fun arm => arm.condition.isNone) = run.2.plain.defaultArm?.toList ∧
    run.1.length = arms.length ∧
    ∀ earlier arm later, arms = earlier ++ arm :: later →
      ((¬∃ present ∈ keptArms earlier, present.Collides arm) ∧
        run.1[earlier.length]? = some (.ok ())) ∨
      ((∃ present ∈ keptArms earlier, present.Collides arm) ∧
        (∃ conflict, arm.RefusedFor (keptArms earlier) conflict ∧
          run.1[earlier.length]? = some (.error (.armRefused ident conflict))) ∧
        (ofPlain (.empty ident)).offerAll (earlier ++ later) =
          (run.1.eraseIdx earlier.length, run.2)) := by
  intro run
  have sound := sound_of_plain (.empty ident)
  have left : ∀ arms, ((ofPlain (.empty ident)).offerAll arms).2.plain =
      ⟨ident, keptArms arms⟩ := by
    intro arms
    have same := congrArg Prod.snd (sound.offered_all arms)
    exact same.symm.trans (PacketSchema.Union.offer_all_kept ident arms)
  have held : run.2.arms = keptArms arms := congrArg PacketSchema.Union.arms (left arms)
  refine ⟨left arms, kept_arms_sublist arms, ?default, answers_length offer _ arms, ?answers⟩
  case default =>
    rw [left arms, held]
    exact without_condition_of_apart (kept_arms_apart arms)
  case answers =>
    rintro earlier arm later rfl
    have before := left earlier
    have answer : run.1[earlier.length]? = _ :=
      answer_behind offer (ofPlain (.empty ident)) earlier arm later
    have offered := (sound.after_all earlier).offered arm
    rw [before] at offered
    cases found : PacketSchema.Union.conflict? ⟨ident, keptArms earlier⟩ arm with
    | none =>
        rw [PacketSchema.Union.offer_of_none found] at offered
        refine .inl ⟨PacketSchema.Union.conflict_eq_none_iff_apart.mp found, ?_⟩
        rw [answer]
        exact congrArg some (congrArg Prod.fst offered.2).symm
    | some conflict =>
        rw [PacketSchema.Union.offer_of_some found] at offered
        have refused := (congrArg Prod.fst offered.2).symm
        refine .inr ⟨?_, ⟨conflict, PacketSchema.Union.conflict_eq_some_iff.mp found, ?_⟩, ?_⟩
        · exact PacketSchema.Union.collides_of_conflict found
        · rw [answer]
          exact congrArg some refused
        · exact call_all_without offer (offer_of_refused refused) later

/-- Of these the third one has no condition, like the first, and its value is that of the
second. -/
def crowdedArms : List Arm :=
  [⟨none, ⟨"A", 1⟩, ⟨1⟩⟩, ⟨some (.integer 0), ⟨"B", 2⟩, ⟨2⟩⟩, ⟨none, ⟨"C", 2⟩, ⟨3⟩⟩,
    ⟨some (.integer 1), ⟨"C", 3⟩, ⟨4⟩⟩]

theorem crowded_arms_kept :
    let run := (ofPlain (.empty "v")).offerAll crowdedArms
    run.2.arms = crowdedArms.eraseIdx 2 ∧
    run.1[2]? = some (.error (.armRefused "v" .secondDefault)) ∧
    (ofPlain (.empty "v")).offerAll (crowdedArms.eraseIdx 2) = (run.1.eraseIdx 2, run.2) := by
  obtain ⟨left, -, -, -, answers⟩ := new_union_keeps_greedily "v" crowdedArms
  have kept : keptArms crowdedArms = crowdedArms.eraseIdx 2 := by decide
  refine ⟨(congrArg PacketSchema.Union.arms left).trans kept, ?_⟩
  rcases answers (crowdedArms.take 2) _ (crowdedArms.drop 3) rfl with
    ⟨apart, -⟩ | ⟨-, refused, rest⟩
  · exact absurd (by decide) apart
  · obtain ⟨conflict, reason, answer⟩ := refused
    have taken : ⟨none, ⟨"A", 1⟩, ⟨1⟩⟩ ∈ keptArms (crowdedArms.take 2) := by decide
    have first : conflict = .secondDefault := by
      cases reason with
      | secondDefault => rfl
      | repeatedCondition given => cases given
      | repeatedLabel unshared => exact (unshared _ taken rfl).elim
      | repeatedValue unshared => exact (unshared _ taken rfl).elim
    exact ⟨first ▸ answer, rest⟩

end Indexed.Union

end PacketSchema
