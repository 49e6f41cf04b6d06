import Leetrank.Contest.FinalizeRating
import Mathlib.Data.List.Chain

namespace Leetrank
set_option autoImplicit true

open EventMachine Threads

/-- The changes of a user are a chain that ends in the stored rating; `maxRating` bounds them. -/
structure Chained (user : RatedUser) (rows : List RatingChange) : Prop where
  chain : rows.IsChain fun a b => b.beforeRating = a.afterRating
  last : ∀ row ∈ rows.getLast?, user.rating = row.afterRating
  bounded : ∀ row ∈ rows, row.afterRating ≤ user.maxRating

theorem Chained.append {user user' : RatedUser} (h : Chained user rows)
    (hbefore : row.beforeRating = user.rating) (hafter : user'.rating = row.afterRating)
    (hmax : user'.maxRating = max user.maxRating row.afterRating) :
    Chained user' (rows ++ [row]) := by
  constructor
  · rw [List.isChain_append]
    refine ⟨h.chain, .singleton row, ?_⟩
    intro a ha b hb
    cases hb
    exact hbefore.trans (h.last a ha)
  · intro a ha
    rw [List.getLast?_append] at ha
    cases ha
    exact hafter
  · intro a ha
    rw [hmax]
    rcases List.mem_append.1 ha with ha | ha
    · exact Int.le_trans (h.bounded a ha) (Int.le_max_left ..)
    · rw [List.mem_singleton.1 ha]
      exact Int.le_max_right ..

/-- The changes of each user, in the order of their commits. -/
def RatingChain (users : String → RatedUser) (rows : List RatingChange) : Prop :=
  ∀ userId, Chained (users userId) (rows.filter fun row => row.userId == userId)

/-- The rating and `maxRating` of the user are those that were read. -/
def ReadCurrent (users : String → RatedUser) (x : ContestEntry × RatedUser) : Prop :=
  (users x.1.userId).rating = x.2.rating ∧ (users x.1.userId).maxRating = x.2.maxRating

theorem RatingChain.change {users : String → RatedUser} (h : RatingChain users rows)
    (hc : RatingChangeResult.From c x) (hx : ReadCurrent users x) (contestId : String) :
    RatingChain (updateUser users c x.2) (rows ++ [ratingChangeRow contestId c]) := by
  intro userId
  rw [List.filter_append]
  by_cases hu : userId = c.userId
  · subst hu
    have huser := hc.userId
    have hsingle : [ratingChangeRow contestId c].filter (fun row => row.userId == c.userId) =
        [ratingChangeRow contestId c] := by
      simp [ratingChangeRow]
    rw [hsingle]
    apply (h c.userId).append
    · rw [huser, hx.1]
      exact hc.beforeRating
    · rw [updateUser_self]
      rfl
    · rw [updateUser_self, huser, hx.2]
      rfl
  · have hnone : [ratingChangeRow contestId c].filter (fun row => row.userId == userId) = [] := by
      simp [ratingChangeRow, Ne.symm hu]
    rw [hnone, List.append_nil, updateUser_of_ne hu]
    exact h userId

/-- The updates of different users do not interfere. -/
theorem readCurrent_updateUser {users : String → RatedUser}
    (hfrom : List.Forall₂ RatingChangeResult.From changes entries)
    (hnew : c.userId ∉ changes.map fun c => c.userId)
    (hcurrent : ∀ x ∈ entries, ReadCurrent users x) (before : RatedUser) :
    ∀ x ∈ entries, ReadCurrent (updateUser users c before) x := by
  intro x hx
  obtain ⟨c', hc', hfrom'⟩ := exists_change_of_mem hfrom hx
  have hne : x.1.userId ≠ c.userId := by
    intro he
    exact hnew (List.mem_map.2 ⟨c', hc', hfrom'.userId.trans he⟩)
  rw [ReadCurrent, updateUser_of_ne hne]
  exact hcurrent x hx

theorem RatingChain.changeAll {users : String → RatedUser} (h : RatingChain users rows)
    (hfrom : List.Forall₂ RatingChangeResult.From changes entries)
    (hnodup : (changes.map fun c => c.userId).Nodup)
    (hcurrent : ∀ x ∈ entries, ReadCurrent users x) (contestId : String) :
    RatingChain (updateUsers users changes entries)
        (rows ++ changes.map (ratingChangeRow contestId)) ∧
      ∀ userId, (users userId).maxRating ≤ (updateUsers users changes entries userId).maxRating := by
  induction hfrom generalizing users rows with
  | nil =>
    rw [List.map_nil, List.append_nil]
    exact ⟨h, fun _ => Int.le_refl _⟩
  | @cons c x changes entries hc hfrom ih =>
    rw [List.map_cons, List.nodup_cons] at hnodup
    rw [List.forall_mem_cons] at hcurrent
    obtain ⟨hx, hrest⟩ := hcurrent
    have hrest' := readCurrent_updateUser hfrom hnodup.1 hrest x.2
    obtain ⟨hchain, hmax⟩ := ih (h.change hc hx contestId) hnodup.2 hrest'
    rw [List.append_assoc, List.singleton_append] at hchain
    refine ⟨hchain, ?_⟩
    intro userId
    apply Int.le_trans ?_ (hmax userId)
    by_cases hu : userId = c.userId
    · rw [hu, updateUser_self, hc.userId, hx.2]
      exact Int.le_max_left ..
    · rw [updateUser_of_ne hu]

/-- When a finalisation that still can be committed writes the ratings, those of its participants
are the ones that it read. -/
def ReadsCurrent : StepProp RatingDb FinalizeCall FinalizeEvent := fun db _ call e =>
  ∀ contestId entries, call.pc = .commit contestId entries → e ≠ .fail →
    (∀ x ∈ entries, ∀ row ∈ db.ratingChanges, row.contestId = contestId →
      row.userId ≠ x.1.userId) →
    ∀ x ∈ entries, ReadCurrent db.users x

theorem persist_chain {db db' : RatingDb} (h : RatingChain db.users db.ratingChanges)
    (hp : db.persist contestId entries (ratingChangesOf updateOne entries) = some db')
    (hcurrent : (∀ x ∈ entries, ∀ row ∈ db.ratingChanges, row.contestId = contestId →
      row.userId ≠ x.1.userId) → ∀ x ∈ entries, ReadCurrent db.users x) :
    RatingChain db'.users db'.ratingChanges ∧
      ∀ userId, (db.users userId).maxRating ≤ (db'.users userId).maxRating := by
  obtain ⟨hnodup, hfree, rfl⟩ := persist_eq_some_iff.1 hp
  have hfrom := ratingChangesOf_from updateOne entries
  apply h.changeAll hfrom hnodup (hcurrent ?_)
  intro x hx row hrow hid
  obtain ⟨c, hc, hfrom'⟩ := exists_change_of_mem hfrom hx
  rw [← hfrom'.userId]
  exact hfree c hc row hrow hid

theorem finalizeStep_chain {db db' : RatingDb} (h : RatingChain db.users db.ratingChanges)
    (hs : FinalizeStep updateOne db slug pc e db' pc') (hc : ReadsCurrent db i ⟨slug, pc⟩ e) :
    RatingChain db'.users db'.ratingChanges ∧
      ∀ userId, (db.users userId).maxRating ≤ (db'.users userId).maxRating := by
  cases hs with
  | commit hp => exact persist_chain h hp (hc _ _ rfl nofun)
  | commitLost hp => exact persist_chain h hp (hc _ _ rfl nofun)
  | find | count | read | setRank | setRankLost | done | stop =>
    exact ⟨h, fun _ => Int.le_refl _⟩

theorem finalizeService_chain {w w' : World RatingDb FinalizeCall}
    (h : RatingChain w.shared.users w.shared.ratingChanges)
    (hs : (finalizeService updateOne).step w e = some w') (hC : OnSteps ReadsCurrent w e w') :
    RatingChain w'.shared.users w'.shared.ratingChanges ∧
      ∀ userId, (w.shared.users userId).maxRating ≤ (w'.shared.users userId).maxRating := by
  cases e with
  | spawn slug =>
    cases hs
    exact ⟨h, fun _ => Int.le_refl _⟩
  | ambient elapsed =>
    cases hs
    exact ⟨h, fun _ => Int.le_refl _⟩
  | act i e =>
    obtain ⟨call, db, call', hcall, hstep, rfl⟩ := Program.next_act hs
    obtain ⟨⟨db₁, pc₁⟩, hstep', he⟩ := Option.map_eq_some_iff.1 hstep
    cases he
    exact finalizeStep_chain h (finalizeStep_cases hstep') (hC i e call rfl hcall)

/-- As long as the ratings that a finalisation writes over are the ones that it read, the changes of
each user form a chain that ends in the stored rating, and no `maxRating` decreases. -/
theorem rating_chain (h₀ : (finalizeService updateOne).init w₀)
    (hr : (finalizeService updateOne).run w₀ es = some w)
    (hC : (finalizeService updateOne).Always (OnSteps ReadsCurrent) w₀ es) :
    RatingChain w.shared.users w.shared.ratingChanges ∧
      (finalizeService updateOne).Always (fun w _ w' => ∀ userId,
        (w.shared.users userId).maxRating ≤ (w'.shared.users userId).maxRating) w₀ es := by
  have hstart : RatingChain w₀.shared.users w₀.shared.ratingChanges := by
    intro userId
    rw [h₀.1]
    exact ⟨.nil, nofun, nofun⟩
  have hpreserves : (finalizeService updateOne).Preserves (OnSteps ReadsCurrent) fun w =>
      RatingChain w.shared.users w.shared.ratingChanges :=
    fun w e w' h hs hc => (finalizeService_chain h hs hc).1
  exact ⟨hpreserves.run hstart hC hr,
    hpreserves.always hstart hC fun w e w' h hs hc => (finalizeService_chain h hs hc).2⟩

/-- Two requests for one contest overlap, and the second transaction fails. -/
def finalizedTwice : FinalizeTrace :=
  [.spawn "spring-cup", .spawn "spring-cup", .act 0 .proceed, .act 1 .proceed, .act 0 .proceed,
    .act 1 .proceed, .act 0 .proceed, .act 1 .proceed, .act 0 .proceed, .act 1 .proceed]

theorem finalizedTwice_current :
    (finalizeService newcomerEngine).Always (OnSteps ReadsCurrent) twoContests finalizedTwice := by
  apply Machine.always_cons rfl (.spawn _)
  apply Machine.always_cons rfl (.spawn _)
  apply Machine.always_cons rfl (.act rfl nofun)
  apply Machine.always_cons rfl (.act rfl nofun)
  apply Machine.always_cons rfl (.act rfl nofun)
  apply Machine.always_cons rfl (.act rfl nofun)
  apply Machine.always_cons rfl (.act rfl nofun)
  apply Machine.always_cons rfl (.act rfl nofun)
  refine Machine.always_cons rfl (.act rfl ?_) ?_
  · rintro _ _ ⟨⟩ _ _ x hx
    obtain ⟨e, _, rfl⟩ := List.mem_map.1 hx
    exact ⟨rfl, rfl⟩
  · refine Machine.always_cons rfl (.act rfl ?_) trivial
    -- the contest has been finalised, so the transaction fails
    rintro _ _ ⟨⟩ _ hfree
    exact absurd rfl (hfree _ List.mem_cons_self _ List.mem_cons_self rfl)

theorem finalizedTwice_run :
    ∃ w, (finalizeService newcomerEngine).run twoContests finalizedTwice = some w ∧
      w.shared.ratingChanges =
        [⟨"u1", "c1", 1500, 1662, 162, 1⟩, ⟨"u2", "c1", 1500, 1338, -162, 2⟩] :=
  ⟨_, rfl, rfl⟩

theorem rating_chain_finalizedTwice :
    ∃ w, (finalizeService newcomerEngine).run twoContests finalizedTwice = some w ∧
      RatingChain w.shared.users w.shared.ratingChanges := by
  obtain ⟨w, hw, _⟩ := finalizedTwice_run
  exact ⟨w, hw, (rating_chain ⟨rfl, rfl⟩ hw finalizedTwice_current).1⟩

/-- The second finalisation has read the ratings before the first one writes them. -/
def overlappingContests : FinalizeTrace :=
  [.spawn "spring-cup", .spawn "summer-cup", .act 0 .proceed, .act 1 .proceed, .act 0 .proceed,
    .act 1 .proceed, .act 0 .proceed, .act 1 .proceed, .act 0 .proceed, .act 1 .proceed,
    .act 0 .proceed, .act 0 .proceed, .act 0 .proceed, .act 1 .proceed, .act 1 .proceed,
    .act 1 .proceed]

def FinalizePc.over : FinalizePc → Bool
  | .returned _ => true
  | .find | .count _ | .read _ | .commit _ _ | .backfill _ _ _ => false

theorem overlappingContests_run :
    ∃ w, (finalizeService newcomerEngine).run twoContests overlappingContests = some w ∧
      (w.threads.all fun call => call.pc.over) = true ∧
      (w.shared.ratingChanges.filter fun row => row.userId == "u1") =
        [⟨"u1", "c1", 1500, 1662, 162, 1⟩, ⟨"u1", "c2", 1500, 1338, -162, 2⟩] :=
  ⟨_, rfl, rfl, rfl⟩

theorem rating_chain_broken :
    ¬ ∀ (updateOne : RatingEngine) (w₀ w : World RatingDb FinalizeCall) (es : FinalizeTrace),
      (finalizeService updateOne).init w₀ → (finalizeService updateOne).run w₀ es = some w →
      (w.threads.all fun call => call.pc.over) = true →
      RatingChain w.shared.users w.shared.ratingChanges := by
  intro h
  obtain ⟨w, hw, hover, hrows⟩ := overlappingContests_run
  have hchain := (h newcomerEngine _ w _ ⟨rfl, rfl⟩ hw hover "u1").chain
  rw [hrows] at hchain
  simp at hchain

end Leetrank
