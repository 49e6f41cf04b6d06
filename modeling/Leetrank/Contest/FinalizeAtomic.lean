import Leetrank.Contest.Standings

namespace Leetrank
set_option autoImplicit true

open EventMachine Threads

/-- Everything is as before, but for the clock. -/
structure Unchanged (db db' : RatingDb) : Prop where
  contests : db'.contests = db.contests
  entries : db'.entries = db.entries
  users : db'.users = db.users
  ratingChanges : db'.ratingChanges = db.ratingChanges

/-- The entries after the ranks of some users of the contest have been set. -/
def RatingDb.ranked (db : RatingDb) (contestId : String) (done : List String) : List ContestEntry :=
  db.entries.rows.map fun e =>
    if e.contestId = contestId ∧ e.userId ∈ done then { e with rank := some (db.competitionRank e) }
    else e

/-- Ratings, rating changes and status are those of the finalised contest, and so are the ranks of
some users. -/
structure Persisted (updateOne : RatingEngine) (db : RatingDb) (contestId : String)
    (done : List String) (db' : RatingDb) : Prop where
  users : db'.users =
    updateUsers db.users (ratingChangesOf updateOne (db.standings contestId)) (db.standings contestId)
  ratingChanges : db'.ratingChanges = db.ratingChanges ++
    (ratingChangesOf updateOne (db.standings contestId)).map (ratingChangeRow contestId)
  contests : db'.contests = db.endContest contestId
  ranks : db'.entries.rows = db.ranked contestId done

/-- The contest is fully finalised: the rank of every entry is set as well. -/
def Finalised (updateOne : RatingEngine) (db : RatingDb) (contestId : String) (db' : RatingDb) :
    Prop :=
  ∃ done, Persisted updateOne db contestId done db' ∧
    ∀ e ∈ db.entries.rows, e.contestId = contestId → e.userId ∈ done

theorem Unchanged.standings (h : Unchanged db db') (contestId : String) :
    db'.standings contestId = db.standings contestId := by
  rw [RatingDb.standings, RatingDb.standings, h.entries, h.users]

theorem RatingDb.ranked_nil (db : RatingDb) (contestId : String) :
    db.ranked contestId [] = db.entries.rows := by
  simp [RatingDb.ranked]

theorem Unchanged.persisted (h : Unchanged db db')
    (hp : db'.persist contestId (db.standings contestId)
      (ratingChangesOf updateOne (db.standings contestId)) = some db'') :
    Persisted updateOne db contestId [] db'' := by
  obtain ⟨_, _, rfl⟩ := persist_eq_some_iff.1 hp
  constructor
  · rw [← h.users]
  · rw [← h.ratingChanges]
  · unfold RatingDb.endContest
    rw [h.contests]
  · rw [RatingDb.ranked_nil, ← h.entries]

theorem Unchanged.persisted_of (h : Unchanged db db')
    (hp : Persisted updateOne db' contestId done db'') :
    Persisted updateOne db contestId done db'' where
  users := by rw [hp.users, h.users, h.standings]
  ratingChanges := by rw [hp.ratingChanges, h.ratingChanges, h.standings]
  contests := by
    rw [hp.contests]
    unfold RatingDb.endContest
    rw [h.contests]
  ranks := by
    rw [hp.ranks]
    unfold RatingDb.ranked RatingDb.competitionRank
    rw [h.entries]

/-- Every entry of the contest has a change. -/
theorem mem_ratingChangesOf (updateOne : RatingEngine) {db : RatingDb} (he : e ∈ db.entries.rows)
    (hid : e.contestId = contestId) :
    e.userId ∈ (ratingChangesOf updateOne (db.standings contestId)).map fun c => c.userId := by
  obtain ⟨x, hx, rfl⟩ := RatingDb.exists_standing he hid
  obtain ⟨c, hc, hfrom⟩ := exists_change_of_mem (ratingChangesOf_from updateOne _) hx
  exact List.mem_map.2 ⟨c, hc, hfrom.userId⟩

/-- The rank of a change is that of the entry of its user. -/
theorem rank_of_change {db : RatingDb}
    (hc : c ∈ ratingChangesOf updateOne (db.standings contestId)) (he : e ∈ db.entries.rows)
    (hid : e.contestId = contestId) (huser : e.userId = c.userId) :
    c.rank = db.competitionRank e := by
  obtain ⟨x, hx, huser', hrank⟩ :=
    exists_of_mem_left (ratingChangesOf_rank updateOne db contestId) hc
  obtain ⟨hmem, hid'⟩ := RatingDb.mem_standings hx
  have hsame : x.1 = e := by
    apply List.inj_on_of_nodup_map db.entries.unique hmem he
    rw [hid', hid, huser, huser']
  rw [hrank, hsame]

theorem Persisted.setRank (h : Persisted updateOne db contestId done db')
    (hc : c ∈ ratingChangesOf updateOne (db.standings contestId)) :
    Persisted updateOne db contestId (done ++ [c.userId]) (db'.setRank contestId c) := by
  refine ⟨h.users, h.ratingChanges, h.contests, ?_⟩
  change db'.entries.rows.map (ContestEntry.setRank contestId c) = _
  rw [h.ranks, RatingDb.ranked, RatingDb.ranked, List.map_map]
  apply List.map_congr_left
  intro e he
  rw [Function.comp_apply, ContestEntry.setRank]
  by_cases hid : e.contestId = contestId
  · by_cases huser : e.userId = c.userId
    · have hrank := rank_of_change hc he hid huser
      by_cases hdone : c.userId ∈ done <;> simp [hid, huser, hrank, hdone]
    · by_cases hdone : e.userId ∈ done <;> simp [hid, huser, hdone]
  · simp [hid]

/-- Where a request stands that began with the database `db`. -/
inductive Progress (updateOne : RatingEngine) (db : RatingDb) (slug : String) :
    RatingDb → FinalizePc → Prop where
  | find (h : Unchanged db db') : Progress updateOne db slug db' .find
  | count (h : Unchanged db db') (hc : db.contests slug = some contest) :
    Progress updateOne db slug db' (.count contest.id)
  | read (h : Unchanged db db') (hc : db.contests slug = some contest) :
    Progress updateOne db slug db' (.read contest.id)
  | commit (h : Unchanged db db') (hc : db.contests slug = some contest) :
    Progress updateOne db slug db' (.commit contest.id (db.standings contest.id))
  | failed (h : Unchanged db db') (hs : response.status ≠ 200) :
    Progress updateOne db slug db' (.returned response)
  | backfill (hc : db.contests slug = some contest)
      (hd : ratingChangesOf updateOne (db.standings contest.id) = done ++ todo)
      (h : Persisted updateOne db contest.id (done.map fun c => c.userId) db') :
    Progress updateOne db slug db'
      (.backfill contest.id (ratingChangesOf updateOne (db.standings contest.id)) todo)
  | answered (hc : db.contests slug = some contest)
      (hd : ratingChangesOf updateOne (db.standings contest.id) = done ++ todo)
      (h : Persisted updateOne db contest.id (done.map fun c => c.userId) db')
      (hs : response.status = 200 → todo = []) :
    Progress updateOne db slug db' (.returned response)

/-- A request that has answered with success has finalised the contest. -/
theorem Progress.finalised (h : Progress updateOne db slug db' (.returned response))
    (h200 : response.status = 200) (hc : db.contests slug = some contest) :
    Finalised updateOne db contest.id db' := by
  cases h with
  | failed _ hs => exact absurd h200 hs
  | answered hc' hd hp hs =>
    rw [hc] at hc'
    cases hc'
    rw [hs h200, List.append_nil] at hd
    rw [← hd] at hp
    exact ⟨_, hp, fun e he hid => mem_ratingChangesOf updateOne he hid⟩

theorem Progress.setRank
    (hd : ratingChangesOf updateOne (db.standings contestId) = done ++ c :: todo)
    (h : Persisted updateOne db contestId (done.map fun c => c.userId) db') :
    ratingChangesOf updateOne (db.standings contestId) = (done ++ [c]) ++ todo ∧
      Persisted updateOne db contestId ((done ++ [c]).map fun c => c.userId)
        (db'.setRank contestId c) := by
  refine ⟨by rw [hd, List.append_assoc]; rfl, ?_⟩
  rw [List.map_append]
  exact h.setRank (by rw [hd]; simp)

theorem Progress.step (h : Progress updateOne db slug db' pc)
    (hs : FinalizeStep updateOne db' slug pc e db'' pc') : Progress updateOne db slug db'' pc' := by
  cases hs with
  | find hc =>
    cases h with
    | find h => exact .count h (h.contests ▸ hc)
  | count =>
    cases h with
    | count h hc => exact .read h hc
  | read =>
    cases h with
    | read h hc =>
      rw [h.standings]
      exact .commit h hc
  | commit hp =>
    cases h with
    | commit h hc => exact .backfill hc (List.nil_append _).symm (h.persisted hp)
  | commitLost hp =>
    cases h with
    | commit h hc => exact .answered hc (List.nil_append _).symm (h.persisted hp) nofun
  | setRank =>
    cases h with
    | backfill hc hd h =>
      obtain ⟨hd', h'⟩ := Progress.setRank hd h
      exact .backfill hc hd' h'
  | setRankLost =>
    cases h with
    | backfill hc hd h =>
      obtain ⟨hd', h'⟩ := Progress.setRank hd h
      exact .answered hc hd' h' nofun
  | done =>
    cases h with
    | backfill hc hd h => exact .answered hc hd h fun _ => rfl
  | stop hne =>
    cases h with
    | find h | count h _ | read h _ | commit h _ | failed h _ => exact .failed h hne
    | backfill hc hd h => exact .answered hc hd h fun hs => absurd hs hne
    | answered hc hd h _ => exact .answered hc hd h fun hs => absurd hs hne

/-- Whether the request that began with `db` has this thread stands where it should. -/
def Progressing (updateOne : RatingEngine) (db : RatingDb) (slug : String) (i : Nat)
    (w : World RatingDb FinalizeCall) : Prop :=
  ∃ pc, w.threads[i]? = some ⟨slug, pc⟩ ∧ Progress updateOne db slug w.shared pc

theorem Progress.ambient (h : Progress updateOne db slug db' pc) (now : Int) :
    Progress updateOne db slug { db' with now := now } pc := by
  have hu (h : Unchanged db db') : Unchanged db { db' with now := now } :=
    ⟨h.contests, h.entries, h.users, h.ratingChanges⟩
  have hp {contestId : String} {done : List String} (h : Persisted updateOne db contestId done db') :
      Persisted updateOne db contestId done { db' with now := now } :=
    ⟨h.users, h.ratingChanges, h.contests, h.ranks⟩
  cases h with
  | find h => exact .find (hu h)
  | count h hc => exact .count (hu h) hc
  | read h hc => exact .read (hu h) hc
  | commit h hc => exact .commit (hu h) hc
  | failed h hs => exact .failed (hu h) hs
  | backfill hc hd h => exact .backfill hc hd (hp h)
  | answered hc hd h hs => exact .answered hc hd (hp h) hs

theorem progressing_preserved (updateOne : RatingEngine) (db : RatingDb) (slug : String) (i : Nat) :
    (finalizeService updateOne).Preserves (fun _ e _ => e.Alone i)
      (Progressing updateOne db slug i) := by
  rintro w e w' ⟨pc, hpc, h⟩ hstep he
  cases e with
  | spawn slug => cases he
  | ambient elapsed =>
    cases hstep
    exact ⟨pc, hpc, h.ambient _⟩
  | act j e =>
    cases he
    obtain ⟨call, db₁, call', hcall, hs, rfl⟩ := Program.next_act hstep
    rw [hpc] at hcall
    cases hcall
    obtain ⟨⟨db₂, pc'⟩, hs', he'⟩ := Option.map_eq_some_iff.1 hs
    cases he'
    exact ⟨pc', List.getElem?_set_self (World.lt_length hpc), h.step (finalizeStep_cases hs')⟩

/-- A request that runs by itself stands where it should. -/
theorem progress_of_run (hr : (finalizeService updateOne).run w (.spawn slug :: es) = some w')
    (hes : ∀ e ∈ es, e.Alone w.threads.length) :
    Progressing updateOne w.shared slug w.threads.length w' := by
  obtain ⟨u, hu, hr⟩ := Machine.run_cons_some hr
  cases hu
  have hstart : Progressing updateOne w.shared slug w.threads.length
      ⟨w.shared, w.threads ++ [⟨slug, .find⟩]⟩ :=
    ⟨.find, List.getElem?_concat_length, .find ⟨rfl, rfl, rfl, rfl⟩⟩
  exact (progressing_preserved updateOne w.shared slug _).run hstart
    (Machine.always_of_events fun e he _ _ => hes e he) hr

/-- A finalisation of the contest can go through: it is finished, not finalised yet, and has two
participants at least. -/
structure RatingDb.Finalisable (db : RatingDb) (contest : Contest) : Prop where
  finished : contest.status = "ended" ∨ contest.endTime ≤ db.now
  unrated : ∀ row ∈ db.ratingChanges, row.contestId ≠ contest.id
  participants : 2 ≤ (db.standings contest.id).length

theorem backfill_alone (updateOne : RatingEngine) (db : RatingDb) (i : Nat)
    (slug contestId : String) (changes todo : List RatingChangeResult) :
    ∃ db', (finalizeProgram updateOne).alone i db ⟨slug, .backfill contestId changes todo⟩
      (List.replicate (todo.length + 1) .proceed) =
        some (db', ⟨slug, .returned ⟨200, .finalized changes⟩⟩) := by
  induction todo generalizing db with
  | nil => exact ⟨db, rfl⟩
  | cons c todo ih =>
    obtain ⟨db', h⟩ := ih (db.setRank contestId c)
    exact ⟨db', (Program.alone_cons rfl).trans h⟩

theorem RatingDb.Finalisable.persist {db : RatingDb} (h : db.Finalisable contest)
    (updateOne : RatingEngine) :
    ∃ db', db.persist contest.id (db.standings contest.id)
      (ratingChangesOf updateOne (db.standings contest.id)) = some db' := by
  refine ⟨_, persist_eq_some_iff.2 ⟨?_, ?_, rfl⟩⟩
  · rw [ratingChangesOf_userIds]
    exact db.standings_nodup contest.id
  · exact fun c _ row hrow hid => absurd hid (h.unrated row hrow)

theorem finalizeProgram_step (hs : finalizeStep updateOne db slug pc e = some (db', pc'))
    (i : Nat) :
    (finalizeProgram updateOne).step db i ⟨slug, pc⟩ e = some (db', ⟨slug, pc'⟩) := by
  change (finalizeStep updateOne db slug pc e).map _ = _
  rw [hs]
  rfl

theorem finalize_alone {db : RatingDb} (hc : db.contests slug = some contest)
    (h : db.Finalisable contest) (updateOne : RatingEngine) (i : Nat) :
    ∃ n db' changes, (finalizeProgram updateOne).alone i db ⟨slug, .find⟩
      (List.replicate n .proceed) = some (db', ⟨slug, .returned ⟨200, .finalized changes⟩⟩) := by
  obtain ⟨db₁, hpersist⟩ := h.persist updateOne
  have hcount : ¬ 0 < db.ratingChanges.countP fun row => row.contestId == contest.id := by
    rw [List.countP_pos_iff]
    rintro ⟨row, hrow, hid⟩
    exact h.unrated row hrow (beq_iff_eq.1 hid)
  have hfind : finalizeStep updateOne db slug .find .proceed = some (db, .count contest.id) := by
    simp only [finalizeStep, hc, if_pos h.finished]
  have hread : finalizeStep updateOne db slug (.count contest.id) .proceed =
      some (db, .read contest.id) := by
    simp only [finalizeStep, if_neg hcount]
  have hcommit : finalizeStep updateOne db slug (.read contest.id) .proceed =
      some (db, .commit contest.id (db.standings contest.id)) := by
    simp only [finalizeStep, if_neg (Nat.not_lt.2 h.participants)]
  have hbackfill : finalizeStep updateOne db slug
      (.commit contest.id (db.standings contest.id)) .proceed =
      some (db₁, .backfill contest.id (ratingChangesOf updateOne (db.standings contest.id))
        (ratingChangesOf updateOne (db.standings contest.id))) := by
    simp only [finalizeStep, hpersist]
  generalize ratingChangesOf updateOne (db.standings contest.id) = changes at hbackfill
  obtain ⟨db', hfill⟩ := backfill_alone updateOne db₁ i slug contest.id changes changes
  refine ⟨changes.length + 1 + 4, db', changes, ?_⟩
  change (finalizeProgram updateOne).alone i db ⟨slug, .find⟩
    (.proceed :: .proceed :: .proceed :: .proceed ::
      List.replicate (changes.length + 1) .proceed) = _
  rw [Program.alone_cons (finalizeProgram_step hfind i),
    Program.alone_cons (finalizeProgram_step hread i),
    Program.alone_cons (finalizeProgram_step hcommit i),
    Program.alone_cons (finalizeProgram_step hbackfill i)]
  exact hfill

/-- A request that has changed nothing can be repeated, and then finalises the contest. -/
theorem Unchanged.rerun {w w' : World RatingDb FinalizeCall} (h : Unchanged w.shared w'.shared)
    (hc : w.shared.contests slug = some contest) (hf : w'.shared.Finalisable contest)
    (updateOne : RatingEngine) :
    ∃ es w'', (∀ e ∈ es, e.Alone w'.threads.length) ∧
      (finalizeService updateOne).run w' (.spawn slug :: es) = some w'' ∧
      Finalised updateOne w.shared contest.id w''.shared := by
  have hc' : w'.shared.contests slug = some contest := h.contests ▸ hc
  obtain ⟨n, db, changes, halone⟩ := finalize_alone hc' hf updateOne w'.threads.length
  have hstart : (w'.threads ++ [(⟨slug, .find⟩ : FinalizeCall)])[w'.threads.length]? =
      some ⟨slug, .find⟩ := List.getElem?_concat_length
  have hrun := Program.run_alone (w := ⟨w'.shared, w'.threads ++ [⟨slug, .find⟩]⟩) hstart halone
    fun db => db.ratingChanges = []
  have hes : ∀ e ∈ (List.replicate n FinalizeEvent.proceed).map
      (Event.act (α := String) (χ := Nat) w'.threads.length), e.Alone w'.threads.length := by
    intro e he
    obtain ⟨_, _, rfl⟩ := List.mem_map.1 he
    rfl
  obtain ⟨pc, hpc, hprogress⟩ := progress_of_run (w := w') hrun hes
  rw [List.getElem?_set_self (World.lt_length hstart)] at hpc
  cases hpc
  refine ⟨_, _, hes, hrun, ?_⟩
  obtain ⟨done, hp, hall⟩ := hprogress.finalised rfl hc'
  exact ⟨done, h.persisted_of hp, fun e he hid => hall e (h.entries ▸ he) hid⟩

/-- A request that runs by itself, with any of its steps failing, either changes nothing, and can
then be repeated until the contest is fully finalised, or writes the ratings, the rating changes and
the status together, and after them the ranks one by one. -/
theorem finalize_resumable (hr : (finalizeService updateOne).run w (.spawn slug :: es) = some w')
    (hes : ∀ e ∈ es, e.Alone w.threads.length)
    (hret : w'.threads[w.threads.length]? = some ⟨slug, .returned response⟩) :
    (response.status ≠ 200 ∧ Unchanged w.shared w'.shared ∧
      ∀ contest, w.shared.contests slug = some contest → w'.shared.Finalisable contest →
        ∃ es' w'', (∀ e ∈ es', e.Alone w'.threads.length) ∧
          (finalizeService updateOne).run w' (.spawn slug :: es') = some w'' ∧
          Finalised updateOne w.shared contest.id w''.shared) ∨
      ∃ contest, w.shared.contests slug = some contest ∧
        (∃ done, Persisted updateOne w.shared contest.id done w'.shared) ∧
        (response.status = 200 → Finalised updateOne w.shared contest.id w'.shared) := by
  obtain ⟨pc, hpc, hprogress⟩ := progress_of_run hr hes
  rw [hret] at hpc
  cases hpc
  cases hprogress with
  | failed h hs =>
    exact .inl ⟨hs, h, fun contest hc hf => h.rerun hc hf updateOne⟩
  | answered hc hd hp hs =>
    exact .inr ⟨_, hc, ⟨_, hp⟩, fun h200 => (Progress.answered hc hd hp hs).finalised h200 hc⟩

/-- The transaction fails, with nothing written. -/
def failedOnce : FinalizeTrace :=
  [.act 0 .proceed, .act 0 .proceed, .act 0 .proceed, .act 0 .fail]

theorem failedOnce_alone : ∀ e ∈ failedOnce, e.Alone 0 := by
  simp [failedOnce, Event.Alone]

theorem failedOnce_run :
    ∃ w', (finalizeService newcomerEngine).run twoContests (.spawn "spring-cup" :: failedOnce) =
        some w' ∧
      w'.threads[0]? = some ⟨"spring-cup", .returned internalServerError⟩ ∧
      w'.shared = twoContests.shared :=
  ⟨_, rfl, rfl, rfl⟩

theorem finalize_resumable_failedOnce :
    ∃ w' es w'', (finalizeService newcomerEngine).run twoContests
        (.spawn "spring-cup" :: failedOnce) = some w' ∧
      Unchanged twoContests.shared w'.shared ∧
      (finalizeService newcomerEngine).run w' (.spawn "spring-cup" :: es) = some w'' ∧
      Finalised newcomerEngine twoContests.shared "c1" w''.shared := by
  obtain ⟨w', hw, hret, hsame⟩ := failedOnce_run
  rcases finalize_resumable hw failedOnce_alone hret with
    ⟨-, hunchanged, hrerun⟩ | ⟨contest, hc, ⟨done, hp⟩, -⟩
  · have hf : w'.shared.Finalisable ⟨"c1", "ended", 0⟩ := by
      rw [hsame]
      exact ⟨.inl rfl, nofun, by decide +kernel⟩
    obtain ⟨es, w'', -, hw'', hfinalised⟩ := hrerun _ rfl hf
    exact ⟨w', es, w'', hw, hunchanged, hw'', hfinalised⟩
  · cases hc
    have hrows := congrArg List.length hp.ratingChanges
    rw [hsame] at hrows
    exact absurd hrows (by decide +kernel)

/-- The second rank cannot be written. -/
def rankFails : FinalizeTrace :=
  [.act 0 .proceed, .act 0 .proceed, .act 0 .proceed, .act 0 .proceed, .act 0 .proceed,
    .act 0 .fail]

theorem rankFails_alone : ∀ e ∈ rankFails, e.Alone 0 := by
  simp [rankFails, Event.Alone]

theorem rankFails_run :
    ∃ w', (finalizeService newcomerEngine).run twoContests
        (.spawn "spring-cup" :: rankFails) = some w' ∧
      w'.threads[0]? = some ⟨"spring-cup", .returned internalServerError⟩ ∧
      w'.shared.ratingChanges.length = 2 ∧
      w'.shared.entries.rows.map (fun e => e.rank) = [some 1, none, none, none] :=
  ⟨_, rfl, rfl, rfl, rfl⟩

theorem finalize_not_atomic :
    ¬ ∀ (updateOne : RatingEngine) (w w' : World RatingDb FinalizeCall) (slug : String)
      (contest : Contest) (es : FinalizeTrace) (response : FinalizeResponse),
      w.shared.contests slug = some contest →
      (finalizeService updateOne).run w (.spawn slug :: es) = some w' →
      (∀ e ∈ es, e.Alone w.threads.length) →
      w'.threads[w.threads.length]? = some ⟨slug, .returned response⟩ →
      Unchanged w.shared w'.shared ∨ Finalised updateOne w.shared contest.id w'.shared := by
  intro h
  obtain ⟨w', hw, hret, hrows, hranks⟩ := rankFails_run
  rcases h newcomerEngine twoContests w' "spring-cup" ⟨"c1", "ended", 0⟩ rankFails _ rfl hw
    rankFails_alone hret with hu | ⟨done, hp, hall⟩
  · rw [hu.ratingChanges] at hrows
    cases hrows
  · have hu2 : "u2" ∈ done := hall ⟨"c1", "u2", 200, none, 0⟩ (by simp [twoContests]) rfl
    rw [hp.ranks] at hranks
    simp [RatingDb.ranked, twoContests, hu2] at hranks

end Leetrank
