import Leetrank.Leaderboard.Rebuild

namespace Leetrank
set_option autoImplicit true

open EventMachine SortedSets

/-- Where a lookup stands: before `ZSCORE`, before `ZREVRANK`, or at its end. -/
inductive UserRankPc where
  | zscore
  | zrevrank (score : Int)
  | returned (entry : Option LeaderboardEntry)
  | failed

/-- The rank that is returned for the answer to `ZREVRANK`. -/
def rankOfReply (reply : Option Int) : Nat := (max (reply.getD (-1)) 0).toNat + 1

def userRankStep (board : Board) (username : String) :
    UserRankPc → CommandOutcome → Option UserRankPc
  | .zscore, .ok =>
    match board.scoreOf username with
    | none => some (.returned none)
    | some score => some (.zrevrank score)
  | .zrevrank score, .ok =>
    let rank := (board.revRank username).map Int.ofNat
    some (.returned (some ⟨rankOfReply rank, username, score⟩))
  | .zscore, _ | .zrevrank _, _ => some .failed
  | .returned _, _ | .failed, _ => none

/-- A lookup, and the rebuilds that have been started, each with the key of its board. -/
structure LookupState where
  redis : RedisBoards
  rebuilds : List (String × RebuildPc)
  pc : UserRankPc

inductive LookupEvent where
  | start (call : RebuildCall)
  | rebuild (i : Nat) (x : CommandOutcome)
  | lookup (x : CommandOutcome)

/-- A call of `user_rank` among any number of rebuilds, of which some may be under way already. -/
def lookupMachine (username : String) : Machine LookupState LookupEvent where
  init := fun s => s.pc = .zscore
  step
    | s, .start call => some { s with rebuilds := s.rebuilds ++ [(call.key, call.start)] }
    | s, .rebuild i x =>
      s.rebuilds[i]?.bind fun (key, pc) =>
        (rebuildStep key s.redis pc x).map fun (redis, pc) =>
          { s with redis := redis, rebuilds := s.rebuilds.set i (key, pc) }
    | s, .lookup x =>
      (userRankStep (s.redis zsetKey) username s.pc x).map fun pc => { s with pc := pc }

/-- The user is on the global board at a rank, counted from 1. -/
def StandsAt (username : String) (rank : Nat) (s : LookupState) : Prop :=
  0 < rank ∧ ((s.redis zsetKey).rows.map fun x => x.1)[rank - 1]? = some username

def HasScore (username : String) (score : Int) (s : LookupState) : Prop :=
  (username, score) ∈ (s.redis zsetKey).rows

def OnBoard (username : String) (s : LookupState) : Prop :=
  username ∈ (s.redis zsetKey).rows.map fun x => x.1

variable {username : String} {s t u : LookupState}

theorem lookup_step_pc (hs : (lookupMachine username).step s e = some t) :
    t.pc = s.pc ∨ ∃ x, e = .lookup x ∧
      userRankStep (s.redis zsetKey) username s.pc x = some t.pc := by
  cases e with
  | start call =>
    cases hs
    exact .inl rfl
  | rebuild i x =>
    obtain ⟨⟨key, pc⟩, -, hs⟩ := Option.bind_eq_some_iff.1 hs
    obtain ⟨-, -, rfl⟩ := Option.map_eq_some_iff.1 hs
    exact .inl rfl
  | lookup x =>
    obtain ⟨pc, hpc, rfl⟩ := Option.map_eq_some_iff.1 hs
    exact .inr ⟨x, rfl, hpc⟩

/-- The score that a lookup remembers is one that its user had when `ZSCORE` was answered. -/
theorem zrevrank_step (hs : (lookupMachine username).step s e = some t)
    (ht : t.pc = .zrevrank score) : s.pc = .zrevrank score ∨ HasScore username score s := by
  rcases lookup_step_pc hs with hpc | ⟨x, -, hpc⟩
  · exact .inl (hpc ▸ ht)
  · rw [ht] at hpc
    unfold userRankStep at hpc
    split at hpc
    next =>
      split at hpc
      next => cases hpc
      next hscore =>
        cases hpc
        exact .inr (SortedSet.mem_of_scoreOf hscore)
    all_goals cases hpc

/-- An entry is returned in answer to `ZREVRANK`. -/
theorem returned_step (hs : (lookupMachine username).step s e = some t)
    (hpc : s.pc ≠ .returned (some entry)) (ht : t.pc = .returned (some entry)) :
    ∃ score, s.pc = .zrevrank score ∧
      entry = ⟨rankOfReply (((s.redis zsetKey).revRank username).map Int.ofNat), username,
        score⟩ := by
  rcases lookup_step_pc hs with heq | ⟨x, -, hstep⟩
  · exact absurd (heq ▸ ht) hpc
  · rw [ht] at hstep
    unfold userRankStep at hstep
    split at hstep
    next => split at hstep <;> cases hstep
    next hscore =>
      cases hstep
      exact ⟨_, hscore, rfl⟩
    all_goals cases hstep

theorem standsAt_of_onBoard (h : OnBoard username s) :
    StandsAt username (rankOfReply (((s.redis zsetKey).revRank username).map Int.ofNat)) s := by
  cases hrank : (s.redis zsetKey).revRank username with
  | none => exact absurd h (SortedSet.revRank_eq_none_iff.1 hrank)
  | some i =>
    have hreply : rankOfReply (some (Int.ofNat i)) = i + 1 := by
      simp [rankOfReply]
    rw [Option.map_some, hreply]
    exact ⟨i.succ_pos, SortedSet.getElem?_of_revRank hrank⟩

theorem rank_eq_one (h : ¬OnBoard username s) :
    rankOfReply (((s.redis zsetKey).revRank username).map Int.ofNat) = 1 := by
  rw [SortedSet.revRank_eq_none_iff.2 h]
  rfl

/-- The rank and the score that are returned are those that the user had at some moments of the call
exactly if the user is still on the board at `ZREVRANK`, or has been the first one there. -/
theorem rank_not_invented_iff (hpc : s.pc = .zscore)
    (hr : (lookupMachine username).run s es = some u)
    (hu : u.pc ≠ .returned (some entry)) (hs : (lookupMachine username).step u e = some t)
    (ht : t.pc = .returned (some entry)) :
    ((lookupMachine username).Sometime (StandsAt username entry.rank) s es ∧
      (lookupMachine username).Sometime (HasScore username entry.score) s es) ↔
        OnBoard username u ∨ (lookupMachine username).Sometime (StandsAt username 1) s es := by
  obtain ⟨score, hscore, rfl⟩ := returned_step hs hu ht
  have hscored : (lookupMachine username).Sometime (HasScore username score) s es := by
    have h := Machine.sometime_of_run (I := fun s => s.pc = .zrevrank score)
      (fun _ _ _ => zrevrank_step) hr hscore
    rw [hpc] at h
    exact h.resolve_left nofun
  by_cases hboard : OnBoard username u
  · have hrank := Machine.Sometime.stop hr (standsAt_of_onBoard hboard)
    exact iff_of_true ⟨hrank, hscored⟩ (.inl hboard)
  · dsimp only
    rw [rank_eq_one hboard]
    constructor
    · rintro ⟨hfirst, -⟩
      exact .inr hfirst
    · intro h
      exact ⟨h.resolve_left hboard, hscored⟩

def globalBoards : RedisBoards := fun key =>
  if key = zsetKey then SortedSet.empty.addAll [("ann", 9), ("bob", 3)] else .empty

def globalRebuild : RebuildCall := .recompute (some ⟨[("ann", 9), ("bob", 4)], by decide⟩) none

/-- A whole rebuild between the two commands of a lookup. -/
def rebuiltMeanwhile : List LookupEvent :=
  [.start globalRebuild, .lookup .ok, .rebuild 0 .ok, .rebuild 0 .ok, .rebuild 0 .ok]

theorem rank_not_invented_bob :
    ∃ u, (lookupMachine "bob").run ⟨globalBoards, [], .zscore⟩ rebuiltMeanwhile = some u ∧
      ((lookupMachine "bob").Sometime (StandsAt "bob" 2) ⟨globalBoards, [], .zscore⟩
          rebuiltMeanwhile ∧
        (lookupMachine "bob").Sometime (HasScore "bob" 3) ⟨globalBoards, [], .zscore⟩
          rebuiltMeanwhile ↔
          OnBoard "bob" u ∨
            (lookupMachine "bob").Sometime (StandsAt "bob" 1) ⟨globalBoards, [], .zscore⟩
              rebuiltMeanwhile) := by
  obtain ⟨u, t, hr, hu, hs, ht⟩ : ∃ u t,
      (lookupMachine "bob").run ⟨globalBoards, [], .zscore⟩ rebuiltMeanwhile = some u ∧
        u.pc = .zrevrank 3 ∧ (lookupMachine "bob").step u (.lookup .ok) = some t ∧
        t.pc = .returned (some ⟨2, "bob", 3⟩) := ⟨_, _, rfl, rfl, rfl, rfl⟩
  exact ⟨u, hr, rank_not_invented_iff rfl hr (by rw [hu]; rintro ⟨⟩) hs ht⟩

/-- Between the two commands a rebuild deletes the board, and the second user is told that he is
the first. -/
theorem rank_invented :
    ∃ es s t, (lookupMachine "bob").run ⟨globalBoards, [], .zscore⟩ es = some s ∧
      (lookupMachine "bob").step s (.lookup .ok) = some t ∧
      t.pc = .returned (some ⟨1, "bob", 3⟩) ∧
      ¬(lookupMachine "bob").Sometime (StandsAt "bob" 1) ⟨globalBoards, [], .zscore⟩ es := by
  refine ⟨[.start globalRebuild, .lookup .ok, .rebuild 0 .ok], _, _, rfl, rfl, rfl, ?_⟩
  have hfirst (s : LookupState) (h : ((s.redis zsetKey).rows.map fun x => x.1).head? ≠ some "bob") :
      ¬StandsAt "bob" 1 s := by
    rintro ⟨-, h1⟩
    exact h (List.head?_eq_getElem? ▸ h1)
  rw [Machine.sometime_cons rfl, Machine.sometime_cons rfl, Machine.sometime_cons rfl]
  rintro (h | h | h | h)
  · exact hfirst _ (by decide) h
  · exact hfirst _ (by decide) h
  · exact hfirst _ (by decide) h
  · exact hfirst _ (by decide) h

end Leetrank
