import Leetrank.Library.Machine
import Leetrank.Library.SortedSet
import Mathlib.Data.String.Basic

namespace Leetrank
set_option autoImplicit true

open EventMachine SortedSets

abbrev Board := SortedSet String Int

/-- The boards, by key; a key that is not there is an empty board. -/
abbrev RedisBoards := String → Board

def zsetKey : String := "leaderboard:global"
def zsetKeyWeekly : String := "leaderboard:weekly"
def zsetKeyMonthly : String := "leaderboard:monthly"

inductive Period where
  | weekly
  | monthly
  | allTime

def Period.key : Period → String
  | .weekly => zsetKeyWeekly
  | .monthly => zsetKeyMonthly
  | .allTime => zsetKey

/-- The answer of the database: a score for each user, of whom no two have the same name. -/
structure Scores where
  rows : List (String × Int)
  unique : (rows.map fun x => x.1).Nodup

structure LeaderboardEntry where
  rank : Nat
  username : String
  score : Int

def listTop (board : Board) (limit offset : Nat) : List LeaderboardEntry :=
  (board.range offset (offset + limit - 1)).mapIdx fun i x => ⟨offset + i + 1, x.1, x.2⟩

structure ListQuery where
  limit : Nat
  offset : Nat

/-- The entries that a reader gets, within the bounds of the handlers. -/
def ListQuery.entries (q : ListQuery) (board : Board) : List LeaderboardEntry :=
  listTop board (max 1 (min q.limit 100)) (min q.offset 100000)

/-- The rows in batches of a given size and one. -/
def chunks (n : Nat) (rows : List α) : List (List α) := (List.toChunksAux n rows 0).2

/-- Where a rebuild stands: before `DEL`, before a command of a pipeline, of which one before may
have been refused, or at its end. -/
inductive RebuildPc where
  | delete (rows : List (String × Int))
  | batch (count : Nat) (refused : Bool) (commands : List (String × Int))
    (later : List (List (String × Int)))
  | done (count : Nat)
  | failed

def startBatch (count : Nat) : List (List (String × Int)) → RebuildPc
  | [] => .done count
  | batch :: later => .batch (count + batch.length) false batch later

/-- An error among the answers of a pipeline shows when all of them are there. -/
def nextCommand (count : Nat) (refused : Bool) (later : List (List (String × Int))) :
    List (String × Int) → RebuildPc
  | [] => if refused then .failed else startBatch count later
  | commands@(_ :: _) => .batch count refused commands later

/-- A command is carried out, is refused by the server, is carried out while its reply is lost with
the connection, or the connection is lost before it. -/
inductive CommandOutcome where
  | ok
  | refused
  | lost
  | disconnected

def rebuildStep (key : String) (redis : RedisBoards) : RebuildPc → CommandOutcome →
    Option (RedisBoards × RebuildPc)
  | .delete rows, .ok =>
    some (Function.update redis key .empty, startBatch 0 (chunks 499 rows))
  | .delete _, .lost => some (Function.update redis key .empty, .failed)
  | .delete _, .refused | .delete _, .disconnected => some (redis, .failed)
  | .batch count refused ((username, score) :: commands) later, .ok =>
    some (Function.update redis key ((redis key).add username score),
      nextCommand count refused later commands)
  | .batch _ _ ((username, score) :: _) _, .lost =>
    some (Function.update redis key ((redis key).add username score), .failed)
  | .batch count _ (_ :: commands) later, .refused =>
    some (redis, nextCommand count true later commands)
  | .batch .., .disconnected => some (redis, .failed)
  | .batch _ _ [] _, _ | .done _, _ | .failed, _ => none

/-- A rebuild, with the answers of the database to its queries. -/
inductive RebuildCall where
  | recompute (primary fallback : Option Scores)
  | recomputePeriod (period : Period) (rows : Option Scores)

def RebuildCall.key : RebuildCall → String
  | .recompute _ _ => zsetKey
  | .recomputePeriod period _ => period.key

def RebuildCall.rows : RebuildCall → Option Scores
  | .recompute primary fallback => primary <|> fallback
  | .recomputePeriod _ rows => rows

def RebuildCall.start (call : RebuildCall) : RebuildPc :=
  match call.rows with
  | none => .failed
  | some scores => .delete scores.rows

structure RebuildState where
  redis : RedisBoards
  pc : RebuildPc

inductive RebuildEvent where
  | command (x : CommandOutcome)
  | read (q : ListQuery)

/-- A rebuild of a board and any number of readers. -/
def rebuildMachine (redis : RedisBoards) (call : RebuildCall) :
    Machine RebuildState RebuildEvent where
  init := fun s => s = ⟨redis, call.start⟩
  step
    | s, .command x => (rebuildStep call.key s.redis s.pc x).map fun (redis, pc) => ⟨redis, pc⟩
    | s, .read _ => some s

/-- The complete new board. -/
def Scores.board (scores : Scores) : Board := SortedSet.empty.addAll scores.rows

/-- A rebuild that fails leaves the boards as they were. -/
def FailsClean (redis : RedisBoards) (call : RebuildCall) : Prop :=
  ∀ es s, (rebuildMachine redis call).run ⟨redis, call.start⟩ es = some s → s.pc = .failed →
    s.redis = redis

/-- Every reader sees the complete old board or the complete new one. -/
def ReadsOneBoard (redis : RedisBoards) (call : RebuildCall) : Prop :=
  ∀ es, (rebuildMachine redis call).Always
    (fun s e _ => ∀ q, e = .read q →
      q.entries (s.redis call.key) = q.entries (redis call.key) ∨
        ∃ scores, call.rows = some scores ∧ q.entries (s.redis call.key) = q.entries scores.board)
    ⟨redis, call.start⟩ es

/-- There is nothing to insert, and nothing to delete. -/
def NothingToDo (redis : RedisBoards) (call : RebuildCall) : Prop :=
  ∀ scores, call.rows = some scores → scores.rows = [] ∧ redis call.key = .empty

/-- There is nothing to insert, or one row into an empty board. -/
def OneCommand (redis : RedisBoards) (call : RebuildCall) : Prop :=
  ∀ scores, call.rows = some scores →
    scores.rows = [] ∨ scores.rows.length = 1 ∧ redis call.key = .empty

variable {redis redis' : RedisBoards} {call : RebuildCall} {s s' : RebuildState}

theorem toChunksAux_flatten (n : Nat) (rows : List α) (i : Nat) :
    (List.toChunksAux n rows i).1 ++ (List.toChunksAux n rows i).2.flatten = rows := by
  induction rows generalizing i with
  | nil => rfl
  | cons x rows ih =>
    cases i with
    | zero => simp [List.toChunksAux, ih n]
    | succ i => simp [List.toChunksAux, ih i]

/-- The first batch begins with the first row. -/
theorem chunks_cons (n : Nat) (x : α) (rows : List α) :
    ∃ batch later, chunks n (x :: rows) = (x :: batch) :: later ∧ batch ++ later.flatten = rows :=
  ⟨_, _, rfl, toChunksAux_flatten n rows n⟩

/-- Where a rebuild of one command can be, and the boards at that point. -/
inductive Clean (redis : RedisBoards) (call : RebuildCall) : RebuildState → Prop where
  | delete (h : call.rows = some scores) : Clean redis call ⟨redis, .delete scores.rows⟩
  | insert (h : call.rows = some scores) (hx : scores.rows = [x]) (hold : redis call.key = .empty) :
    Clean redis call ⟨redis, .batch 1 false [x] []⟩
  | done (h : call.rows = some scores) :
    Clean redis call ⟨Function.update redis call.key scores.board, .done count⟩
  | failed : Clean redis call ⟨redis, .failed⟩
  | lost (h : call.rows = some scores) :
    Clean redis call ⟨Function.update redis call.key scores.board, .failed⟩

theorem Clean.reads (h : Clean redis call s) (q : ListQuery) :
    q.entries (s.redis call.key) = q.entries (redis call.key) ∨
      ∃ scores, call.rows = some scores ∧
        q.entries (s.redis call.key) = q.entries scores.board := by
  cases h with
  | delete | insert | failed => exact .inl rfl
  | done h | lost h =>
    refine .inr ⟨_, h, ?_⟩
    dsimp only
    rw [Function.update_self]

theorem Scores.board_nil {scores : Scores} (h : scores.rows = []) : scores.board = .empty := by
  rw [Scores.board, h]
  rfl

theorem Scores.board_one {scores : Scores} (h : scores.rows = [x]) :
    scores.board = SortedSet.empty.add x.1 x.2 := by
  rw [Scores.board, h]
  rfl

theorem clean_step (h1 : OneCommand redis call) (h : Clean redis call s)
    (hs : (rebuildMachine redis call).step s e = some s') : Clean redis call s' := by
  cases e with
  | read q =>
    cases hs
    exact h
  | command x =>
    obtain ⟨⟨redis', pc'⟩, hstep, he⟩ := Option.map_eq_some_iff.1 hs
    cases he
    cases h with
    | @delete scores hrows =>
      cases x with
      | ok =>
        rcases h1 scores hrows with hnil | ⟨hone, hold⟩
        · cases hstep
          rw [hnil, ← Scores.board_nil hnil]
          exact .done hrows
        · obtain ⟨x, hx⟩ := List.length_eq_one_iff.1 hone
          cases hstep
          rw [hx, ← hold, Function.update_eq_self]
          exact .insert hrows hx hold
      | lost =>
        cases hstep
        rcases h1 scores hrows with hnil | ⟨-, hold⟩
        · rw [← Scores.board_nil hnil]
          exact .lost hrows
        · rw [← hold, Function.update_eq_self]
          exact .failed
      | refused | disconnected =>
        cases hstep
        exact .failed
    | @insert scores row hrows hx hold =>
      cases x with
      | ok =>
        cases hstep
        dsimp only
        rw [hold, ← Scores.board_one hx]
        exact .done hrows
      | lost =>
        cases hstep
        dsimp only
        rw [hold, ← Scores.board_one hx]
        exact .lost hrows
      | refused | disconnected =>
        cases hstep
        exact .failed
    | done => cases x <;> cases hstep
    | failed => cases x <;> cases hstep
    | lost => cases x <;> cases hstep

theorem clean_start (redis : RedisBoards) (call : RebuildCall) :
    Clean redis call ⟨redis, call.start⟩ := by
  unfold RebuildCall.start
  split
  next => exact .failed
  next h => exact .delete h

theorem entries_length (n : Nat) (board : Board) :
    (ListQuery.entries ⟨n, 0⟩ board).length = min (max 1 (min n 100)) board.rows.length := by
  have hpos : max 1 (min n 100) - 1 + 1 = max 1 (min n 100) := Nat.sub_add_cancel (le_max_left ..)
  simp only [ListQuery.entries, listTop, List.length_mapIdx, Nat.zero_min, Nat.zero_add,
    SortedSet.length_range_zero, hpos]

theorem Scores.length_board (scores : Scores) :
    scores.board.rows.length = scores.rows.length := by
  have hnew : ∀ k ∈ scores.rows.map (fun x => x.1),
      k ∉ (SortedSet.empty : Board).rows.map fun x => x.1 := fun _ _ => List.not_mem_nil
  rw [Scores.board, SortedSet.length_addAll scores.unique hnew]
  exact Nat.zero_add _

theorem nextCommand_batch (count : Nat) (h : batch ++ later.flatten ≠ []) :
    ∃ count' refused' commands later', nextCommand count false later batch =
      .batch count' refused' commands later' := by
  cases batch with
  | cons x batch => exact ⟨_, _, _, _, rfl⟩
  | nil =>
    cases later with
    | cons next later => exact ⟨_, _, _, _, rfl⟩
    | nil => exact absurd rfl h

/-- After the deletion the first batch begins with the first row. -/
theorem run_delete (redis : RedisBoards) (hrows : call.rows = some scores)
    (hx : scores.rows = x :: rest) :
    ∃ count batch later, batch ++ later.flatten = rest ∧
      (rebuildMachine redis call).run ⟨redis, call.start⟩ [.command .ok] =
        some ⟨Function.update redis call.key .empty, .batch count false (x :: batch) later⟩ := by
  obtain ⟨batch, later, hchunks, hflat⟩ := chunks_cons 499 x rest
  refine ⟨0 + (x :: batch).length, batch, later, hflat, ?_⟩
  rw [RebuildCall.start, hrows]
  dsimp only
  rw [hx]
  change some _ = _
  rw [hchunks]
  rfl

/-- A rebuild of several commands comes to a point at which the board is neither the old nor the
new one. -/
theorem exposed_of_not_oneCommand (h : ¬OneCommand redis call) :
    ∃ scores es redis' count refused commands later, call.rows = some scores ∧
      (rebuildMachine redis call).run ⟨redis, call.start⟩ es =
        some ⟨redis', .batch count refused commands later⟩ ∧
      (0 < (redis call.key).rows.length ∧ 0 < scores.rows.length ∧
          (redis' call.key).rows.length = 0 ∨
        (redis call.key).rows.length = 0 ∧ 1 < scores.rows.length ∧
          (redis' call.key).rows.length = 1) := by
  simp only [OneCommand, not_forall, not_or, not_and] at h
  obtain ⟨scores, hrows, hne, hold⟩ := h
  obtain ⟨x, rest, hx⟩ := List.exists_cons_of_ne_nil hne
  obtain ⟨count, batch, later, hflat, hdelete⟩ := run_delete redis hrows hx
  by_cases hempty : (redis call.key).rows.length = 0
  · have hlen : 1 < scores.rows.length := by
      have hpos := List.length_pos_iff.2 hne
      have hone : scores.rows.length ≠ 1 :=
        fun hone => hold hone (SortedSet.ext (List.length_eq_zero_iff.1 hempty))
      omega
    have hrest : batch ++ later.flatten ≠ [] := by
      rw [hflat]
      rintro rfl
      rw [hx] at hlen
      exact Nat.lt_irrefl 1 hlen
    obtain ⟨count', refused, commands, later', hnext⟩ := nextCommand_batch count hrest
    have hinsert : (rebuildMachine redis call).run ⟨redis, call.start⟩
        ([.command .ok] ++ [.command .ok]) =
          some ⟨Function.update (Function.update redis call.key .empty) call.key
            ((Function.update redis call.key .empty call.key).add x.1 x.2),
            .batch count' refused commands later'⟩ := by
      refine Machine.run_concat hdelete ?_
      change some _ = _
      rw [hnext]
    refine ⟨scores, _, _, _, _, _, _, hrows, hinsert, .inr ⟨hempty, hlen, ?_⟩⟩
    rw [Function.update_self, Function.update_self]
    rfl
  · refine ⟨scores, _, _, _, _, _, _, hrows, hdelete,
      .inl ⟨Nat.pos_of_ne_zero hempty, List.length_pos_iff.2 hne, ?_⟩⟩
    rw [Function.update_self]
    rfl

/-- A rebuild that changes the boards with its first command fails unclean if the reply to this
command is lost. -/
theorem nothingToDo_of_failsClean (h : FailsClean redis call) : NothingToDo redis call := by
  intro scores hrows
  have hold : redis call.key = .empty := by
    have hrun : (rebuildMachine redis call).run ⟨redis, call.start⟩ [.command .lost] =
        some ⟨Function.update redis call.key .empty, .failed⟩ := by
      rw [RebuildCall.start, hrows]
      rfl
    have hsame : Function.update redis call.key .empty = redis := h _ _ hrun rfl
    rw [← hsame, Function.update_self]
  refine ⟨?_, hold⟩
  by_contra hne
  obtain ⟨x, rest, hx⟩ := List.exists_cons_of_ne_nil hne
  obtain ⟨count, batch, later, -, hdelete⟩ := run_delete redis hrows hx
  have hrun : (rebuildMachine redis call).run ⟨redis, call.start⟩
      ([.command .ok] ++ [.command .lost]) =
        some ⟨Function.update (Function.update redis call.key .empty) call.key
          ((Function.update redis call.key .empty call.key).add x.1 x.2), .failed⟩ :=
    Machine.run_concat hdelete rfl
  have hsame := congrArg (fun redis => (redis call.key).rows.length) (h _ _ hrun rfl)
  dsimp only at hsame
  rw [Function.update_self, Function.update_self, hold] at hsame
  cases hsame

/-- A rebuild with nothing to do deletes an empty board, at most. -/
theorem rebuildStep_nothing (h : NothingToDo redis call)
    (hpc : pc = call.start ∨ pc = .done 0 ∨ pc = .failed)
    (hs : rebuildStep call.key redis pc x = some (redis', pc')) :
    redis' = redis ∧ (pc' = .done 0 ∨ pc' = .failed) := by
  rcases hpc with rfl | rfl | rfl
  · cases hrows : call.rows with
    | none =>
      rw [RebuildCall.start, hrows] at hs
      cases x <;> cases hs
    | some scores =>
      obtain ⟨hnil, hold⟩ := h scores hrows
      have hsame : Function.update redis call.key .empty = redis := by
        rw [← hold, Function.update_eq_self]
      rw [RebuildCall.start, hrows] at hs
      dsimp only at hs
      rw [hnil] at hs
      cases x with
      | ok =>
        cases hs
        exact ⟨hsame, .inl rfl⟩
      | lost =>
        cases hs
        exact ⟨hsame, .inr rfl⟩
      | refused | disconnected =>
        cases hs
        exact ⟨rfl, .inr rfl⟩
  · cases x <;> cases hs
  · cases x <;> cases hs

theorem failsClean_of_nothingToDo (h : NothingToDo redis call) : FailsClean redis call := by
  have hinv : (rebuildMachine redis call).Invariant
      (fun s => s.redis = redis ∧ (s.pc = call.start ∨ s.pc = .done 0 ∨ s.pc = .failed)) := by
    rintro ⟨_, pc⟩ e s' ⟨rfl, hpc⟩ hstep -
    cases e with
    | read q =>
      cases hstep
      exact ⟨rfl, hpc⟩
    | command x =>
      obtain ⟨⟨redis', pc'⟩, hs, rfl⟩ := Option.map_eq_some_iff.1 hstep
      obtain ⟨hredis, hpc'⟩ := rebuildStep_nothing h hpc hs
      exact ⟨hredis, .inr hpc'⟩
  intro es s hr _
  exact (hinv.run ⟨rfl, .inl rfl⟩ hr).1

theorem NothingToDo.oneCommand (h : NothingToDo redis call) : OneCommand redis call :=
  fun scores hrows => .inl (h scores hrows).1

theorem oneCommand_of_reads (h : ReadsOneBoard redis call) : OneCommand redis call := by
  by_contra hmany
  obtain ⟨scores, es, redis', count, refused, commands, later, hrows, hr, hboard⟩ :=
    exposed_of_not_oneCommand hmany
  have hread (n : Nat) : min (max 1 (min n 100)) (redis' call.key).rows.length =
      min (max 1 (min n 100)) (redis call.key).rows.length ∨
        min (max 1 (min n 100)) (redis' call.key).rows.length =
          min (max 1 (min n 100)) scores.rows.length := by
    have hlast := Machine.Always.last (h (es ++ [.read ⟨n, 0⟩])) hr rfl ⟨n, 0⟩ rfl
    rcases hlast with heq | ⟨scores', hrows', heq⟩
    · have hlen := congrArg List.length heq
      rw [entries_length, entries_length] at hlen
      exact .inl hlen
    · rw [hrows] at hrows'
      cases hrows'
      have hlen := congrArg List.length heq
      rw [entries_length, entries_length, Scores.length_board] at hlen
      exact .inr hlen
  have h1 := hread 1
  have h2 := hread 2
  omega

theorem reads_of_oneCommand (h : OneCommand redis call) : ReadsOneBoard redis call := by
  have hinv : (rebuildMachine redis call).Invariant (Clean redis call) :=
    fun s e s' hs hstep _ => clean_step h hs hstep
  intro es
  refine (hinv.preserves fun _ _ _ => True).always (clean_start redis call)
    (Machine.always_of_events fun _ _ _ _ => trivial) ?_
  rintro s e s' hs - - q -
  exact hs.reads q

/-- Readers see one board at a time exactly if the rebuild has no more than one command to carry
out. -/
theorem readsOneBoard_iff (redis : RedisBoards) (call : RebuildCall) :
    ReadsOneBoard redis call ↔ OneCommand redis call :=
  ⟨oneCommand_of_reads, reads_of_oneCommand⟩

/-- A rebuild is all or nothing exactly if it has nothing to do. -/
theorem rebuild_all_or_nothing_iff (redis : RedisBoards) (call : RebuildCall) :
    FailsClean redis call ∧ ReadsOneBoard redis call ↔ NothingToDo redis call := by
  rw [readsOneBoard_iff]
  constructor
  · rintro ⟨h, -⟩
    exact nothingToDo_of_failsClean h
  · intro h
    exact ⟨failsClean_of_nothingToDo h, h.oneCommand⟩

/-- The weekly board has two users, one of whom has solved another problem. -/
def weeklyBoards : RedisBoards := fun key =>
  if key = zsetKeyWeekly then SortedSet.empty.addAll [("ann", 3), ("bob", 2)] else .empty

def weeklyScores : Scores := ⟨[("ann", 4), ("bob", 2)], by decide⟩

def weeklyRebuild : RebuildCall := .recomputePeriod .weekly (some weeklyScores)

/-- After the deletion the server refuses to insert, and there is no board left; a reader in between
sees none of two. -/
theorem rebuild_loses_board :
    (∃ s, (rebuildMachine weeklyBoards weeklyRebuild).run ⟨weeklyBoards, weeklyRebuild.start⟩
        [.command .ok, .command .refused, .command .refused] = some s ∧
      s.pc = .failed ∧ (s.redis zsetKeyWeekly).rows = [] ∧
      (weeklyBoards zsetKeyWeekly).rows = [("ann", 3), ("bob", 2)]) ∧
    ∃ s, (rebuildMachine weeklyBoards weeklyRebuild).run ⟨weeklyBoards, weeklyRebuild.start⟩
        [.command .ok] = some s ∧
      (ListQuery.entries ⟨50, 0⟩ (s.redis zsetKeyWeekly)).length = 0 ∧
      (ListQuery.entries ⟨50, 0⟩ (weeklyBoards zsetKeyWeekly)).length = 2 ∧
      (ListQuery.entries ⟨50, 0⟩ weeklyScores.board).length = 2 :=
  ⟨⟨_, rfl, rfl, rfl, by decide⟩, _, rfl, rfl, by decide, by decide⟩

end Leetrank
