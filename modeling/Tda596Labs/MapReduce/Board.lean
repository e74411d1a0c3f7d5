import Tda596Labs.Lib.Lease
import Tda596Labs.MapReduce.Coordinator
import Mathlib.Data.Finset.Card

/-! # The jobs of one phase

The coordinator keeps the same records for its map jobs and for its reduce jobs: who has a job and
whether it is completed, a timer for each job, and the number of jobs handed out for the first time.
`Board` collects them.  Each entry of a board is a lease, and every operation of the coordinator does
to each entry what one event does to a lease.
-/

namespace Tda596Labs.MapReduce

open Coordinator (needsRetry advance advanceJob)

structure Board where
  jobs : Nat
  currentJob : Nat
  chunks : List WorkChunk
  timers : List Nat

namespace Board

/-- The record of one job. -/
def lease (board : Board) (j : Nat) : Lease where
  owner := (board.chunks.getD j default).workerId
  timer := board.timers.getD j 0
  closed := (board.chunks.getD j default).completed

/-- The job that is handed out next. -/
def next (board : Board) : Option Nat :=
  if board.currentJob = board.jobs then
    -- every job has been handed out once: the first that may be handed out again
    (List.range board.timers.length).find? (needsRetry board.chunks board.timers)
  else some board.currentJob

def hand (board : Board) (j workerId : Nat) : Board :=
  { board with
    currentJob := advanceJob board.currentJob board.jobs
    chunks := board.chunks.modify j ({ · with workerId := workerId })
    timers := board.timers.set j 1 }

def complete (board : Board) (j : Nat) : Board :=
  { board with chunks := board.chunks.modify j ({ · with completed := true }) }

/-- All jobs of a worker are opened again. -/
def clear (board : Board) (workerId : Nat) : Board :=
  { board with
    chunks := board.chunks.map fun chunk => if chunk.workerId = workerId then ⟨0, false⟩ else chunk
    timers := board.timers.mapIdx fun i timer =>
      if (board.chunks.getD i default).workerId = workerId then 0 else timer }

/-- One job is given back. -/
def release (board : Board) (j : Nat) : Board :=
  { board with
    chunks := board.chunks.modify j ({ · with workerId := 0 })
    timers := board.timers.set j 0 }

def tick (board : Board) : Board := { board with timers := advance board.chunks board.timers }

/-- There is one record for each job, and a job that was not handed out has no owner. -/
structure Sound (board : Board) : Prop where
  chunkCount : board.chunks.length = board.jobs
  timerCount : board.timers.length = board.jobs
  current : board.currentJob ≤ board.jobs
  fresh : ∀ j, board.currentJob ≤ j → (board.lease j).owner = 0 ∧ (board.lease j).timer = 0

/-! ## What the operations do to a job -/

theorem getD_set {timers : List Nat} {i j n : Nat} :
    (timers.set j n).getD i 0 = if i = j ∧ j < timers.length then n else timers.getD i 0 := by
  rw [List.getD_eq_getElem?_getD, List.getD_eq_getElem?_getD, List.getElem?_set]
  by_cases same : i = j
  · subst same
    by_cases inside : i < timers.length
    · simp [inside]
    · simp [inside]
  · simp [same, Ne.symm same]

theorem getD_mapIdx {timers : List Nat} {f : Nat → Nat → Nat} {i : Nat} (zero : f i 0 = 0) :
    (timers.mapIdx f).getD i 0 = f i (timers.getD i 0) := by
  simp only [List.getD_eq_getElem?_getD, List.getElem?_mapIdx]
  cases timers[i]? with
  | none => simp [zero]
  | some timer => rfl

theorem getD_map {chunks : List WorkChunk} {f : WorkChunk → WorkChunk} {i : Nat}
    (unchanged : f default = default) : (chunks.map f).getD i default = f (chunks.getD i default) := by
  simp only [List.getD_eq_getElem?_getD, List.getElem?_map]
  cases chunks[i]? with
  | none => simp [unchanged]
  | some chunk => rfl

variable {board : Board} {i j : Nat}

theorem lease_hand (sound : board.Sound) (inside : j < board.jobs) (workerId : Nat) :
    (board.hand j workerId).lease i =
      if i = j then ⟨workerId, 1, (board.lease i).closed⟩ else board.lease i := by
  simp only [lease, hand, Coordinator.getD_modify, getD_set, sound.chunkCount, sound.timerCount]
  by_cases same : i = j
  · simp [same, inside]
  · simp [same]

theorem lease_complete (sound : board.Sound) (inside : j < board.jobs) :
    (board.complete j).lease i =
      if i = j then { board.lease i with closed := true } else board.lease i := by
  simp only [lease, complete, Coordinator.getD_modify, sound.chunkCount]
  by_cases same : i = j
  · simp [same, inside]
  · simp [same]

theorem lease_release (sound : board.Sound) (inside : j < board.jobs) :
    (board.release j).lease i =
      if i = j then ⟨0, 0, (board.lease i).closed⟩ else board.lease i := by
  simp only [lease, release, Coordinator.getD_modify, getD_set, sound.chunkCount, sound.timerCount]
  by_cases same : i = j
  · simp [same, inside]
  · simp [same]

theorem lease_clear (workerId : Nat) :
    (board.clear workerId).lease i =
      if (board.lease i).owner = workerId then .unowned else board.lease i := by
  simp only [lease, clear]
  rw [getD_map (by split <;> rfl), getD_mapIdx (by split <;> rfl)]
  by_cases isOwner : (board.chunks.getD i default).workerId = workerId
  · simp only [isOwner, if_true]
    rfl
  · simp only [isOwner, if_false]

theorem lease_tick : board.tick.lease i = (board.lease i).tick := by
  simp only [lease, tick, advance]
  rw [getD_mapIdx (by simp)]
  unfold Lease.tick
  dsimp only
  split <;> rfl

/-! ## Soundness -/

theorem lease_make (jobs j : Nat) :
    lease ⟨jobs, 0, List.replicate jobs ⟨0, false⟩, List.replicate jobs 0⟩ j = .unowned := by
  simp only [lease, List.getD_eq_getElem?_getD, List.getElem?_replicate]
  split <;> rfl

theorem sound_make (jobs : Nat) :
    Sound ⟨jobs, 0, List.replicate jobs ⟨0, false⟩, List.replicate jobs 0⟩ where
  chunkCount := by simp
  timerCount := by simp
  current := Nat.zero_le _
  fresh j _ := by
    rw [lease_make]
    exact ⟨rfl, rfl⟩

theorem needsRetry_eq (j : Nat) :
    needsRetry board.chunks board.timers j = (board.lease j).available timeout := rfl

/-- A job that is handed out is available. -/
theorem Sound.next (sound : board.Sound) (isNext : board.next = some j) :
    j < board.jobs ∧ (board.lease j).available timeout = true := by
  unfold Board.next at isNext
  split at isNext
  · constructor
    · have inRange := List.mem_of_find?_eq_some isNext
      rw [List.mem_range, sound.timerCount] at inRange
      exact inRange
    · rw [← needsRetry_eq]
      exact List.find?_some isNext
  · next some_ =>
    cases isNext
    constructor
    · exact lt_of_le_of_ne sound.current some_
    · rw [Lease.available_iff]
      exact .inr (sound.fresh _ le_rfl)

/-- While a job is available some job is handed out. -/
theorem Sound.exists_next (sound : board.Sound) (inside : i < board.jobs)
    (waits : (board.lease i).available timeout = true) : ∃ j, board.next = some j := by
  unfold Board.next
  split
  · apply Option.isSome_iff_exists.mp
    rw [List.find?_isSome]
    exact ⟨i, by rw [List.mem_range, sound.timerCount]; exact inside, waits⟩
  · exact ⟨_, rfl⟩

theorem Sound.hand (sound : board.Sound) (isNext : board.next = some j) (workerId : Nat) :
    (board.hand j workerId).Sound where
  chunkCount := by simp [Board.hand, sound.chunkCount]
  timerCount := by simp [Board.hand, sound.timerCount]
  current := by
    have bound := sound.current
    simp only [Board.hand, advanceJob]
    split <;> omega
  fresh i later := by
    have inside := (sound.next isNext).1
    simp only [Board.hand, advanceJob] at later
    -- The job handed out is below the new `currentJob`, in both branches of `next`.
    have other : i ≠ j := by
      rintro rfl
      unfold Board.next at isNext
      split at isNext
      · next all =>
        rw [if_pos all, all] at later
        omega
      · next some_ =>
        cases isNext
        rw [if_neg some_] at later
        omega
    rw [lease_hand sound inside, if_neg other]
    apply sound.fresh
    split at later <;> omega

theorem Sound.complete (sound : board.Sound) (inside : j < board.jobs) : (board.complete j).Sound where
  chunkCount := by simp [Board.complete, sound.chunkCount]
  timerCount := sound.timerCount
  current := sound.current
  fresh i later := by
    have fresh := sound.fresh i later
    rw [lease_complete sound inside]
    split <;> exact fresh

theorem Sound.release (sound : board.Sound) (inside : j < board.jobs) : (board.release j).Sound where
  chunkCount := by simp [Board.release, sound.chunkCount]
  timerCount := by simp [Board.release, sound.timerCount]
  current := sound.current
  fresh i later := by
    have fresh := sound.fresh i later
    rw [lease_release sound inside]
    split
    · exact ⟨rfl, rfl⟩
    · exact fresh

theorem Sound.clear (sound : board.Sound) (workerId : Nat) : (board.clear workerId).Sound where
  chunkCount := by simp [Board.clear, sound.chunkCount]
  timerCount := by simp [Board.clear, sound.timerCount]
  current := sound.current
  fresh i later := by
    have fresh := sound.fresh i later
    rw [lease_clear]
    split
    · exact ⟨rfl, rfl⟩
    · exact fresh

theorem Sound.tick (sound : board.Sound) : board.tick.Sound where
  chunkCount := sound.chunkCount
  timerCount := by simp [Board.tick, advance, sound.timerCount]
  current := sound.current
  fresh i later := by
    obtain ⟨unowned, stopped⟩ := sound.fresh i later
    rw [lease_tick, Lease.tick]
    simp [unowned, stopped]

/-! ## What can happen to a board -/

/-- The operations on a board, each with the event that it is for every single job. -/
inductive Moves (board : Board) : Board → (Nat → Lease.Event) → Prop where
  | same : Moves board board fun _ => .other
  | hand {j : Nat} (isNext : board.next = some j) (workerId : Nat) :
      Moves board (board.hand j workerId) fun i => if i = j then .take workerId else .other
  | complete {j : Nat} (inside : j < board.jobs) :
      Moves board (board.complete j) fun i => if i = j then .close else .other
  | clear (workerId : Nat) :
      Moves board (board.clear workerId) fun i =>
        if (board.lease i).owner = workerId then .revoke else .other
  | release {j : Nat} (inside : j < board.jobs) :
      Moves board (board.release j) fun i => if i = j then .release else .other
  | tick : Moves board board.tick fun _ => .tick

variable {board' : Board} {events events' : Nat → Lease.Event}

theorem Moves.congr (moves : board.Moves board' events) (same : ∀ i, events' i = events i) :
    board.Moves board' events' := by
  rw [funext same]
  exact moves

theorem Moves.sound (moves : board.Moves board' events) (sound : board.Sound) : board'.Sound := by
  cases moves with
  | same => exact sound
  | hand isNext workerId => exact sound.hand isNext workerId
  | complete inside => exact sound.complete inside
  | clear workerId => exact sound.clear workerId
  | release inside => exact sound.release inside
  | tick => exact sound.tick

/-- Every job of a board is a lease of its own. -/
theorem Moves.lease (moves : board.Moves board' events) (sound : board.Sound) (i : Nat) :
    (board.lease i).step timeout (events i) = some (board'.lease i) := by
  cases moves with
  | same => rfl
  | @hand j isNext workerId =>
    obtain ⟨inside, available⟩ := sound.next isNext
    rw [lease_hand sound inside]
    by_cases equal : i = j
    · simp [equal, Lease.step, available]
    · simp [equal, Lease.step]
  | @complete j inside =>
    rw [lease_complete sound inside]
    by_cases equal : i = j <;> simp [equal, Lease.step]
  | clear workerId =>
    rw [lease_clear]
    by_cases owner : (board.lease i).owner = workerId <;> simp [owner, Lease.step]
  | @release j inside =>
    rw [lease_release sound inside]
    by_cases equal : i = j <;> simp [equal, Lease.step]
  | tick =>
    rw [lease_tick]
    rfl

theorem Moves.jobs (moves : board.Moves board' events) : board'.jobs = board.jobs := by
  cases moves <;> rfl

/-! ## Waiting for a job -/

/-- The jobs that are available. -/
def waiting (board : Board) : Finset Nat :=
  (Finset.range board.jobs).filter fun i => (board.lease i).available timeout

theorem mem_waiting : i ∈ board.waiting ↔ i < board.jobs ∧ (board.lease i).available timeout = true := by
  simp [waiting]

theorem card_waiting_le (board : Board) : board.waiting.card ≤ board.jobs :=
  (Finset.card_filter_le _ _).trans (by simp)

/-- Handing out a job takes it from the available ones and leaves the others. -/
theorem Sound.waiting_hand (sound : board.Sound) (isNext : board.next = some j) (workerId : Nat) :
    (board.hand j workerId).waiting = board.waiting.erase j := by
  have inside := (sound.next isNext).1
  ext i
  rw [Finset.mem_erase, mem_waiting, mem_waiting, lease_hand sound inside]
  show i < board.jobs ∧ _ ↔ _
  by_cases same : i = j
  · simp [same, Lease.available, timeout]
  · simp [same]

end Board

end Tda596Labs.MapReduce
