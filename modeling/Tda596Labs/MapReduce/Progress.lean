import Tda596Labs.MapReduce.Assignment

/-! # No job is stranded

A job that is not completed is handed out after `TIMEOUT` ticks and as many calls of `GetWork` as its
phase has jobs.  After the ticks the job is available; every call hands out an available job, which is
not available any more, so a job waits for at most all the others.
-/

namespace Tda596Labs.MapReduce.Service

open Transition

variable {program : Program} {output : Directory Bytes} {s t : Service} {e : Event} {kind : JobKind}
  {j : Nat} {taken : List (Taken Service Event)} {final : Service}

/-! ## Invariants -/

/-- A job has an owner and a running timer, or neither. -/
theorem coupled_of_run (run : ServiceRun program output taken final)
    (registered : AllMeet Registered taken) : (job kind j final).Coupled := by
  have named : AllMeet (fun _ e => ∀ owner, e = .take owner → 0 < owner) (leases program kind j taken) := by
    intro τ member owner takes
    obtain ⟨⟨before, e, after⟩, inside, rfl⟩ := List.mem_map.mp member
    have concerns := leaseEvent_concerns program kind before e j
    dsimp only at takes
    rw [takes] at concerns
    cases concerns
    exact (registered _ inside).1
  apply (lease_run kind j .nil run).invariant named
  · rw [job_start]
    exact Lease.coupled_unowned
  · intro lease e next coupled named moved
    exact coupled.step named moved

/-- The number of jobs of a phase. -/
def jobs (program : Program) : JobKind → Nat
  | .map => program.files.length
  | .reduce => program.nReduce

theorem jobs_of_run (kind : JobKind) (run : ServiceRun program output taken final) :
    (final.coordinator.board kind).jobs = jobs program kind := by
  induction run with
  | nil => cases kind <;> rfl
  | snoc run moved ih => exact (board_moves (sound_of_run kind run) moved).jobs.trans ih

theorem phaseDone_iff (sound : (s.coordinator.board kind).Sound) :
    s.coordinator.phaseDone kind = true ↔
      ∀ j < (s.coordinator.board kind).jobs, (job kind j s).closed = true := by
  rw [← sound.chunkCount]
  cases kind with
  | map => exact Coordinator.mapper_isDone_iff
  | reduce => exact Coordinator.reducer_isDone_iff

theorem leaseEvent_reduce_ne_revoke : leaseEvent program .reduce s e j ≠ .revoke := by
  intro revokes
  have concerns := leaseEvent_concerns program .reduce s e j
  rw [revokes] at concerns
  cases concerns with
  | revoked _ isMap => cases isMap

theorem serverHandler_isDone (c : Coordinator) :
    c.serverHandler.isDone = (c.isDone || (c.phaseDone .map && c.phaseDone .reduce)) := by
  simp only [Coordinator.serverHandler, Coordinator.phaseDone]
  cases c.mapper.isDone <;> cases c.reducer.isDone <;> simp [Coordinator.updateMapper, Coordinator.updateReducer]

/-- `IsDone` is set by `serverHandler` only. -/
theorem isDone_step (moved : s.step program e = some t) :
    t.coordinator.isDone = s.coordinator.isDone ∨ e = .tick := by
  cases step_effect moved with
  | doSetup | workerDead => exact .inl rfl
  | @getWork workerId order =>
    left
    have effect := s.coordinator.getWork_effect program.content order workerId
    dsimp only
    generalize s.coordinator.getWork program.content order workerId = handled at effect ⊢
    cases effect <;> rfl
  | @workDone complete => exact .inl (s.coordinator.workDone_static complete).2.2.2.1
  | tick => exact .inr rfl

/-- Once `IsDone` is set all reduce jobs are and stay completed. -/
theorem reduced_of_done (run : ServiceRun program output taken final)
    (done : final.coordinator.isDone = true) (inside : j < jobs program .reduce) :
    (job .reduce j final).closed = true := by
  induction run with
  | nil => cases done
  | @snoc taken s t e run moved ih =>
    have sound := sound_of_run .reduce run
    have stepped := (board_moves sound moved).lease sound j
    apply Lease.closed_step leaseEvent_reduce_ne_revoke stepped
    obtain same | rfl := isDone_step moved
    · exact ih (same ▸ done)
    · cases moved
      rw [serverHandler_isDone, Bool.or_eq_true, Bool.and_eq_true] at done
      obtain before | ⟨_, reduced⟩ := done
      · exact ih before
      · exact (phaseDone_iff sound).mp reduced j (jobs_of_run .reduce run ▸ inside)

/-! ## Ticks -/

theorem not_both_done (sound : (s.coordinator.board kind).Sound)
    (inside : j < (s.coordinator.board kind).jobs) (open_ : (job kind j s).closed = false) :
    (s.coordinator.phaseDone .map && s.coordinator.phaseDone .reduce) = false := by
  by_contra both
  simp only [Bool.not_eq_false, Bool.and_eq_true] at both
  have done : s.coordinator.phaseDone kind = true := by
    cases kind with
    | map => exact both.1
    | reduce => exact both.2
  rw [(phaseDone_iff sound).mp done j inside] at open_
  cases open_

/-- While only the timer runs, a job that is not completed keeps its phase going. -/
theorem after_ticks {waits : List (Taken Service Event)} (run : ServiceRun program output taken s)
    (onward : Run (step program) s waits t) (ticks : AllMeet (fun _ e => e = .tick) waits)
    (inside : j < jobs program kind) (running : s.coordinator.isDone = false)
    (phase : s.coordinator.inPhase kind = true) (open_ : (job kind j s).closed = false) :
    t.coordinator.isDone = false ∧ t.coordinator.inPhase kind = true ∧
      job kind j t = Lease.tick^[waits.length] (job kind j s) := by
  induction onward with
  | nil => exact ⟨running, phase, rfl⟩
  | @snoc waits m t e through moved ih =>
    obtain ⟨runs, inPhase, timed⟩ := ih ticks.earlier
    obtain rfl : e = .tick := ticks.last
    have reached := run.append through
    have sound := sound_of_run kind reached
    have stepped := (board_moves sound moved).lease sound j
    simp only [leaseEvent, inPhase, if_true, Lease.step, Option.some.injEq] at stepped
    cases moved
    refine ⟨?_, ?_, ?_⟩
    · -- `serverHandler` sets `IsDone` only when no job is open
      have notBoth := not_both_done sound (j := j) (jobs_of_run kind reached ▸ inside)
        (by rw [timed, Lease.tick_iterate_closed, open_])
      rw [serverHandler_isDone, runs, notBoth]
      rfl
    · have frame := m.coordinator.serverHandler_frame.1
      cases kind <;> simp only [Coordinator.inPhase, frame] at inPhase ⊢ <;> exact inPhase
    · rw [List.length_append, List.length_singleton, Function.iterate_succ_apply', ← timed]
      exact stepped.symm

/-! ## Calls -/

theorem handMap_isDone (c : Coordinator) (content : String → Bytes) (j workerId : Nat) :
    (c.handMap content j workerId).mapper.isDone = c.mapper.isDone := by
  rw [Bool.eq_iff_iff, Coordinator.mapper_isDone_iff, Coordinator.mapper_isDone_iff]
  have count : (c.handMap content j workerId).mapper.completedMappers.length =
      c.mapper.completedMappers.length := by simp [Coordinator.handMap, Coordinator.assignMap]
  rw [count]
  apply forall₂_congr
  intro i _
  rw [Coordinator.mapChunk_handMap]
  split <;> rfl

/-- What a call does while the phase has an available job. -/
theorem getWork_hand (program : Program) {i : Nat} (running : s.coordinator.isDone = false)
    (phase : s.coordinator.inPhase kind = true) (next : (s.coordinator.board kind).next = some i)
    (workerId : Nat) (order : List Nat) :
    handedTo program kind i s (.getWork workerId order) = some workerId ∧
      (s.coordinator.getWork program.content order workerId).1.board kind =
        (s.coordinator.board kind).hand i workerId ∧
      (s.coordinator.getWork program.content order workerId).1.isDone = false ∧
      (s.coordinator.getWork program.content order workerId).1.inPhase kind = true := by
  cases kind with
  | map =>
    have unfinished : s.coordinator.mapper.isDone = false := by simpa [Coordinator.inPhase] using phase
    have handed := Coordinator.getWork_map running program.content order workerId unfinished next
    simp only [handedTo, handed]
    refine ⟨by simp [Coordinator.assignMap, JobKind.method], rfl, running, ?_⟩
    simp only [Coordinator.inPhase, handMap_isDone, unfinished]
    rfl
  | reduce =>
    have handed := Coordinator.getWork_reduce running program.content order workerId phase next
    simp only [handedTo, handed]
    exact ⟨by simp [Coordinator.assignReduce, JobKind.method], rfl, running, phase⟩

/-- The job waits to be handed out. -/
structure Awaiting (kind : JobKind) (j : Nat) (s : Service) : Prop where
  sound : (s.coordinator.board kind).Sound
  running : s.coordinator.isDone = false
  phase : s.coordinator.inPhase kind = true
  waits : j ∈ (s.coordinator.board kind).waiting

/-- A call hands out the job, or one less is before it. -/
theorem Awaiting.call (awaiting : Awaiting kind j s) {workerId : Nat} {order : List Nat}
    (moved : s.step program (.getWork workerId order) = some t) :
    (handedTo program kind j s (.getWork workerId order)).isSome = true ∨
      Awaiting kind j t ∧
        (t.coordinator.board kind).waiting.card < (s.coordinator.board kind).waiting.card := by
  obtain ⟨inside, available⟩ := Board.mem_waiting.mp awaiting.waits
  obtain ⟨i, next⟩ := awaiting.sound.exists_next inside available
  obtain ⟨handed, board, running, phase⟩ :=
    getWork_hand program awaiting.running awaiting.phase next workerId order
  -- The call hands out the next available job, which is this one or stands before it.
  by_cases same : i = j
  · left
    rw [same] at handed
    rw [handed]
    rfl
  · right
    cases step_effect moved
    have fewer := awaiting.sound.waiting_hand next workerId
    rw [← board] at fewer
    have nextWaits := Board.mem_waiting.mpr (awaiting.sound.next next)
    constructor
    · refine ⟨?_, running, phase, ?_⟩
      · dsimp only
        rw [board]
        exact awaiting.sound.hand next workerId
      · dsimp only
        rw [fewer, Finset.mem_erase]
        exact ⟨Ne.symm same, awaiting.waits⟩
    · dsimp only
      rw [fewer]
      exact Finset.card_erase_lt_of_mem nextWaits

def isCall : Event → Bool
  | .getWork _ _ => true
  | _ => false

/-- After the ticks, as many calls as the phase has jobs hand out the job. -/
theorem handed_after_ticks {waits calls : List (Taken Service Event)}
    (run : ServiceRun program output taken s) (registered : AllMeet Registered taken)
    (onward : Run (step program) s (waits ++ calls) final)
    (ticks : AllMeet (fun _ e => e = .tick) waits) (enough : waits.length = timeout)
    (asks : AllMeet (fun _ e => isCall e = true) calls) (inside : j < jobs program kind)
    (running : s.coordinator.isDone = false) (phase : s.coordinator.inPhase kind = true)
    (open_ : (job kind j s).closed = false) (count : calls.length = jobs program kind) :
    ∃ τ ∈ calls, (handedTo program kind j τ.before τ.event).isSome = true := by
  obtain ⟨middle, through, called⟩ := onward.split
  obtain ⟨runs, inPhase, timed⟩ := after_ticks run through ticks inside running phase open_
  have reached := run.append through
  have available : (job kind j middle).available timeout = true := by
    rw [timed]
    exact Lease.available_of_ticks (coupled_of_run run registered) open_ (le_of_eq enough.symm)
  have awaiting : Awaiting kind j middle :=
    ⟨sound_of_run kind reached, runs, inPhase,
      Board.mem_waiting.mpr ⟨jobs_of_run kind reached ▸ inside, available⟩⟩
  apply called.served (fun s e => (handedTo program kind j s e).isSome = true)
    (fun s => (s.coordinator.board kind).waiting.card) asks awaiting
  · exact fun s waits => Finset.card_pos.mpr ⟨j, waits.waits⟩
  · intro s e t waits isCall moved
    cases e with
    | getWork workerId order => exact waits.call moved
    | _ => cases isCall
  · rw [count, ← jobs_of_run kind reached]
    exact Board.card_waiting_le _

/-- A map job that is not completed is handed out within `numFiles` calls after `TIMEOUT` ticks, and
once all map jobs are completed a reduce job that is not is handed out within `Nreduce` calls. -/
theorem no_stranded_job {waits calls : List (Taken Service Event)}
    (run : ServiceRun program output taken s) (registered : AllMeet Registered taken)
    (onward : Run (step program) s (waits ++ calls) final)
    (ticks : AllMeet (fun _ e => e = .tick) waits) (enough : waits.length = timeout)
    (asks : AllMeet (fun s e => isCall e = true ∧ Registered s e) calls) :
    (∀ j < program.files.length, (s.coordinator.mapChunk j).completed = false →
      s.coordinator.isDone = false → calls.length = program.files.length →
      ∃ τ ∈ calls, (handedTo program .map j τ.before τ.event).isSome = true) ∧
    (∀ r < program.nReduce, s.coordinator.mapper.isDone = true →
      (s.coordinator.reduceChunk r).completed = false → calls.length = program.nReduce →
      ∃ τ ∈ calls, (handedTo program .reduce r τ.before τ.event).isSome = true) := by
  have areCalls : AllMeet (fun _ e => isCall e = true) calls := fun τ member => (asks τ member).1
  constructor
  · intro j inside open_ running count
    -- an open map job keeps the map phase going
    have phase : s.coordinator.inPhase .map = true := by
      by_contra done
      have sound := sound_of_run .map run
      have mapped : s.coordinator.phaseDone .map = true := by
        simpa [Coordinator.inPhase, Coordinator.phaseDone] using done
      have completed := (phaseDone_iff sound).mp mapped j (jobs_of_run .map run ▸ inside)
      rw [show (job .map j s).closed = false from open_] at completed
      cases completed
    exact handed_after_ticks run registered onward ticks enough areCalls inside running phase open_ count
  · intro r inside mapped open_ count
    have running : s.coordinator.isDone = false := by
      by_contra done
      have completed := reduced_of_done run (by simpa using done) inside
      rw [show (job .reduce r s).closed = false from open_] at completed
      cases completed
    exact handed_after_ticks run registered onward ticks enough areCalls inside running mapped open_ count

/-- Worker 1 gets the first of two map jobs and is not heard of again. -/
def silentWorker : List Event := [.doSetup "a", .doSetup "b", .getWork 1 []]

/-- Two calls of worker 2. -/
def secondWorker : List Event := [.getWork 2 [1], .getWork 2 [1, 2]]

def silence : Service := outcome (step twoFiles) (start twoFiles .empty) silentWorker

def silenceTimedOut : Service := outcome (step twoFiles) silence (List.replicate 10 .tick)

/-- Worker 2 gets the second job, and then the first. -/
theorem first_job_handed_out_again :
    ∃ τ ∈ trace (step twoFiles) silenceTimedOut secondWorker,
      (handedTo twoFiles .map 0 τ.before τ.event).isSome = true :=
  (no_stranded_job (run_trace _ _ silentWorker) (by decide)
    ((run_trace _ silence (List.replicate 10 .tick)).append (run_trace _ silenceTimedOut secondWorker))
    (by decide) (by decide) (by decide)).1 0 (by decide) (by decide) (by decide) (by decide)

end Tda596Labs.MapReduce.Service
