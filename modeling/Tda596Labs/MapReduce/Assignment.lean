import Tda596Labs.MapReduce.Service

/-! # When a job is handed out

What the coordinator promises about the replies of `GetWork`, over all runs: a job is not handed out
again before `TIMEOUT` ticks have passed or its worker was reported dead, and, if reports come in time,
a completed job is not handed out.  Each job is looked at as a lease.
-/

namespace Tda596Labs.MapReduce.Service

open Transition

variable {program : Program} {output : Directory Bytes} {s t : Service} {e : Event} {kind : JobKind}
  {j workerId : Nat} {taken : List (Taken Service Event)} {final : Service}

/-! ## The events of one job -/

theorem eq_tick_of_leaseEvent (ticks : leaseEvent program kind s e j = .tick) : e = .tick := by
  have concerns := leaseEvent_concerns program kind s e j
  rw [ticks] at concerns
  cases concerns
  rfl

/-- A job is taken from its worker when it is handed out, or by a `WorkerDead`. -/
theorem handed_or_dead (lost : (leaseEvent program kind s e j).keeps = false) :
    (∃ workerId, handedTo program kind j s e = some workerId) ∨
      ∃ workerId jobId, e = .workerDead workerId jobId ∧
        (kind = .map → (job kind j s).owner = workerId) ∧ (kind = .reduce → jobId = j) := by
  have concerns := leaseEvent_concerns program kind s e j
  generalize leaseEvent program kind s e j = event at concerns lost
  cases concerns with
  | handed hands => exact .inl ⟨_, hands⟩
  | revoked jobId isMap owner => exact .inr ⟨_, jobId, rfl, fun _ => owner, by simp [isMap]⟩
  | released workerId isReduce => exact .inr ⟨workerId, j, rfl, by simp [isReduce], fun _ => rfl⟩
  | reported | timed | other => cases lost

/-- A job that is handed out was available, and has a new owner and a new timer. -/
theorem handed_lease (run : ServiceRun program output taken s) (moved : s.step program e = some t)
    (handed : handedTo program kind j s e = some workerId) :
    (job kind j s).available timeout = true ∧ job kind j t = ⟨workerId, 1, (job kind j s).closed⟩ := by
  have sound := sound_of_run kind run
  have stepped := (board_moves sound moved).lease sound j
  rw [leaseEvent_of_handedTo handed] at stepped
  exact Lease.take_eq_some stepped

/-! ## Reassignment -/

def ticks (taken : List (Taken Service Event)) : Nat := taken.countP fun τ => τ.event = .tick

/-- `first` hands a job to `workerId`, and `second` is the next transition that hands it out. -/
structure Successive (program : Program) (kind : JobKind) (j : Nat) (taken : List (Taken Service Event))
    (workerId : Nat) (between : List (Taken Service Event)) : Prop where
  split : ∃ earlier first second later, taken = earlier ++ first :: (between ++ second :: later) ∧
    handedTo program kind j first.before first.event = some workerId ∧
    (handedTo program kind j second.before second.event).isSome = true
  none : ∀ τ ∈ between, handedTo program kind j τ.before τ.event = none

/-- The history of a job as a lease. -/
def leases (program : Program) (kind : JobKind) (j : Nat) (taken : List (Taken Service Event)) :
    List (Taken Lease Lease.Event) :=
  taken.map fun τ =>
    ⟨job kind j τ.before, leaseEvent program kind τ.before τ.event j, job kind j τ.after⟩

theorem ticks_leases_le (taken : List (Taken Service Event)) :
    Lease.ticks (leases program kind j taken) ≤ ticks taken := by
  simp only [Lease.ticks, leases, List.countP_map, ticks]
  apply List.countP_mono_left
  intro τ _ isTick
  simp only [Function.comp_apply, decide_eq_true_eq] at isTick ⊢
  exact eq_tick_of_leaseEvent isTick

/-- Between two hand-outs of a job its lease goes from one owner until it is available again. -/
theorem Successive.lease {between : List (Taken Service Event)}
    (successive : Successive program kind j taken workerId between)
    (run : ServiceRun program output taken final) (registered : AllMeet Registered taken) :
    0 < workerId ∧ ∃ a b, Run (Lease.step timeout) a (leases program kind j between) b ∧
      a.owner = workerId ∧ a.timer = 1 ∧ b.available timeout = true := by
  obtain ⟨earlier, first, second, later, rfl, handed, again⟩ := successive.split
  obtain ⟨next, handedNext⟩ := Option.isSome_iff_exists.mp again
  -- Cut the run before and after each of the two hand-outs.
  obtain ⟨start, before, rest⟩ := run.split
  obtain ⟨rfl, moved, rest⟩ := rest.uncons
  obtain ⟨finish, through, last⟩ := rest.split
  obtain ⟨rfl, movedNext, _⟩ := last.uncons
  have reached : ServiceRun program output (earlier ++ [first]) first.after := before.snoc moved
  have retaken := (handed_lease (reached.append through) movedNext handedNext).1
  have fresh := (handed_lease before moved handed).2
  constructor
  · obtain ⟨order, isCall⟩ := getWork_of_handedTo handed
    have meets := registered first (by simp)
    rw [isCall] at meets
    exact meets.1
  · refine ⟨_, _, lease_run kind j reached through, ?_, ?_, retaken⟩
    · rw [fresh]
    · rw [fresh]

/-- Every job is completed within nine ticks of being handed out: a stretch of the run that follows a
hand-out and has `TIMEOUT` ticks has a `WorkDone` for the job. -/
def CompletedInTime (program : Program) (kind : JobKind) (j : Nat) (taken : List (Taken Service Event)) :
    Prop :=
  ∀ earlier first between later, taken = earlier ++ first :: (between ++ later) →
    (handedTo program kind j first.before first.event).isSome = true → timeout ≤ ticks between →
    ∃ τ ∈ between, ∃ complete created, τ.event = .workDone complete created ∧
      complete.workType = kind.method ∧ complete.jobId = j

theorem dead_of_successive {between : List (Taken Service Event)}
    (successive : Successive program kind j taken workerId between)
    (run : ServiceRun program output taken final) (registered : AllMeet Registered taken) :
    timeout ≤ ticks between ∨ ∃ τ ∈ between, ∃ worker jobId, τ.event = .workerDead worker jobId ∧
      (kind = .map → worker = workerId) ∧ (kind = .reduce → jobId = j) := by
  obtain ⟨positive, a, b, leased, owner, fresh, again⟩ := successive.lease run registered
  obtain late | ⟨τ, member, lost, same⟩ := Lease.limit_le_ticks leased (owner ▸ positive) fresh again
  · exact .inl (late.trans (ticks_leases_le between))
  · right
    obtain ⟨τ, inside, rfl⟩ := List.mem_map.mp member
    obtain ⟨other, handed⟩ | ⟨worker, jobId, isDead, ofMap, ofReduce⟩ := handed_or_dead lost
    · rw [successive.none τ inside] at handed
      cases handed
    · refine ⟨τ, inside, worker, jobId, isDead, fun isMap => ?_, ofReduce⟩
      rw [← ofMap isMap, ← owner]
      exact same

theorem handed_once (run : ServiceRun program output taken final)
    (registered : AllMeet Registered taken)
    (alive : ∀ τ ∈ taken, ∀ worker jobId, τ.event ≠ .workerDead worker jobId)
    (inTime : CompletedInTime program kind j taken) :
    (taken.countP fun τ => (handedTo program kind j τ.before τ.event).isSome) ≤ 1 := by
  by_contra twice
  obtain ⟨earlier, first, between, second, later, split, handed, again, none_⟩ :=
    exists_successive (not_le.mp twice)
  obtain ⟨worker, handedFirst⟩ := Option.isSome_iff_exists.mp handed
  have successive : Successive program kind j taken worker between :=
    ⟨⟨earlier, first, second, later, split, handedFirst, again⟩, by simpa using none_⟩
  obtain ⟨positive, a, b, leased, owner, fresh, available⟩ := successive.lease run registered
  have keeps : AllMeet (fun _ e => e.keeps = true) (leases program kind j between) := by
    intro τ member
    obtain ⟨τ, inside, rfl⟩ := List.mem_map.mp member
    by_contra lost
    obtain ⟨other, handed⟩ | ⟨worker, jobId, isDead, _⟩ := handed_or_dead (by simpa using lost)
    · rw [successive.none τ inside] at handed
      cases handed
    · exact alive τ (by simp [split, inside]) worker jobId isDead
  -- A report closes the lease in time, so its timer never passes the limit.
  have bound := (Lease.timer_le_limit leased fresh (by decide) keeps fun before after whole late => by
    obtain ⟨before, after, rfl, rfl, rfl⟩ := List.map_eq_append_iff.mp whole
    obtain ⟨τ, member, complete, created, isDone, isKind, isJob⟩ :=
      inTime earlier first before (after ++ second :: later) (by simp [split]) handed
        (late.trans (ticks_leases_le before))
    refine ⟨_, List.mem_map.mpr ⟨τ, member, rfl⟩, ?_⟩
    simp [isDone, leaseEvent, isKind, isJob]).1
  have sameOwner := (Lease.timer_le_ticks leased keeps).1
  obtain late | ⟨nobody, _⟩ := Lease.available_iff.mp available
  · omega
  · omega

/-- Between two successive replies that hand out one map job there are `TIMEOUT` ticks or a
`WorkerDead` that names the worker of the first; between two that hand out one reduce job there are
`TIMEOUT` ticks or a `WorkerDead` with that job.  So without `WorkerDead`, and with every job completed
within nine ticks, every job is handed out at most once. -/
theorem no_premature_reassignment (run : ServiceRun program output taken final)
    (registered : AllMeet Registered taken) :
    (∀ j workerId between, Successive program .map j taken workerId between →
      timeout ≤ ticks between ∨ ∃ τ ∈ between, ∃ jobId, τ.event = .workerDead workerId jobId) ∧
    (∀ r workerId between, Successive program .reduce r taken workerId between →
      timeout ≤ ticks between ∨ ∃ τ ∈ between, ∃ worker, τ.event = .workerDead worker r) ∧
    ((∀ τ ∈ taken, ∀ worker jobId, τ.event ≠ .workerDead worker jobId) →
      (∀ kind j, CompletedInTime program kind j taken) →
      ∀ kind j, (taken.countP fun τ => (handedTo program kind j τ.before τ.event).isSome) ≤ 1) := by
  refine ⟨fun j workerId between successive => ?_, fun r workerId between successive => ?_,
    fun alive inTime kind j => handed_once run registered alive (inTime kind j)⟩
  · obtain late | ⟨τ, member, worker, jobId, isDead, named, _⟩ := dead_of_successive successive run registered
    · exact .inl late
    · exact .inr ⟨τ, member, jobId, named rfl ▸ isDead⟩
  · obtain late | ⟨τ, member, worker, jobId, isDead, _, named⟩ := dead_of_successive successive run registered
    · exact .inl late
    · exact .inr ⟨τ, member, worker, named rfl ▸ isDead⟩

/-- One map job, one reduce job, and a file without content. -/
def smallProgram : Program where
  files := ["f"]
  nReduce := 1
  content := fun _ => []
  mapf := fun _ _ => []
  reducef := fun _ _ => []
  encode := fun _ => []
  decode := fun _ => []

/-- Worker 1 is slow with the map job, and worker 2 gets it after ten ticks. -/
def slowWorker : List Event :=
  [.doSetup "a", .doSetup "b", .getWork 1 []] ++ List.replicate 10 .tick ++ [.getWork 2 [1]]

theorem reassigned_after_timeout :
    ((trace (step smallProgram) (start smallProgram .empty) slowWorker).countP fun τ =>
      (handedTo smallProgram .map 0 τ.before τ.event).isSome) = 2 ∧
    ∀ between, Successive smallProgram .map 0
        (trace (step smallProgram) (start smallProgram .empty) slowWorker) 1 between →
      timeout ≤ ticks between ∨ ∃ τ ∈ between, ∃ jobId, τ.event = .workerDead 1 jobId :=
  ⟨by decide, (no_premature_reassignment (run_trace _ _ slowWorker) (by decide)).1 0 1⟩

/-! ## Completed jobs -/

/-- A job is reported done only while it could not be handed out, and a `WorkerDead` names a reduce job
that is not completed. -/
def prompt (s : Service) : Event → Bool
  | .workDone complete _ =>
    match complete.workType with
    | .map => !Coordinator.needsRetry s.coordinator.mapper.completedMappers s.coordinator.mapperTimeout
        complete.jobId
    | .reduce => !Coordinator.needsRetry s.coordinator.reducer.completedReducers
        s.coordinator.reducerTimeout complete.jobId
    | _ => true
  | .workerDead _ jobId => !(s.coordinator.reduceChunk jobId).completed
  | _ => true

theorem prompt_lease (inTime : prompt s e = true) (kind : JobKind) (j : Nat) :
    (job kind j s).prompt timeout (leaseEvent program kind s e j) = true := by
  have concerns := leaseEvent_concerns program kind s e j
  generalize leaseEvent program kind s e j = event at concerns ⊢
  cases concerns with
  | reported created isKind isJob =>
    subst isJob
    cases kind <;> simp only [prompt, isKind, JobKind.method] at inTime <;> exact inTime
  | released workerId isReduce =>
    subst isReduce
    exact inTime
  | handed | revoked | timed | other => rfl

/-- In a run with prompt reports a completed job is not available. -/
theorem settled_of_run (run : ServiceRun program output taken final)
    (inTime : AllMeet (fun s e => prompt s e = true) taken) :
    (job kind j final).Settled timeout := by
  have inTime' : AllMeet (fun lease e => lease.prompt timeout e = true) (leases program kind j taken) := by
    intro τ member
    obtain ⟨τ, inside, rfl⟩ := List.mem_map.mp member
    exact prompt_lease (inTime τ inside) kind j
  apply (lease_run kind j .nil run).invariant inTime'
  · rw [job_start]
    exact nofun
  · intro lease e next settled isPrompt moved
    exact settled.step (by decide) isPrompt moved

/-- In a run with prompt reports no reply hands out a completed job. -/
theorem completed_not_handed_out (run : ServiceRun program output taken final)
    (inTime : AllMeet (fun s e => prompt s e = true) taken) :
    ∀ τ ∈ taken, ∀ j,
      ((handedTo program .map j τ.before τ.event).isSome = true →
        (τ.before.coordinator.mapChunk j).completed = false) ∧
      ((handedTo program .reduce j τ.before τ.event).isSome = true →
        (τ.before.coordinator.reduceChunk j).completed = false) := by
  intro τ member j
  obtain ⟨moved, earlier, later, rfl, reached⟩ := run.taken_step member
  have open_ : ∀ kind, (handedTo program kind j τ.before τ.event).isSome = true →
      (job kind j τ.before).closed = false := by
    intro kind handed
    obtain ⟨worker, handedTo⟩ := Option.isSome_iff_exists.mp handed
    have available := (handed_lease reached moved handedTo).1
    by_contra closed
    rw [settled_of_run reached inTime.earlier (by simpa using closed)] at available
    cases available
  exact ⟨open_ .map, open_ .reduce⟩

/-- Worker 1 reports its map job before the time is over, and gets the reduce job. -/
def promptReport : List Event :=
  [.doSetup "a", .getWork 1 [], .tick, .workDone ⟨.map, 0, [], 1⟩ true, .getWork 1 [1]]

theorem handed_out_after_prompt_report :
    (handedTo smallProgram .reduce 0
      (outcome (step smallProgram) (start smallProgram .empty) promptReport.dropLast)
      (.getWork 1 [1])).isSome = true ∧
    ∀ τ ∈ trace (step smallProgram) (start smallProgram .empty) promptReport, ∀ j,
      ((handedTo smallProgram .map j τ.before τ.event).isSome = true →
        (τ.before.coordinator.mapChunk j).completed = false) ∧
      ((handedTo smallProgram .reduce j τ.before τ.event).isSome = true →
        (τ.before.coordinator.reduceChunk j).completed = false) :=
  ⟨by decide, completed_not_handed_out (run_trace _ _ promptReport) (by decide)⟩

/-- Two map jobs. -/
def twoFiles : Program := { smallProgram with files := ["f", "g"] }

/-- Worker 1 gets both map jobs, reports the first one after ten ticks, and asks again. -/
def lateReport : List Event :=
  [.doSetup "a", .getWork 1 [], .getWork 1 [1]] ++ List.replicate 10 .tick ++
    [.workDone ⟨.map, 0, [], 1⟩ true]

/-- The first map job is completed, and the next reply hands it out again. -/
theorem completed_handed_out_after_late_report : ∃ taken final,
    ServiceRun twoFiles .empty taken final ∧
      (final.coordinator.mapChunk 0).completed = true ∧
      (step twoFiles final (.getWork 1 [1])).isSome = true ∧
      handedTo twoFiles .map 0 final (.getWork 1 [1]) = some 1 :=
  ⟨_, _, run_trace _ _ lateReport, by decide, by decide, by decide⟩

end Tda596Labs.MapReduce.Service
