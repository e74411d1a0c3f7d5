import Tda596Labs.Lib.Pool
import Tda596Labs.MapReduce.System

/-! # Who holds the output of a map job

A reduce job reads the buckets of the workers in `mapWorkerIds`.  For its result to be right every map
job must have one of them that has finished it, and no map job may have two.  The coordinator keeps
neither by itself: `WorkDone` ignores who reports, a re-assignment rewrites the recorded owner, and
`mapWorkerIds` only shrinks when a worker is reported dead.  Where every job is reported by its recorded
owner and no completed job is re-assigned, the recorded owner is a holder.
-/

namespace Tda596Labs.MapReduce

open Tda596Labs.Transition

/-! ## Finished map jobs -/

namespace System

/-- The worker with this id has finished `DoMap` for the map job. -/
def Holder (s : System) (workerId j : Nat) : Prop :=
  ∃ worker ∈ s.workers, worker.workerId = workerId ∧ worker.holds j = true

instance (s : System) (workerId j : Nat) : Decidable (s.Holder workerId j) :=
  inferInstanceAs (Decidable (∃ worker ∈ s.workers, worker.workerId = workerId ∧ worker.holds j = true))

end System

/-- The map job that a worker is working on. -/
def Phase.mapJob : Phase → Option Nat
  | .mapping reply _ => some reply.jobId
  | _ => none

/-- The `REDUCE` reply that a worker is working on. -/
def Phase.reduceReply : Phase → Option WorkReply
  | .reducing reply _ _ => some reply
  | _ => none

/-- The map jobs that a worker has finished or is working on. -/
def WorkerProcess.jobs (worker : WorkerProcess) : List Nat :=
  (List.range worker.completedMapTasks.length).filter worker.holds ++ worker.phase.mapJob.toList

theorem WorkerProcess.mem_jobs {worker : WorkerProcess} {j : Nat} :
    j ∈ worker.jobs ↔ worker.holds j = true ∨ worker.phase.mapJob = some j := by
  have inside : worker.holds j = true → j < worker.completedMapTasks.length := by
    intro holds
    by_contra outside
    rw [WorkerProcess.holds, List.getD_eq_default _ _ (not_lt.mp outside)] at holds
    cases holds
  simp only [jobs, List.mem_append, List.mem_filter, List.mem_range, Option.mem_toList]
  constructor
  · intro either
    exact either.imp_left And.right
  · intro either
    exact either.imp_left fun holds => ⟨inside holds, holds⟩

theorem WorkerProcess.jobs_subset {worker worker' : WorkerProcess}
    (holds : ∀ j, worker'.holds j = true → worker.holds j = true)
    (working : ∀ j, worker'.phase.mapJob = some j → worker.phase.mapJob = some j) :
    ∀ j ∈ worker'.jobs, j ∈ worker.jobs := by
  intro j member
  exact mem_jobs.mpr ((mem_jobs.mp member).imp (holds j) (working j))

theorem accept_holds (worker : WorkerProcess) (reply : WorkReply) (j : Nat) :
    (worker.accept reply).holds j = worker.holds j := by
  unfold WorkerProcess.accept
  split <;> rfl

theorem callDone_map_holds {worker : WorkerProcess} {jobId j : Nat} :
    (worker.callDone .map jobId).holds j =
      (worker.holds j || decide (j = jobId ∧ jobId < worker.completedMapTasks.length)) := by
  simp only [WorkerProcess.callDone, WorkerProcess.holds, List.getD_eq_getElem?_getD, List.getElem?_set]
  by_cases same : jobId = j
  · by_cases inside : jobId < worker.completedMapTasks.length
    · simp [same, same ▸ inside]
    · simp [same, same ▸ inside]
  · simp [same, Ne.symm same]

namespace System

variable {program : Program} {s t : System} {e : Event}

theorem Holder.set {workerId j k : Nat} {worker worker' : WorkerProcess}
    (holder : s.Holder workerId j) (found : s.workers[k]? = some worker)
    (workers : t.workers = s.workers.set k worker') (identity : worker'.workerId = worker.workerId)
    (keeps : worker.holds j = true → worker'.holds j = true) : t.Holder workerId j := by
  rw [Holder, workers]
  refine Pool.exists_set found (fun ⟨same, holds⟩ => ?_) holder
  exact ⟨identity.trans same, keeps holds⟩

/-- A finished map job stays finished. -/
theorem Holder.step {workerId j : Nat} (holder : s.Holder workerId j) (effect : Effect program s e t) :
    t.Holder workerId j := by
  cases effect with
  | setup =>
    obtain ⟨worker, member, same, holds⟩ := holder
    exact ⟨worker, List.mem_append_left _ member, same, holds⟩
  | getWork found =>
    refine holder.set found rfl (accept_workerId _ _).1 fun holds => ?_
    rw [accept_holds]
    exact holds
  | writeBucket found => exact holder.set found rfl rfl id
  | finishMap found =>
    refine holder.set found rfl (callDone_workerId _ _ _).1 fun holds => ?_
    simp [callDone_map_holds, holds]
  | fetched found => exact holder.set found rfl rfl id
  | fetchFailed found => exact holder.set found rfl rfl id
  | finishReduce found => exact holder.set found rfl rfl id
  | reportDead found => exact holder.set found rfl rfl id
  | enter _ found => exact holder.set found rfl rfl id
  | workDone => exact holder
  | tick => exact holder

/-! ## No output is lost -/

/-- The reply that a step sends. -/
def replyOf (program : Program) (s : System) : Event → Option WorkReply
  | .getWork k order => (s.workers[k]?).map fun worker =>
      (s.coordinator.getWork program.content order worker.workerId).2
  | _ => none

/-- A `REDUCE` reply lists, for every map job, a worker that has finished it. -/
def ListsHolders (program : Program) (s : System) (e : Event) : Prop :=
  ∀ reply ∈ replyOf program s e, reply.workType = .reduce →
    ∀ j < program.files.length, ∃ location ∈ reply.reduceFileLocations, s.Holder location.workerId j

instance (program : Program) (s : System) (e : Event) : Decidable (ListsHolders program s e) :=
  inferInstanceAs (Decidable (∀ reply ∈ replyOf program s e, reply.workType = .reduce →
    ∀ j < program.files.length, ∃ location ∈ reply.reduceFileLocations, s.Holder location.workerId j))

/-- The map job that the next `GetWork` call hands out. -/
def handsOut (c : Coordinator) : Option Nat :=
  if c.isDone = false ∧ c.mapper.isDone = false then c.nextMapJob else none

/-- What the coordinator relies on and does not check: a map job that is still open is reported by its
recorded owner, and a completed one is not handed out again. -/
def FromOwner (s : System) : Event → Prop
  | .workDone i _ => ∀ complete ∈ s.inflight[i]?, complete.workType = .map →
      (s.coordinator.mapChunk complete.jobId).completed = true ∨
        (s.coordinator.mapChunk complete.jobId).workerId = complete.workerId
  | .getWork _ _ => ∀ j ∈ handsOut s.coordinator, (s.coordinator.mapChunk j).completed = false
  | _ => True

instance decidableFromOwner (s : System) (e : Event) : Decidable (FromOwner s e) :=
  match e with
  | .workDone i _ => inferInstanceAs (Decidable (∀ complete ∈ s.inflight[i]?, _ → _ ∨ _))
  | .getWork _ _ => inferInstanceAs (Decidable (∀ j ∈ handsOut s.coordinator, _))
  | .setup _ | .writeBucket _ | .finishMap _ | .fetch _ _ | .finishReduce _ _ | .reportDead _
  | .callReturns _ | .tick | .crash _ => inferInstanceAs (Decidable True)

/-- A `WorkDone` for a map job is sent only by a worker that has finished the job. -/
structure ReportInv (program : Program) (s : System) : Prop where
  registered : Registered s
  numFiles : s.coordinator.mapper.numFiles = program.files.length
  tasks : ∀ worker ∈ s.workers, worker.completedMapTasks.length = program.files.length
  reports : ∀ complete ∈ s.inflight, complete.workType = .map → complete.jobId < program.files.length →
    s.Holder complete.workerId complete.jobId

theorem reportInv_init (program : Program) : ReportInv program (init program) where
  registered := registered_init program
  numFiles := rfl
  tasks := by simp [init]
  reports := by simp [init]

theorem Effect.numFiles (effect : Effect program s e t) :
    t.coordinator.mapper.numFiles = s.coordinator.mapper.numFiles := by
  cases effect with
  | getWork _ _ _ handled => cases handled <;> rfl
  | workDone => exact (Coordinator.workDone_static _ _).2.1
  | tick => rw [(Coordinator.serverHandler_frame _).1]
  | _ => rfl

theorem Effect.tasks (effect : Effect program s e t)
    (numFiles : s.coordinator.mapper.numFiles = program.files.length)
    (tasks : ∀ worker ∈ s.workers, worker.completedMapTasks.length = program.files.length) :
    ∀ worker ∈ t.workers, worker.completedMapTasks.length = program.files.length := by
  have changed : ∀ {k : Nat} {worker worker' : WorkerProcess}, s.workers[k]? = some worker →
      worker'.completedMapTasks.length = worker.completedMapTasks.length →
      ∀ other ∈ s.workers.set k worker', other.completedMapTasks.length = program.files.length := by
    intro k worker worker' found same
    exact Pool.forall_set tasks (same.trans (tasks worker (Pool.mem_of_found found)))
  cases effect with
  | setup =>
    intro worker member
    rw [List.mem_append, List.mem_singleton] at member
    cases member with
    | inl old => exact tasks worker old
    | inr new => simp [new, WorkerProcess.start, Coordinator.doSetup, numFiles]
  | getWork found =>
    refine changed found ?_
    unfold WorkerProcess.accept
    split <;> rfl
  | finishMap found => exact changed found List.length_set
  | writeBucket found => exact changed found rfl
  | fetched found => exact changed found rfl
  | fetchFailed found => exact changed found rfl
  | finishReduce found => exact changed found rfl
  | reportDead found => exact changed found rfl
  | enter _ found => exact changed found rfl
  | workDone => exact tasks
  | tick => exact tasks

theorem ReportInv.step (inv : ReportInv program s) (effect : Effect program s e t) :
    ReportInv program t := by
  have kept : ∀ complete ∈ s.inflight, complete.workType = .map → complete.jobId < program.files.length →
      t.Holder complete.workerId complete.jobId := by
    intro complete sent map inside
    exact (inv.reports complete sent map inside).step effect
  refine ⟨inv.registered.step effect, effect.numFiles.trans inv.numFiles,
    effect.tasks inv.numFiles inv.tasks, ?_⟩
  cases effect with
  | @finishMap k worker reply found =>
    intro complete sent map inside
    rw [List.mem_append, List.mem_singleton] at sent
    cases sent with
    | inl old => exact kept complete old map inside
    | inr new =>
      -- the report that is sent: `CallDone` has just marked the job
      subst new
      refine ⟨_, Pool.mem_set_self found _, (callDone_workerId _ _ _).1, ?_⟩
      rw [callDone_map_holds, inv.tasks worker (Pool.mem_of_found found)]
      simp [inside]
  | finishReduce =>
    intro complete sent map inside
    rw [List.mem_append, List.mem_singleton] at sent
    cases sent with
    | inl old => exact kept complete old map inside
    | inr new =>
      subst new
      cases map
  | workDone =>
    intro complete sent
    exact kept complete (List.mem_of_mem_eraseIdx sent)
  | _ => exact kept

/-- Ids start at one. -/
theorem Holder.id_ne_zero {workerId j : Nat} (holder : s.Holder workerId j) (registered : Registered s) :
    workerId ≠ 0 := by
  obtain ⟨worker, member, same, _⟩ := holder
  obtain ⟨k, found⟩ := List.mem_iff_getElem?.mp member
  rw [← same, registered.position k worker found]
  exact Nat.succ_ne_zero k

end System

/-- Every map job that is recorded for a worker is recorded for a listed one, and every completed map job
is recorded for one of its holders. -/
structure Coordinator.Owned (holder : Nat → Nat → Prop) (c : Coordinator) : Prop where
  listed : ∀ j, (c.mapChunk j).workerId ≠ 0 → (c.mapChunk j).workerId ∈ c.mapper.mapWorkerIds
  held : ∀ j, (c.mapChunk j).completed = true →
    (c.mapChunk j).workerId ≠ 0 ∧ holder (c.mapChunk j).workerId j

namespace Coordinator.Owned

variable {c c' : Coordinator} {holder holder' : Nat → Nat → Prop}

theorem mono (owned : c.Owned holder) (more : ∀ workerId j, holder workerId j → holder' workerId j) :
    c.Owned holder' where
  listed := owned.listed
  held := fun j done => (owned.held j done).imp_right (more _ j)

theorem frame (owned : c.Owned holder) (mapper : c'.mapper = c.mapper) : c'.Owned holder where
  listed := by simpa [mapChunk, mapper] using owned.listed
  held := by simpa [mapChunk, mapper] using owned.held

/-- Handing out a job that is open gives it a new owner, which is listed. -/
theorem handMap (owned : c.Owned holder) {content : String → Bytes} {j workerId : Nat}
    (unfinished : (c.mapChunk j).completed = false) : (c.handMap content j workerId).Owned holder where
  listed := by
    intro i recorded
    rw [mapChunk_handMap] at recorded ⊢
    split
    · exact List.mem_insert_self
    · next other =>
      rw [if_neg other] at recorded
      exact List.mem_insert_of_mem (owned.listed i recorded)
  held := by
    intro i done
    rw [mapChunk_handMap] at done ⊢
    split at done
    · next same =>
      rw [same.1, unfinished] at done
      cases done
    · next other =>
      rw [if_neg other]
      exact owned.held i done

/-- A report of the recorded owner, if it holds the job, leaves the job with a holder. -/
theorem workDone (owned : c.Owned holder) {complete : WorkComplete}
    (reported : complete.workType = .map → complete.jobId < c.mapper.completedMappers.length →
      complete.workerId ≠ 0 ∧ holder complete.workerId complete.jobId)
    (fromOwner : complete.workType = .map → (c.mapChunk complete.jobId).completed = true ∨
      (c.mapChunk complete.jobId).workerId = complete.workerId) : (c.workDone complete).Owned holder where
  listed := by
    intro j recorded
    rw [(c.mapChunk_workDone_keeps complete j).1] at recorded ⊢
    rw [(c.workDone_frame complete).1]
    exact owned.listed j recorded
  held := by
    intro j done
    rw [(c.mapChunk_workDone_keeps complete j).1]
    rw [mapChunk_workDone] at done
    split at done
    · next now =>
      obtain ⟨map, rfl, inside⟩ := now
      cases fromOwner map with
      | inl before => exact owned.held _ before
      | inr owner =>
        rw [owner]
        exact reported map inside
    · exact owned.held j done

/-- `WorkerDead` reopens what is recorded for the worker it unlists. -/
theorem workerDead (owned : c.Owned holder) (dead jobId : Nat) : (c.workerDead dead jobId).Owned holder where
  listed := by
    intro j recorded
    rw [mapChunk_workerDead] at recorded ⊢
    split at recorded
    · exact absurd rfl recorded
    · next other =>
      rw [if_neg other]
      exact List.mem_filter.mpr ⟨owned.listed j recorded, by simpa using other⟩
  held := by
    intro j done
    rw [mapChunk_workerDead] at done ⊢
    split at done
    · cases done
    · next other =>
      rw [if_neg other]
      exact owned.held j done

end Coordinator.Owned

namespace System

variable {program : Program} {s t : System} {e : Event}

structure OwnerInv (program : Program) (s : System) : Prop where
  jobs : s.coordinator.mapper.completedMappers.length = program.files.length
  owned : s.coordinator.Owned s.Holder

theorem ownerInv_init (program : Program) : OwnerInv program (init program) where
  jobs := by simp [init, Coordinator.make]
  owned := ⟨by simp [init], by simp [init]⟩

theorem OwnerInv.step (inv : OwnerInv program s) (reportInv : ReportInv program s)
    (condition : FromOwner s e) (effect : Effect program s e t) : OwnerInv program t := by
  have owned : s.coordinator.Owned t.Holder := inv.owned.mono fun _ _ holder => holder.step effect
  have moves := effect
  cases effect with
  | getWork _ _ _ handled =>
    refine ⟨(Coordinator.getWork_frame handled).2.2.2.trans inv.jobs, ?_⟩
    cases handled with
    | quiet => exact owned
    | map running unfinished next =>
      exact owned.handMap (condition _ (by simp [handsOut, running, unfinished, next]))
    | reduce => exact owned.frame rfl
  | reportDead =>
    refine ⟨?_, owned.workerDead _ _⟩
    simp [Coordinator.workerDead, Coordinator.clearAllWork, Coordinator.clearMapDeadWorker, inv.jobs]
  | workDone found =>
    refine ⟨(Coordinator.workDone_frame _ _).2.2.2.trans inv.jobs, ?_⟩
    refine owned.workDone (fun map inside => ?_) (condition _ found)
    have holder := reportInv.reports _ (List.mem_of_getElem? found) map (inv.jobs ▸ inside)
    exact ⟨holder.id_ne_zero reportInv.registered, holder.step moves⟩
  | tick =>
    have mapper := (Coordinator.serverHandler_frame s.coordinator).1
    exact ⟨by rw [mapper, inv.jobs], owned.frame mapper⟩
  | _ => exact ⟨inv.jobs, owned.frame rfl⟩

/-- The recorded owner of a completed map job is listed and holds the job. -/
theorem ownerInv_of_run {taken : List (Taken System Event)} (run : SystemRun program taken s)
    (condition : AllMeet FromOwner taken) : OwnerInv program s := by
  have both : ReportInv program s ∧ OwnerInv program s := by
    apply run.invariant condition ⟨reportInv_init program, ownerInv_init program⟩
    intro _ _ _ inv meets moved
    have effect := step_effect moved
    exact ⟨inv.1.step effect, inv.2.step inv.1 meets effect⟩
  exact both.2

/-- A `REDUCE` reply is sent only when all map jobs are completed, and lists all of `mapWorkerIds`. -/
theorem reduce_reply {k : Nat} {order : List Nat} {reply : WorkReply}
    (replied : reply ∈ replyOf program s (.getWork k order)) (reduce : reply.workType = .reduce) :
    s.coordinator.mapper.isDone = true ∧
      reply.reduceFileLocations = s.coordinator.getReduceFileLocations order := by
  simp only [replyOf, Option.mem_def, Option.map_eq_some_iff] at replied
  obtain ⟨worker, _, rfl⟩ := replied
  have effect := s.coordinator.getWork_effect program.content order worker.workerId
  generalize s.coordinator.getWork program.content order worker.workerId = answer at effect reduce ⊢
  cases effect with
  | quiet idle =>
    simp only [WorkReply.only] at reduce
    subst reduce
    cases idle with
    | inl wait => cases wait
    | inr nowork => cases nowork
  | map => cases reduce
  | reduce _ mapped => exact ⟨mapped, rfl⟩

/-- In every run in which the coordinator hears of a map job from its recorded owner and hands out no
completed one, every `REDUCE` reply lists a holder of every map job. -/
theorem reduce_reply_lists_holders {taken : List (Taken System Event)} {final : System}
    (run : SystemRun program taken final) (condition : AllMeet FromOwner taken) :
    AllMeet (ListsHolders program) taken := by
  intro τ member reply replied reduce j inside
  obtain ⟨moved, earlier, later, split, reached⟩ := run.taken_step member
  subst split
  have inv := ownerInv_of_run reached condition.earlier
  -- only an answer to `GetWork` is a reply, so the other steps have nothing to show
  obtain ⟨s, e, t⟩ := τ
  change s.step program e = some t at moved
  cases step_effect moved with
  | getWork _ _ visits =>
    obtain ⟨mapped, locations⟩ := reduce_reply replied reduce
    have done := Coordinator.mapper_isDone_iff.mp mapped j (inv.jobs ▸ inside)
    obtain ⟨recorded, holder⟩ := inv.owned.held j done
    have listed := inv.owned.listed j recorded
    let owner := (s.coordinator.mapChunk j).workerId
    refine ⟨⟨owner, (s.coordinator.workers owner).getD ""⟩, ?_, holder⟩
    rw [locations]
    exact List.mem_map.mpr ⟨owner, visits.mem_iff.mpr listed, rfl⟩
  | enter kind => cases kind <;> subst e <;> cases replied
  | _ => cases replied

/-- Worker 1 is slow, worker 2 gets its job as well, worker 1 completes the job and stops, and worker 3
reports it dead.  The job stays completed, because it is recorded for worker 2. -/
def lostOutput : List Event :=
  [.setup "a:1", .setup "b:1", .setup "c:1", .getWork 0 []] ++ List.replicate 10 .tick ++
    [.getWork 1 [1], .writeBucket 0, .finishMap 0, .workDone 0 true, .callReturns 0, .crash 0,
      .getWork 2 [1, 2], .fetch 2 false, .reportDead 2, .getWork 2 [2]]

theorem reduce_reply_without_holder : ∃ taken final, SystemRun oneFile taken final ∧
    ¬ AllMeet (ListsHolders oneFile) taken :=
  ⟨_, _, run_trace _ _ lostOutput, by decide⟩

/-- Worker 1 completes its job and stops, worker 3 reports it dead, and worker 2 does the job again. -/
def redoneOutput : List Event :=
  [.setup "a:1", .setup "b:1", .setup "c:1", .getWork 0 [], .writeBucket 0, .finishMap 0, .workDone 0 true,
    .callReturns 0, .crash 0, .getWork 2 [1], .fetch 2 false, .reportDead 2, .getWork 1 [],
    .writeBucket 1, .finishMap 1, .workDone 0 true, .callReturns 1, .getWork 2 [2]]

theorem reduce_reply_after_redone_output :
    (trace (step oneFile) (init oneFile) redoneOutput).length = 18 ∧
      AllMeet (ListsHolders oneFile) (trace (step oneFile) (init oneFile) redoneOutput) :=
  ⟨by decide, reduce_reply_lists_holders (run_trace _ _ redoneOutput) (by decide)⟩

/-! ## No output is counted twice -/

/-- Two of the workers that a reply lists have finished the map job. -/
def HeldTwice (s : System) (reply : WorkReply) (j : Nat) : Prop :=
  ∃ a ∈ reply.reduceFileLocations, ∃ b ∈ reply.reduceFileLocations,
    a.workerId ≠ b.workerId ∧ s.Holder a.workerId j ∧ s.Holder b.workerId j

instance (s : System) (reply : WorkReply) (j : Nat) : Decidable (s.HeldTwice reply j) :=
  inferInstanceAs (Decidable (∃ a ∈ reply.reduceFileLocations, ∃ b ∈ reply.reduceFileLocations, _))

/-- While a `REDUCE` reply is worked on, no map job is held twice. -/
def NoDoubleCount (program : Program) (s : System) : Prop :=
  ∀ worker ∈ s.workers, ∀ reply ∈ worker.phase.reduceReply, ∀ j < program.files.length,
    ¬ s.HeldTwice reply j

instance (program : Program) (s : System) : Decidable (NoDoubleCount program s) :=
  inferInstanceAs (Decidable (∀ worker ∈ s.workers, ∀ reply ∈ worker.phase.reduceReply,
    ∀ j < program.files.length, ¬ s.HeldTwice reply j))

/-- The two ids are read by one reduce job: one that is being worked on, or the next one. -/
def Together (s : System) (a b : Nat) : Prop :=
  (a ∈ s.coordinator.mapper.mapWorkerIds ∧ b ∈ s.coordinator.mapper.mapWorkerIds) ∨
    ∃ worker ∈ s.workers, ∃ reply ∈ worker.phase.reduceReply,
      a ∈ reply.reduceFileLocations.map (·.workerId) ∧ b ∈ reply.reduceFileLocations.map (·.workerId)

instance (s : System) (a b : Nat) : Decidable (s.Together a b) :=
  inferInstanceAs (Decidable ((_ ∧ _) ∨ ∃ worker ∈ s.workers, ∃ reply ∈ worker.phase.reduceReply, _ ∧ _))

/-- `GetWork` hands a map job only to a worker that shares neither this job nor any other one with a
worker whose output is read together with its own. -/
def HandsOutOnce (s : System) : Event → Prop
  | .getWork k _ => ∀ worker ∈ s.workers[k]?, ∀ j ∈ handsOut s.coordinator, ∀ other ∈ s.workers,
      other.workerId ≠ worker.workerId →
      other.workerId ∈ s.coordinator.mapper.mapWorkerIds ∨ s.Together worker.workerId other.workerId →
      ∀ i ∈ j :: worker.jobs, i ∉ other.jobs
  | _ => True

instance (s : System) (e : Event) : Decidable (HandsOutOnce s e) :=
  match e with
  | .getWork k _ => inferInstanceAs (Decidable (∀ worker ∈ s.workers[k]?, ∀ j ∈ handsOut s.coordinator,
      ∀ other ∈ s.workers, _ → _ → ∀ i ∈ j :: worker.jobs, i ∉ other.jobs))
  | .setup _ | .writeBucket _ | .finishMap _ | .fetch _ _ | .finishReduce _ _ | .reportDead _
  | .callReturns _ | .workDone _ _ | .tick | .crash _ => inferInstanceAs (Decidable True)

/-- The worker with this id has finished the map job or is working on it. -/
def Engaged (s : System) (workerId j : Nat) : Prop :=
  ∃ worker ∈ s.workers, worker.workerId = workerId ∧ j ∈ worker.jobs

/-- Workers that are read together share no map job. -/
def Disjoint (s : System) : Prop :=
  ∀ a b j, a ≠ b → s.Together a b → s.Engaged a j → ¬ s.Engaged b j

theorem Disjoint.noDoubleCount (disjoint : s.Disjoint) : NoDoubleCount program s := by
  intro worker member reply working j _ ⟨a, listed, b, listed', different, holder, holder'⟩
  have engaged : ∀ {workerId}, s.Holder workerId j → s.Engaged workerId j := by
    intro workerId ⟨worker, member, same, holds⟩
    exact ⟨worker, member, same, WorkerProcess.mem_jobs.mpr (.inl holds)⟩
  refine disjoint _ _ j different (.inr ⟨worker, member, reply, working, ?_, ?_⟩) (engaged holder)
    (engaged holder')
  · exact List.mem_map_of_mem listed
  · exact List.mem_map_of_mem listed'

theorem Disjoint.shrink (disjoint : s.Disjoint) (together : ∀ a b, t.Together a b → s.Together a b)
    (engaged : ∀ a j, t.Engaged a j → s.Engaged a j) : t.Disjoint := by
  intro a b j different both engagedA engagedB
  exact disjoint a b j different (together a b both) (engaged a j engagedA) (engaged b j engagedB)

theorem engaged_of_set {k a j : Nat} {worker worker' : WorkerProcess}
    (identity : worker'.workerId = worker.workerId)
    (workers : t.workers = s.workers.set k worker') (engaged : t.Engaged a j) :
    s.Engaged a j ∨ a = worker.workerId ∧ j ∈ worker'.jobs := by
  rw [Engaged, workers] at engaged
  cases Pool.exists_of_exists_set engaged with
  | inl old => exact .inl old
  | inr new => exact .inr ⟨new.1 ▸ identity, new.2⟩

/-- A worker that takes up no map job and no `REDUCE` reply keeps the invariant. -/
theorem Disjoint.set (disjoint : s.Disjoint) {k : Nat} {worker worker' : WorkerProcess}
    (found : s.workers[k]? = some worker) (workers : t.workers = s.workers.set k worker')
    (identity : worker'.workerId = worker.workerId)
    (listed : ∀ a ∈ t.coordinator.mapper.mapWorkerIds, a ∈ s.coordinator.mapper.mapWorkerIds)
    (jobs : ∀ j ∈ worker'.jobs, j ∈ worker.jobs)
    (replies : ∀ reply ∈ worker'.phase.reduceReply, reply ∈ worker.phase.reduceReply) : t.Disjoint := by
  have member : worker ∈ s.workers := Pool.mem_of_found found
  refine disjoint.shrink ?_ ?_
  · intro a b together
    cases together with
    | inl both => exact .inl ⟨listed a both.1, listed b both.2⟩
    | inr read =>
      rw [workers] at read
      cases Pool.exists_of_exists_set read with
      | inl old => exact .inr old
      | inr new =>
        obtain ⟨reply, working, both⟩ := new
        exact .inr ⟨worker, member, reply, replies reply working, both⟩
  · intro a j engaged
    cases engaged_of_set identity workers engaged with
    | inl old => exact old
    | inr new => exact ⟨worker, member, new.1.symm, jobs j new.2⟩

theorem Together.symm {a b : Nat} (together : s.Together a b) : s.Together b a := by
  cases together with
  | inl both => exact .inl ⟨both.2, both.1⟩
  | inr read =>
    obtain ⟨worker, member, reply, working, both⟩ := read
    exact .inr ⟨worker, member, reply, working, both.2, both.1⟩

/-- Handing out a map job keeps the invariant, if the worker may have the job. -/
theorem Disjoint.handMap (disjoint : s.Disjoint) (registered : Registered s) {k j : Nat}
    {worker worker' : WorkerProcess} (found : s.workers[k]? = some worker)
    (identity : worker'.workerId = worker.workerId) (workers : t.workers = s.workers.set k worker')
    (listed : t.coordinator.mapper.mapWorkerIds = s.coordinator.mapper.mapWorkerIds.insert worker.workerId)
    (jobs : ∀ i ∈ worker'.jobs, i ∈ j :: worker.jobs) (reply : worker'.phase.reduceReply = none)
    (once : ∀ other ∈ s.workers, other.workerId ≠ worker.workerId →
      other.workerId ∈ s.coordinator.mapper.mapWorkerIds ∨ s.Together worker.workerId other.workerId →
      ∀ i ∈ j :: worker.jobs, i ∉ other.jobs) : t.Disjoint := by
  have member : worker ∈ s.workers := Pool.mem_of_found found
  have together : ∀ a b, t.Together a b → s.Together a b ∨
      (a = worker.workerId ∨ a ∈ s.coordinator.mapper.mapWorkerIds) ∧
        (b = worker.workerId ∨ b ∈ s.coordinator.mapper.mapWorkerIds) := by
    intro a b both
    cases both with
    | inl both =>
      rw [listed, List.mem_insert_iff, List.mem_insert_iff] at both
      exact .inr both
    | inr read =>
      rw [workers] at read
      cases Pool.exists_of_exists_set read with
      | inl old => exact .inl (.inr old)
      | inr new =>
        obtain ⟨_, working, _⟩ := new
        rw [reply] at working
        cases working
  -- the worker itself against any other worker it is now read with
  have against : ∀ b i, b ≠ worker.workerId → t.Together worker.workerId b →
      t.Engaged worker.workerId i → ¬ t.Engaged b i := by
    intro b i different both mine theirs
    -- ids are positions, so whoever has this id and was engaged before is the worker itself
    have mine' : i ∈ j :: worker.jobs := by
      cases engaged_of_set identity workers mine with
      | inl old =>
        obtain ⟨same, inside, identity', old⟩ := old
        exact List.mem_cons_of_mem _ (registered.unique inside member identity' ▸ old)
      | inr new => exact jobs i new.2
    cases engaged_of_set identity workers theirs with
    | inr new => exact different new.1
    | inl old =>
      obtain ⟨other, inside, rfl, theirs'⟩ := old
      refine once other inside different ?_ i mine' theirs'
      cases together _ _ both with
      | inl old => exact .inr old
      | inr new => exact .inl (new.2.resolve_left different)
  intro a b i different both engagedA engagedB
  -- two workers other than this one are as they were
  by_cases first : a = worker.workerId
  · subst first
    exact against b i (Ne.symm different) both engagedA engagedB
  by_cases second : b = worker.workerId
  · subst second
    exact against a i different both.symm engagedB engagedA
  have old : ∀ {c}, c ≠ worker.workerId → t.Engaged c i → s.Engaged c i := fun other engaged =>
    (engaged_of_set identity workers engaged).resolve_right fun new => other new.1
  refine disjoint a b i different ?_ (old first engagedA) (old second engagedB)
  cases together a b both with
  | inl old => exact old
  | inr new => exact .inl ⟨new.1.resolve_left first, new.2.resolve_left second⟩

theorem Disjoint.getWork (disjoint : s.Disjoint) (registered : Registered s) {k : Nat} {order : List Nat}
    {worker : WorkerProcess} (found : s.workers[k]? = some worker)
    (visits : order.Perm s.coordinator.mapper.mapWorkerIds) {c : Coordinator} {reply : WorkReply}
    (handled : s.coordinator.GetWorkEffect program.content order worker.workerId (c, reply))
    (condition : HandsOutOnce s (.getWork k order)) :
    Disjoint { s.setWorker k (worker.accept reply) with coordinator := c } := by
  cases handled with
  | @quiet workType quiet =>
    have phase : (worker.accept (.only workType)).phase.mapJob = none ∧
        (worker.accept (.only workType)).phase.reduceReply = none := by
      cases quiet with
      | inl wait => subst wait; exact ⟨rfl, rfl⟩
      | inr nowork => subst nowork; exact ⟨rfl, rfl⟩
    refine disjoint.set found rfl (accept_workerId _ _).1 (fun _ listed => listed) ?_ ?_
    · apply WorkerProcess.jobs_subset
      · simp [accept_holds]
      · simp [phase.1]
    · simp [phase.2]
  | @map j running unfinished next =>
    have hands : handsOut s.coordinator = some j := by
      rw [handsOut, if_pos ⟨running, unfinished⟩, next]
    refine disjoint.handMap registered found (accept_workerId _ _).1 rfl rfl ?_ rfl
      (condition worker found j hands)
    intro i member
    cases WorkerProcess.mem_jobs.mp member with
    | inl holds => exact List.mem_cons_of_mem _ (WorkerProcess.mem_jobs.mpr (.inl holds))
    | inr working =>
      obtain rfl : j = i := Option.some.inj working
      exact List.mem_cons_self
  | @reduce r =>
    have member : worker ∈ s.workers := Pool.mem_of_found found
    refine disjoint.shrink ?_ ?_
    · intro a b together
      cases together with
      | inl both => exact .inl both
      | inr read =>
        cases Pool.exists_of_exists_set read with
        | inl old => exact .inr old
        | inr new =>
          -- the new reply lists the workers of `mapWorkerIds`
          obtain ⟨reply, working, both⟩ := new
          obtain rfl : (s.coordinator.assignReduce order r worker.workerId).2 = reply :=
            Option.some.inj working
          simp only [Coordinator.assignReduce, Coordinator.getReduceFileLocations, List.map_map,
            Function.comp_def, List.map_id', visits.mem_iff] at both
          exact .inl both
    · intro a j engaged
      cases engaged_of_set (accept_workerId _ _).1 rfl engaged with
      | inl old => exact old
      | inr new =>
        refine ⟨worker, member, new.1.symm, ?_⟩
        cases WorkerProcess.mem_jobs.mp new.2 with
        | inl holds => exact WorkerProcess.mem_jobs.mpr (.inl holds)
        | inr working => cases working

theorem Disjoint.setup (disjoint : s.Disjoint) (ipAddress : String) :
    Disjoint { s with
      coordinator := (s.coordinator.doSetup ipAddress).1
      workers := s.workers ++ [WorkerProcess.start ipAddress (s.coordinator.doSetup ipAddress).2] } := by
  have unheld : ∀ j, (WorkerProcess.start ipAddress (s.coordinator.doSetup ipAddress).2).holds j = false := by
    intro j
    simp only [WorkerProcess.start, WorkerProcess.holds, List.getD_eq_getElem?_getD,
      List.getElem?_replicate]
    split <;> rfl
  refine disjoint.shrink ?_ ?_
  · intro a b together
    cases together with
    | inl both => exact .inl both
    | inr read =>
      obtain ⟨worker, member, reply, working, both⟩ := read
      cases List.mem_append.mp member with
      | inl old => exact .inr ⟨worker, old, reply, working, both⟩
      | inr new =>
        rw [List.mem_singleton] at new
        subst new
        cases working
  · rintro a j ⟨worker, member, same, job⟩
    cases List.mem_append.mp member with
    | inl old => exact ⟨worker, old, same, job⟩
    | inr new =>
      rw [List.mem_singleton] at new
      subst new
      cases WorkerProcess.mem_jobs.mp job with
      | inl holds =>
        rw [unheld j] at holds
        cases holds
      | inr working => cases working

theorem Disjoint.step (disjoint : s.Disjoint) (registered : Registered s) (condition : HandsOutOnce s e)
    (effect : Effect program s e t) : t.Disjoint := by
  cases effect with
  | setup ipAddress => exact disjoint.setup ipAddress
  | getWork found _ visits handled => exact disjoint.getWork registered found visits handled condition
  | writeBucket found mapping =>
    refine disjoint.set found rfl rfl (fun _ listed => listed) ?_ ?_
    · exact WorkerProcess.jobs_subset (fun _ holds => holds) (by simp [mapping, Phase.mapJob])
    · simp [Phase.reduceReply]
  | finishMap found mapping =>
    refine disjoint.set found rfl (callDone_workerId _ _ _).1 (fun _ listed => listed) ?_ ?_
    · intro j member
      rw [WorkerProcess.mem_jobs, callDone_map_holds] at member
      rw [WorkerProcess.mem_jobs, mapping]
      cases member with
      | inl holds =>
        rw [Bool.or_eq_true, decide_eq_true_eq] at holds
        exact holds.imp_right fun new => by simp [Phase.mapJob, new.1]
      | inr working => cases working
    · simp [WorkerProcess.callDone, Phase.reduceReply]
  | fetched found reducing =>
    refine disjoint.set found rfl rfl (fun _ listed => listed) ?_ ?_
    · exact WorkerProcess.jobs_subset (fun _ holds => holds) (by simp [Phase.mapJob])
    · simp [reducing, Phase.reduceReply]
  | fetchFailed found =>
    refine disjoint.set found rfl rfl (fun _ listed => listed) ?_ ?_
    · exact WorkerProcess.jobs_subset (fun _ holds => holds) (by simp [Phase.mapJob])
    · simp [Phase.reduceReply]
  | finishReduce found =>
    refine disjoint.set found rfl (callDone_workerId _ _ _).1 (fun _ listed => listed) ?_ ?_
    · exact WorkerProcess.jobs_subset (fun _ holds => holds) (by simp [WorkerProcess.callDone, Phase.mapJob])
    · simp [WorkerProcess.callDone, Phase.reduceReply]
  | reportDead found =>
    refine disjoint.set found rfl rfl (fun _ listed => (List.mem_filter.mp listed).1) ?_ ?_
    · exact WorkerProcess.jobs_subset (fun _ holds => holds) (by simp [Phase.mapJob])
    · simp [Phase.reduceReply]
  | enter _ found next =>
    refine disjoint.set found rfl rfl (fun _ listed => listed) ?_ ?_
    · refine WorkerProcess.jobs_subset (fun _ holds => holds) ?_
      cases next <;> simp [*, Phase.mapJob]
    · cases next <;> simp [*, Phase.reduceReply]
  | workDone =>
    refine disjoint.shrink (fun a b together => ?_) fun _ _ engaged => engaged
    rw [Together, (Coordinator.workDone_frame _ _).1] at together
    exact together
  | tick =>
    refine disjoint.shrink (fun a b together => ?_) fun _ _ engaged => engaged
    rw [Together, (Coordinator.serverHandler_frame _).1] at together
    exact together

structure DisjointInv (s : System) : Prop where
  registered : Registered s
  disjoint : s.Disjoint

theorem disjointInv_init (program : Program) : DisjointInv (init program) where
  registered := registered_init program
  disjoint := by
    intro a b j _ _ ⟨_, member, _⟩
    cases member

/-- In every run in which map jobs are handed out once, no `REDUCE` reply counts a map job twice. -/
theorem no_map_output_counted_twice {taken : List (Taken System Event)} {final : System}
    (run : SystemRun program taken final) (condition : AllMeet HandsOutOnce taken) :
    NoDoubleCount program final := by
  have inv : DisjointInv final := by
    apply run.invariant condition (disjointInv_init program)
    intro s e t inv meets moved
    have effect := step_effect moved
    exact ⟨inv.registered.step effect, inv.disjoint.step inv.registered meets effect⟩
  exact inv.disjoint.noDoubleCount

/-- Worker 1 is slow, worker 2 gets its job as well, and both finish it. -/
def doubleOutput : List Event :=
  [.setup "a:1", .setup "b:1", .getWork 0 []] ++ List.replicate 10 .tick ++
    [.getWork 1 [1], .writeBucket 0, .finishMap 0, .writeBucket 1, .finishMap 1, .workDone 0 true,
      .workDone 0 true, .callReturns 0, .callReturns 1, .getWork 0 [1, 2]]

theorem map_output_counted_twice : ∃ taken final, SystemRun oneFile taken final ∧
    ¬ NoDoubleCount oneFile final :=
  ⟨_, _, run_trace _ _ doubleOutput, by decide⟩

/-- Worker 1 stops in the middle of its job, and worker 2 does it. -/
def takenOver : List Event :=
  [.setup "a:1", .setup "b:1", .getWork 0 [], .crash 0] ++ List.replicate 10 .tick ++
    [.getWork 1 [1], .writeBucket 1, .finishMap 1, .workDone 0 true, .callReturns 1, .getWork 1 [1, 2]]

theorem map_output_counted_once_when_taken_over :
    (trace (step oneFile) (init oneFile) takenOver).length = 20 ∧
      NoDoubleCount oneFile (outcome (step oneFile) (init oneFile) takenOver) :=
  ⟨by decide, no_map_output_counted_twice (run_trace _ _ takenOver) (by decide)⟩

end System

end Tda596Labs.MapReduce
