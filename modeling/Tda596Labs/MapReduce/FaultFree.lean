import Tda596Labs.MapReduce.Holders
import Tda596Labs.MapReduce.Service
import Mathlib.Data.Set.List

/-! # Runs without faults

In a run in which no worker is reported dead and no timer runs out, every job is handed out once, so
its recorded owner is the worker that does it.  The invariant of this file ties the records of the
coordinator to the phases of the workers and to the files in their directories.
-/

namespace Tda596Labs.MapReduce

open Tda596Labs.Transition
open Coordinator (advanceJob)

/-! ## What the program computes -/

namespace Program

/-- The pairs that `mapf` emits for a map job. -/
def pairs (program : Program) (j : Nat) : List KeyValue :=
  program.mapf (program.files.getD j "") (program.content (program.files.getD j ""))

/-- The pairs of a bucket, from all map jobs. -/
def bucketPairs (program : Program) (r : Nat) : List KeyValue :=
  (List.range program.files.length).flatMap fun j => bucket program.nReduce r (program.pairs j)

/-- The content of the file `mr-j-n`. -/
def bucketData (program : Program) (j n : Nat) : Bytes :=
  (bucket program.nReduce n (program.pairs j)).flatMap program.encode

/-- The content is a right output file for a reduce job. -/
def RightOutput (program : Program) (r : Nat) (content : Bytes) : Prop :=
  ∃ sorted, SortedByKey (program.bucketPairs r) sorted ∧ content = report program.reducef (groups sorted)

end Program

/-! ## The records of the jobs -/

/-- A sound board to which no job has come back: a job that has been handed out has a running timer, and
one that has not is open. -/
structure Board.Undisturbed (board : Board) : Prop extends Board.Sound board where
  handed : ∀ j < board.currentJob, 1 ≤ (board.lease j).timer
  unclosed : ∀ j, board.currentJob ≤ j → (board.lease j).closed = false

namespace Board.Undisturbed

variable {board : Board} {j : Nat}

theorem make (jobs : Nat) :
    Undisturbed ⟨jobs, 0, List.replicate jobs ⟨0, false⟩, List.replicate jobs 0⟩ where
  toSound := sound_make jobs
  handed := by simp
  unclosed := by
    intro j _
    rw [lease_make]
    rfl

/-- While no timer runs out, the job that is handed out is a new one. -/
theorem next_fresh (inv : board.Undisturbed) (inTime : ∀ timer ∈ board.timers, timer ≤ timeout)
    (isNext : board.next = some j) : j = board.currentJob ∧ board.currentJob < board.jobs := by
  obtain ⟨inside, available⟩ := inv.toSound.next isNext
  have timer : (board.lease j).timer ≤ timeout := by
    have timed : j < board.timers.length := by rwa [inv.timerCount]
    show board.timers.getD j 0 ≤ timeout
    rw [List.getD_eq_getElem _ _ timed]
    exact inTime _ (List.getElem_mem timed)
  have notYet : ¬ j < board.currentJob := by
    intro before
    -- a running timer is neither expired nor cleared
    have running := inv.handed j before
    rw [Lease.available_iff] at available
    omega
  unfold Board.next at isNext
  split at isNext
  · next all => omega
  · cases isNext
    exact ⟨rfl, inside⟩

theorem hand (inv : board.Undisturbed) (isNext : board.next = some j) (workerId : Nat) :
    (board.hand j workerId).Undisturbed := by
  have inside := (inv.toSound.next isNext).1
  refine ⟨inv.toSound.hand isNext workerId, ?_, ?_⟩
  · intro i before
    rw [lease_hand inv.toSound inside]
    split
    · exact le_rfl
    · next other =>
      -- `currentJob` has only moved past the job that is handed out
      refine inv.handed i ?_
      simp only [Board.hand, advanceJob] at before
      unfold Board.next at isNext
      split at isNext
      · next all => rwa [if_pos all] at before
      · next more =>
        cases isNext
        rw [if_neg more] at before
        omega
  · intro i later
    have later' : board.currentJob ≤ i := by
      simp only [Board.hand, advanceJob] at later
      split at later <;> omega
    rw [lease_hand inv.toSound inside]
    split <;> exact inv.unclosed i later'

theorem complete (inv : board.Undisturbed) (handed : j < board.currentJob) :
    (board.complete j).Undisturbed := by
  have inside := lt_of_lt_of_le handed inv.current
  refine ⟨inv.toSound.complete inside, ?_, ?_⟩
  · intro i before
    rw [lease_complete inv.toSound inside]
    split <;> exact inv.handed i before
  · intro i later
    have other : i ≠ j := by
      rintro rfl
      exact absurd handed (not_lt.mpr later)
    rw [lease_complete inv.toSound inside, if_neg other]
    exact inv.unclosed i later

theorem tick (inv : board.Undisturbed) : board.tick.Undisturbed := by
  refine ⟨inv.toSound.tick, ?_, ?_⟩
  · intro i before
    rw [lease_tick]
    exact (inv.handed i before).trans (board.lease i).timer_le_tick
  · intro i later
    rw [lease_tick, Lease.tick_closed]
    exact inv.unclosed i later

/-- A completed job has been handed out. -/
theorem handed_of_closed (inv : board.Undisturbed) (closed : (board.lease j).closed = true) :
    j < board.currentJob := by
  by_contra later
  rw [inv.unclosed j (not_lt.mp later)] at closed
  cases closed

end Board.Undisturbed

/-! ## The coordinator -/

structure CoordinatorInv (program : Program) (c : Coordinator) : Prop where
  files : c.mapper.files = program.files
  numFiles : c.mapper.numFiles = program.files.length
  nreduce : c.nreduce = program.nReduce
  jobs : ∀ kind, (c.board kind).Undisturbed
  nodup : c.mapper.mapWorkerIds.Nodup
  owner : ∀ j < c.mapper.currentJob, (c.mapChunk j).workerId ∈ c.mapper.mapWorkerIds
  known : ∀ id ∈ c.mapper.mapWorkerIds, ∃ address, c.workers id = some address
  unknown : ∀ id, c.nextWorkerId ≤ id → c.workers id = none
  done : c.isDone = true → c.mapper.isDone = true ∧ c.reducer.isDone = true

/-- What no handler takes back: owners of jobs, addresses of workers, and the end of the map phase. -/
structure Extends (c c' : Coordinator) : Prop where
  mapJobs : c.mapper.currentJob ≤ c'.mapper.currentJob
  reduceJobs : c.reducer.currentJob ≤ c'.reducer.currentJob
  mapOwner : ∀ j < c.mapper.currentJob, (c'.mapChunk j).workerId = (c.mapChunk j).workerId
  reduceOwner : ∀ r < c.reducer.currentJob, (c'.reduceChunk r).workerId = (c.reduceChunk r).workerId
  workers : ∀ id address, c.workers id = some address → c'.workers id = some address
  mapped : c.mapper.isDone = true →
    c'.mapper.isDone = true ∧ c'.mapper.mapWorkerIds = c.mapper.mapWorkerIds

theorem Extends.refl (c : Coordinator) : Extends c c where
  mapJobs := le_rfl
  reduceJobs := le_rfl
  mapOwner := fun _ _ => rfl
  reduceOwner := fun _ _ => rfl
  workers := fun _ _ known => known
  mapped := fun done => ⟨done, rfl⟩

/-- Timers run in time. -/
def InTime (c : Coordinator) : Prop :=
  (∀ timer ∈ c.mapperTimeout, timer ≤ timeout) ∧ ∀ timer ∈ c.reducerTimeout, timer ≤ timeout

instance (c : Coordinator) : Decidable (InTime c) :=
  inferInstanceAs (Decidable ((∀ timer ∈ c.mapperTimeout, timer ≤ timeout) ∧
    ∀ timer ∈ c.reducerTimeout, timer ≤ timeout))

theorem InTime.board {c : Coordinator} (inTime : InTime c) (kind : JobKind) :
    ∀ timer ∈ (c.board kind).timers, timer ≤ timeout := by
  cases kind with
  | map => exact inTime.1
  | reduce => exact inTime.2

namespace CoordinatorInv

variable {program : Program} {c : Coordinator}

theorem initial (program : Program) : CoordinatorInv program (.make program.files program.nReduce) where
  files := rfl
  numFiles := rfl
  nreduce := rfl
  jobs := by
    intro kind
    cases kind with
    | map => exact .make program.files.length
    | reduce => exact .make program.nReduce
  nodup := List.nodup_nil
  owner := by simp [Coordinator.make]
  known := by simp [Coordinator.make]
  unknown := fun _ _ => rfl
  done := by simp [Coordinator.make]

theorem mapChunks (inv : CoordinatorInv program c) :
    c.mapper.completedMappers.length = program.files.length :=
  (inv.jobs .map).chunkCount.trans inv.numFiles

theorem reduceChunks (inv : CoordinatorInv program c) :
    c.reducer.completedReducers.length = program.nReduce :=
  (inv.jobs .reduce).chunkCount.trans inv.nreduce

theorem mapCurrent (inv : CoordinatorInv program c) : c.mapper.currentJob ≤ program.files.length :=
  (inv.jobs .map).current.trans_eq inv.numFiles

theorem reduceCurrent (inv : CoordinatorInv program c) : c.reducer.currentJob ≤ program.nReduce :=
  (inv.jobs .reduce).current.trans_eq inv.nreduce

theorem doSetup (inv : CoordinatorInv program c) (ipAddress : String) :
    CoordinatorInv program (c.doSetup ipAddress).1 ∧ Extends c (c.doSetup ipAddress).1 := by
  have older : ∀ id address, c.workers id = some address →
      (c.doSetup ipAddress).1.workers id = some address := by
    intro id address known
    -- the new id has never been given out
    have different : id ≠ c.nextWorkerId := by
      intro same
      rw [inv.unknown id same.ge] at known
      cases known
    simpa [Coordinator.doSetup, different] using known
  constructor
  · exact { inv with
      known := fun id listed => (inv.known id listed).imp (older id)
      unknown := by
        intro id above
        have above' : c.nextWorkerId + 1 ≤ id := above
        have different : id ≠ c.nextWorkerId := by omega
        simpa [Coordinator.doSetup, different] using inv.unknown id (by omega) }
  · exact { Extends.refl c with workers := older }

theorem handMap (inv : CoordinatorInv program c) (content : String → Bytes) {workerId : Nat}
    {address : String} (known : c.workers workerId = some address)
    (isNext : (c.board .map).next = some c.mapper.currentJob)
    (open_ : c.mapper.currentJob < program.files.length) (unfinished : c.mapper.isDone = false)
    (running : c.isDone = false) :
    CoordinatorInv program (c.handMap content c.mapper.currentJob workerId) ∧
      Extends c (c.handMap content c.mapper.currentJob workerId) := by
  have more : c.mapper.currentJob ≠ c.mapper.numFiles := by
    rw [inv.numFiles]
    omega
  have current : (c.handMap content c.mapper.currentJob workerId).mapper.currentJob =
      c.mapper.currentJob + 1 := by
    simp [Coordinator.handMap, Coordinator.advanceJob, more]
  -- handing out a new job rewrites no other owner; a retry would
  have chunk : ∀ j, j ≠ c.mapper.currentJob →
      (c.handMap content c.mapper.currentJob workerId).mapChunk j = c.mapChunk j := by
    intro j other
    rw [Coordinator.mapChunk_handMap, if_neg (fun same => other same.1)]
  constructor
  · exact {
      files := inv.files
      numFiles := inv.numFiles
      nreduce := inv.nreduce
      jobs := by
        intro kind
        cases kind with
        | map => exact (inv.jobs .map).hand isNext workerId
        | reduce => exact inv.jobs .reduce
      nodup := inv.nodup.insert
      owner := by
        intro j below
        rw [current] at below
        by_cases same : j = c.mapper.currentJob
        · rw [Coordinator.mapChunk_handMap, if_pos ⟨same, inv.mapChunks ▸ open_⟩]
          exact List.mem_insert_self
        · rw [chunk j same]
          exact List.mem_insert_of_mem (inv.owner j (by omega))
      known := by
        intro id listed
        cases List.mem_insert_iff.mp listed with
        | inl same => exact ⟨address, same ▸ known⟩
        | inr older => exact inv.known id older
      unknown := inv.unknown
      done := by
        intro done
        rw [show (c.handMap content c.mapper.currentJob workerId).isDone = c.isDone from rfl,
          running] at done
        cases done }
  · exact { Extends.refl c with
      mapJobs := by omega
      mapOwner := by
        intro j below
        rw [chunk j (by omega)]
      mapped := by
        intro done
        rw [unfinished] at done
        cases done }

theorem handReduce (inv : CoordinatorInv program c) (order : List Nat) (workerId : Nat)
    (isNext : (c.board .reduce).next = some c.reducer.currentJob)
    (open_ : c.reducer.currentJob < program.nReduce) (running : c.isDone = false) :
    CoordinatorInv program (c.handReduce order c.reducer.currentJob workerId) ∧
      Extends c (c.handReduce order c.reducer.currentJob workerId) := by
  have more : c.reducer.currentJob ≠ c.nreduce := by
    rw [inv.nreduce]
    omega
  have current : (c.handReduce order c.reducer.currentJob workerId).reducer.currentJob =
      c.reducer.currentJob + 1 := by
    simp [Coordinator.handReduce, Coordinator.advanceJob, more]
  constructor
  · exact { inv with
      jobs := by
        intro kind
        cases kind with
        | map => exact inv.jobs .map
        | reduce => exact (inv.jobs .reduce).hand isNext workerId
      done := by
        intro done
        rw [show (c.handReduce order c.reducer.currentJob workerId).isDone = c.isDone from rfl,
          running] at done
        cases done }
  · exact { Extends.refl c with
      reduceJobs := by omega
      reduceOwner := by
        intro r below
        rw [Coordinator.reduceChunk_handReduce, if_neg (by omega)] }

theorem workDone (inv : CoordinatorInv program c) {complete : WorkComplete}
    (mapped : complete.workType = .map → complete.jobId < c.mapper.currentJob)
    (reduced : complete.workType = .reduce → complete.jobId < c.reducer.currentJob) :
    CoordinatorInv program (c.workDone complete) ∧ Extends c (c.workDone complete) := by
  have mapChunk := c.mapChunk_workDone_keeps complete
  have reduceChunk := c.reduceChunk_workDone_keeps complete
  obtain ⟨listed, workers, next, _⟩ := c.workDone_frame complete
  obtain ⟨files, numFiles, nreduce, isDone, mapCurrent, reduceCurrent, _⟩ := c.workDone_static complete
  have jobs : ∀ kind, ((c.workDone complete).board kind).Undisturbed := by
    intro kind
    rw [Service.workDone_board]
    split
    · next isKind =>
      cases kind with
      | map => exact (inv.jobs .map).complete (mapped isKind)
      | reduce => exact (inv.jobs .reduce).complete (reduced isKind)
    · exact inv.jobs kind
  constructor
  · exact {
      files := files.trans inv.files
      numFiles := numFiles.trans inv.numFiles
      nreduce := nreduce.trans inv.nreduce
      jobs := jobs
      nodup := listed ▸ inv.nodup
      owner := by
        intro j below
        rw [listed, (mapChunk j).1]
        exact inv.owner j (mapCurrent ▸ below)
      known := by
        rw [listed, workers]
        exact inv.known
      unknown := by
        rw [next, workers]
        exact inv.unknown
      done := by
        intro done
        obtain ⟨mapped, reduced⟩ := inv.done (isDone ▸ done)
        exact ⟨Coordinator.mapper_isDone_workDone complete mapped,
          Coordinator.reducer_isDone_workDone complete reduced⟩ }
  · exact {
      mapJobs := mapCurrent.ge
      reduceJobs := reduceCurrent.ge
      mapOwner := fun j _ => (mapChunk j).1
      reduceOwner := fun r _ => (reduceChunk r).1
      workers := by
        rw [workers]
        exact fun _ _ known => known
      mapped := fun done => ⟨Coordinator.mapper_isDone_workDone complete done, listed⟩ }

theorem serverHandler (inv : CoordinatorInv program c) :
    CoordinatorInv program c.serverHandler ∧ Extends c c.serverHandler := by
  obtain ⟨mapper, reducer, nreduce, workers, next⟩ := c.serverHandler_frame
  have mapChunk : ∀ j, c.serverHandler.mapChunk j = c.mapChunk j := by simp [Coordinator.mapChunk, mapper]
  have reduceChunk : ∀ r, c.serverHandler.reduceChunk r = c.reduceChunk r := by
    simp [Coordinator.reduceChunk, reducer]
  constructor
  · exact {
      files := mapper ▸ inv.files
      numFiles := mapper ▸ inv.numFiles
      nreduce := nreduce.trans inv.nreduce
      jobs := by
        intro kind
        rw [Service.serverHandler_board]
        split
        · exact (inv.jobs kind).tick
        · exact inv.jobs kind
      nodup := mapper ▸ inv.nodup
      owner := by
        intro j below
        rw [mapChunk, mapper]
        exact inv.owner j (mapper ▸ below)
      known := by
        rw [mapper, workers]
        exact inv.known
      unknown := by
        rw [next, workers]
        exact inv.unknown
      done := by
        intro done
        rw [mapper, reducer]
        exact c.serverHandler_done inv.done done }
  · exact {
      mapJobs := by rw [mapper]
      reduceJobs := by rw [reducer]
      mapOwner := fun j _ => by rw [mapChunk]
      reduceOwner := fun r _ => by rw [reduceChunk]
      workers := by
        rw [workers]
        exact fun _ _ known => known
      mapped := by
        intro done
        rw [mapper]
        exact ⟨done, rfl⟩ }

end CoordinatorInv

/-! ## The workers -/

/-- The worker has finished `DoReduce` for a reduce job. -/
def WorkerProcess.reduced (worker : WorkerProcess) (r : Nat) : Bool :=
  worker.completedReduceTasks.getD r false

/-- The pairs of bucket `r` from the map jobs that are recorded for a worker. -/
def ownedPairs (program : Program) (c : Coordinator) (workerId r : Nat) : List KeyValue :=
  ((List.range program.files.length).filter fun j => (c.mapChunk j).workerId = workerId).flatMap fun j =>
    bucket program.nReduce r (program.pairs j)

/-- A worker in `DoMap`: the job is its own, not finished before, and the buckets so far are written. -/
structure MappingInv (program : Program) (c : Coordinator) (worker : WorkerProcess) (reply : WorkReply)
    (written : Nat) : Prop where
  handed : reply.jobId < c.mapper.currentJob
  owner : (c.mapChunk reply.jobId).workerId = worker.workerId
  nReduce : reply.nReduce = program.nReduce
  fileName : reply.mapFileName = program.files.getD reply.jobId ""
  content : reply.mapFileContent = program.content reply.mapFileName
  written : ∀ n < written, (bucketFile reply.jobId n, program.bucketData reply.jobId n) ∈ worker.dir.entries

/-- A worker in `DoReduce`: the job is its own, not finished before, the map phase is over, and the
buffer holds the pairs of the workers asked so far. -/
structure ReducingInv (program : Program) (c : Coordinator) (worker : WorkerProcess) (reply : WorkReply)
    (left : List WorkerLocation) (bufferedFile : List KeyValue) : Prop where
  mapped : c.mapper.isDone = true
  handed : reply.jobId < c.reducer.currentJob
  owner : (c.reduceChunk reply.jobId).workerId = worker.workerId
  unfinished : worker.reduced reply.jobId = false
  listed : (reply.reduceFileLocations.map (·.workerId)).Perm c.mapper.mapWorkerIds
  addresses : ∀ location ∈ reply.reduceFileLocations,
    c.workers location.workerId = some location.address
  collected : ∃ asked, reply.reduceFileLocations = asked ++ left ∧
    bufferedFile.Perm (asked.flatMap fun location => ownedPairs program c location.workerId reply.jobId)

def PhaseInv (program : Program) (c : Coordinator) (worker : WorkerProcess) : Prop :=
  match worker.phase with
  | .mapping reply written => MappingInv program c worker reply written
  | .reducing reply left bufferedFile => ReducingInv program c worker reply left bufferedFile
  | _ => True

structure WorkerInv (program : Program) (c : Coordinator) (worker : WorkerProcess) : Prop where
  mapTasks : worker.completedMapTasks.length = program.files.length
  reduceTasks : worker.completedReduceTasks.length = program.nReduce
  holds : ∀ j, worker.holds j = true →
    j < c.mapper.currentJob ∧ (c.mapChunk j).workerId = worker.workerId
  reduced : ∀ r, worker.reduced r = true →
    r < c.reducer.currentJob ∧ (c.reduceChunk r).workerId = worker.workerId
  files : ∀ file ∈ worker.dir.entries,
    (∃ j n, j < c.mapper.currentJob ∧ (c.mapChunk j).workerId = worker.workerId ∧
      file = (bucketFile j n, program.bucketData j n)) ∨
    ∃ r content, worker.reduced r = true ∧ file = (outFile r, content)
  written : ∀ j n, worker.holds j = true → n < program.nReduce →
    (bucketFile j n, program.bucketData j n) ∈ worker.dir.entries
  phase : PhaseInv program c worker

variable {program : Program} {c c' : Coordinator} {worker : WorkerProcess}

theorem ownedPairs_congr (same : ∀ j < program.files.length,
    (c'.mapChunk j).workerId = (c.mapChunk j).workerId) (workerId r : Nat) :
    ownedPairs program c' workerId r = ownedPairs program c workerId r := by
  unfold ownedPairs
  congr 1
  refine List.filter_congr fun j inRange => ?_
  rw [same j (List.mem_range.mp inRange)]

theorem MappingInv.coordinator {reply : WorkReply} {written : Nat}
    (inv : MappingInv program c worker reply written) (extends_ : Extends c c') :
    MappingInv program c' worker reply written where
  handed := lt_of_lt_of_le inv.handed extends_.mapJobs
  owner := (extends_.mapOwner _ inv.handed).trans inv.owner
  nReduce := inv.nReduce
  fileName := inv.fileName
  content := inv.content
  written := inv.written

/-- When the map phase is over, all map jobs have been handed out. -/
theorem CoordinatorInv.all_handed (inv : CoordinatorInv program c) (mapped : c.mapper.isDone = true)
    {j : Nat} (inside : j < program.files.length) : j < c.mapper.currentJob := by
  apply (inv.jobs .map).handed_of_closed
  exact Coordinator.mapper_isDone_iff.mp mapped j (inv.mapChunks ▸ inside)

theorem ReducingInv.coordinator {reply : WorkReply} {left : List WorkerLocation}
    {bufferedFile : List KeyValue} (inv : ReducingInv program c worker reply left bufferedFile)
    (coordinator : CoordinatorInv program c) (extends_ : Extends c c') :
    ReducingInv program c' worker reply left bufferedFile := by
  obtain ⟨mapped, listed⟩ := extends_.mapped inv.mapped
  -- owners are final once all map jobs are handed out, so the collected pairs stay right
  have owned : ∀ workerId,
      ownedPairs program c' workerId reply.jobId = ownedPairs program c workerId reply.jobId := by
    intro workerId
    refine ownedPairs_congr (fun j inside => ?_) _ _
    exact extends_.mapOwner j (coordinator.all_handed inv.mapped inside)
  exact {
    mapped := mapped
    handed := lt_of_lt_of_le inv.handed extends_.reduceJobs
    owner := (extends_.reduceOwner _ inv.handed).trans inv.owner
    unfinished := inv.unfinished
    listed := listed ▸ inv.listed
    addresses := fun location member => extends_.workers _ _ (inv.addresses location member)
    collected := by simpa only [owned] using inv.collected }

/-- A worker does not notice what the coordinator does for others. -/
theorem WorkerInv.coordinator (inv : WorkerInv program c worker)
    (coordinator : CoordinatorInv program c) (extends_ : Extends c c') : WorkerInv program c' worker where
  mapTasks := inv.mapTasks
  reduceTasks := inv.reduceTasks
  holds := by
    intro j holds
    obtain ⟨handed, owner⟩ := inv.holds j holds
    exact ⟨lt_of_lt_of_le handed extends_.mapJobs, (extends_.mapOwner j handed).trans owner⟩
  reduced := by
    intro r reduced
    obtain ⟨handed, owner⟩ := inv.reduced r reduced
    exact ⟨lt_of_lt_of_le handed extends_.reduceJobs, (extends_.reduceOwner r handed).trans owner⟩
  files := by
    intro file member
    refine (inv.files file member).imp_left fun ⟨j, n, handed, owner, content⟩ => ?_
    exact ⟨j, n, lt_of_lt_of_le handed extends_.mapJobs, (extends_.mapOwner j handed).trans owner, content⟩
  written := inv.written
  phase := by
    have phase := inv.phase
    unfold PhaseInv at phase ⊢
    split
    · next mapping =>
      rw [mapping] at phase
      exact phase.coordinator extends_
    · next reducing =>
      rw [reducing] at phase
      exact phase.coordinator coordinator extends_
    · trivial

/-! ### What a worker does -/

theorem WorkerInv.start (c : Coordinator) (ipAddress : String) {reply : WorkSetup}
    (numFiles : reply.numFiles = program.files.length) (nReduce : reply.nReduce = program.nReduce) :
    WorkerInv program c (.start ipAddress reply) := by
  have unset : ∀ (n i : Nat), (List.replicate n false).getD i false = false := by
    intro n i
    rw [List.getD_eq_getElem?_getD, List.getElem?_replicate]
    split <;> rfl
  have unheld : ∀ j, (WorkerProcess.start ipAddress reply).holds j ≠ true := by
    intro j holds
    rw [WorkerProcess.holds, WorkerProcess.start, unset] at holds
    cases holds
  exact {
    mapTasks := by simp [WorkerProcess.start, numFiles]
    reduceTasks := by simp [WorkerProcess.start, nReduce]
    holds := fun j holds => absurd holds (unheld j)
    reduced := by
      intro r reduced
      rw [WorkerProcess.reduced, WorkerProcess.start, unset] at reduced
      cases reduced
    files := by simp [WorkerProcess.start, Directory.empty]
    written := fun j _ holds => absurd holds (unheld j)
    phase := trivial }

theorem WorkerInv.enter (inv : WorkerInv program c worker) {phase : Phase}
    (holds : PhaseInv program c { worker with phase := phase }) :
    WorkerInv program c { worker with phase := phase } :=
  { inv with phase := holds }

/-- A worker that has just got the next map job. -/
theorem phaseInv_mapping (coordinator : CoordinatorInv program c) (worker : WorkerProcess)
    (open_ : c.mapper.currentJob < program.files.length) :
    PhaseInv program (c.handMap program.content c.mapper.currentJob worker.workerId)
      { worker with
        phase := .mapping (c.assignMap program.content c.mapper.currentJob worker.workerId).2 0 } := by
  have inside : c.mapper.currentJob < c.mapper.completedMappers.length := by
    rw [coordinator.mapChunks]
    exact open_
  have more : c.mapper.currentJob ≠ c.mapper.numFiles := by
    rw [coordinator.numFiles]
    omega
  exact {
    handed := by simp [Coordinator.handMap, Coordinator.advanceJob, Coordinator.assignMap, more]
    owner := by
      rw [Coordinator.mapChunk_handMap]
      exact congrArg WorkChunk.workerId (if_pos ⟨rfl, inside⟩)
    nReduce := coordinator.nreduce
    fileName := by
      rw [← coordinator.files]
      rfl
    content := rfl
    written := fun n below => absurd below (Nat.not_lt_zero n) }

/-- A worker that has just got the next reduce job, with the locations of all map workers. -/
theorem phaseInv_reducing (coordinator : CoordinatorInv program c) (inv : WorkerInv program c worker)
    {order : List Nat} (visits : order.Perm c.mapper.mapWorkerIds) (mapped : c.mapper.isDone = true)
    (open_ : c.reducer.currentJob < program.nReduce) :
    PhaseInv program (c.handReduce order c.reducer.currentJob worker.workerId)
      { worker with
        phase := .reducing (c.assignReduce order c.reducer.currentJob worker.workerId).2
          (c.getReduceFileLocations order) [] } := by
  have inside : c.reducer.currentJob < c.reducer.completedReducers.length := by
    rw [coordinator.reduceChunks]
    exact open_
  have more : c.reducer.currentJob ≠ c.nreduce := by
    rw [coordinator.nreduce]
    omega
  exact {
    mapped := mapped
    handed := by simp [Coordinator.handReduce, Coordinator.advanceJob, Coordinator.assignReduce, more]
    owner := by
      rw [Coordinator.reduceChunk_handReduce]
      exact congrArg WorkChunk.workerId (if_pos ⟨rfl, inside⟩)
    unfinished := by
      -- a finished reduce job has been handed out before
      cases done : worker.reduced c.reducer.currentJob with
      | false => exact done
      | true => exact absurd (inv.reduced _ done).1 (lt_irrefl _)
    listed := by
      show ((c.getReduceFileLocations order).map (·.workerId)).Perm c.mapper.mapWorkerIds
      simpa [Coordinator.getReduceFileLocations, Function.comp_def] using visits
    addresses := by
      intro location inReply
      obtain ⟨id, inOrder, rfl⟩ := List.mem_map.mp inReply
      obtain ⟨address, known⟩ := coordinator.known id (visits.mem_iff.mp inOrder)
      exact known.trans (by simp [known])
    collected := ⟨[], rfl, .nil⟩ }

/-- `DoMap` writes the buckets that `bucketData` describes. -/
theorem MappingInv.bucketContent {reply : WorkReply} {written : Nat}
    (inv : MappingInv program c worker reply written) {n : Nat} (inside : n < reply.nReduce) :
    WorkerProcess.bucketContent program reply n = program.bucketData reply.jobId n := by
  rw [WorkerProcess.bucketContent, intermediate_getD inside, inv.nReduce, inv.content, inv.fileName]
  rfl

theorem WorkerInv.writeBucket (inv : WorkerInv program c worker) {reply : WorkReply} {written : Nat}
    (mapping : worker.phase = .mapping reply written) (left : written < reply.nReduce) :
    WorkerInv program c { worker with
      dir := worker.dir.create (bucketFile reply.jobId written)
        (WorkerProcess.bucketContent program reply written)
      phase := .mapping reply (written + 1) } := by
  have phase := inv.phase
  rw [PhaseInv, mapping] at phase
  rw [phase.bucketContent left]
  -- a file that is there with its right content stays, whether or not it is the one written now
  have kept : ∀ j n, (bucketFile j n, program.bucketData j n) ∈ worker.dir.entries →
      (bucketFile j n, program.bucketData j n) ∈ (worker.dir.create (bucketFile reply.jobId written)
        (program.bucketData reply.jobId written)).entries := by
    intro j n member
    rw [Directory.mem_create]
    by_cases same : bucketFile j n = bucketFile reply.jobId written
    · obtain ⟨rfl, rfl⟩ := bucketFile_inj.mp same
      exact .inl rfl
    · exact .inr ⟨member, same⟩
  exact {
    mapTasks := inv.mapTasks
    reduceTasks := inv.reduceTasks
    holds := inv.holds
    reduced := inv.reduced
    files := by
      intro file member
      cases Directory.mem_create.mp member with
      | inl new => exact .inl ⟨_, _, phase.handed, phase.owner, new⟩
      | inr old => exact inv.files file old.1
    written := fun j n holds inside => kept j n (inv.written j n holds inside)
    phase := {
      handed := phase.handed
      owner := phase.owner
      nReduce := phase.nReduce
      fileName := phase.fileName
      content := phase.content
      written := by
        intro n below
        by_cases last : n = written
        · rw [last, Directory.mem_create]
          exact .inl rfl
        · exact kept _ n (phase.written n (by omega)) } }

theorem WorkerInv.finishMap (inv : WorkerInv program c worker) (coordinator : CoordinatorInv program c)
    {reply : WorkReply} (mapping : worker.phase = .mapping reply reply.nReduce) :
    WorkerInv program c (worker.callDone .map reply.jobId) ∧
      (worker.callDone .map reply.jobId).holds reply.jobId = true := by
  have phase := inv.phase
  rw [PhaseInv, mapping] at phase
  have inside : reply.jobId < worker.completedMapTasks.length := by
    rw [inv.mapTasks]
    exact lt_of_lt_of_le phase.handed coordinator.mapCurrent
  have holds : ∀ j, (worker.callDone .map reply.jobId).holds j = true →
      worker.holds j = true ∨ j = reply.jobId := by
    intro j done
    rw [callDone_map_holds, Bool.or_eq_true, decide_eq_true_eq] at done
    exact done.imp_right And.left
  constructor
  · exact {
      mapTasks := by simp [WorkerProcess.callDone, inv.mapTasks]
      reduceTasks := inv.reduceTasks
      holds := by
        intro j done
        cases holds j done with
        | inl old => exact inv.holds j old
        | inr new =>
          subst new
          exact ⟨phase.handed, phase.owner⟩
      reduced := inv.reduced
      files := inv.files
      written := by
        intro j n done below
        cases holds j done with
        | inl old => exact inv.written j n old below
        | inr new => exact new ▸ phase.written n (phase.nReduce ▸ below)
      phase := trivial }
  · simp [callDone_map_holds, inside]

theorem WorkerInv.finishReduce (inv : WorkerInv program c worker) (coordinator : CoordinatorInv program c)
    {reply : WorkReply} {left : List WorkerLocation} {bufferedFile : List KeyValue}
    (reducing : worker.phase = .reducing reply left bufferedFile) (outContent : Bytes) :
    WorkerInv program c ({ worker with
      dir := worker.dir.create (outFile reply.jobId) outContent }.callDone .reduce reply.jobId) := by
  have phase := inv.phase
  rw [PhaseInv, reducing] at phase
  have inside : reply.jobId < worker.completedReduceTasks.length := by
    rw [inv.reduceTasks]
    exact lt_of_lt_of_le phase.handed coordinator.reduceCurrent
  have reduced : ∀ r, (worker.completedReduceTasks.set reply.jobId true).getD r false = true ↔
      worker.reduced r = true ∨ r = reply.jobId := by
    intro r
    rw [WorkerProcess.reduced, List.getD_eq_getElem?_getD, List.getD_eq_getElem?_getD, List.getElem?_set]
    by_cases same : reply.jobId = r
    · simp [same, same ▸ inside]
    · simp [same, Ne.symm same]
  exact {
    mapTasks := inv.mapTasks
    reduceTasks := by simp [WorkerProcess.callDone, inv.reduceTasks]
    holds := inv.holds
    reduced := by
      intro r done
      cases (reduced r).mp done with
      | inl old => exact inv.reduced r old
      | inr new =>
        subst new
        exact ⟨phase.handed, phase.owner⟩
    files := by
      intro file member
      cases Directory.mem_create.mp member with
      | inl new => exact .inr ⟨_, _, (reduced _).mpr (.inr rfl), new⟩
      | inr old =>
        refine (inv.files file old.1).imp_right ?_
        rintro ⟨r, content, done, equal⟩
        exact ⟨r, content, (reduced r).mpr (.inl done), equal⟩
    written := by
      intro j n holds below
      exact Directory.mem_create.mpr (.inr ⟨inv.written j n holds below, bucketFile_ne_outFile j n _⟩)
    phase := trivial }

end Tda596Labs.MapReduce
