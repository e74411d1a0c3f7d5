import Mathlib.Algebra.GroupWithZero.Nat
import Mathlib.Data.List.Basic
import Mathlib.Data.List.GetD
import Mathlib.Data.List.Range
import Mathlib.Logic.Function.Basic
import Mathlib.Tactic.Common
import Tda596Labs.Lib.Bytes

/-! # The MapReduce coordinator

The state of `Coordinator` (`coordinator.go`) and its RPC handlers and timer, each as a function of the
state: all of them run under `CoordMutex`.  Worker ids start at 1, and 0 in a `WorkChunk` means that
nobody has the job.
-/

namespace Tda596Labs.MapReduce

def timeout : Nat := 10

structure WorkChunk where
  workerId : Nat
  completed : Bool
deriving DecidableEq, Repr, Inhabited

structure MapTracker where
  files : List String
  numFiles : Nat
  currentJob : Nat
  completedMappers : List WorkChunk
  mapWorkerIds : List Nat
deriving DecidableEq, Repr

structure ReduceTracker where
  currentJob : Nat
  completedReducers : List WorkChunk
  reduceWorkerIds : List Nat
deriving DecidableEq, Repr

structure Coordinator where
  isDone : Bool
  nreduce : Nat
  mapperTimeout : List Nat
  reducerTimeout : List Nat
  workers : Nat → Option String
  nextWorkerId : Nat
  mapper : MapTracker
  reducer : ReduceTracker

inductive Method where
  | map
  | reduce
  | wait
  | nowork
deriving DecidableEq, Repr

structure WorkerLocation where
  workerId : Nat
  address : String
deriving DecidableEq, Repr

structure WorkReply where
  workType : Method
  jobId : Nat
  numFiles : Nat
  nReduce : Nat
  mapFileName : String
  mapFileContent : Bytes
  reduceFileLocations : List WorkerLocation
deriving DecidableEq, Repr

structure WorkComplete where
  workType : Method
  jobId : Nat
  outputFile : Bytes
  workerId : Nat
deriving DecidableEq, Repr

structure WorkSetup where
  workerId : Nat
  numFiles : Nat
  nReduce : Nat
deriving DecidableEq, Repr

/-- A reply in which only the kind of work has been set. -/
def WorkReply.only (workType : Method) : WorkReply := ⟨workType, 0, 0, 0, "", [], []⟩

def MapTracker.isDone (mapper : MapTracker) : Bool := mapper.completedMappers.all (·.completed)

def ReduceTracker.isDone (reducer : ReduceTracker) : Bool := reducer.completedReducers.all (·.completed)

namespace Coordinator

/-- `MakeCoordinator` -/
def make (files : List String) (nReduce : Nat) : Coordinator where
  isDone := false
  nreduce := nReduce
  mapperTimeout := List.replicate files.length 0
  reducerTimeout := List.replicate nReduce 0
  workers := fun _ => none
  nextWorkerId := 1
  mapper := ⟨files, files.length, 0, List.replicate files.length ⟨0, false⟩, []⟩
  reducer := ⟨0, List.replicate nReduce ⟨0, false⟩, []⟩

/-! ## Handing out work -/

/-- What `getMapJob` and `retryMapper` do to hand out a map job: mark the worker as a producer of mapped
content, record it as the owner and start the timer. -/
def assignMap (c : Coordinator) (content : String → Bytes) (jobId workerId : Nat) :
    Coordinator × WorkReply :=
  let fileName := c.mapper.files.getD jobId ""
  ({ c with
      mapperTimeout := c.mapperTimeout.set jobId 1
      mapper := { c.mapper with
        mapWorkerIds := c.mapper.mapWorkerIds.insert workerId
        completedMappers := c.mapper.completedMappers.modify jobId ({ · with workerId := workerId }) } },
    { workType := .map, jobId := jobId, numFiles := c.mapper.numFiles, nReduce := c.nreduce,
      mapFileName := fileName, mapFileContent := content fileName, reduceFileLocations := [] })

/-- A timer has run out, or the job has been cleared. -/
def needsRetry (chunks : List WorkChunk) (timers : List Nat) (jobId : Nat) : Bool :=
  -- `Completed` is not looked at: a job that was completed after its timer ran out is handed out again
  timers.getD jobId 0 > timeout ||
    ((chunks.getD jobId default).workerId = 0 && timers.getD jobId 0 = 0)

/-- `retryMapper`: the first job that needs a retry, if there is one. -/
def retryMapper (c : Coordinator) (content : String → Bytes) (workerId : Nat) :
    Option (Coordinator × WorkReply) :=
  ((List.range c.mapperTimeout.length).find?
      (needsRetry c.mapper.completedMappers c.mapperTimeout)).map fun jobId =>
    c.assignMap content jobId workerId

def getMapJob (c : Coordinator) (content : String → Bytes) (workerId : Nat) :
    Coordinator × WorkReply :=
  if c.mapper.currentJob = c.mapper.numFiles then
    (c.retryMapper content workerId).getD (c, .only .wait)
  else
    let (c', reply) := c.assignMap content c.mapper.currentJob workerId
    ({ c' with mapper := { c'.mapper with currentJob := c.mapper.currentJob + 1 } }, reply)

/-- `getReduceFileLocations`.  Go visits the keys of `mapWorkerIds` in any order; `order` is the one it
takes. -/
def getReduceFileLocations (c : Coordinator) (order : List Nat) : List WorkerLocation :=
  order.map fun id => ⟨id, (c.workers id).getD ""⟩

def assignReduce (c : Coordinator) (order : List Nat) (jobId workerId : Nat) :
    Coordinator × WorkReply :=
  ({ c with
      reducerTimeout := c.reducerTimeout.set jobId 1
      reducer := { c.reducer with
        reduceWorkerIds := c.reducer.reduceWorkerIds.insert workerId
        completedReducers :=
          c.reducer.completedReducers.modify jobId ({ · with workerId := workerId }) } },
    { workType := .reduce, jobId := jobId, numFiles := c.mapper.numFiles, nReduce := c.nreduce,
      mapFileName := "", mapFileContent := [], reduceFileLocations := c.getReduceFileLocations order })

/-- `retryReducer` -/
def retryReducer (c : Coordinator) (order : List Nat) (workerId : Nat) :
    Option (Coordinator × WorkReply) :=
  ((List.range c.reducerTimeout.length).find?
      (needsRetry c.reducer.completedReducers c.reducerTimeout)).map fun jobId =>
    c.assignReduce order jobId workerId

def getReduceJob (c : Coordinator) (order : List Nat) (workerId : Nat) : Coordinator × WorkReply :=
  if c.reducer.currentJob = c.nreduce then
    (c.retryReducer order workerId).getD (c, .only .wait)
  else
    let (c', reply) := c.assignReduce order c.reducer.currentJob workerId
    ({ c' with reducer := { c'.reducer with currentJob := c.reducer.currentJob + 1 } }, reply)

def getWork (c : Coordinator) (content : String → Bytes) (order : List Nat) (workerId : Nat) :
    Coordinator × WorkReply :=
  if c.isDone then (c, .only .nowork)
  else if c.mapper.isDone then c.getReduceJob order workerId
  else c.getMapJob content workerId

/-! ## The other handlers and the timer -/

/-- `DoSetup` -/
def doSetup (c : Coordinator) (ipAddress : String) : Coordinator × WorkSetup :=
  ({ c with
      workers := Function.update c.workers c.nextWorkerId (some ipAddress)
      nextWorkerId := c.nextWorkerId + 1 },
    ⟨c.nextWorkerId, c.mapper.numFiles, c.nreduce⟩)

/-- `WorkDone`, without the output file it creates for a reduce job. -/
def workDone (c : Coordinator) (complete : WorkComplete) : Coordinator :=
  match complete.workType with
  | .map =>
    { c with mapper := { c.mapper with
        -- whoever reports the job completes it, whether or not it is the recorded owner
        completedMappers := c.mapper.completedMappers.modify complete.jobId ({ · with completed := true }) } }
  | .reduce =>
    { c with reducer := { c.reducer with
        completedReducers :=
          c.reducer.completedReducers.modify complete.jobId ({ · with completed := true }) } }
  | _ => c

def clearMapDeadWorker (c : Coordinator) (workerId : Nat) : Coordinator :=
  { c with
    mapperTimeout := c.mapperTimeout.mapIdx fun i timer =>
      if (c.mapper.completedMappers.getD i default).workerId = workerId then 0 else timer
    mapper := { c.mapper with
      completedMappers := c.mapper.completedMappers.map fun chunk =>
        if chunk.workerId = workerId then ⟨0, false⟩ else chunk } }

def clearAllWork (c : Coordinator) (workerId : Nat) : Coordinator :=
  let c := c.clearMapDeadWorker workerId
  { c with
    -- the reduce jobs of the worker stay as they are
    mapper := { c.mapper with mapWorkerIds := c.mapper.mapWorkerIds.filter (· ≠ workerId) }
    workers := Function.update c.workers workerId none }

/-- `WorkerDead`: the work of the unreachable worker and the reduce job that failed. -/
def workerDead (c : Coordinator) (workerId jobId : Nat) : Coordinator :=
  let c := c.clearAllWork workerId
  { c with
    reducerTimeout := c.reducerTimeout.set jobId 0
    reducer := { c.reducer with
      completedReducers := c.reducer.completedReducers.modify jobId ({ · with workerId := 0 }) } }

/-- Timers of jobs in progress advance by one. -/
def advance (chunks : List WorkChunk) (timers : List Nat) : List Nat :=
  timers.mapIdx fun n timer =>
    let workChunk := chunks.getD n default
    -- the timer of a completed job stops where it is
    let inProgress := workChunk.workerId > 0 && !workChunk.completed
    if timer > 0 && inProgress then timer + 1 else timer

def updateMapper (c : Coordinator) : Coordinator :=
  { c with mapperTimeout := advance c.mapper.completedMappers c.mapperTimeout }

def updateReducer (c : Coordinator) : Coordinator :=
  { c with reducerTimeout := advance c.reducer.completedReducers c.reducerTimeout }

/-- One turn of the loop of `serverHandler`. -/
def serverHandler (c : Coordinator) : Coordinator :=
  let mapperDone := c.mapper.isDone
  let reducerDone := c.reducer.isDone
  let c := if mapperDone && reducerDone then { c with isDone := true } else c
  -- the timers of the two phases never run at the same time
  if !mapperDone then c.updateMapper else c.updateReducer

/-! ## What the handlers do

The job that `GetWork` picks is a function of the state; the rest of a reply follows from it. -/

/-- The map job that `getMapJob` hands out next. -/
def nextMapJob (c : Coordinator) : Option Nat :=
  if c.mapper.currentJob = c.mapper.numFiles then
    (List.range c.mapperTimeout.length).find? (needsRetry c.mapper.completedMappers c.mapperTimeout)
  else some c.mapper.currentJob

/-- The reduce job that `getReduceJob` hands out next. -/
def nextReduceJob (c : Coordinator) : Option Nat :=
  if c.reducer.currentJob = c.nreduce then
    (List.range c.reducerTimeout.length).find? (needsRetry c.reducer.completedReducers c.reducerTimeout)
  else some c.reducer.currentJob

/-- How `currentJob` moves when a job is handed out. -/
def advanceJob (currentJob jobs : Nat) : Nat := if currentJob = jobs then currentJob else currentJob + 1

def handMap (c : Coordinator) (content : String → Bytes) (jobId workerId : Nat) : Coordinator :=
  let c' := (c.assignMap content jobId workerId).1
  { c' with mapper := { c'.mapper with
      currentJob := advanceJob c.mapper.currentJob c.mapper.numFiles } }

def handReduce (c : Coordinator) (order : List Nat) (jobId workerId : Nat) : Coordinator :=
  let c' := (c.assignReduce order jobId workerId).1
  { c' with reducer := { c'.reducer with
      currentJob := advanceJob c.reducer.currentJob c.nreduce } }

inductive GetWorkEffect (c : Coordinator) (content : String → Bytes) (order : List Nat) (workerId : Nat) :
    Coordinator × WorkReply → Prop where
  | quiet {workType : Method} (idle : workType = .wait ∨ workType = .nowork) :
      GetWorkEffect c content order workerId (c, .only workType)
  | map {j : Nat} (running : c.isDone = false) (unfinished : c.mapper.isDone = false)
      (next : c.nextMapJob = some j) :
      GetWorkEffect c content order workerId
        (c.handMap content j workerId, (c.assignMap content j workerId).2)
  | reduce {r : Nat} (running : c.isDone = false) (mapped : c.mapper.isDone = true)
      (next : c.nextReduceJob = some r) :
      GetWorkEffect c content order workerId
        (c.handReduce order r workerId, (c.assignReduce order r workerId).2)

theorem getWork_done {c : Coordinator} (done : c.isDone = true) (content : String → Bytes)
    (order : List Nat) (workerId : Nat) : c.getWork content order workerId = (c, .only .nowork) := by
  simp [getWork, done]

section Phases

variable {c : Coordinator} (running : c.isDone = false) (content : String → Bytes) (order : List Nat)
  (workerId : Nat)

include running

theorem getWork_map {j : Nat} (unfinished : c.mapper.isDone = false) (next : c.nextMapJob = some j) :
    c.getWork content order workerId =
      (c.handMap content j workerId, (c.assignMap content j workerId).2) := by
  by_cases all : c.mapper.currentJob = c.mapper.numFiles
  · -- a retry leaves `currentJob` where it is, at the end
    simp only [nextMapJob, if_pos all] at next
    simp [getWork, running, unfinished, getMapJob, retryMapper, all, next, handMap, advanceJob, assignMap]
  · simp only [nextMapJob, if_neg all, Option.some.injEq] at next
    subst next
    simp [getWork, running, unfinished, getMapJob, all, handMap, advanceJob]

theorem getWork_map_wait (unfinished : c.mapper.isDone = false) (next : c.nextMapJob = none) :
    c.getWork content order workerId = (c, .only .wait) := by
  by_cases all : c.mapper.currentJob = c.mapper.numFiles
  · simp only [nextMapJob, if_pos all] at next
    simp [getWork, running, unfinished, getMapJob, retryMapper, all, next]
  · simp [nextMapJob, all] at next

theorem getWork_reduce {r : Nat} (mapped : c.mapper.isDone = true) (next : c.nextReduceJob = some r) :
    c.getWork content order workerId =
      (c.handReduce order r workerId, (c.assignReduce order r workerId).2) := by
  by_cases all : c.reducer.currentJob = c.nreduce
  · simp only [nextReduceJob, if_pos all] at next
    simp [getWork, running, mapped, getReduceJob, retryReducer, all, next, handReduce, advanceJob,
      assignReduce]
  · simp only [nextReduceJob, if_neg all, Option.some.injEq] at next
    subst next
    simp [getWork, running, mapped, getReduceJob, all, handReduce, advanceJob]

theorem getWork_reduce_wait (mapped : c.mapper.isDone = true) (next : c.nextReduceJob = none) :
    c.getWork content order workerId = (c, .only .wait) := by
  by_cases all : c.reducer.currentJob = c.nreduce
  · simp only [nextReduceJob, if_pos all] at next
    simp [getWork, running, mapped, getReduceJob, retryReducer, all, next]
  · simp [nextReduceJob, all] at next

end Phases

theorem getWork_effect (c : Coordinator) (content : String → Bytes) (order : List Nat) (workerId : Nat) :
    GetWorkEffect c content order workerId (c.getWork content order workerId) := by
  cases running : c.isDone with
  | true =>
    rw [getWork_done running]
    exact .quiet (.inr rfl)
  | false =>
    cases mapped : c.mapper.isDone with
    | true =>
      cases next : c.nextReduceJob with
      | none =>
        rw [getWork_reduce_wait running content order workerId mapped next]
        exact .quiet (.inl rfl)
      | some r =>
        rw [getWork_reduce running content order workerId mapped next]
        exact .reduce running mapped next
    | false =>
      cases next : c.nextMapJob with
      | none =>
        rw [getWork_map_wait running content order workerId mapped next]
        exact .quiet (.inl rfl)
      | some j =>
        rw [getWork_map running content order workerId mapped next]
        exact .map running mapped next

/-! ### The records of the jobs -/

/-- `completedMappers[j]` -/
def mapChunk (c : Coordinator) (j : Nat) : WorkChunk := c.mapper.completedMappers.getD j default

/-- `completedReducers[r]` -/
def reduceChunk (c : Coordinator) (r : Nat) : WorkChunk := c.reducer.completedReducers.getD r default

@[simp] theorem mapChunk_make (files : List String) (nReduce j : Nat) :
    (make files nReduce).mapChunk j = ⟨0, false⟩ := by
  simp only [mapChunk, make, List.getD_eq_getElem?_getD, List.getElem?_replicate]
  split <;> rfl

@[simp] theorem reduceChunk_make (files : List String) (nReduce r : Nat) :
    (make files nReduce).reduceChunk r = ⟨0, false⟩ := by
  simp only [reduceChunk, make, List.getD_eq_getElem?_getD, List.getElem?_replicate]
  split <;> rfl

theorem getD_modify {chunks : List WorkChunk} {j i : Nat} {f : WorkChunk → WorkChunk} :
    (chunks.modify j f).getD i default =
      if i = j ∧ j < chunks.length then f (chunks.getD i default) else chunks.getD i default := by
  rw [List.getD_eq_getElem?_getD, List.getD_eq_getElem?_getD, List.getElem?_modify]
  by_cases same : i = j
  · subst same
    by_cases inside : i < chunks.length
    · simp [inside]
    · simp [inside]
  · simp [same, Ne.symm same]

theorem mapChunk_handMap (c : Coordinator) (content : String → Bytes) (j workerId i : Nat) :
    (c.handMap content j workerId).mapChunk i =
      if i = j ∧ j < c.mapper.completedMappers.length then { c.mapChunk i with workerId := workerId }
      else c.mapChunk i :=
  getD_modify

/-- `serverHandler` moves timers and `isDone` only. -/
theorem serverHandler_frame (c : Coordinator) :
    c.serverHandler.mapper = c.mapper ∧ c.serverHandler.reducer = c.reducer ∧
      c.serverHandler.nreduce = c.nreduce ∧ c.serverHandler.workers = c.workers ∧
      c.serverHandler.nextWorkerId = c.nextWorkerId := by
  simp only [serverHandler]
  split <;> split <;> exact ⟨rfl, rfl, rfl, rfl, rfl⟩

/-- `WorkDone` moves the two trackers only, and there only the flags of the jobs. -/
theorem workDone_frame (c : Coordinator) (complete : WorkComplete) :
    (c.workDone complete).mapper.mapWorkerIds = c.mapper.mapWorkerIds ∧
      (c.workDone complete).workers = c.workers ∧
      (c.workDone complete).nextWorkerId = c.nextWorkerId ∧
      (c.workDone complete).mapper.completedMappers.length = c.mapper.completedMappers.length := by
  cases kind : complete.workType <;> simp [workDone, kind]

theorem workDone_static (c : Coordinator) (complete : WorkComplete) :
    (c.workDone complete).mapper.files = c.mapper.files ∧
      (c.workDone complete).mapper.numFiles = c.mapper.numFiles ∧
      (c.workDone complete).nreduce = c.nreduce ∧ (c.workDone complete).isDone = c.isDone ∧
      (c.workDone complete).mapper.currentJob = c.mapper.currentJob ∧
      (c.workDone complete).reducer.currentJob = c.reducer.currentJob ∧
      (c.workDone complete).reducer.completedReducers.length = c.reducer.completedReducers.length := by
  cases kind : complete.workType <;> simp [workDone, kind]

/-- `IsDone` is set when both phases are done. -/
theorem serverHandler_done (c : Coordinator)
    (before : c.isDone = true → c.mapper.isDone = true ∧ c.reducer.isDone = true)
    (done : c.serverHandler.isDone = true) : c.mapper.isDone = true ∧ c.reducer.isDone = true := by
  by_cases both : c.mapper.isDone = true ∧ c.reducer.isDone = true
  · exact both
  · apply before
    have unset : (c.mapper.isDone && c.reducer.isDone) = false := by
      simpa [Bool.and_eq_false_iff, not_and_or] using both
    simp only [serverHandler, unset, Bool.false_eq_true, if_false] at done
    split at done <;> exact done

theorem getWork_frame {c c' : Coordinator} {content : String → Bytes} {order : List Nat} {workerId : Nat}
    {reply : WorkReply} (handled : GetWorkEffect c content order workerId (c', reply)) :
    c'.workers = c.workers ∧ c'.nextWorkerId = c.nextWorkerId ∧ c'.nreduce = c.nreduce ∧
      c'.mapper.completedMappers.length = c.mapper.completedMappers.length := by
  cases handled with
  | quiet => exact ⟨rfl, rfl, rfl, rfl⟩
  | map => exact ⟨rfl, rfl, rfl, by simp [handMap, assignMap]⟩
  | reduce => exact ⟨rfl, rfl, rfl, rfl⟩

theorem mapChunk_workDone (c : Coordinator) (complete : WorkComplete) (i : Nat) :
    (c.workDone complete).mapChunk i =
      if complete.workType = .map ∧ i = complete.jobId ∧ complete.jobId < c.mapper.completedMappers.length
      then { c.mapChunk i with completed := true } else c.mapChunk i := by
  cases kind : complete.workType with
  | map =>
    simp only [workDone, kind, mapChunk, getD_modify, true_and]
  | reduce => simp [workDone, kind, mapChunk]
  | wait => simp [workDone, kind]
  | nowork => simp [workDone, kind]

theorem reduceChunk_handReduce (c : Coordinator) (order : List Nat) (r workerId i : Nat) :
    (c.handReduce order r workerId).reduceChunk i =
      if i = r ∧ r < c.reducer.completedReducers.length then { c.reduceChunk i with workerId := workerId }
      else c.reduceChunk i :=
  getD_modify

theorem reduceChunk_workDone (c : Coordinator) (complete : WorkComplete) (i : Nat) :
    (c.workDone complete).reduceChunk i =
      if complete.workType = .reduce ∧ i = complete.jobId ∧
          complete.jobId < c.reducer.completedReducers.length
      then { c.reduceChunk i with completed := true } else c.reduceChunk i := by
  cases kind : complete.workType with
  | map => simp [workDone, kind, reduceChunk]
  | reduce =>
    simp only [workDone, kind, reduceChunk, getD_modify, true_and]
  | wait => simp [workDone, kind]
  | nowork => simp [workDone, kind]

/-- `WorkDone` changes no owner and takes back no completion. -/
theorem mapChunk_workDone_keeps (c : Coordinator) (complete : WorkComplete) (i : Nat) :
    ((c.workDone complete).mapChunk i).workerId = (c.mapChunk i).workerId ∧
      ((c.mapChunk i).completed = true → ((c.workDone complete).mapChunk i).completed = true) := by
  rw [mapChunk_workDone]
  split
  · exact ⟨rfl, fun _ => rfl⟩
  · exact ⟨rfl, fun completed => completed⟩

theorem reduceChunk_workDone_keeps (c : Coordinator) (complete : WorkComplete) (i : Nat) :
    ((c.workDone complete).reduceChunk i).workerId = (c.reduceChunk i).workerId ∧
      ((c.reduceChunk i).completed = true → ((c.workDone complete).reduceChunk i).completed = true) := by
  rw [reduceChunk_workDone]
  split
  · exact ⟨rfl, fun _ => rfl⟩
  · exact ⟨rfl, fun completed => completed⟩

theorem mapChunk_workerDead (c : Coordinator) (workerId jobId i : Nat) :
    (c.workerDead workerId jobId).mapChunk i =
      if (c.mapChunk i).workerId = workerId then ⟨0, false⟩ else c.mapChunk i := by
  simp only [mapChunk, workerDead, clearAllWork, clearMapDeadWorker, List.getD_eq_getElem?_getD,
    List.getElem?_map]
  cases c.mapper.completedMappers[i]? with
  | none =>
    -- outside the list both sides are the zero chunk
    simp only [Option.map_none, Option.getD_none]
    split <;> rfl
  | some chunk => simp

theorem all_completed_iff {chunks : List WorkChunk} :
    chunks.all (·.completed) = true ↔ ∀ j < chunks.length, (chunks.getD j default).completed = true := by
  simp only [List.all_eq_true]
  constructor
  · intro all j inside
    rw [List.getD_eq_getElem _ _ inside]
    exact all _ (List.getElem_mem inside)
  · intro all chunk member
    obtain ⟨j, inside, rfl⟩ := List.getElem_of_mem member
    have entry := all j inside
    rw [List.getD_eq_getElem _ _ inside] at entry
    exact entry

theorem mapper_isDone_iff {c : Coordinator} :
    c.mapper.isDone = true ↔ ∀ j < c.mapper.completedMappers.length, (c.mapChunk j).completed = true :=
  all_completed_iff

theorem reducer_isDone_iff {c : Coordinator} :
    c.reducer.isDone = true ↔
      ∀ r < c.reducer.completedReducers.length, (c.reduceChunk r).completed = true :=
  all_completed_iff

/-- A report only ever sets flags, so what was done stays done. -/
theorem mapper_isDone_workDone {c : Coordinator} (complete : WorkComplete) (done : c.mapper.isDone = true) :
    (c.workDone complete).mapper.isDone = true := by
  rw [mapper_isDone_iff] at done ⊢
  rw [(c.workDone_frame complete).2.2.2]
  exact fun j inside => (c.mapChunk_workDone_keeps complete j).2 (done j inside)

theorem reducer_isDone_workDone {c : Coordinator} (complete : WorkComplete) (done : c.reducer.isDone = true) :
    (c.workDone complete).reducer.isDone = true := by
  obtain ⟨_, _, _, _, _, _, length⟩ := c.workDone_static complete
  rw [reducer_isDone_iff] at done ⊢
  rw [length]
  exact fun r inside => (c.reduceChunk_workDone_keeps complete r).2 (done r inside)

end Coordinator

end Tda596Labs.MapReduce
