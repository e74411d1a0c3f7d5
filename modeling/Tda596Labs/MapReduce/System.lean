import Tda596Labs.Lib.Transition
import Tda596Labs.MapReduce.Grouping

/-! # The coordinator and its workers

A worker asks for work, does the job and reports it, one after the other (`Worker`, `worker.go`).  An
event is one file or buffer operation of a worker, one RPC handled by the coordinator, or one turn of
`serverHandler`.  A `WorkDone` message is handled at any time after it was sent; a worker may stop at
any time, and a fetch from another worker may fail at any time.
-/

namespace Tda596Labs.MapReduce

open Tda596Labs.Transition

/-- Where the loop of `Worker` stands. -/
inductive Phase where
  | idle
  /-- in `DoMap`, with the number of buckets written so far -/
  | mapping (reply : WorkReply) (written : Nat)
  /-- in `DoReduce`, with the locations still to be asked and the pairs collected so far -/
  | reducing (reply : WorkReply) (left : List WorkerLocation) (bufferedFile : List KeyValue)
  /-- in `DoReduce`, about to call `WorkerDead` -/
  | reporting (unreachableWorker : WorkerLocation) (jobId : Nat)
  /-- in `CallDone`, waiting for the answer -/
  | calling
  /-- the process has ended -/
  | exited
deriving DecidableEq, Repr

structure WorkerProcess where
  workerId : Nat
  ipAddress : String
  completedMapTasks : List Bool
  completedReduceTasks : List Bool
  dir : Directory Bytes
  phase : Phase

structure System where
  coordinator : Coordinator
  workers : List WorkerProcess
  /-- the `WorkDone` calls that have been made and not been handled -/
  inflight : List WorkComplete
  /-- the directory `./output` of the coordinator -/
  output : Directory Bytes

inductive Event where
  | setup (ipAddress : String)
  | getWork (k : Nat) (order : List Nat)
  | writeBucket (k : Nat)
  | finishMap (k : Nat)
  | fetch (k : Nat) (ok : Bool)
  | finishReduce (k : Nat) (sorted : List KeyValue)
  | reportDead (k : Nat)
  | callReturns (k : Nat)
  | workDone (i : Nat) (created : Bool)
  | tick
  | crash (k : Nat)
deriving DecidableEq, Repr

namespace WorkerProcess

/-- The worker has finished `DoMap` for a map job. -/
def holds (worker : WorkerProcess) (j : Nat) : Bool := worker.completedMapTasks.getD j false

/-- A worker after `CallSetup`, in an empty directory. -/
def start (ipAddress : String) (reply : WorkSetup) : WorkerProcess where
  workerId := reply.workerId
  ipAddress := ipAddress
  completedMapTasks := List.replicate reply.numFiles false
  completedReduceTasks := List.replicate reply.nReduce false
  dir := .empty
  phase := .idle

/-- What the loop of `Worker` does with a reply of `GetWork`. -/
def accept (worker : WorkerProcess) (reply : WorkReply) : WorkerProcess :=
  match reply.workType with
  | .nowork => { worker with phase := .exited }
  | .wait => { worker with phase := .idle }
  | .map => { worker with phase := .mapping reply 0 }
  | .reduce => { worker with phase := .reducing reply reply.reduceFileLocations [] }

/-- `updateWorkingCompletedFiles` and the start of the call in `CallDone`. -/
def callDone (worker : WorkerProcess) (workType : Method) (jobId : Nat) : WorkerProcess :=
  match workType with
  | .map =>
    { worker with completedMapTasks := worker.completedMapTasks.set jobId true, phase := .calling }
  | _ =>
    { worker with completedReduceTasks := worker.completedReduceTasks.set jobId true, phase := .calling }

/-- The content that `DoMap` writes into a bucket file. -/
def bucketContent (program : Program) (reply : WorkReply) (n : Nat) : Bytes :=
  ((intermediate reply.nReduce (program.mapf reply.mapFileName reply.mapFileContent)).getD n []).flatMap
    program.encode

/-- `getFiles` for `MAPFILES`, and the same search in the worker's own directory. -/
def getFiles (worker : WorkerProcess) (jobId : Nat) : Bytes :=
  retreiveFiles worker.dir (bucketPattern jobId)

end WorkerProcess

namespace System

def init (program : Program) : System where
  coordinator := .make program.files program.nReduce
  workers := []
  inflight := []
  output := .empty

def setWorker (s : System) (k : Nat) (worker : WorkerProcess) : System :=
  { s with workers := s.workers.set k worker }

/-- The worker whose RPC server answers at an address. -/
def serving (s : System) (address : String) : Option WorkerProcess :=
  s.workers.find? fun worker => worker.ipAddress = address && worker.phase ≠ .exited

def getWork (program : Program) (s : System) (k : Nat) (order : List Nat) : Option System := do
  let worker ← s.workers[k]?
  -- any order of `mapWorkerIds` is an order in which Go may range over the map
  if worker.phase = .idle ∧ order.Perm s.coordinator.mapper.mapWorkerIds then
    let (coordinator, reply) := s.coordinator.getWork program.content order worker.workerId
    some { s.setWorker k (worker.accept reply) with coordinator := coordinator }
  else none

def writeBucket (program : Program) (s : System) (k : Nat) : Option System := do
  let worker ← s.workers[k]?
  match worker.phase with
  | .mapping reply written =>
    if written < reply.nReduce then
      some (s.setWorker k { worker with
        dir := worker.dir.create (bucketFile reply.jobId written)
          (WorkerProcess.bucketContent program reply written)
        phase := .mapping reply (written + 1) })
    else none
  | _ => none

def finishMap (s : System) (k : Nat) : Option System := do
  let worker ← s.workers[k]?
  match worker.phase with
  | .mapping reply written =>
    if written = reply.nReduce then
      some { s.setWorker k (worker.callDone .map reply.jobId) with
        inflight := s.inflight ++ [⟨.map, reply.jobId, [], worker.workerId⟩] }
    else none
  | _ => none

/-- One turn of the first loop of `DoReduce`. -/
def fetch (program : Program) (s : System) (k : Nat) (ok : Bool) : Option System := do
  let worker ← s.workers[k]?
  match worker.phase with
  | .reducing reply (location :: left) bufferedFile =>
    let append (fileData : Bytes) : System :=
      s.setWorker k { worker with
        phase := .reducing reply left (bufferedFile ++ program.decode fileData) }
    let failed : System :=
      s.setWorker k { worker with phase := .reporting location reply.jobId }
    -- the worker's own files are read without a call
    if location.workerId = worker.workerId then some (append (worker.getFiles reply.jobId))
    else if location.address ≠ worker.ipAddress then
      if ok then (s.serving location.address).map fun other => append (other.getFiles reply.jobId)
      else some failed
    -- another worker that claims this worker's own address
    else some failed
  | _ => none

/-- The rest of `DoReduce`, up to the call of `WorkDone`. -/
def finishReduce (program : Program) (s : System) (k : Nat) (sorted : List KeyValue) :
    Option System := do
  let worker ← s.workers[k]?
  match worker.phase with
  | .reducing reply [] bufferedFile =>
    -- `sort.Sort` is not stable, so the event names the result it gives
    if SortedByKey bufferedFile sorted then
      let calls ← reduceCalls sorted
      let outContent := report program.reducef calls
      let worker := { worker with dir := worker.dir.create (outFile reply.jobId) outContent }
      some { s.setWorker k (worker.callDone .reduce reply.jobId) with
        inflight := s.inflight ++ [⟨.reduce, reply.jobId, outContent, worker.workerId⟩] }
    else none
  | _ => none

def reportDead (s : System) (k : Nat) : Option System := do
  let worker ← s.workers[k]?
  match worker.phase with
  | .reporting unreachableWorker jobId =>
    some { s.setWorker k { worker with phase := .idle } with
      coordinator := s.coordinator.workerDead unreachableWorker.workerId jobId }
  | _ => none

/-- `WorkDone`; `created` says whether `os.Create` of the output file succeeds. -/
def workDone (s : System) (i : Nat) (created : Bool) : Option System := do
  let complete ← s.inflight[i]?
  some { s with
    -- the job counts as completed even if the file could not be created
    coordinator := s.coordinator.workDone complete
    inflight := s.inflight.eraseIdx i
    output :=
      if complete.workType = .reduce ∧ created then
        s.output.create (outFile complete.jobId) complete.outputFile
      else s.output }

def enter (s : System) (k : Nat) (allowed : Phase → Bool) (phase : Phase) : Option System := do
  let worker ← s.workers[k]?
  if allowed worker.phase then some (s.setWorker k { worker with phase := phase }) else none

def step (program : Program) (s : System) : Event → Option System
  | .setup ipAddress =>
    let (coordinator, reply) := s.coordinator.doSetup ipAddress
    some { s with
      coordinator := coordinator
      workers := s.workers ++ [WorkerProcess.start ipAddress reply] }
  | .getWork k order => s.getWork program k order
  | .writeBucket k => s.writeBucket program k
  | .finishMap k => s.finishMap k
  | .fetch k ok => s.fetch program k ok
  | .finishReduce k sorted => s.finishReduce program k sorted
  | .reportDead k => s.reportDead k
  | .callReturns k => s.enter k (· = .calling) .idle
  | .workDone i created => s.workDone i created
  | .tick => some { s with coordinator := s.coordinator.serverHandler }
  | .crash k => s.enter k (· ≠ .exited) .exited

abbrev SystemRun (program : Program) := Run (step program) (init program)

/-! ## What a step can do -/

/-- Where the pairs of one turn of the fetch loop come from: the worker itself, or the worker that
answers at the location's address. -/
inductive Source (s : System) (worker : WorkerProcess) (location : WorkerLocation) :
    WorkerProcess → Prop where
  | own (same : location.workerId = worker.workerId) : Source s worker location worker
  | other {source : WorkerProcess} (different : location.workerId ≠ worker.workerId)
      (answers : s.serving location.address = some source) : Source s worker location source

inductive Effect (program : Program) (s : System) : Event → System → Prop where
  | setup (ipAddress : String) :
      Effect program s (.setup ipAddress) { s with
        coordinator := (s.coordinator.doSetup ipAddress).1
        workers := s.workers ++ [WorkerProcess.start ipAddress (s.coordinator.doSetup ipAddress).2] }
  | getWork {k : Nat} {order : List Nat} {worker : WorkerProcess} (found : s.workers[k]? = some worker)
      (idle : worker.phase = .idle) (visits : order.Perm s.coordinator.mapper.mapWorkerIds)
      {coordinator : Coordinator} {reply : WorkReply}
      (handled : s.coordinator.GetWorkEffect program.content order worker.workerId (coordinator, reply)) :
      Effect program s (.getWork k order)
        { s.setWorker k (worker.accept reply) with coordinator := coordinator }
  | writeBucket {k : Nat} {worker : WorkerProcess} {reply : WorkReply} {written : Nat}
      (found : s.workers[k]? = some worker) (mapping : worker.phase = .mapping reply written)
      (left : written < reply.nReduce) :
      Effect program s (.writeBucket k) (s.setWorker k { worker with
        dir := worker.dir.create (bucketFile reply.jobId written)
          (WorkerProcess.bucketContent program reply written)
        phase := .mapping reply (written + 1) })
  | finishMap {k : Nat} {worker : WorkerProcess} {reply : WorkReply}
      (found : s.workers[k]? = some worker) (mapping : worker.phase = .mapping reply reply.nReduce) :
      Effect program s (.finishMap k)
        { s.setWorker k (worker.callDone .map reply.jobId) with
          inflight := s.inflight ++ [⟨.map, reply.jobId, [], worker.workerId⟩] }
  | fetched {k : Nat} {ok : Bool} {worker source : WorkerProcess} {reply : WorkReply}
      {location : WorkerLocation} {left : List WorkerLocation} {bufferedFile : List KeyValue}
      (found : s.workers[k]? = some worker)
      (reducing : worker.phase = .reducing reply (location :: left) bufferedFile)
      (reads : Source s worker location source) :
      Effect program s (.fetch k ok) (s.setWorker k { worker with
        phase := .reducing reply left (bufferedFile ++ program.decode (source.getFiles reply.jobId)) })
  | fetchFailed {k : Nat} {ok : Bool} {worker : WorkerProcess} {reply : WorkReply}
      {location : WorkerLocation} {left : List WorkerLocation} {bufferedFile : List KeyValue}
      (found : s.workers[k]? = some worker)
      (reducing : worker.phase = .reducing reply (location :: left) bufferedFile) :
      Effect program s (.fetch k ok)
        (s.setWorker k { worker with phase := .reporting location reply.jobId })
  | finishReduce {k : Nat} {sorted : List KeyValue} {worker : WorkerProcess} {reply : WorkReply}
      {bufferedFile : List KeyValue} (found : s.workers[k]? = some worker)
      (reducing : worker.phase = .reducing reply [] bufferedFile)
      (result : SortedByKey bufferedFile sorted) :
      Effect program s (.finishReduce k sorted)
        { s.setWorker k ({ worker with
            dir := worker.dir.create (outFile reply.jobId) (report program.reducef (groups sorted))
          }.callDone .reduce reply.jobId) with
          inflight := s.inflight ++
            [⟨.reduce, reply.jobId, report program.reducef (groups sorted), worker.workerId⟩] }
  | reportDead {k : Nat} {worker : WorkerProcess} {location : WorkerLocation} {jobId : Nat}
      (found : s.workers[k]? = some worker) (reporting : worker.phase = .reporting location jobId) :
      Effect program s (.reportDead k)
        { s.setWorker k { worker with phase := .idle } with
          coordinator := s.coordinator.workerDead location.workerId jobId }
  | enter {e : Event} {k : Nat} {worker : WorkerProcess} {phase : Phase}
      (kind : e = .callReturns k ∨ e = .crash k) (found : s.workers[k]? = some worker)
      (next : phase = .idle ∨ phase = .exited) :
      Effect program s e (s.setWorker k { worker with phase := phase })
  | workDone {i : Nat} {created : Bool} {complete : WorkComplete}
      (found : s.inflight[i]? = some complete) :
      Effect program s (.workDone i created) { s with
        coordinator := s.coordinator.workDone complete
        inflight := s.inflight.eraseIdx i
        output :=
          if complete.workType = .reduce ∧ created then
            s.output.create (outFile complete.jobId) complete.outputFile
          else s.output }
  | tick : Effect program s .tick { s with coordinator := s.coordinator.serverHandler }

theorem enter_effect {program : Program} {s t : System} {e : Event} {k : Nat} {allowed : Phase → Bool}
    {phase : Phase} (kind : e = .callReturns k ∨ e = .crash k) (next : phase = .idle ∨ phase = .exited)
    (moved : s.enter k allowed phase = some t) :
    Effect program s e t := by
  cases found : s.workers[k]? with
  | none => simp [enter, found] at moved
  | some worker =>
    simp only [enter, found, Option.bind_eq_bind, Option.bind_some] at moved
    split at moved
    · cases moved
      exact .enter kind found next
    · cases moved

theorem getWork_step_effect {program : Program} {s t : System} {k : Nat} {order : List Nat}
    (moved : s.getWork program k order = some t) : Effect program s (.getWork k order) t := by
  cases found : s.workers[k]? with
  | none => simp [getWork, found] at moved
  | some worker =>
    simp only [getWork, found, Option.bind_eq_bind, Option.bind_some] at moved
    split at moved
    · next enabled =>
      cases moved
      exact .getWork found enabled.1 enabled.2 (s.coordinator.getWork_effect _ _ _)
    · cases moved

theorem writeBucket_effect {program : Program} {s t : System} {k : Nat}
    (moved : s.writeBucket program k = some t) : Effect program s (.writeBucket k) t := by
  cases found : s.workers[k]? with
  | none => simp [writeBucket, found] at moved
  | some worker =>
    simp only [writeBucket, found, Option.bind_eq_bind, Option.bind_some] at moved
    split at moved
    · next mapping =>
      split at moved
      · next left =>
        cases moved
        exact .writeBucket found mapping left
      · cases moved
    · cases moved

theorem finishMap_effect {program : Program} {s t : System} {k : Nat}
    (moved : s.finishMap k = some t) : Effect program s (.finishMap k) t := by
  cases found : s.workers[k]? with
  | none => simp [finishMap, found] at moved
  | some worker =>
    simp only [finishMap, found, Option.bind_eq_bind, Option.bind_some] at moved
    split at moved
    · next mapping =>
      split at moved
      · next all =>
        cases moved
        exact .finishMap found (all ▸ mapping)
      · cases moved
    · cases moved

theorem fetch_effect {program : Program} {s t : System} {k : Nat} {ok : Bool}
    (moved : s.fetch program k ok = some t) : Effect program s (.fetch k ok) t := by
  cases found : s.workers[k]? with
  | none => simp [fetch, found] at moved
  | some worker =>
    simp only [fetch, found, Option.bind_eq_bind, Option.bind_some] at moved
    split at moved
    · next reply location left bufferedFile reducing =>
      by_cases own : location.workerId = worker.workerId
      · rw [if_pos own] at moved
        cases moved
        exact .fetched found reducing (.own own)
      · rw [if_neg own] at moved
        by_cases elsewhere : location.address ≠ worker.ipAddress
        · rw [if_pos elsewhere] at moved
          by_cases reached : ok
          · rw [if_pos reached] at moved
            obtain ⟨other, answers, rfl⟩ := Option.map_eq_some_iff.mp moved
            exact .fetched found reducing (.other own answers)
          · rw [if_neg reached] at moved
            cases moved
            exact .fetchFailed found reducing
        · rw [if_neg elsewhere] at moved
          cases moved
          exact .fetchFailed found reducing
    · cases moved

theorem finishReduce_effect {program : Program} {s t : System} {k : Nat} {sorted : List KeyValue}
    (moved : s.finishReduce program k sorted = some t) : Effect program s (.finishReduce k sorted) t := by
  cases found : s.workers[k]? with
  | none => simp [finishReduce, found] at moved
  | some worker =>
    simp only [finishReduce, found, Option.bind_eq_bind, Option.bind_some, reduceCalls_eq] at moved
    split at moved
    · next reducing =>
      split at moved
      · next result =>
        cases moved
        exact .finishReduce found reducing result
      · cases moved
    · cases moved

theorem step_effect {program : Program} {s t : System} {e : Event} (moved : s.step program e = some t) :
    Effect program s e t := by
  cases e with
  | setup ipAddress =>
    cases moved
    exact .setup ipAddress
  | getWork k order => exact getWork_step_effect moved
  | writeBucket k => exact writeBucket_effect moved
  | finishMap k => exact finishMap_effect moved
  | fetch k ok => exact fetch_effect moved
  | finishReduce k sorted => exact finishReduce_effect moved
  | reportDead k =>
    cases found : s.workers[k]? with
    | none => simp [step, reportDead, found] at moved
    | some worker =>
      simp only [step, reportDead, found, Option.bind_eq_bind, Option.bind_some] at moved
      split at moved
      · next reporting =>
        cases moved
        exact .reportDead found reporting
      · cases moved
  | callReturns k =>
    simp only [step] at moved
    exact enter_effect (.inl rfl) (.inl rfl) moved
  | workDone i created =>
    cases found : s.inflight[i]? with
    | none => simp [step, workDone, found] at moved
    | some complete =>
      simp only [step, workDone, found, Option.bind_eq_bind, Option.bind_some] at moved
      cases moved
      exact .workDone found
  | tick =>
    cases moved
    exact .tick
  | crash k =>
    simp only [step] at moved
    exact enter_effect (.inr rfl) (.inr rfl) moved

/-! ## Identities

`DoSetup` numbers the workers, so the id of a worker is its position. -/

theorem accept_workerId (worker : WorkerProcess) (reply : WorkReply) :
    (worker.accept reply).workerId = worker.workerId ∧ (worker.accept reply).ipAddress = worker.ipAddress := by
  unfold WorkerProcess.accept
  split <;> exact ⟨rfl, rfl⟩

theorem callDone_workerId (worker : WorkerProcess) (workType : Method) (jobId : Nat) :
    (worker.callDone workType jobId).workerId = worker.workerId ∧
      (worker.callDone workType jobId).ipAddress = worker.ipAddress := by
  unfold WorkerProcess.callDone
  split <;> exact ⟨rfl, rfl⟩

/-- A step adds a worker, changes one, or changes none. -/
inductive WorkersChange (s t : System) : Prop where
  | same (workers : t.workers = s.workers)
      (next : t.coordinator.nextWorkerId = s.coordinator.nextWorkerId)
  | added {ipAddress : String}
      (workers : t.workers =
        s.workers ++ [WorkerProcess.start ipAddress (s.coordinator.doSetup ipAddress).2])
      (next : t.coordinator.nextWorkerId = s.coordinator.nextWorkerId + 1)
  | changed {k : Nat} {worker worker' : WorkerProcess} (found : s.workers[k]? = some worker)
      (workers : t.workers = s.workers.set k worker')
      (identity : worker'.workerId = worker.workerId ∧ worker'.ipAddress = worker.ipAddress)
      (next : t.coordinator.nextWorkerId = s.coordinator.nextWorkerId)

theorem Effect.workers {program : Program} {s t : System} {e : Event} (effect : Effect program s e t) :
    WorkersChange s t := by
  cases effect with
  | setup => exact .added rfl rfl
  | getWork found _ _ handled =>
    exact .changed found rfl (accept_workerId _ _) (Coordinator.getWork_frame handled).2.1
  | writeBucket found => exact .changed found rfl ⟨rfl, rfl⟩ rfl
  | finishMap found => exact .changed found rfl (callDone_workerId _ _ _) rfl
  | fetched found => exact .changed found rfl ⟨rfl, rfl⟩ rfl
  | fetchFailed found => exact .changed found rfl ⟨rfl, rfl⟩ rfl
  | finishReduce found => exact .changed found rfl (callDone_workerId _ _ _) rfl
  | reportDead found => exact .changed found rfl ⟨rfl, rfl⟩ rfl
  | enter _ found => exact .changed found rfl ⟨rfl, rfl⟩ rfl
  | workDone => exact .same rfl (Coordinator.workDone_frame _ _).2.2.1
  | tick => exact .same rfl (Coordinator.serverHandler_frame _).2.2.2.2

structure Registered (s : System) : Prop where
  next : s.coordinator.nextWorkerId = s.workers.length + 1
  position : ∀ k worker, s.workers[k]? = some worker → worker.workerId = k + 1

theorem registered_init (program : Program) : Registered (init program) where
  next := rfl
  position := by simp [init]

theorem Registered.step {program : Program} {s t : System} {e : Event} (registered : Registered s)
    (effect : Effect program s e t) : Registered t := by
  cases effect.workers with
  | same workers next =>
    exact ⟨by rw [next, registered.next, workers], by rw [workers]; exact registered.position⟩
  | @added ipAddress workers next =>
    refine ⟨by rw [next, registered.next, workers]; simp, ?_⟩
    intro k worker found
    rw [workers, List.getElem?_append] at found
    split at found
    · exact registered.position k worker found
    · have last : k = s.workers.length := by
        have inside := (List.getElem?_eq_some_iff.mp found).1
        simp only [List.length_singleton] at inside
        omega
      simp only [last, Nat.sub_self, List.getElem?_cons_zero, Option.some.injEq] at found
      subst found
      simp [WorkerProcess.start, Coordinator.doSetup, registered.next, last]
  | @changed k worker worker' found workers identity next =>
    refine ⟨by rw [next, registered.next, workers, List.length_set], ?_⟩
    intro i other foundOther
    rw [workers, List.getElem?_set] at foundOther
    split at foundOther
    · next same =>
      split at foundOther
      · cases foundOther
        rw [identity.1, ← same]
        exact registered.position k worker found
      · cases foundOther
    · exact registered.position i other foundOther

/-- Two workers with one id are one worker. -/
theorem Registered.unique {s : System} (registered : Registered s) {worker worker' : WorkerProcess}
    (member : worker ∈ s.workers) (member' : worker' ∈ s.workers)
    (same : worker.workerId = worker'.workerId) : worker = worker' := by
  obtain ⟨k, found⟩ := List.mem_iff_getElem?.mp member
  obtain ⟨k', found'⟩ := List.mem_iff_getElem?.mp member'
  rw [registered.position k worker found, registered.position k' worker' found'] at same
  obtain rfl : k = k' := by omega
  exact Option.some.inj (found.symm.trans found')

end System

/-! ## A program

Every file is one word, and the job counts the files by their word.  The coder is that of
`encoding/json` on keys and values that need no escape. -/

def jsonEncode (pair : KeyValue) : Bytes :=
  -- {"Key":"...","Value":"..."} and a newline
  [123, 34, 75, 101, 121, 34, 58, 34] ++ pair.key ++ [34, 44, 34, 86, 97, 108, 117, 101, 34, 58, 34] ++
    pair.value ++ [34, 125, 10]

def jsonDecode (bytes : Bytes) : List KeyValue :=
  (linesOf bytes).map fun line =>
    let rest := line.drop 8
    ⟨rest.takeWhile (· ≠ 34), ((rest.dropWhile (· ≠ 34)).drop 11).takeWhile (· ≠ 34)⟩

theorem takeWhile_quote {text : Bytes} (plain : 34 ∉ text) (rest : Bytes) :
    (text ++ 34 :: rest).takeWhile (· ≠ 34) = text ∧
      (text ++ 34 :: rest).dropWhile (· ≠ 34) = 34 :: rest := by
  induction text with
  | nil => simp
  | cons byte text ih =>
    simp only [List.mem_cons, not_or] at plain
    simpa [Ne.symm plain.1] using ih plain.2

/-- Keys and values without quotes and newlines are read back. -/
theorem jsonDecode_jsonEncode {pairs : List KeyValue}
    (plain : ∀ pair ∈ pairs, ∀ byte ∈ pair.key ++ pair.value, byte ≠ 10 ∧ byte ≠ 34) :
    jsonDecode (pairs.flatMap jsonEncode) = pairs := by
  induction pairs with
  | nil => rfl
  | cons pair pairs ih =>
    have plainPair := plain pair List.mem_cons_self
    have noQuote : 34 ∉ pair.key ∧ 34 ∉ pair.value := by
      constructor
      · exact fun member => (plainPair 34 (List.mem_append_left _ member)).2 rfl
      · exact fun member => (plainPair 34 (List.mem_append_right _ member)).2 rfl
    have noNewline : 10 ∉ pair.key ∧ 10 ∉ pair.value := by
      constructor
      · exact fun member => (plainPair 10 (List.mem_append_left _ member)).1 rfl
      · exact fun member => (plainPair 10 (List.mem_append_right _ member)).1 rfl
    -- the line of the pair, without its newline
    let line : Bytes := [123, 34, 75, 101, 121, 34, 58, 34] ++ (pair.key ++
      34 :: ([44, 34, 86, 97, 108, 117, 101, 34, 58, 34] ++ (pair.value ++ 34 :: [125])))
    have encoded : jsonEncode pair = line ++ [10] := by simp [jsonEncode, line]
    have plainLine : 10 ∉ line := by simp [line, noNewline]
    have later := ih fun other member => plain other (List.mem_cons_of_mem _ member)
    rw [jsonDecode] at later ⊢
    rw [List.flatMap_cons, encoded, List.append_assoc, List.singleton_append, linesOf_append,
      linesOf_line plainLine, List.map_append, later]
    obtain ⟨key, rest⟩ := takeWhile_quote noQuote.1
      ([44, 34, 86, 97, 108, 117, 101, 34, 58, 34] ++ (pair.value ++ 34 :: [125]))
    obtain ⟨value, _⟩ := takeWhile_quote noQuote.2 [125]
    have parsed : line.drop 8 = pair.key ++
        34 :: ([44, 34, 86, 97, 108, 117, 101, 34, 58, 34] ++ (pair.value ++ 34 :: [125])) := rfl
    simp only [List.map_cons, List.map_nil, List.singleton_append, parsed, key, rest]
    simp only [List.cons_append, List.nil_append, List.drop_succ_cons, List.drop_zero, value]

def countWords (files : List String) (nReduce : Nat) : Program where
  files := files
  nReduce := nReduce
  content := ascii
  mapf := fun _ content => [⟨content, [49]⟩]
  reducef := fun _ values => ascii (toString values.length)
  encode := jsonEncode
  decode := jsonDecode

def oneFile : Program := countWords ["f"] 1

end Tda596Labs.MapReduce
