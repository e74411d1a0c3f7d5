import Tda596Labs.MapReduce.Board
import Tda596Labs.MapReduce.Worker

/-! # The coordinator as a service

The coordinator under arbitrary clients: any RPC may arrive at any time, with any arguments that do not
make the handler index a slice out of its bounds.  The state is that of `Coordinator` together with the
directory `./output`.
-/

namespace Tda596Labs.MapReduce

open Transition

/-- The two phases of a job. -/
inductive JobKind where
  | map
  | reduce
  deriving DecidableEq, Repr

def JobKind.method : JobKind → Method
  | map => .map
  | reduce => .reduce

namespace Coordinator

/-- The records of the jobs of one phase. -/
def board (c : Coordinator) : JobKind → Board
  | .map => ⟨c.mapper.numFiles, c.mapper.currentJob, c.mapper.completedMappers, c.mapperTimeout⟩
  | .reduce => ⟨c.nreduce, c.reducer.currentJob, c.reducer.completedReducers, c.reducerTimeout⟩

/-- The jobs of this phase are the ones that are handed out and timed. -/
def inPhase (c : Coordinator) : JobKind → Bool
  | .map => !c.mapper.isDone
  | .reduce => c.mapper.isDone

/-- All jobs of a phase are completed. -/
def phaseDone (c : Coordinator) : JobKind → Bool
  | .map => c.mapper.isDone
  | .reduce => c.reducer.isDone

/-- The job id of a report is one of a job. -/
def valid (c : Coordinator) (complete : WorkComplete) : Bool :=
  match complete.workType with
  | .map => complete.jobId < c.mapper.completedMappers.length
  | .reduce => complete.jobId < c.reducer.completedReducers.length
  | _ => true

end Coordinator

structure Service where
  coordinator : Coordinator
  output : Directory Bytes

namespace Service

inductive Event where
  | doSetup (ipAddress : String)
  | getWork (workerId : Nat) (order : List Nat)
  | workDone (complete : WorkComplete) (created : Bool)
  | workerDead (workerId jobId : Nat)
  /-- one turn of `serverHandler` -/
  | tick
  deriving DecidableEq, Repr

def start (program : Program) (output : Directory Bytes) : Service :=
  ⟨.make program.files program.nReduce, output⟩

/-- `WorkDone`; `created` says whether `os.Create` of the output file succeeds. -/
def workDone (s : Service) (complete : WorkComplete) (created : Bool) : Service where
  coordinator := s.coordinator.workDone complete
  output :=
    if complete.workType = .reduce ∧ created then
      s.output.create (outFile complete.jobId) complete.outputFile
    else s.output

def step (program : Program) (s : Service) : Event → Option Service
  | .doSetup ipAddress => some { s with coordinator := (s.coordinator.doSetup ipAddress).1 }
  | .getWork workerId order =>
    -- any order of `mapWorkerIds` is an order in which Go may range over the map
    if order.Perm s.coordinator.mapper.mapWorkerIds then
      some { s with coordinator := (s.coordinator.getWork program.content order workerId).1 }
    else none
  | .workDone complete created =>
    if s.coordinator.valid complete then some (s.workDone complete created) else none
  | .workerDead workerId jobId =>
    if jobId < s.coordinator.reducer.completedReducers.length then
      some { s with coordinator := s.coordinator.workerDead workerId jobId }
    else none
  | .tick => some { s with coordinator := s.coordinator.serverHandler }

/-- The step function read backwards. -/
inductive Effect (program : Program) (s : Service) : Event → Service → Prop where
  | doSetup (ipAddress : String) :
      Effect program s (.doSetup ipAddress) { s with coordinator := (s.coordinator.doSetup ipAddress).1 }
  | getWork (workerId : Nat) {order : List Nat} (ranges : order.Perm s.coordinator.mapper.mapWorkerIds) :
      Effect program s (.getWork workerId order)
        { s with coordinator := (s.coordinator.getWork program.content order workerId).1 }
  | workDone {complete : WorkComplete} (valid : s.coordinator.valid complete = true) (created : Bool) :
      Effect program s (.workDone complete created) (s.workDone complete created)
  | workerDead (workerId : Nat) {jobId : Nat}
      (valid : jobId < s.coordinator.reducer.completedReducers.length) :
      Effect program s (.workerDead workerId jobId)
        { s with coordinator := s.coordinator.workerDead workerId jobId }
  | tick : Effect program s .tick { s with coordinator := s.coordinator.serverHandler }

theorem step_effect {program : Program} {s t : Service} {e : Event} (moved : s.step program e = some t) :
    Effect program s e t := by
  cases e with
  | doSetup ipAddress => cases moved; exact .doSetup ipAddress
  | getWork workerId order =>
    simp only [step, Option.ite_none_right_eq_some, Option.some.injEq] at moved
    obtain ⟨ranges, rfl⟩ := moved
    exact .getWork workerId ranges
  | workDone complete created =>
    simp only [step, Option.ite_none_right_eq_some, Option.some.injEq] at moved
    obtain ⟨valid, rfl⟩ := moved
    exact .workDone valid created
  | workerDead workerId jobId =>
    simp only [step, Option.ite_none_right_eq_some, Option.some.injEq] at moved
    obtain ⟨valid, rfl⟩ := moved
    exact .workerDead workerId valid
  | tick => cases moved; exact .tick

abbrev ServiceRun (program : Program) (output : Directory Bytes) := Run (step program) (start program output)

/-- The worker that is handed a job by an event. -/
def handedTo (program : Program) (kind : JobKind) (j : Nat) (s : Service) : Event → Option Nat
  | .getWork workerId order =>
    let reply := (s.coordinator.getWork program.content order workerId).2
    if reply.workType = kind.method ∧ reply.jobId = j then some workerId else none
  | _ => none

/-- The caller of `GetWork` has its id from `DoSetup`. -/
def Registered (s : Service) : Event → Prop
  | .getWork workerId _ => 0 < workerId ∧ workerId < s.coordinator.nextWorkerId
  | _ => True

instance (s : Service) (e : Event) : Decidable (Registered s e) :=
  match e with
  | .getWork workerId _ =>
    inferInstanceAs (Decidable (0 < workerId ∧ workerId < s.coordinator.nextWorkerId))
  | .doSetup _ | .workDone _ _ | .workerDead _ _ | .tick => .isTrue trivial

/-! ## Jobs as leases -/

/-- What an event is for one job. -/
def leaseEvent (program : Program) (kind : JobKind) (s : Service) (e : Event) (j : Nat) : Lease.Event :=
  match e with
  | .getWork _ _ => ((handedTo program kind j s e).map Lease.Event.take).getD .other
  | .workDone complete _ => if complete.workType = kind.method ∧ j = complete.jobId then .close else .other
  | .workerDead workerId jobId =>
    match kind with
    | .map => if ((s.coordinator.board .map).lease j).owner = workerId then .revoke else .other
    | .reduce => if j = jobId then .release else .other
  | .tick => if s.coordinator.inPhase kind then .tick else .other
  | .doSetup _ => .other

/-- `leaseEvent` read backwards. -/
inductive Concerns (program : Program) (kind : JobKind) (s : Service) (j : Nat) :
    Event → Lease.Event → Prop where
  | handed {workerId : Nat} {order : List Nat}
      (hands : handedTo program kind j s (.getWork workerId order) = some workerId) :
      Concerns program kind s j (.getWork workerId order) (.take workerId)
  | reported {complete : WorkComplete} (created : Bool) (isKind : complete.workType = kind.method)
      (isJob : complete.jobId = j) : Concerns program kind s j (.workDone complete created) .close
  | revoked {workerId : Nat} (jobId : Nat) (isMap : kind = .map)
      (owner : ((s.coordinator.board kind).lease j).owner = workerId) :
      Concerns program kind s j (.workerDead workerId jobId) .revoke
  | released (workerId : Nat) (isReduce : kind = .reduce) :
      Concerns program kind s j (.workerDead workerId j) .release
  | timed (phase : s.coordinator.inPhase kind = true) : Concerns program kind s j .tick .tick
  | other (e : Event) : Concerns program kind s j e .other

variable {program : Program} {s t : Service} {e : Event} {kind : JobKind}

theorem getWork_of_handedTo {j workerId : Nat} (handed : handedTo program kind j s e = some workerId) :
    ∃ order, e = .getWork workerId order := by
  cases e with
  | getWork caller order =>
    simp only [handedTo, Option.ite_none_right_eq_some, Option.some.injEq] at handed
    exact ⟨order, by rw [handed.2]⟩
  | _ => simp [handedTo] at handed

theorem leaseEvent_of_handedTo {j workerId : Nat} (handed : handedTo program kind j s e = some workerId) :
    leaseEvent program kind s e j = .take workerId := by
  obtain ⟨order, rfl⟩ := getWork_of_handedTo handed
  simp [leaseEvent, handed]

theorem leaseEvent_concerns (program : Program) (kind : JobKind) (s : Service) (e : Event) (j : Nat) :
    Concerns program kind s j e (leaseEvent program kind s e j) := by
  cases e with
  | getWork caller order =>
    simp only [leaseEvent]
    cases handed : handedTo program kind j s (.getWork caller order) with
    | none => exact .other _
    | some workerId =>
      obtain ⟨_, same⟩ := getWork_of_handedTo handed
      cases same
      exact .handed handed
  | workDone complete created =>
    simp only [leaseEvent]
    split
    · next closes => exact .reported created closes.1 closes.2.symm
    · exact .other _
  | workerDead workerId jobId =>
    cases kind with
    | map =>
      simp only [leaseEvent]
      split
      · next owner => exact .revoked jobId rfl owner
      · exact .other _
    | reduce =>
      simp only [leaseEvent]
      split
      · next same => exact same ▸ .released workerId rfl
      · exact .other _
  | tick =>
    simp only [leaseEvent]
    split
    · next phase => exact .timed phase
    · exact .other _
  | doSetup => exact .other _

theorem getWork_moves (workerId : Nat) (order : List Nat) :
    (s.coordinator.board kind).Moves
      ((s.coordinator.getWork program.content order workerId).1.board kind)
      (fun j => leaseEvent program kind s (.getWork workerId order) j) := by
  have effect := s.coordinator.getWork_effect program.content order workerId
  simp only [leaseEvent, handedTo]
  generalize s.coordinator.getWork program.content order workerId = handled at effect ⊢
  cases effect with
  | quiet idle =>
    apply Board.Moves.same.congr
    intro i
    obtain rfl | rfl := idle <;> cases kind <;> simp [WorkReply.only, JobKind.method]
  | @map j _ _ next =>
    cases kind with
    | map =>
      have isNext : (s.coordinator.board .map).next = some j := next
      apply (Board.Moves.hand isNext workerId).congr
      intro i
      by_cases same : i = j
      · simp [same, Coordinator.assignMap, JobKind.method]
      · simp [same, Ne.symm same, Coordinator.assignMap]
    | reduce =>
      apply Board.Moves.same.congr
      intro i
      simp [Coordinator.assignMap, JobKind.method]
  | @reduce r _ _ next =>
    cases kind with
    | map =>
      apply Board.Moves.same.congr
      intro i
      simp [Coordinator.assignReduce, JobKind.method]
    | reduce =>
      have isNext : (s.coordinator.board .reduce).next = some r := next
      apply (Board.Moves.hand isNext workerId).congr
      intro i
      by_cases same : i = r
      · simp [same, Coordinator.assignReduce, JobKind.method]
      · simp [same, Ne.symm same, Coordinator.assignReduce]

theorem workDone_board (c : Coordinator) (complete : WorkComplete) :
    (c.workDone complete).board kind =
      if complete.workType = kind.method then (c.board kind).complete complete.jobId else c.board kind := by
  unfold Coordinator.workDone
  cases complete.workType <;> cases kind <;> rfl

theorem workDone_moves (sound : (s.coordinator.board kind).Sound) {complete : WorkComplete}
    (valid : s.coordinator.valid complete = true) (created : Bool) :
    (s.coordinator.board kind).Moves ((s.workDone complete created).coordinator.board kind)
      (fun j => leaseEvent program kind s (.workDone complete created) j) := by
  simp only [leaseEvent, workDone, workDone_board]
  by_cases isKind : complete.workType = kind.method
  · have inside : complete.jobId < (s.coordinator.board kind).jobs := by
      rw [← sound.chunkCount]
      cases kind <;> simpa [Coordinator.valid, Coordinator.board, isKind, JobKind.method] using valid
    simp only [isKind, if_true, true_and]
    exact .complete inside
  · simp only [isKind, if_false, false_and]
    exact .same

theorem workerDead_moves (sound : (s.coordinator.board kind).Sound) {workerId jobId : Nat}
    (valid : jobId < s.coordinator.reducer.completedReducers.length) :
    (s.coordinator.board kind).Moves ((s.coordinator.workerDead workerId jobId).board kind)
      (fun j => leaseEvent program kind s (.workerDead workerId jobId) j) := by
  cases kind with
  | map => exact .clear workerId
  | reduce => exact .release (sound.chunkCount ▸ valid)

theorem serverHandler_board (c : Coordinator) :
    c.serverHandler.board kind = if c.inPhase kind then (c.board kind).tick else c.board kind := by
  unfold Coordinator.serverHandler Coordinator.inPhase
  cases c.mapper.isDone <;> cases c.reducer.isDone <;> cases kind <;> rfl

theorem tick_moves :
    (s.coordinator.board kind).Moves (s.coordinator.serverHandler.board kind)
      (fun j => leaseEvent program kind s .tick j) := by
  rw [serverHandler_board]
  simp only [leaseEvent]
  by_cases phase : s.coordinator.inPhase kind = true
  · simp only [phase, if_true]
    exact .tick
  · simp only [phase, Bool.false_eq_true, if_false]
    exact .same

/-- Every step moves the two boards. -/
theorem board_moves (sound : (s.coordinator.board kind).Sound) (moved : s.step program e = some t) :
    (s.coordinator.board kind).Moves (t.coordinator.board kind) (leaseEvent program kind s e) := by
  cases step_effect moved with
  | doSetup => cases kind <;> exact .same
  | getWork workerId => exact getWork_moves workerId _
  | workDone valid created => exact workDone_moves sound valid created
  | workerDead workerId valid => exact workerDead_moves sound valid
  | tick => exact tick_moves

/-! ## Runs -/

variable {output : Directory Bytes} {taken : List (Taken Service Event)} {final : Service}

theorem sound_start : ((start program output).coordinator.board kind).Sound := by
  cases kind with
  | map => exact Board.sound_make program.files.length
  | reduce => exact Board.sound_make program.nReduce

/-- The boards are sound in every state of a run. -/
theorem sound_of_run (kind : JobKind) (run : ServiceRun program output taken final) :
    (final.coordinator.board kind).Sound :=
  run.invariant (fun _ _ => trivial) sound_start fun _ _ _ sound (_ : True) moved =>
    (board_moves sound moved).sound sound

/-- The record of one job. -/
def job (kind : JobKind) (j : Nat) (s : Service) : Lease := (s.coordinator.board kind).lease j

theorem job_start (kind : JobKind) (j : Nat) : job kind j (start program output) = .unowned := by
  cases kind with
  | map => exact Board.lease_make program.files.length j
  | reduce => exact Board.lease_make program.nReduce j

/-- In a run of the coordinator every job goes through a run of a lease. -/
theorem lease_run (kind : JobKind) (j : Nat) {start' : Service} {earlier : List (Taken Service Event)}
    (before : ServiceRun program output earlier start') (run : Run (step program) start' taken final) :
    Run (Lease.step timeout) (job kind j start')
      (taken.map fun τ =>
        ⟨job kind j τ.before, leaseEvent program kind τ.before τ.event j, job kind j τ.after⟩)
      (job kind j final) := by
  apply run.map (job kind j) fun s e => leaseEvent program kind s e j
  intro τ member
  obtain ⟨moved, first, _, _, reached⟩ := run.taken_step member
  have sound := sound_of_run kind (before.append reached)
  exact (board_moves sound moved).lease sound j

end Service

end Tda596Labs.MapReduce
