import Tda596Labs.Lib.Pool
import Tda596Labs.MapReduce.System
import Tda596Labs.MapReduce.Progress

/-! # Workers as clients

For the coordinator the network of workers is one of the clients `Service` allows: it calls with ids it
got from `DoSetup`, and it reports jobs it was handed.  So what holds of every run of the service holds
of the coordinator in every run of the network, whatever workers crash and calls fail.
-/

namespace Tda596Labs.MapReduce

open Transition
open Service (jobs)

/-- A worker works on a job that exists. -/
def Phase.InRange (program : Program) : Phase → Prop
  | .mapping reply _ => reply.jobId < jobs program .map
  | .reducing reply _ _ => reply.jobId < jobs program .reduce
  | .reporting _ jobId => jobId < jobs program .reduce
  | .idle | .calling | .exited => True

/-- A report is about a job that exists. -/
def WorkComplete.InRange (program : Program) (complete : WorkComplete) : Prop :=
  ∃ kind : JobKind, complete.workType = kind.method ∧ complete.jobId < jobs program kind

namespace System

/-- The coordinator and its output directory. -/
def service (s : System) : Service := ⟨s.coordinator, s.output⟩

structure Clients (program : Program) (s : System) : Prop where
  sound : ∀ kind, (s.coordinator.board kind).Sound
  jobs : ∀ kind, (s.coordinator.board kind).jobs = jobs program kind
  registered : Registered s
  working : ∀ worker ∈ s.workers, worker.phase.InRange program
  inflight : ∀ complete ∈ s.inflight, complete.InRange program

variable {program : Program} {s t : System} {e : Event}

theorem clients_init (program : Program) : Clients program (init program) where
  sound kind := (Service.sound_start : ((Service.start program .empty).coordinator.board kind).Sound)
  jobs kind := by cases kind <;> rfl
  registered := registered_init program
  working := nofun
  inflight := nofun

theorem Clients.chunks (clients : Clients program s) (kind : JobKind) :
    (s.coordinator.board kind).chunks.length = Service.jobs program kind :=
  (clients.sound kind).chunkCount.trans (clients.jobs kind)

theorem Clients.inRange (clients : Clients program s) {k : Nat} {worker : WorkerProcess} {phase : Phase}
    (found : s.workers[k]? = some worker) (same : worker.phase = phase) : phase.InRange program :=
  same ▸ clients.working worker (List.mem_of_getElem? found)

/-- A reply hands out a job that exists. -/
theorem Clients.accept (clients : Clients program s) {worker : WorkerProcess} {order : List Nat}
    {coordinator : Coordinator} {reply : WorkReply}
    (handled : s.coordinator.GetWorkEffect program.content order worker.workerId (coordinator, reply)) :
    (worker.accept reply).phase.InRange program := by
  cases handled with
  | quiet idle =>
    obtain rfl | rfl := idle <;> trivial
  | map _ _ next =>
    have isNext : (s.coordinator.board .map).next = some _ := next
    exact lt_of_lt_of_eq ((clients.sound .map).next isNext).1 (clients.jobs .map)
  | reduce _ _ next =>
    have isNext : (s.coordinator.board .reduce).next = some _ := next
    exact lt_of_lt_of_eq ((clients.sound .reduce).next isNext).1 (clients.jobs .reduce)

theorem Clients.valid (clients : Clients program s) {complete : WorkComplete}
    (inRange : complete.InRange program) : s.coordinator.valid complete = true := by
  obtain ⟨kind, isKind, inRange⟩ := inRange
  rw [← clients.chunks kind] at inRange
  unfold Coordinator.valid
  rw [isKind]
  cases kind <;> exact decide_eq_true inRange

/-- `GetWork` is called with the id of a worker. -/
theorem Clients.getWork_follows (clients : Clients program s) {k : Nat} {order : List Nat}
    (moved : s.getWork program k order = some t) :
    ∃ e', Service.Registered s.service e' ∧ s.service.step program e' = some t.service := by
  simp only [System.getWork, Option.bind_eq_bind, Option.bind_eq_some_iff] at moved
  obtain ⟨worker, found, moved⟩ := moved
  split at moved
  · next enabled =>
    obtain rfl := Option.some.inj moved
    refine ⟨.getWork worker.workerId order, ?_, if_pos enabled.2⟩
    have inside := (List.getElem?_eq_some_iff.mp found).1
    have named := clients.registered.position k worker found
    have next := clients.registered.next
    change 0 < worker.workerId ∧ worker.workerId < s.coordinator.nextWorkerId
    omega
  · cases moved

/-- The coordinator makes a step of the service, or none. -/
theorem Clients.follows (clients : Clients program s) (moved : s.step program e = some t) :
    t.service = s.service ∨
      ∃ e', Service.Registered s.service e' ∧ s.service.step program e' = some t.service := by
  cases step_effect moved with
  | setup ipAddress => exact .inr ⟨.doSetup ipAddress, trivial, rfl⟩
  -- `GetWorkEffect` does not determine the reply, so this case goes back to the function.
  | getWork => exact .inr (clients.getWork_follows moved)
  | @reportDead k worker location jobId found reporting =>
    have valid : jobId < s.coordinator.reducer.completedReducers.length :=
      lt_of_lt_of_eq (clients.inRange found reporting) (clients.chunks .reduce).symm
    exact .inr ⟨.workerDead location.workerId jobId, trivial, if_pos valid⟩
  | @workDone i created complete found =>
    have valid := clients.valid (clients.inflight complete (List.mem_of_getElem? found))
    exact .inr ⟨.workDone complete created, trivial, if_pos valid⟩
  | tick => exact .inr ⟨.tick, trivial, rfl⟩
  | writeBucket | finishMap | fetched | fetchFailed | finishReduce | enter => exact .inl rfl

theorem callDone_inRange (worker : WorkerProcess) (workType : Method) (jobId : Nat) :
    (worker.callDone workType jobId).phase.InRange program := by
  unfold WorkerProcess.callDone
  split <;> trivial

/-- The workers stay with jobs that exist. -/
theorem Clients.working_step (clients : Clients program s) (effect : Effect program s e t) :
    ∀ worker ∈ t.workers, worker.phase.InRange program := by
  cases effect with
  | setup ipAddress =>
    intro worker member
    obtain old | new := List.mem_append.mp member
    · exact clients.working worker old
    · obtain rfl := List.mem_singleton.mp new
      trivial
  | getWork found _ _ handled => exact Pool.forall_set clients.working (clients.accept handled)
  | writeBucket found mapping => exact Pool.forall_set clients.working (clients.inRange found mapping :)
  | finishMap | finishReduce => exact Pool.forall_set clients.working (callDone_inRange _ _ _)
  | fetched found reducing => exact Pool.forall_set clients.working (clients.inRange found reducing :)
  | fetchFailed found reducing => exact Pool.forall_set clients.working (clients.inRange found reducing :)
  | reportDead => exact Pool.forall_set clients.working trivial
  | enter _ _ next =>
    refine Pool.forall_set clients.working ?_
    obtain rfl | rfl := next <;> trivial
  | workDone | tick => exact clients.working

/-- So do the reports under way. -/
theorem Clients.inflight_step (clients : Clients program s) (effect : Effect program s e t) :
    ∀ complete ∈ t.inflight, complete.InRange program := by
  have added : ∀ {complete : WorkComplete}, complete.InRange program →
      ∀ complete' ∈ s.inflight ++ [complete], complete'.InRange program := by
    intro complete inRange complete' member
    obtain old | new := List.mem_append.mp member
    · exact clients.inflight complete' old
    · exact List.mem_singleton.mp new ▸ inRange
  cases effect with
  | finishMap found mapping => exact added ⟨.map, rfl, clients.inRange found mapping⟩
  | finishReduce found reducing => exact added ⟨.reduce, rfl, clients.inRange found reducing⟩
  | workDone => exact fun complete member => clients.inflight complete (List.mem_of_mem_eraseIdx member)
  | _ => exact clients.inflight

theorem Clients.step (clients : Clients program s) (moved : s.step program e = some t) :
    Clients program t := by
  have effect := step_effect moved
  have board : ∀ kind, (t.coordinator.board kind).Sound ∧
      (t.coordinator.board kind).jobs = (s.coordinator.board kind).jobs := by
    intro kind
    -- The boards move as in a step of the service.
    obtain same | ⟨e', _, stepped⟩ := clients.follows moved
    · have same : t.coordinator = s.coordinator := congrArg Service.coordinator same
      rw [same]
      exact ⟨clients.sound kind, rfl⟩
    · have moves := Service.board_moves (s := s.service) (clients.sound kind) stepped
      exact ⟨moves.sound (clients.sound kind), moves.jobs⟩
  exact
    { sound := fun kind => (board kind).1
      jobs := fun kind => (board kind).2.trans (clients.jobs kind)
      registered := clients.registered.step effect
      working := clients.working_step effect
      inflight := clients.inflight_step effect }

/-- In every run of the network the coordinator goes through a run of the service, in which every caller of
`GetWork` has its id from `DoSetup`. -/
theorem service_of_run {taken : List (Taken System Event)} (run : SystemRun program taken s) :
    ∃ calls, Service.ServiceRun program .empty calls s.service ∧ AllMeet Service.Registered calls :=
  (run.part service (clients_init program) fun _ _ _ clients moved =>
    ⟨clients.step moved, clients.follows moved⟩).2

/-- So in the network, too, all reduce jobs are completed once `IsDone` is set. -/
theorem reduced_of_done {taken : List (Taken System Event)} (run : SystemRun program taken s)
    (done : s.coordinator.isDone = true) {r : Nat} (inside : r < program.nReduce) :
    (s.coordinator.reduceChunk r).completed = true := by
  obtain ⟨_, calls, _⟩ := service_of_run run
  exact Service.reduced_of_done calls done inside

end System

end Tda596Labs.MapReduce
