import Tda596Labs.MapReduce.Assignment

/-! # Where mapped content is fetched from

A reduce job is sent the address of every worker in `mapWorkerIds`.  The addresses are kept in `Workers`,
which `DoSetup` fills and `WorkerDead` empties, while `mapWorkerIds` grows whenever a map job is handed
out.  A worker that was reported dead and goes on asking for work is in the one and not in the other.
-/

namespace Tda596Labs.MapReduce

namespace Coordinator

/-- The next call of `GetWork` is answered with a map job. -/
def handsMap (c : Coordinator) : Bool := !c.isDone && !c.mapper.isDone && c.nextMapJob.isSome

/-- Every producer of mapped content has an address. -/
def Located (c : Coordinator) : Prop := ∀ id ∈ c.mapper.mapWorkerIds, (c.workers id).isSome = true

end Coordinator

namespace Service

open Transition

/-- A worker that is handed a map job is a key of `Workers`. -/
def knownMapper (s : Service) : Event → Bool
  | .getWork workerId _ => !s.coordinator.handsMap || (s.coordinator.workers workerId).isSome
  | _ => true

/-- The worker got its id from a `DoSetup` with this address. -/
def RegisteredAt (taken : List (Taken Service Event)) (id : Nat) (address : String) : Prop :=
  ∃ τ ∈ taken, τ.event = .doSetup address ∧ (τ.before.coordinator.doSetup address).2.workerId = id

variable {program : Program} {output : Directory Bytes} {s t : Service} {e : Event}
  {taken : List (Taken Service Event)} {final : Service}

theorem RegisteredAt.later {id : Nat} {address : String} (registered : RegisteredAt taken id address)
    (rest : List (Taken Service Event)) : RegisteredAt (taken ++ rest) id address := by
  obtain ⟨τ, member, isSetup⟩ := registered
  exact ⟨τ, List.mem_append_left _ member, isSetup⟩

/-! ## One step -/

theorem located_handMap {c : Coordinator} (located : c.Located) {content : String → Bytes} {j workerId : Nat} :
    (c.handMap content j workerId).Located ↔ (c.workers workerId).isSome = true := by
  have ids : (c.handMap content j workerId).mapper.mapWorkerIds = c.mapper.mapWorkerIds.insert workerId := rfl
  constructor
  · intro after
    exact after workerId (ids ▸ List.mem_insert_self)
  · intro known id member
    rw [ids] at member
    obtain rfl | old := List.mem_insert_iff.mp member
    · exact known
    · exact located id old

/-- Only a map job handed to a worker that is no key of `Workers` leaves a producer without an address. -/
theorem located_getWork {c : Coordinator} (located : c.Located) (content : String → Bytes) (order : List Nat)
    (workerId : Nat) :
    (c.getWork content order workerId).1.Located ↔
      (c.handsMap = false ∨ (c.workers workerId).isSome = true) := by
  cases done : c.isDone with
  | true =>
    rw [Coordinator.getWork_done done]
    exact iff_of_true located (.inl (by simp [Coordinator.handsMap, done]))
  | false =>
    cases mapped : c.mapper.isDone with
    | true =>
      have quiet : c.handsMap = false := by simp [Coordinator.handsMap, mapped]
      refine iff_of_true ?_ (.inl quiet)
      cases next : c.nextReduceJob with
      | none =>
        rw [Coordinator.getWork_reduce_wait done content order workerId mapped next]
        exact located
      | some r =>
        rw [Coordinator.getWork_reduce done content order workerId mapped next]
        exact located
    | false =>
      cases next : c.nextMapJob with
      | none =>
        rw [Coordinator.getWork_map_wait done content order workerId mapped next]
        exact iff_of_true located (.inl (by simp [Coordinator.handsMap, next]))
      | some j =>
        have hands : c.handsMap = true := by simp [Coordinator.handsMap, done, mapped, next]
        rw [Coordinator.getWork_map done content order workerId mapped next, located_handMap located, hands]
        simp

theorem located_step (located : s.coordinator.Located) (moved : s.step program e = some t) :
    t.coordinator.Located ↔ knownMapper s e = true := by
  cases step_effect moved with
  | doSetup ipAddress =>
    refine iff_of_true (fun id member => ?_) rfl
    have old := located id member
    by_cases new : id = s.coordinator.nextWorkerId
    · simp [Coordinator.doSetup, new]
    · simpa [Coordinator.doSetup, new] using old
  | getWork workerId =>
    rw [located_getWork located]
    simp [knownMapper]
  | @workDone complete =>
    obtain ⟨ids, workers, _⟩ := s.coordinator.workDone_frame complete
    refine iff_of_true (fun id member => ?_) rfl
    change id ∈ (s.coordinator.workDone complete).mapper.mapWorkerIds at member
    change ((s.coordinator.workDone complete).workers id).isSome = true
    rw [ids] at member
    rw [workers]
    exact located id member
  | workerDead workerId =>
    -- the id leaves both collections
    refine iff_of_true (fun id member => ?_) rfl
    obtain ⟨old, other⟩ := List.mem_filter.mp member
    simpa [Coordinator.workerDead, Coordinator.clearAllWork, Coordinator.clearMapDeadWorker,
      of_decide_eq_true other] using located id old
  | tick =>
    obtain ⟨mapper, _, _, workers, _⟩ := s.coordinator.serverHandler_frame
    refine iff_of_true (fun id member => ?_) rfl
    rw [mapper] at member
    rw [workers]
    exact located id member

/-- `Workers` changes in `DoSetup` and `WorkerDead` only. -/
theorem workers_step {id : Nat} {address : String} (moved : s.step program e = some t)
    (known : t.coordinator.workers id = some address) :
    s.coordinator.workers id = some address ∨
      (e = .doSetup address ∧ (s.coordinator.doSetup address).2.workerId = id) := by
  cases step_effect moved with
  | doSetup ipAddress =>
    by_cases new : id = s.coordinator.nextWorkerId
    · simp only [Coordinator.doSetup, new, Function.update_self, Option.some.injEq] at known
      exact .inr ⟨by rw [known], new.symm⟩
    · exact .inl (by simpa [Coordinator.doSetup, new] using known)
  | @getWork workerId order =>
    have effect := s.coordinator.getWork_effect program.content order workerId
    exact .inl ((Coordinator.getWork_frame effect).1 ▸ known)
  | @workDone complete =>
    exact .inl ((s.coordinator.workDone_frame complete).2.1 ▸ known)
  | workerDead workerId =>
    left
    by_cases same : id = workerId
    · simp [Coordinator.workerDead, Coordinator.clearAllWork, same] at known
    · simpa [Coordinator.workerDead, Coordinator.clearAllWork, Coordinator.clearMapDeadWorker, same] using known
  | tick =>
    exact .inl (s.coordinator.serverHandler_frame.2.2.2.1 ▸ known)

/-! ## Runs -/

theorem located_start : (start program output).coordinator.Located := nofun

theorem located_of_run (run : ServiceRun program output taken final)
    (known : AllMeet (fun s e => knownMapper s e = true) taken) : final.coordinator.Located :=
  run.invariant known located_start fun _ _ _ located meets moved => (located_step located moved).mpr meets

/-- What `Workers` holds was registered. -/
theorem registered_of_run (run : ServiceRun program output taken final) {id : Nat} {address : String}
    (known : final.coordinator.workers id = some address) : RegisteredAt taken id address := by
  induction run with
  | nil => cases known
  | @snoc taken s t e _ moved ih =>
    obtain old | ⟨isSetup, isId⟩ := workers_step moved known
    · exact (ih old).later _
    · exact ⟨⟨s, e, t⟩, List.mem_append_right _ (List.mem_singleton.mpr rfl), isSetup, isId⟩

theorem location_of_reply {c : Coordinator} {content : String → Bytes} {order : List Nat} {workerId : Nat}
    (isReduce : (c.getWork content order workerId).2.workType = .reduce) :
    (c.getWork content order workerId).2.reduceFileLocations = c.getReduceFileLocations order := by
  have effect := c.getWork_effect content order workerId
  generalize c.getWork content order workerId = handled at effect isReduce ⊢
  cases effect with
  | quiet idle =>
    obtain rfl | rfl := idle <;> cases isReduce
  | map => cases isReduce
  | reduce => rfl

/-- The ids in `mapWorkerIds` are keys of `Workers` in all states of a run if and only if every map job
was handed to a worker that was a key then; and in such a run a reduce job is sent the addresses that the
workers registered. -/
theorem producers_located_iff (run : ServiceRun program output taken final) :
    ((∀ τ ∈ taken, τ.after.coordinator.Located) ↔ AllMeet (fun s e => knownMapper s e = true) taken) ∧
      (AllMeet (fun s e => knownMapper s e = true) taken →
        ∀ order, order.Perm final.coordinator.mapper.mapWorkerIds → ∀ workerId,
          (final.coordinator.getWork program.content order workerId).2.workType = .reduce →
          ∀ location ∈ (final.coordinator.getWork program.content order workerId).2.reduceFileLocations,
            RegisteredAt taken location.workerId location.address) := by
  refine ⟨run.invariant_iff located_start fun _ _ _ located moved => located_step located moved, ?_⟩
  intro known order ranges workerId isReduce location member
  rw [location_of_reply isReduce] at member
  obtain ⟨id, inside, rfl⟩ := List.mem_map.mp member
  obtain ⟨address, isAddress⟩ :=
    Option.isSome_iff_exists.mp (located_of_run run known id (ranges.mem_iff.mp inside))
  have registered := registered_of_run run isAddress
  simpa [isAddress] using registered

/-- Worker 1 maps, worker 2 cannot reach it and reports it, and does its job again. -/
def replacedMapper : List Event :=
  [.doSetup "a", .doSetup "b", .getWork 1 [], .workDone ⟨.map, 0, [], 1⟩ true, .getWork 2 [1],
    .workerDead 1 0, .getWork 2 [], .workDone ⟨.map, 0, [], 2⟩ true]

theorem located_after_replacement :
    (∀ τ ∈ trace (step smallProgram) (start smallProgram .empty) replacedMapper,
      τ.after.coordinator.Located) ∧
    (outcome (step smallProgram) (start smallProgram .empty) replacedMapper).coordinator.mapper.mapWorkerIds
      = [2] :=
  ⟨(producers_located_iff (run_trace _ _ replacedMapper)).1.mpr (by decide), by decide⟩

/-- Worker 1 was alive all the time: it asks for work first, and gets its own job again. -/
def returnedMapper : List Event :=
  [.doSetup "a", .doSetup "b", .getWork 1 [], .workDone ⟨.map, 0, [], 1⟩ true, .getWork 2 [1],
    .workerDead 1 0, .getWork 1 [], .workDone ⟨.map, 0, [], 1⟩ true]

/-- Worker 1 is among the producers and has no address; worker 2 is sent to the empty one. -/
theorem producer_without_address : ∃ taken final,
    ServiceRun smallProgram .empty taken final ∧ AllMeet Registered taken ∧
      1 ∈ final.coordinator.mapper.mapWorkerIds ∧ final.coordinator.workers 1 = none ∧
      (final.coordinator.getWork smallProgram.content [1] 2).2.workType = .reduce ∧
      ⟨1, ""⟩ ∈ (final.coordinator.getWork smallProgram.content [1] 2).2.reduceFileLocations ∧
      ¬ RegisteredAt taken 1 "" := by
  refine ⟨_, _, run_trace _ _ returnedMapper, by decide, by decide, by decide, by decide, by decide, ?_⟩
  rintro ⟨τ, member, isSetup, _⟩
  revert τ
  decide

end Service

end Tda596Labs.MapReduce
