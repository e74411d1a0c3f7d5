import Tda596Labs.MapReduce.FaultFree
import Mathlib.Data.List.Perm.Basic

/-! # The distributed computation refines the sequential one

In a run without faults the directories hold the buckets of exactly the map jobs their workers own, a
reduce job collects its bucket from all of them, and when the coordinator is done, the output files
together have the lines that `mrsequential` writes.
-/

namespace Tda596Labs.MapReduce

open Tda596Labs.Transition

/-! ## Reading buckets -/

/-- `encoding/json` reads back the pairs that the program emits. -/
def RoundTrip (program : Program) : Prop :=
  ∀ pairs : List KeyValue, (∀ pair ∈ pairs, ∃ j < program.files.length, pair ∈ program.pairs j) →
    program.decode (pairs.flatMap program.encode) = pairs

/-- The map jobs that are recorded for a worker. -/
def ownedJobs (program : Program) (c : Coordinator) (workerId : Nat) : List Nat :=
  (List.range program.files.length).filter fun j => (c.mapChunk j).workerId = workerId

theorem mem_ownedJobs {program : Program} {c : Coordinator} {workerId j : Nat} :
    j ∈ ownedJobs program c workerId ↔ j < program.files.length ∧ (c.mapChunk j).workerId = workerId := by
  simp [ownedJobs]

theorem mem_glob {dir : Directory Bytes} {pattern : String} {file : String × Bytes} :
    file ∈ dir.glob pattern ↔
      file ∈ dir.entries ∧ matchesPattern pattern.toList file.1.toList = true := by
  simp [Directory.glob]

/-- A directory in which the files of bucket `r` are those of the jobs in `jobs`. -/
theorem decode_retreiveFiles {program : Program} (roundTrip : RoundTrip program) {dir : Directory Bytes}
    {jobs : List Nat} (nodup : jobs.Nodup) (bounded : ∀ j ∈ jobs, j < program.files.length) {r : Nat}
    (found : ∀ file, file ∈ dir.glob (bucketPattern r) ↔
      ∃ j ∈ jobs, (bucketFile j r, program.bucketData j r) = file) :
    (program.decode (retreiveFiles dir (bucketPattern r))).Perm
      (jobs.flatMap fun j => bucket program.nReduce r (program.pairs j)) := by
  -- the files in the order of the listing, as jobs in some order
  have listing : dir.glob (bucketPattern r) ∈
      Set.range (List.map fun j => (bucketFile j r, program.bucketData j r)) := by
    rw [Set.range_list_map]
    intro file member
    obtain ⟨j, _, equal⟩ := (found file).mp member
    exact ⟨j, equal⟩
  obtain ⟨order, equal⟩ := listing
  have nodupGlob : (dir.glob (bucketPattern r)).Nodup := dir.nodup.filter _
  have same : order.Perm jobs := by
    rw [← equal] at nodupGlob
    rw [List.perm_ext_iff_of_nodup nodupGlob.of_map nodup]
    intro j
    have mapped := found (bucketFile j r, program.bucketData j r)
    rw [← equal, List.mem_map] at mapped
    constructor
    · intro member
      obtain ⟨j', member', equal'⟩ := mapped.mp ⟨j, member, rfl⟩
      exact (bucketFile_inj.mp (Prod.mk.inj equal').1).1 ▸ member'
    · intro member
      obtain ⟨j', member', equal'⟩ := mapped.mpr ⟨j, member, rfl⟩
      exact (bucketFile_inj.mp (Prod.mk.inj equal').1).1 ▸ member'
  have content : retreiveFiles dir (bucketPattern r) =
      (order.flatMap fun j => bucket program.nReduce r (program.pairs j)).flatMap program.encode := by
    rw [retreiveFiles, ← equal, List.flatMap_map, List.flatMap_assoc]
    rfl
  rw [content, roundTrip]
  · exact same.flatMap_right _
  · intro pair member
    obtain ⟨j, inOrder, inBucket⟩ := List.mem_flatMap.mp member
    exact ⟨j, bounded j (same.mem_iff.mp inOrder), (mem_bucket.mp inBucket).1⟩

/-- The files of bucket `r` in the directory of a worker that has written no output file for `r`. -/
theorem WorkerInv.mem_glob {program : Program} {c : Coordinator} {worker : WorkerProcess}
    (inv : WorkerInv program c worker) (coordinator : CoordinatorInv program c)
    (held : ∀ j, (c.mapChunk j).workerId = worker.workerId → j < program.files.length →
      worker.holds j = true)
    {r : Nat} (inside : r < program.nReduce) (unreduced : worker.reduced r = false)
    (file : String × Bytes) :
    file ∈ worker.dir.glob (bucketPattern r) ↔
      ∃ j ∈ ownedJobs program c worker.workerId, (bucketFile j r, program.bucketData j r) = file := by
  rw [MapReduce.mem_glob]
  constructor
  · intro ⟨member, matched⟩
    cases inv.files file member with
    | inl bucketed =>
      obtain ⟨j, n, handed, owner, rfl⟩ := bucketed
      obtain rfl := bucketFile_matches_iff.mp matched
      exact ⟨j, mem_ownedJobs.mpr ⟨lt_of_lt_of_le handed coordinator.mapCurrent, owner⟩, rfl⟩
    -- the pattern also matches an output file of job `r`, which this worker does not have
    | inr written =>
      obtain ⟨k, content, reduced, rfl⟩ := written
      obtain rfl := outFile_matches_iff.mp matched
      rw [unreduced] at reduced
      cases reduced
  · intro ⟨j, owned, equal⟩
    obtain ⟨bounded, owner⟩ := mem_ownedJobs.mp owned
    subst equal
    exact ⟨inv.written j r (held j owner bounded) inside, bucketFile_matches_iff.mpr rfl⟩

/-! ## Collecting a bucket -/

/-- A list is collected by collecting the part of every key. -/
theorem flatMap_parts_perm {α β : Type} {keys : List Nat} (nodup : keys.Nodup) (key : α → Nat)
    (f : α → List β) (items : List α) (known : ∀ a ∈ items, key a ∈ keys) :
    (keys.flatMap fun k => (items.filter fun a => key a = k).flatMap f).Perm (items.flatMap f) := by
  induction keys generalizing items with
  | nil =>
    cases items with
    | nil => exact .nil
    | cons a items => cases known a List.mem_cons_self
  | cons k keys ih =>
    obtain ⟨notLater, nodupLater⟩ := List.nodup_cons.mp nodup
    -- the items of the other keys, which `ih` collects
    have others := ih nodupLater (items.filter fun a => ¬ key a = k) (by
      intro a member
      obtain ⟨inside, other⟩ := List.mem_filter.mp member
      exact (List.mem_cons.mp (known a inside)).resolve_left (by simpa using other))
    have parts : ∀ k' ∈ keys, ((items.filter fun a => ¬ key a = k).filter fun a => key a = k').flatMap f =
        (items.filter fun a => key a = k').flatMap f := by
      intro k' member
      rw [List.filter_filter]
      congr 1
      refine List.filter_congr fun a _ => ?_
      have different : k' ≠ k := fun same => notLater (same ▸ member)
      by_cases equal : key a = k'
      · simp [equal, different]
      · simp [equal]
    rw [List.flatMap_congr parts] at others
    rw [List.flatMap_cons]
    refine (others.append_left _).trans ?_
    rw [← List.flatMap_append]
    refine List.Perm.flatMap_right _ ?_
    simpa using List.filter_append_perm (fun a => decide (key a = k)) items

theorem bucketPairs_eq (program : Program) (r : Nat) :
    program.bucketPairs r = bucket program.nReduce r
      ((List.range program.files.length).flatMap program.pairs) := by
  rw [Program.bucketPairs, bucket, List.filter_flatMap]
  rfl

/-- All workers of `mapWorkerIds` together have the whole bucket. -/
theorem ownedPairs_collected {program : Program} {c : Coordinator} (coordinator : CoordinatorInv program c)
    (mapped : c.mapper.isDone = true) {ids : List Nat} (listed : ids.Perm c.mapper.mapWorkerIds) (r : Nat) :
    (ids.flatMap fun id => ownedPairs program c id r).Perm (program.bucketPairs r) := by
  apply flatMap_parts_perm (listed.nodup_iff.mpr coordinator.nodup) fun j => (c.mapChunk j).workerId
  intro j inRange
  have handed := coordinator.all_handed mapped (List.mem_range.mp inRange)
  exact listed.mem_iff.mpr (coordinator.owner j handed)

/-! ## The invariant of a run -/

/-- Nobody is reported dead, no timer runs out, output files can be created, and every worker has an
address of its own. -/
def FaultFree (s : System) (e : Event) : Prop :=
  InTime s.coordinator ∧
    match e with
    | .setup ipAddress => ∀ worker ∈ s.workers, worker.ipAddress ≠ ipAddress
    | .reportDead _ => False
    | .workDone _ created => created = true
    | _ => True

instance (s : System) (e : Event) : Decidable (FaultFree s e) :=
  match e with
  | .setup ipAddress => inferInstanceAs (Decidable (_ ∧ ∀ worker ∈ s.workers, worker.ipAddress ≠ ipAddress))
  | .reportDead _ => inferInstanceAs (Decidable (_ ∧ False))
  | .workDone _ created => inferInstanceAs (Decidable (_ ∧ created = true))
  | .getWork _ _ | .writeBucket _ | .finishMap _ | .fetch _ _ | .finishReduce _ _ | .callReturns _ | .tick
  | .crash _ => inferInstanceAs (Decidable (_ ∧ True))

/-- A `WorkDone` call in flight: its job has been handed out, and the work is there. -/
structure MessageInv (program : Program) (s : System) (complete : WorkComplete) : Prop where
  map : complete.workType = .map → complete.jobId < s.coordinator.mapper.currentJob ∧
    s.Holder (s.coordinator.mapChunk complete.jobId).workerId complete.jobId
  reduce : complete.workType = .reduce → complete.jobId < s.coordinator.reducer.currentJob ∧
    program.RightOutput complete.jobId complete.outputFile

structure SystemInv (program : Program) (s : System) : Prop where
  registered : System.Registered s
  coordinator : CoordinatorInv program s.coordinator
  address : ∀ worker ∈ s.workers, s.coordinator.workers worker.workerId = some worker.ipAddress
  addressed : ∀ id address, s.coordinator.workers id = some address →
    ∃ worker ∈ s.workers, worker.workerId = id ∧ worker.ipAddress = address
  distinct : ∀ worker ∈ s.workers, ∀ worker' ∈ s.workers,
    worker.ipAddress = worker'.ipAddress → worker.workerId = worker'.workerId
  worker : ∀ worker ∈ s.workers, WorkerInv program s.coordinator worker
  completed : ∀ j, (s.coordinator.mapChunk j).completed = true →
    s.Holder (s.coordinator.mapChunk j).workerId j
  messages : ∀ complete ∈ s.inflight, MessageInv program s complete
  output : ∀ r, (s.coordinator.reduceChunk r).completed = true →
    ∃ content, (outFile r, content) ∈ s.output.entries ∧ program.RightOutput r content

theorem systemInv_init (program : Program) : SystemInv program (.init program) where
  registered := System.registered_init program
  coordinator := CoordinatorInv.initial program
  address := by simp [System.init]
  addressed := by simp [System.init, Coordinator.make]
  distinct := by simp [System.init]
  worker := by simp [System.init]
  completed := by simp [System.init]
  messages := by simp [System.init]
  output := by simp [System.init]

namespace SystemInv

variable {program : Program} {s t : System} {e : Event}

theorem message_step (effect : System.Effect program s e t)
    (extends_ : Extends s.coordinator t.coordinator) {complete : WorkComplete}
    (message : MessageInv program s complete) : MessageInv program t complete where
  map := by
    intro kind
    obtain ⟨handed, holder⟩ := message.map kind
    refine ⟨lt_of_lt_of_le handed extends_.mapJobs, ?_⟩
    rw [extends_.mapOwner _ handed]
    exact holder.step effect
  reduce := by
    intro kind
    obtain ⟨handed, right⟩ := message.reduce kind
    exact ⟨lt_of_lt_of_le handed extends_.reduceJobs, right⟩

/-- A completed map job keeps its holder. -/
theorem completed_step (inv : SystemInv program s) (effect : System.Effect program s e t)
    (extends_ : Extends s.coordinator t.coordinator) {j : Nat}
    (completed : (s.coordinator.mapChunk j).completed = true) :
    t.Holder (t.coordinator.mapChunk j).workerId j := by
  have handed := (inv.coordinator.jobs .map).handed_of_closed completed
  rw [extends_.mapOwner j handed]
  exact (inv.completed j completed).step effect

/-- A step of one worker, together with what the coordinator does for it. -/
theorem set (inv : SystemInv program s) (effect : System.Effect program s e t) {k : Nat}
    {worker worker' : WorkerProcess} (found : s.workers[k]? = some worker)
    (workers : t.workers = s.workers.set k worker')
    (identity : worker'.workerId = worker.workerId ∧ worker'.ipAddress = worker.ipAddress)
    (coordinator : CoordinatorInv program t.coordinator)
    (extends_ : Extends s.coordinator t.coordinator)
    (addresses : t.coordinator.workers = s.coordinator.workers)
    (completed : ∀ j, (t.coordinator.mapChunk j).completed = (s.coordinator.mapChunk j).completed)
    (reduced : ∀ r, (t.coordinator.reduceChunk r).completed = (s.coordinator.reduceChunk r).completed)
    (moved : WorkerInv program t.coordinator worker')
    (messages : ∀ complete ∈ t.inflight, complete ∈ s.inflight ∨ MessageInv program t complete)
    (output : t.output = s.output) : SystemInv program t := by
  have member := Pool.mem_of_found found
  -- what holds of a worker by its id and address holds of the new worker as well
  have transfer : ∀ P : Nat → String → Prop, (∀ w ∈ s.workers, P w.workerId w.ipAddress) →
      ∀ w ∈ t.workers, P w.workerId w.ipAddress := by
    intro P all
    rw [workers]
    refine Pool.forall_set all ?_
    rw [identity.1, identity.2]
    exact all worker member
  exact {
    registered := inv.registered.step effect
    coordinator := coordinator
    address := by
      rw [addresses]
      exact transfer (fun id address => s.coordinator.workers id = some address) inv.address
    addressed := by
      intro id address known
      rw [addresses] at known
      rw [workers]
      refine Pool.exists_set found (fun ⟨same, same'⟩ => ?_) (inv.addressed id address known)
      exact ⟨identity.1.trans same, identity.2.trans same'⟩
    distinct := by
      have inner : ∀ w ∈ s.workers, ∀ w' ∈ t.workers,
          w.ipAddress = w'.ipAddress → w.workerId = w'.workerId :=
        fun w inside => transfer (fun id address => w.ipAddress = address → w.workerId = id)
          (inv.distinct w inside)
      exact transfer (fun id address => ∀ w' ∈ t.workers, address = w'.ipAddress → id = w'.workerId) inner
    worker := by
      rw [workers]
      exact Pool.forall_set (fun w inside => (inv.worker w inside).coordinator inv.coordinator extends_) moved
    completed := fun j done => inv.completed_step effect extends_ (completed j ▸ done)
    messages := by
      intro complete inside
      cases messages complete inside with
      | inl old => exact message_step effect extends_ (inv.messages complete old)
      | inr new => exact new
    output := by
      intro r done
      rw [output]
      exact inv.output r (reduced r ▸ done) }

/-- A step of one worker that the coordinator takes no part in. -/
theorem local_ (inv : SystemInv program s) (effect : System.Effect program s e t) {k : Nat}
    {worker worker' : WorkerProcess} (found : s.workers[k]? = some worker)
    (workers : t.workers = s.workers.set k worker')
    (identity : worker'.workerId = worker.workerId ∧ worker'.ipAddress = worker.ipAddress)
    (coordinator : t.coordinator = s.coordinator) (moved : WorkerInv program s.coordinator worker')
    (messages : ∀ complete ∈ t.inflight, complete ∈ s.inflight ∨ MessageInv program t complete)
    (output : t.output = s.output) : SystemInv program t := by
  apply inv.set effect found workers identity
  · exact coordinator ▸ inv.coordinator
  · exact coordinator ▸ Extends.refl _
  · rw [coordinator]
  · simp [coordinator]
  · simp [coordinator]
  · exact coordinator ▸ moved
  · exact messages
  · exact output

theorem getWork (inv : SystemInv program s) (inTime : InTime s.coordinator) {k : Nat} {order : List Nat}
    {worker : WorkerProcess} (found : s.workers[k]? = some worker) (idle : worker.phase = .idle)
    (visits : order.Perm s.coordinator.mapper.mapWorkerIds) {c : Coordinator} {reply : WorkReply}
    (handled : s.coordinator.GetWorkEffect program.content order worker.workerId (c, reply)) :
    SystemInv program { s.setWorker k (worker.accept reply) with coordinator := c } := by
  have member := Pool.mem_of_found found
  have workerInv := inv.worker worker member
  have effect := System.Effect.getWork found idle visits handled
  cases handled with
  | quiet quiet =>
    refine inv.local_ effect found rfl (System.accept_workerId _ _) rfl ?_ (fun _ old => .inl old) rfl
    cases quiet with
    | inl wait =>
      subst wait
      exact workerInv.enter trivial
    | inr nowork =>
      subst nowork
      exact workerInv.enter trivial
  | map running unfinished next =>
    obtain ⟨rfl, more⟩ := (inv.coordinator.jobs .map).next_fresh (inTime.board .map) next
    have open_ := more.trans_eq inv.coordinator.numFiles
    obtain ⟨coordinator, extends_⟩ :=
      inv.coordinator.handMap program.content (inv.address worker member) next open_ unfinished running
    apply inv.set effect found rfl (System.accept_workerId _ _) coordinator extends_ rfl
    · intro j
      simp only [Coordinator.mapChunk_handMap]
      split <;> rfl
    · exact fun _ => rfl
    · exact (workerInv.coordinator inv.coordinator extends_).enter
        (phaseInv_mapping inv.coordinator worker open_)
    · exact fun _ old => .inl old
    · rfl
  | reduce running mapped next =>
    obtain ⟨rfl, more⟩ := (inv.coordinator.jobs .reduce).next_fresh (inTime.board .reduce) next
    have open_ := more.trans_eq inv.coordinator.nreduce
    obtain ⟨coordinator, extends_⟩ := inv.coordinator.handReduce order worker.workerId next open_ running
    apply inv.set effect found rfl (System.accept_workerId _ _) coordinator extends_ rfl
    · exact fun _ => rfl
    · intro r
      simp only [Coordinator.reduceChunk_handReduce]
      split <;> rfl
    · exact (workerInv.coordinator inv.coordinator extends_).enter
        (phaseInv_reducing inv.coordinator workerInv visits mapped open_)
    · exact fun _ old => .inl old
    · rfl

/-- A worker that is recorded for a map job holds it, once the map phase is over. -/
theorem holds_of_owner (inv : SystemInv program s) (mapped : s.coordinator.mapper.isDone = true)
    {worker : WorkerProcess} (member : worker ∈ s.workers) {j : Nat}
    (owner : (s.coordinator.mapChunk j).workerId = worker.workerId) (inside : j < program.files.length) :
    worker.holds j = true := by
  have done := Coordinator.mapper_isDone_iff.mp mapped j (inv.coordinator.mapChunks ▸ inside)
  obtain ⟨holder, member', same, holds⟩ := inv.completed j done
  exact inv.registered.unique member' member (same.trans owner) ▸ holds

/-- What a reduce job reads at a location are the pairs of the worker that the location names. -/
theorem reads (inv : SystemInv program s) (roundTrip : RoundTrip program) {worker source : WorkerProcess}
    (member : worker ∈ s.workers) {reply : WorkReply} {location : WorkerLocation}
    {left : List WorkerLocation} {bufferedFile : List KeyValue}
    (reducing : ReducingInv program s.coordinator worker reply (location :: left) bufferedFile)
    (reads : System.Source s worker location source) :
    (program.decode (source.getFiles reply.jobId)).Perm
      (ownedPairs program s.coordinator location.workerId reply.jobId) := by
  have inside : reply.jobId < program.nReduce :=
    lt_of_lt_of_le reducing.handed inv.coordinator.reduceCurrent
  have found : source ∈ s.workers ∧ source.workerId = location.workerId := by
    cases reads with
    | own same => exact ⟨member, same.symm⟩
    | other _ answers =>
      have memberSource := List.mem_of_find?_eq_some answers
      have answering := List.find?_some answers
      simp only [Bool.and_eq_true, decide_eq_true_eq] at answering
      obtain ⟨asked, split, _⟩ := reducing.collected
      have known := reducing.addresses location (by simp [split])
      -- addresses are distinct, so the worker that answers is the one the location names
      obtain ⟨named, memberNamed, same, address⟩ := inv.addressed _ _ known
      have unique := inv.distinct source memberSource named memberNamed
        (answering.1.trans address.symm)
      exact ⟨memberSource, unique.trans same⟩
  obtain ⟨memberSource, identity⟩ := found
  have sourceInv := inv.worker source memberSource
  have unreduced : source.reduced reply.jobId = false := by
    -- only the owner of the reduce job could have written its output file
    cases done : source.reduced reply.jobId with
    | false => rfl
    | true =>
      have owner := (sourceInv.reduced _ done).2
      have same := inv.registered.unique memberSource member (owner.symm.trans reducing.owner)
      rw [same, reducing.unfinished] at done
      cases done
  rw [← identity]
  refine decode_retreiveFiles roundTrip (List.nodup_range.filter _) ?_ ?_
  · intro j owned
    exact (mem_ownedJobs.mp owned).1
  · exact sourceInv.mem_glob inv.coordinator
      (fun j owner bounded => inv.holds_of_owner reducing.mapped memberSource owner bounded) inside unreduced

theorem fetched (inv : SystemInv program s) (roundTrip : RoundTrip program) {k : Nat}
    {worker source : WorkerProcess} {reply : WorkReply} {location : WorkerLocation}
    {left : List WorkerLocation} {bufferedFile : List KeyValue}
    (effect : System.Effect program s e (s.setWorker k { worker with
      phase := .reducing reply left (bufferedFile ++ program.decode (source.getFiles reply.jobId)) }))
    (found : s.workers[k]? = some worker)
    (reducing : worker.phase = .reducing reply (location :: left) bufferedFile)
    (reads : System.Source s worker location source) :
    SystemInv program (s.setWorker k { worker with
      phase := .reducing reply left (bufferedFile ++ program.decode (source.getFiles reply.jobId)) }) := by
  have member := Pool.mem_of_found found
  have workerInv := inv.worker worker member
  have phase := workerInv.phase
  rw [PhaseInv, reducing] at phase
  refine inv.local_ effect found rfl ⟨rfl, rfl⟩ rfl ?_ (fun _ old => .inl old) rfl
  apply workerInv.enter
  obtain ⟨asked, split, collected⟩ := phase.collected
  exact { phase with
    collected := by
      refine ⟨asked ++ [location], by simp [split], ?_⟩
      rw [List.flatMap_append, List.flatMap_singleton]
      exact collected.append (inv.reads roundTrip member phase reads) }

theorem finishReduce (inv : SystemInv program s) {k : Nat} {worker : WorkerProcess} {reply : WorkReply}
    {bufferedFile sorted : List KeyValue} (found : s.workers[k]? = some worker)
    (reducing : worker.phase = .reducing reply [] bufferedFile)
    (result : SortedByKey bufferedFile sorted) :
    SystemInv program { s.setWorker k ({ worker with
        dir := worker.dir.create (outFile reply.jobId) (report program.reducef (groups sorted))
      }.callDone .reduce reply.jobId) with
      inflight := s.inflight ++
        [⟨.reduce, reply.jobId, report program.reducef (groups sorted), worker.workerId⟩] } := by
  have member := Pool.mem_of_found found
  have workerInv := inv.worker worker member
  have phase := workerInv.phase
  rw [PhaseInv, reducing] at phase
  -- all locations have been asked, so the buffer is the whole bucket up to the order
  have right : program.RightOutput reply.jobId (report program.reducef (groups sorted)) := by
    obtain ⟨asked, split, collected⟩ := phase.collected
    rw [List.append_nil] at split
    have all := ownedPairs_collected inv.coordinator phase.mapped phase.listed reply.jobId
    rw [List.flatMap_map, split] at all
    exact ⟨sorted, ⟨result.perm.trans (collected.trans all), result.keys⟩, rfl⟩
  refine inv.local_ (.finishReduce found reducing result) found rfl (System.callDone_workerId _ _ _) rfl
    (workerInv.finishReduce inv.coordinator reducing _) ?_ rfl
  intro complete inFlight
  cases List.mem_append.mp inFlight with
  | inl old => exact .inl old
  | inr new =>
    rw [List.mem_singleton] at new
    subst new
    exact .inr ⟨fun kind => (by cases kind), fun _ => ⟨phase.handed, right⟩⟩

theorem finishMap (inv : SystemInv program s) {k : Nat} {worker : WorkerProcess} {reply : WorkReply}
    (found : s.workers[k]? = some worker) (mapping : worker.phase = .mapping reply reply.nReduce) :
    SystemInv program { s.setWorker k (worker.callDone .map reply.jobId) with
      inflight := s.inflight ++ [⟨.map, reply.jobId, [], worker.workerId⟩] } := by
  have member := Pool.mem_of_found found
  have workerInv := inv.worker worker member
  have phase := workerInv.phase
  rw [PhaseInv, mapping] at phase
  obtain ⟨moved, holds⟩ := workerInv.finishMap inv.coordinator mapping
  refine inv.local_ (.finishMap found mapping) found rfl (System.callDone_workerId _ _ _) rfl moved ?_ rfl
  intro complete inFlight
  cases List.mem_append.mp inFlight with
  | inl old => exact .inl old
  | inr new =>
    rw [List.mem_singleton] at new
    subst new
    refine .inr ⟨fun _ => ⟨phase.handed, ?_⟩, fun kind => (by cases kind)⟩
    refine ⟨_, Pool.mem_set_self found _, ?_, holds⟩
    exact (System.callDone_workerId _ _ _).1.trans phase.owner.symm

theorem setup (inv : SystemInv program s) {ipAddress : String}
    (own : ∀ worker ∈ s.workers, worker.ipAddress ≠ ipAddress) :
    SystemInv program { s with
      coordinator := (s.coordinator.doSetup ipAddress).1
      workers := s.workers ++ [WorkerProcess.start ipAddress (s.coordinator.doSetup ipAddress).2] } := by
  have effect : System.Effect program s (.setup ipAddress) _ := .setup ipAddress
  obtain ⟨coordinator, extends_⟩ := inv.coordinator.doSetup ipAddress
  have split : ∀ {w}, w ∈ s.workers ++ [WorkerProcess.start ipAddress (s.coordinator.doSetup ipAddress).2] →
      w ∈ s.workers ∨ w = WorkerProcess.start ipAddress (s.coordinator.doSetup ipAddress).2 := by
    intro w member
    simpa using member
  exact {
    registered := inv.registered.step effect
    coordinator := coordinator
    address := by
      intro w member
      cases split member with
      | inl old => exact extends_.workers _ _ (inv.address w old)
      | inr new =>
        subst new
        simp [WorkerProcess.start, Coordinator.doSetup]
    addressed := by
      intro id address known
      by_cases new : id = s.coordinator.nextWorkerId
      · subst new
        simp only [Coordinator.doSetup, Function.update_self, Option.some.injEq] at known
        exact ⟨_, List.mem_append_right _ (List.mem_singleton.mpr rfl), rfl, known⟩
      · simp only [Coordinator.doSetup, Function.update_of_ne new] at known
        obtain ⟨w, member, same⟩ := inv.addressed id address known
        exact ⟨w, List.mem_append_left _ member, same⟩
    distinct := by
      intro w member w' member' same
      cases split member with
      | inl old =>
        cases split member' with
        | inl old' => exact inv.distinct w old w' old' same
        | inr new' =>
          subst new'
          exact absurd same (own w old)
      | inr new =>
        cases split member' with
        | inl old' =>
          subst new
          exact absurd same.symm (own w' old')
        | inr new' => rw [new, new']
    worker := by
      intro w member
      cases split member with
      | inl old => exact (inv.worker w old).coordinator inv.coordinator extends_
      | inr new =>
        subst new
        exact WorkerInv.start _ ipAddress inv.coordinator.numFiles inv.coordinator.nreduce
    completed := fun j done => inv.completed_step effect extends_ done
    messages := fun complete old => message_step effect extends_ (inv.messages complete old)
    output := inv.output }

theorem workDone (inv : SystemInv program s) {i : Nat} {complete : WorkComplete}
    (found : s.inflight[i]? = some complete) :
    SystemInv program { s with
      coordinator := s.coordinator.workDone complete
      inflight := s.inflight.eraseIdx i
      output :=
        if complete.workType = .reduce ∧ true = true then
          s.output.create (outFile complete.jobId) complete.outputFile
        else s.output } := by
  have effect : System.Effect program s (.workDone i true) _ := .workDone found
  have message := inv.messages complete (List.mem_of_getElem? found)
  obtain ⟨coordinator, extends_⟩ := inv.coordinator.workDone (fun kind => (message.map kind).1)
    fun kind => (message.reduce kind).1
  have workers : (s.coordinator.workDone complete).workers = s.coordinator.workers :=
    (s.coordinator.workDone_frame complete).2.1
  exact {
    registered := inv.registered.step effect
    coordinator := coordinator
    address := by
      rw [workers]
      exact inv.address
    addressed := by
      rw [workers]
      exact inv.addressed
    distinct := inv.distinct
    worker := fun w member => (inv.worker w member).coordinator inv.coordinator extends_
    completed := by
      intro j done
      rw [Coordinator.mapChunk_workDone] at done
      split at done
      · next reported =>
        obtain ⟨kind, rfl, _⟩ := reported
        obtain ⟨handed, holder⟩ := message.map kind
        rw [extends_.mapOwner _ handed]
        exact holder
      · exact inv.completed_step effect extends_ done
    messages := by
      intro other inFlight
      exact message_step effect extends_ (inv.messages other (List.mem_of_mem_eraseIdx inFlight))
    output := by
      intro r done
      rw [Coordinator.reduceChunk_workDone] at done
      -- the output file of another job has another name and stays
      by_cases reported : complete.workType = .reduce ∧ r = complete.jobId
      · obtain ⟨kind, rfl⟩ := reported
        rw [if_pos ⟨kind, rfl⟩]
        exact ⟨_, Directory.mem_create.mpr (.inl rfl), (message.reduce kind).2⟩
      · rw [if_neg (fun both => reported ⟨both.1, both.2.1⟩)] at done
        obtain ⟨content, member, right⟩ := inv.output r done
        refine ⟨content, ?_, right⟩
        split
        · next kind =>
          refine Directory.mem_create.mpr (.inr ⟨member, fun same => reported ⟨kind.1, ?_⟩⟩)
          exact outFile_inj.mp same
        · exact member }

theorem tick (inv : SystemInv program s) :
    SystemInv program { s with coordinator := s.coordinator.serverHandler } := by
  have effect : System.Effect program s .tick _ := .tick
  obtain ⟨coordinator, extends_⟩ := inv.coordinator.serverHandler
  obtain ⟨mapper, reducer, _, workers, _⟩ := s.coordinator.serverHandler_frame
  exact {
    registered := inv.registered.step effect
    coordinator := coordinator
    address := by
      rw [workers]
      exact inv.address
    addressed := by
      rw [workers]
      exact inv.addressed
    distinct := inv.distinct
    worker := fun w member => (inv.worker w member).coordinator inv.coordinator extends_
    completed := by
      intro j done
      rw [Coordinator.mapChunk, mapper] at done
      exact inv.completed_step effect extends_ done
    messages := fun complete old => message_step effect extends_ (inv.messages complete old)
    output := by
      intro r done
      rw [Coordinator.reduceChunk, reducer] at done
      exact inv.output r done }

theorem step (inv : SystemInv program s) (roundTrip : RoundTrip program) (faultFree : FaultFree s e)
    (effect : System.Effect program s e t) : SystemInv program t := by
  have moves := effect
  obtain ⟨inTime, allowed⟩ := faultFree
  cases effect with
  | setup => exact inv.setup allowed
  | getWork found idle visits handled => exact inv.getWork inTime found idle visits handled
  | writeBucket found mapping left =>
    have moved := (inv.worker _ (Pool.mem_of_found found)).writeBucket mapping left
    exact inv.local_ moves found rfl ⟨rfl, rfl⟩ rfl moved (fun _ old => .inl old) rfl
  | finishMap found mapping => exact inv.finishMap found mapping
  | fetched found reducing reads => exact inv.fetched roundTrip moves found reducing reads
  | fetchFailed found =>
    refine inv.local_ moves found rfl ⟨rfl, rfl⟩ rfl ?_ (fun _ old => .inl old) rfl
    exact (inv.worker _ (Pool.mem_of_found found)).enter trivial
  | finishReduce found reducing result => exact inv.finishReduce found reducing result
  | reportDead => exact allowed.elim
  | enter _ found next =>
    refine inv.local_ moves found rfl ⟨rfl, rfl⟩ rfl ?_ (fun _ old => .inl old) rfl
    cases next with
    | inl idle =>
      subst idle
      exact (inv.worker _ (Pool.mem_of_found found)).enter trivial
    | inr exited =>
      subst exited
      exact (inv.worker _ (Pool.mem_of_found found)).enter trivial
  | workDone found =>
    obtain rfl := allowed
    exact inv.workDone found
  | tick => exact inv.tick

end SystemInv

/-! ## The sequential program -/

/-- The pairs that `mrsequential` collects. -/
def sequentialPairs (program : Program) : List KeyValue :=
  program.files.flatMap fun filename => program.mapf filename (program.content filename)

/-- The file that `mrsequential` writes, for a result of its sort. -/
def mrsequential (program : Program) (sorted : List KeyValue) : Option Bytes :=
  (sequentialCalls sorted).map (report program.reducef)

theorem sequentialPairs_eq (program : Program) :
    sequentialPairs program = (List.range program.files.length).flatMap program.pairs := by
  have listing : (List.range program.files.length).map (program.files.getD · "") = program.files := by
    apply List.ext_getElem
    · simp
    · intro j _ inside
      simp [inside]
  calc sequentialPairs program
      = ((List.range program.files.length).map (program.files.getD · "")).flatMap fun filename =>
          program.mapf filename (program.content filename) := by rw [listing, sequentialPairs]
    _ = (List.range program.files.length).flatMap program.pairs := by
        rw [List.flatMap_map]
        rfl

/-- The lines in the output files of a run. -/
def outputLines (program : Program) (s : System) : List Bytes :=
  (List.range program.nReduce).flatMap fun r => linesOf ((s.output.read (outFile r)).getD [])

/-- When the coordinator of a run without faults is done, every output file is there, and together they
have the lines that `mrsequential` writes for the same input. -/
theorem distributed_refines_sequential {program : Program} (positive : 0 < program.nReduce)
    (orderFree : OrderFree program.reducef) (roundTrip : RoundTrip program)
    {taken : List (Taken System Event)} {final : System} (run : System.SystemRun program taken final)
    (faultFree : AllMeet FaultFree taken) (done : final.coordinator.isDone = true)
    {sorted : List KeyValue} (result : SortedByKey (sequentialPairs program) sorted) :
    (∀ r < program.nReduce, (final.output.read (outFile r)).isSome) ∧
      ∃ file, mrsequential program sorted = some file ∧
        (outputLines program final).Perm (linesOf file) := by
  have inv : SystemInv program final := by
    apply run.invariant faultFree (systemInv_init program)
    intro s e t inv meets moved
    exact inv.step roundTrip meets (System.step_effect moved)
  have right : ∀ r < program.nReduce, ∃ parts, SortedByKey (program.bucketPairs r) parts ∧
      final.output.read (outFile r) = some (report program.reducef (groups parts)) := by
    intro r inside
    have completed := Coordinator.reducer_isDone_iff.mp (inv.coordinator.done done).2 r
      (inv.coordinator.reduceChunks ▸ inside)
    obtain ⟨content, member, parts, sortedParts, rfl⟩ := inv.output r completed
    exact ⟨parts, sortedParts, Directory.read_eq_some_iff.mpr member⟩
  constructor
  · intro r inside
    obtain ⟨parts, _, written⟩ := right r inside
    simp [written]
  · have whole : mrsequential program sorted = some (report program.reducef (groups sorted)) := by
      rw [mrsequential, sequentialCalls_eq, Option.map_some]
    refine ⟨_, whole, ?_⟩
    -- one sorted bucket for every reduce job
    choose! parts sortedParts written using right
    have lines : outputLines program final =
        (List.range program.nReduce).flatMap fun r =>
          linesOf (report program.reducef (groups (parts r))) := by
      refine List.flatMap_congr fun r inRange => ?_
      rw [written r (List.mem_range.mp inRange), Option.getD_some]
    rw [lines]
    apply bucket_lines_perm orderFree positive result
    intro r inside
    rw [sequentialPairs_eq, ← bucketPairs_eq]
    exact sortedParts r inside

/-- Two files, two reduce jobs and two workers that take turns. -/
def twoWorkers : List Event :=
  [.setup "x:1", .setup "y:1", .getWork 0 [], .getWork 1 [1], .writeBucket 0, .writeBucket 1, .writeBucket 1,
    .finishMap 1, .writeBucket 0, .tick, .finishMap 0, .workDone 1 true, .workDone 0 true, .callReturns 0,
    .callReturns 1, .getWork 1 [1, 2], .getWork 0 [2, 1], .fetch 0 true, .fetch 1 true, .fetch 1 true,
    .fetch 0 true, .finishReduce 0 [⟨[98], [49]⟩], .finishReduce 1 [⟨[97], [49]⟩], .workDone 1 true,
    .workDone 0 true, .tick]

theorem countWords_orderFree (files : List String) (nReduce : Nat) :
    OrderFree (countWords files nReduce).reducef := by
  intro key values values' same
  simp only [countWords, same.length_eq]

theorem two_workers_refine_sequential :
    outputLines (countWords ["a", "b"] 2)
        (outcome (System.step (countWords ["a", "b"] 2)) (System.init (countWords ["a", "b"] 2)) twoWorkers) =
      [[97, 32, 49], [98, 32, 49]] ∧
    ∃ file, mrsequential (countWords ["a", "b"] 2) [⟨[97], [49]⟩, ⟨[98], [49]⟩] = some file ∧
      (outputLines (countWords ["a", "b"] 2)
        (outcome (System.step (countWords ["a", "b"] 2)) (System.init (countWords ["a", "b"] 2))
          twoWorkers)).Perm (linesOf file) := by
  have roundTrip : RoundTrip (countWords ["a", "b"] 2) := by
    intro pairs emitted
    apply jsonDecode_jsonEncode
    intro pair member
    obtain ⟨j, inside, pairOf⟩ := emitted pair member
    have known : ∀ j < 2, ∀ pair ∈ (countWords ["a", "b"] 2).pairs j,
        ∀ byte ∈ pair.key ++ pair.value, byte ≠ 10 ∧ byte ≠ 34 := by decide +kernel
    exact known j inside pair pairOf
  refine ⟨by decide, (distributed_refines_sequential (by decide) (countWords_orderFree _ _) roundTrip
    (run_trace _ _ twoWorkers) (by decide) (by decide) (by decide)).2⟩

end Tda596Labs.MapReduce
