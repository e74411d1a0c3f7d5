import Tda596Labs.Chord.DeadSuccessor
import Tda596Labs.Chord.Invariants

/-! # What the pointers of a node can be

Pointers are copied from node to node: a reply to `Stabilize` carries a list of successors, a refused
`Notify` a predecessor, a lookup whatever a finger holds.  Along all of this no address comes up but `"X"`
and those of processes that were started, and no list of successors changes its length.  So if all
processes are started with the same `-r`, `verifySuccs` never leaves a list.

The invariant is stated for a condition on the addresses and one on the lengths.
-/

namespace Tda596Labs.Chord

open Transition

/-- An address that is unknown, or meets the condition. -/
def Known (good : NodeAddress → Prop) (a : NodeAddress) : Prop := a = "X" ∨ good a

/-- The pointers of a node meet a condition, and so does the length of its `Successors` after the first. -/
structure PointsTo (good : NodeAddress → Prop) (long : Nat → Prop) (chord : Chord) : Prop where
  nodeAddress : good chord.node.nodeAddress
  predecessor : Known good chord.node.predecessor
  successors : ∀ a ∈ chord.node.successors.toList, Known good a
  fingerTable : ∀ n, Known good (chord.node.fingerTable n).nodeAddress
  length : long chord.node.successors.others.length

/-- A list of successors as a node sends it. -/
structure Lists (good : NodeAddress → Prop) (long : Nat → Prop) (successors : List NodeAddress) : Prop where
  known : ∀ a ∈ successors, Known good a
  length : ∃ n, long n ∧ successors.length = n + 1

/-- The addresses that a goroutine may write into a node. -/
def Phase.Brings (good : NodeAddress → Prop) (long : Nat → Prop) : Phase → Prop
  | .notify target => Known good target
  | .notifyCall request target => good request.nodeAddress ∧ Known good target
  | .notifyReply target response =>
    Known good target ∧ (response.success = false → Known good response.newPredAddress)
  | .joinCall request _ => good request.nodeAddress
  | .joinReply response => Known good response.nodeAddress
  | .stabilizeCall request _ => good request.nodeAddress
  | .stabilizeReply response =>
    (response.youGood = true → Lists good long response.nodeSuccessors) ∧
      (response.youGood = false → Known good response.newPredAddress)
  | .fingerReply _ _ response _ => Known good response.nodeAddress
  | _ => True

section Nodes

variable {sha1 : String → Nat} {good : NodeAddress → Prop} {long : Nat → Prop} {chord changed : Chord}

/-! ## Answers -/

theorem PointsTo.first (points : PointsTo good long chord) : Known good chord.node.successors.first :=
  points.successors _ (by simp [Successors.toList])

theorem PointsTo.lists (points : PointsTo good long chord) :
    Lists good long chord.node.successors.toList :=
  ⟨points.successors, _, points.length, rfl⟩

theorem closestPreceedingFrom_known (points : PointsTo good long chord) (key : Nat) (response : Response)
    (n : Nat) : Known good (closestPreceedingFrom chord key response n).nodeAddress := by
  induction n with
  | zero => exact points.first
  | succ n ih =>
    rw [closestPreceedingFrom]
    split
    · exact points.fingerTable (n + 1)
    · exact ih

theorem findAmong_known (points : PointsTo good long chord) (key : Nat) {among : List NodeAddress}
    (known : ∀ a ∈ among, Known good a) {found : RetCode × Response}
    (finds : findAmong sha1 chord key among = some found) : Known good found.2.nodeAddress := by
  induction among with
  | nil => cases finds
  | cons succ later ih =>
    rw [findAmong] at finds
    split at finds
    · cases finds
      exact .inr points.nodeAddress
    · split at finds
      · cases finds
        exact known succ List.mem_cons_self
      · split at finds
        · cases finds
          exact .inr points.nodeAddress
        · exact ih (fun a listed => known a (.tail _ listed)) finds

theorem find_known (sha1 : String → Nat) (points : PointsTo good long chord) (key : Nat) (response : Response) :
    Known good (find sha1 chord key response).2.nodeAddress := by
  unfold find
  split
  · next found finds => exact findAmong_known points key points.successors finds
  · exact closestPreceedingFrom_known points key response keySize

theorem findSuccessor_known (points : PointsTo good long chord) (key : Nat) :
    Known good (findSuccessor sha1 chord key).nodeAddress := by
  have known := find_known sha1 points key .zero
  unfold findSuccessor
  split
  · next response passes =>
    rw [passes] at known
    dsimp only
    split
    · exact points.first
    · exact known
  · next found =>
    rw [found] at known
    exact known

/-! ## Updates -/

theorem PointsTo.setSuccessor (points : PointsTo good long chord) {a : NodeAddress} (known : Known good a) :
    PointsTo good long (chord.setSuccessor a) where
  nodeAddress := points.nodeAddress
  predecessor := points.predecessor
  successors b listed := by
    obtain rfl | later := List.mem_cons.mp listed
    · exact known
    · exact points.successors b (.tail _ later)
  fingerTable := points.fingerTable
  length := points.length

theorem PointsTo.setPredecessor (points : PointsTo good long chord) {a : NodeAddress}
    (known : Known good a) : PointsTo good long (chord.setPredecessor a) :=
  ⟨points.nodeAddress, known, points.successors, points.fingerTable, points.length⟩

theorem PointsTo.setFinger (points : PointsTo good long chord) (index : Nat) {a : NodeAddress}
    (known : Known good a) : PointsTo good long (chord.setFinger index a) where
  nodeAddress := points.nodeAddress
  predecessor := points.predecessor
  successors := points.successors
  fingerTable n := by
    by_cases here : n = index
    · subst here
      simpa [Chord.setFinger] using known
    · simpa [Chord.setFinger, Function.update_of_ne here] using points.fingerTable n
  length := points.length

theorem PointsTo.fillFingers (points : PointsTo good long chord) {a : NodeAddress} (known : Known good a)
    (n : Nat) : PointsTo good long (fillFingers chord a n) := by
  induction n generalizing chord with
  | zero => exact points
  | succ n ih => exact ih (points.setFinger (n + 1) known)

theorem PointsTo.replaceFingers (points : PointsTo good long chord) (failedNode : NodeAddress)
    {a : NodeAddress} (known : Known good a) (n : Nat) :
    PointsTo good long (replaceFingers chord failedNode a n) := by
  induction n generalizing chord with
  | zero => exact points
  | succ n ih =>
    rw [Chord.replaceFingers]
    split
    · exact points
    · exact ih (points.setFinger (n + 1) known)

theorem PointsTo.accepted (points : PointsTo good long chord) {a : NodeAddress} (known : Known good a) :
    PointsTo good long (chord.accepted a) :=
  let set := points.setSuccessor known
  ⟨set.nodeAddress, set.predecessor, set.successors, set.fingerTable, set.length⟩

theorem verifyOthers_known {own replied others : List NodeAddress} (known : ∀ a ∈ own, Known good a)
    (theirs : ∀ a ∈ replied, Known good a) (ran : verifyOthers own replied = some others) :
    ∀ a ∈ others, Known good a := by
  induction own generalizing replied others with
  | nil =>
    cases ran
    exact known
  | cons address own ih =>
    cases replied with
    | nil => cases ran
    | cons reply replied =>
      rw [verifyOthers] at ran
      split at ran
      · cases ran
        exact known
      · obtain ⟨rest, verified, rfl⟩ := Option.map_eq_some_iff.mp ran
        have later := ih (fun a listed => known a (.tail _ listed)) (fun a listed => theirs a (.tail _ listed))
          verified
        exact List.forall_mem_cons.mpr ⟨theirs reply List.mem_cons_self, later⟩

theorem PointsTo.verifySuccs (points : PointsTo good long chord) {replied : List NodeAddress}
    (theirs : ∀ a ∈ replied, Known good a) (ran : chord.verifySuccs replied = some changed) :
    PointsTo good long changed := by
  obtain ⟨others, verified, rfl⟩ := Option.map_eq_some_iff.mp ran
  have old := List.forall_mem_cons.mp points.successors
  refine ⟨points.nodeAddress, points.predecessor, ?_, points.fingerTable, ?_⟩
  · exact List.forall_mem_cons.mpr ⟨old.1, verifyOthers_known old.2 theirs verified⟩
  · change long others.length
    rw [verifyOthers_length verified]
    exact points.length

theorem PointsTo.findNewSucc (points : PointsTo good long chord) : PointsTo good long chord.findNewSucc := by
  have old := List.forall_mem_cons.mp points.successors
  unfold Chord.findNewSucc
  split
  · next second later others =>
    rw [others] at old
    refine ⟨points.nodeAddress, points.predecessor, ?_, points.fingerTable, ?_⟩
    · intro a listed
      obtain rfl | inside := List.mem_cons.mp listed
      · exact old.2 a List.mem_cons_self
      · obtain kept | last := List.mem_append.mp inside
        · exact old.2 a (.tail _ kept)
        · exact .inl (List.mem_singleton.mp last)
    · simpa [others] using points.length
  · split
    · exact points.setSuccessor points.predecessor
    · exact points.fillFingers (points.fingerTable _) _

theorem dropHead_known {list : List NodeAddress} (known : ∀ a ∈ list, Known good a) :
    ∀ a ∈ dropHead list, Known good a := by
  intro a listed
  cases list with
  | nil => cases listed
  | cons first rest =>
    obtain kept | marker := List.mem_append.mp listed
    · exact known a (.tail _ (List.mem_of_mem_filter kept))
    · exact .inl (List.eq_of_mem_replicate marker)

theorem failedFingerFrom_known (points : PointsTo good long chord) (failedNode : NodeAddress) {n : Nat}
    {above : NodeAddress} (known : Known good above) {found : Nat × NodeAddress}
    (finds : failedFingerFrom chord failedNode n above = some found) : Known good found.2 := by
  induction n generalizing above with
  | zero => cases finds
  | succ n ih =>
    rw [failedFingerFrom] at finds
    split at finds
    · cases finds
      exact known
    · exact ih (points.fingerTable (n + 1)) finds

theorem PointsTo.clearDeadSucc (points : PointsTo good long chord) :
    PointsTo good long chord.clearDeadSucc := by
  have collapsed : PointsTo good long { chord with node := { chord.node with
      successors := Successors.collapse chord.node.successors } } := by
    have length : (Successors.collapse chord.node.successors).others.length =
        chord.node.successors.others.length := by
      have same := dropHead_length chord.node.successors.toList
      rw [← collapse_toList] at same
      simpa [Successors.toList] using same
    refine ⟨points.nodeAddress, points.predecessor, ?_, points.fingerTable, ?_⟩
    · rw [collapse_toList]
      exact dropHead_known points.successors
    · rw [length]
      exact points.length
  unfold Chord.clearDeadSucc
  dsimp only
  split
  · exact collapsed
  · next found =>
    exact collapsed.replaceFingers _ (failedFingerFrom_known collapsed _ points.predecessor found) _

theorem PointsTo.resolveFinger (points : PointsTo good long chord) (asked : NodeAddress) (index : Nat) :
    PointsTo good long (resolveFinger chord asked index).1 := by
  unfold Chord.resolveFinger
  dsimp only
  generalize (if asked = "X" then _ else asked) = nodeToAsk
  split
  · exact points
  · split
    · exact points.setFinger _ (.inr points.nodeAddress)
    · exact points

theorem PointsTo.resolvedFinger (points : PointsTo good long chord) (index : Nat) {response : Response}
    (known : Known good response.nodeAddress) : PointsTo good long (resolvedFinger chord index response).1 := by
  unfold Chord.resolvedFinger
  split
  · exact points.setFinger _ known
  · split
    · exact points.setFinger _ (.inr points.nodeAddress)
    · exact points

theorem PointsTo.fixFingers (points : PointsTo good long chord) :
    PointsTo good long (fixFingers sha1 chord).1 := by
  unfold Chord.fixFingers
  dsimp only
  refine PointsTo.resolveFinger ?_ _ _
  have moved : PointsTo good long
      { chord with node := { chord.node with nextFinger := (chord.node.nextFinger + 1) % keySize } } :=
    ⟨points.nodeAddress, points.predecessor, points.successors, points.fingerTable, points.length⟩
  split
  · exact moved.setFinger _ points.first
  · exact moved

/-- Only the node record matters. -/
theorem PointsTo.of_node (points : PointsTo good long chord) (same : changed.node = chord.node) :
    PointsTo good long changed := by
  obtain ⟨nodeAddress, predecessor, successors, fingerTable, length⟩ := points
  rw [← same] at nodeAddress predecessor successors fingerTable length
  exact ⟨nodeAddress, predecessor, successors, fingerTable, length⟩

theorem initClient_pointsTo {a : NodeAddress} (isGood : good a) {extra : Nat} (size : long extra)
    (identifier : Nat) : PointsTo good long (initClient identifier a extra) where
  nodeAddress := isGood
  predecessor := .inl rfl
  successors b listed := by
    obtain rfl | later := List.mem_cons.mp listed
    · exact .inr isGood
    · exact .inr (List.eq_of_mem_replicate later ▸ isGood)
  fingerTable _ := .inr isGood
  length := by simpa [initClient] using size

theorem PointsTo.create (points : PointsTo good long chord) : PointsTo good long chord.create :=
  let set := points.setSuccessor (.inr points.nodeAddress)
  ⟨points.nodeAddress, .inr points.nodeAddress, set.successors, points.fingerTable, points.length⟩

/-! ## Handlers -/

theorem notify_pointsTo (sha1 : String → Nat) (points : PointsTo good long chord) {request : Request}
    (sender : good request.nodeAddress) :
    PointsTo good long (notify sha1 chord request).1 ∧
      ((notify sha1 chord request).2.success = false →
        Known good (notify sha1 chord request).2.newPredAddress) := by
  unfold notify
  split
  · exact ⟨points.setPredecessor (.inr sender), fun refused => by cases refused⟩
  · split
    · exact ⟨points.setPredecessor (.inr sender), fun refused => by cases refused⟩
    · exact ⟨points, fun _ => points.predecessor⟩

theorem stabilized_pointsTo (points : PointsTo good long chord) {request : Request}
    (sender : good request.nodeAddress) :
    PointsTo good long (stabilized chord request).1 ∧
      Phase.Brings good long (.stabilizeReply (stabilized chord request).2) := by
  unfold stabilized
  split
  · exact ⟨points.setPredecessor (.inr sender), fun _ => points.lists, fun bad => by cases bad⟩
  · split
    · exact ⟨points, fun _ => points.lists, fun bad => by cases bad⟩
    · exact ⟨points, fun good => (by cases good), fun _ => points.predecessor⟩

theorem join_pointsTo (points : PointsTo good long chord) {request : Request}
    (sender : good request.nodeAddress) :
    PointsTo good long (join sha1 chord request).1 ∧
      Known good (join sha1 chord request).2.nodeAddress := by
  have known := find_known sha1 points request.identifier .zero
  unfold join
  split <;> next found =>
    rw [found] at known
    first
    | exact ⟨points.setSuccessor (.inr sender), known⟩
    | exact ⟨points.setPredecessor known, known⟩
    | exact ⟨points, known⟩

/-! ## Steps of one goroutine -/

theorem storeResolved_brings (request : StoreFileRequest) (back : Return) (resolving : Resolving) :
    (storeResolved request back resolving).Brings good long := by
  cases resolving <;> trivial

theorem lookupResolved_brings (request : RetreiveFileRequest) (resolving : Resolving) :
    (lookupResolved request resolving).Brings good long := by
  cases resolving <;> trivial

theorem handedOff_brings (progress : HandOff) : (handedOff progress).Brings good long := by
  cases progress <;> trivial

theorem Proceeds.pointsTo {disk : Disk} {phase next : Phase} {spawned : List Phase}
    (proceeds : Proceeds sha1 disk chord phase changed next spawned) (points : PointsTo good long chord)
    (brings : phase.Brings good long) :
    PointsTo good long changed ∧ ∀ p ∈ next :: spawned, p.Brings good long := by
  have only : ∀ {p : Phase}, p.Brings good long → ∀ q ∈ [p], q.Brings good long :=
    fun brought q listed => List.mem_singleton.mp listed ▸ brought
  have starts : ∀ {p : Phase}, p.Brings good long → ∀ q ∈ [.finished, p], q.Brings good long := by
    intro p brought q listed
    obtain rfl | last := List.mem_cons.mp listed
    · trivial
    · exact List.mem_singleton.mp last ▸ brought
  cases proceeds with
  | notify target => exact ⟨points, only ⟨points.nodeAddress, brings⟩⟩
  | accepted => exact ⟨points.accepted brings.1, only trivial⟩
  | refused refusal => exact ⟨points, starts (brings.2 refusal)⟩
  | join => exact ⟨points, only points.nodeAddress⟩
  | joined => exact ⟨points, starts brings⟩
  | passedAlong => exact ⟨points, starts trivial⟩
  | drops => exact ⟨points.clearDeadSucc, only trivial⟩
  | verified isGood verifies => exact ⟨points.verifySuccs (brings.1 isGood).known verifies, only trivial⟩
  | replaced bad => exact ⟨points, starts (brings.2 bad)⟩
  | unfingered index => exact ⟨points.setFinger index (.inl rfl), only trivial⟩
  | fingered onward =>
    refine ⟨points.resolvedFinger _ brings, only ?_⟩
    obtain rfl | ⟨query, rest, rfl⟩ := onward <;> trivial
  | handsOff =>
    exact ⟨points.of_node (reassignToPred_spec sha1 disk chord).node, only (handedOff_brings _)⟩
  | forgets => exact ⟨points.setPredecessor (.inl rfl), only trivial⟩
  | resolves request back => exact ⟨points, only (storeResolved_brings _ _ _)⟩
  | handsOn rest keepFiles =>
    exact ⟨points.of_node (handOff_spec sha1 disk chord rest keepFiles).node, only (handedOff_brings _)⟩
  | takenOver =>
    have listed : PointsTo good long
        { chord with files := chord.files ++ chord.replicatedFiles, replicatedFiles := [] } :=
      points.of_node rfl
    exact ⟨listed.setPredecessor (.inl rfl), only trivial⟩
  | moves onward =>
    refine ⟨points.of_node (takeOverEntry_spec sha1 disk chord _).1, only ?_⟩
    obtain rfl | ⟨request, succ, rfl, _⟩ := onward <;> trivial
  | _ => exact ⟨points, only trivial⟩

theorem Serves.pointsTo {disk : Disk} {me : NodeAddress} {phase next : Phase}
    (serves : Serves sha1 disk me chord phase changed next) (points : PointsTo good long chord)
    (brings : phase.Brings good long) : PointsTo good long changed ∧ next.Brings good long := by
  cases serves with
  | notify request =>
    obtain ⟨changed, refused⟩ := notify_pointsTo sha1 points brings.1
    exact ⟨changed, brings.2, refused⟩
  | join request => exact join_pointsTo points brings
  | stabilize request => exact stabilized_pointsTo points brings
  | finger => exact ⟨points, findSuccessor_known points _⟩
  | resolve => exact ⟨points, storeResolved_brings _ _ _⟩
  | stores | unstored | duplicates | takesOver => exact ⟨points.of_node (storeFile_node _ _ _), trivial⟩
  | lookupFind => exact ⟨points, lookupResolved_brings _ _⟩
  | _ => exact ⟨points, trivial⟩

theorem Phase.failed_brings {phase next : Phase} (gives : phase.failed = some next) :
    next.Brings good long := by
  cases phase <;> cases gives <;> trivial

theorem Phase.cutOff_brings (a : NodeAddress) {phase : Phase} (brings : phase.Brings good long) :
    (phase.cutOff a).Brings good long := by
  cases phase with
  | duplicate | duplicateCall | storeReturn =>
    rw [Phase.cutOff]
    split <;> trivial
  | _ => exact brings

theorem Phase.handler_brings {phase next : Phase} {dest : NodeAddress}
    (left : phase.handler = some (dest, next)) : next.Brings good long := by
  cases phase <;> cases left <;> trivial

end Nodes

namespace System

/-- A process started in this event meets the conditions. -/
structure Admits (good : NodeAddress → Prop) (long : Nat → Prop) (e : Event) : Prop where
  create : ∀ a extra, e = .create a extra → good a ∧ long extra
  enter : ∀ a extra entry, e = .enter a extra entry → good a ∧ long extra

/-- A process was started at the address, with a list of `extra + 1` successors. -/
def StartedWith (taken : List (Taken System Event)) (a : NodeAddress) (extra : Nat) : Prop :=
  ∃ τ ∈ taken, τ.event = .create a extra ∨ ∃ entry, τ.event = .enter a extra entry

section

variable {sha1 : String → Nat} {good : NodeAddress → Prop} {long : Nat → Prop} {e : Event}

theorem Boots.pointsTo {a : NodeAddress} {chord : Chord} {tasks : List Task}
    (boots : Boots sha1 e a chord tasks) (admits : Admits good long e) :
    PointsTo good long chord ∧ ∀ task ∈ tasks, task.phase.Brings good long := by
  cases boots with
  | create _ extra =>
    obtain ⟨isGood, size⟩ := admits.create _ _ rfl
    exact ⟨(initClient_pointsTo isGood size _).create, fun task listed => by cases listed⟩
  | enter _ extra entry =>
    obtain ⟨isGood, size⟩ := admits.enter _ _ _ rfl
    refine ⟨initClient_pointsTo isGood size _, fun task listed => ?_⟩
    rw [List.mem_singleton.mp listed]
    trivial

theorem Begins.pointsTo {a : NodeAddress} {chord changed : Chord} {phase : Phase}
    (begins : Begins sha1 a chord e changed phase) (points : PointsTo good long chord) :
    PointsTo good long changed ∧ phase.Brings good long := by
  cases begins with
  | searches => exact ⟨points.findNewSucc, points.nodeAddress⟩
  | stabilizes => exact ⟨points, points.nodeAddress⟩
  | fixed | fixes => exact ⟨points.fixFingers, trivial⟩
  | looksUp => exact ⟨points, lookupResolved_brings _ _⟩
  | _ => exact ⟨points, trivial⟩

theorem upholds_pointers :
    Upholds sha1 (fun _ => PointsTo good long) (fun _ => Phase.Brings good long)
      fun _ e => Admits good long e where
  boots admits boots := boots.pointsTo admits
  begins _ points begins := begins.pointsTo points
  proceeds _ points brings ran := (proceed_proceeds ran).pointsTo points brings
  serves _ points brings _ serves := serves.pointsTo points brings
  fails _ _ _ gives := Phase.failed_brings gives
  stops _ _ := trivial
  cutOff _ brings := Phase.cutOff_brings _ brings
  left _ _ left := Phase.handler_brings left

/-- No pointer is made up: in every state of every run, the predecessor, the successors and the fingers of a
running node are `"X"` or addresses at which a process was started. -/
theorem pointers_were_started {taken : List (Taken System Event)} {final : System}
    (run : Run (System.step sha1) init taken final) {a : NodeAddress} {chord : Chord}
    (found : final.nodes a = some chord) {b : NodeAddress}
    (points : b = chord.node.predecessor ∨ b ∈ chord.node.successors.toList ∨
      ∃ n, b = (chord.node.fingerTable n).nodeAddress) :
    b = "X" ∨ ∃ extra, StartedWith taken b extra := by
  have admits : AllMeet (fun _ e => Admits (fun b => ∃ extra, StartedWith taken b extra)
      (fun _ => True) e) taken := fun τ member =>
    ⟨fun a extra creates => ⟨⟨extra, τ, member, .inl creates⟩, trivial⟩,
      fun a extra entry enters => ⟨⟨extra, τ, member, .inr ⟨entry, enters⟩⟩, trivial⟩⟩
  have known := (upholds_pointers.run run admits all_init).nodes a chord found
  obtain rfl | listed | ⟨n, rfl⟩ := points
  · exact known.predecessor
  · exact known.successors b listed
  · exact known.fingerTable n

/-- If all processes are started with lists of the same length, every list of successors keeps this length,
and no reply to `Stabilize` makes `verifySuccs` leave a list. -/
theorem equal_lists_in_range {taken : List (Taken System Event)} {final : System}
    (run : Run (System.step sha1) init taken final) {extra : Nat}
    (equal : ∀ a n, StartedWith taken a n → n = extra) {a : NodeAddress} {chord : Chord}
    (found : final.nodes a = some chord) :
    chord.node.successors.toList.length = extra + 1 ∧
      ∀ task ∈ final.tasks, ∀ response, task.phase = .stabilizeReply response → response.youGood = true →
        (chord.verifySuccs response.nodeSuccessors).isSome := by
  have admits : AllMeet (fun _ e => Admits (fun _ => True) (· = extra) e) taken := fun τ member =>
    ⟨fun a n creates => ⟨trivial, equal a n ⟨τ, member, .inl creates⟩⟩,
      fun a n entry enters => ⟨trivial, equal a n ⟨τ, member, .inr ⟨entry, enters⟩⟩⟩⟩
  have all := upholds_pointers.run run admits all_init
  have own := (all.nodes a chord found).length
  refine ⟨by simp [Successors.toList, own], fun task listed response replied isGood => ?_⟩
  have brings := all.tasks task listed
  rw [replied] at brings
  obtain ⟨n, rfl, length⟩ := (brings.1 isGood).length
  rw [Chord.verifySuccs, Option.isSome_map, verifyOthers_isSome_iff]
  exact .inl (by omega)

end

/-- A second node joins the first and asks it with `Stabilize`. -/
def secondAsks : List Event :=
  [.create "localhost:1" 1, .enter "localhost:20" 1 "localhost:1", .resume 0 .good, .handle 0 .good,
    .resume 0 .good, .resume 1 .good, .handle 1 .good, .resume 1 .good, .stabilize "localhost:20",
    .handle 2 .good]

theorem secondAsks_started :
    ∃ chord, (outcome (step String.length) init secondAsks).nodes "localhost:20" = some chord ∧
      chord.node.successors.first = "localhost:1" ∧
      ∃ extra, StartedWith (trace (step String.length) init secondAsks) "localhost:1" extra := by
  have points : ((outcome (step String.length) init secondAsks).nodes "localhost:20").any
      (fun chord => chord.node.successors.first = "localhost:1") = true := by decide +kernel
  obtain ⟨chord, found, first⟩ := (Option.any_eq_true ..).mp points
  have isFirst := of_decide_eq_true first
  have started := pointers_were_started (run_trace (step String.length) init secondAsks) found
    (.inr (.inl (by simp [Successors.toList] : chord.node.successors.first ∈ _)))
  rw [isFirst] at started
  exact ⟨chord, found, isFirst, started.resolve_left (by decide)⟩

/-- The reply that the second node has got. -/
def firstReplies : StabilizeResponse := ⟨true, "", ["localhost:20", "localhost:1"]⟩

theorem secondAsks_in_range :
    ∃ chord, (outcome (step String.length) init secondAsks).nodes "localhost:20" = some chord ∧
      chord.node.successors.toList.length = 2 ∧
      ⟨"localhost:20", .ticker, .stabilizeReply firstReplies⟩ ∈
        (outcome (step String.length) init secondAsks).tasks ∧
      (chord.verifySuccs firstReplies.nodeSuccessors).isSome := by
  have running : ((outcome (step String.length) init secondAsks).nodes "localhost:20").isSome := by
    decide +kernel
  obtain ⟨chord, found⟩ := Option.isSome_iff_exists.mp running
  have replied : ⟨"localhost:20", .ticker, .stabilizeReply firstReplies⟩ ∈
      (outcome (step String.length) init secondAsks).tasks := by decide +kernel
  have equal : ∀ a n, StartedWith (trace (step String.length) init secondAsks) a n → n = 1 := by
    rintro a n ⟨τ, member, starts⟩
    have listed := event_mem_of_mem_trace member
    obtain creates | ⟨entry, enters⟩ := starts
    · simp_all [secondAsks]
    · simp_all [secondAsks]
  obtain ⟨length, inRange⟩ := equal_lists_in_range (run_trace (step String.length) init secondAsks) equal found
  exact ⟨chord, found, length, replied, inRange _ replied _ rfl rfl⟩

end System

end Tda596Labs.Chord
