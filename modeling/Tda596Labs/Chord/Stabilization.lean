import Tda596Labs.Chord.System
import Tda596Labs.Chord.Ring

/-! # One round of stabilization

A node that has been accepted by its successor is known to nobody else yet: the node before it still
points past it, and it does not know its own predecessor.  When every node stabilizes once, only the
node before the joiner gets an answer that is not `YouGood`; it notifies the joiner, which learns its
predecessor, and takes it for its new successor.  No other pointer moves, whatever the order, and
everything that is under way comes to an end.
-/

namespace Tda596Labs.Chord

section Round

variable {sha1 : String → Nat} (grown : Ring sha1) (joiner : NodeAddress) (extra : Nat)

/-- The pointers of a node in the grown ring: right, but for the successor of the node before the joiner
and the predecessor of the joiner, which may be as they were. -/
structure Placed (a : NodeAddress) (chord : Chord) : Prop where
  nodeAddress : chord.node.nodeAddress = a
  length : chord.node.successors.others.length = extra
  first : chord.node.successors.first = grown.next a ∨
    (a = grown.previous joiner ∧ chord.node.successors.first = grown.next joiner)
  predecessor : chord.node.predecessor = grown.previous a ∨ (a = joiner ∧ chord.node.predecessor = "X")

/-- Where the goroutines of node `a` can be during the round. -/
def Phase.Expected (a : NodeAddress) : Phase → Prop
  | .finished => True
  | .stabilizeCall request succ => request.nodeAddress = a ∧
    (succ = grown.next a ∨ (a = grown.previous joiner ∧ succ = grown.next joiner))
  | .stabilizeReply response =>
    (response.youGood = true → response.nodeSuccessors.length = extra + 1) ∧
      (response.youGood = false → a = grown.previous joiner ∧ response.newPredAddress = joiner)
  | .notify target => a = grown.previous joiner ∧ target = joiner
  | .notifyCall request target => a = grown.previous joiner ∧ target = joiner ∧ request.nodeAddress = a
  | .notifyReply target response =>
    a = grown.previous joiner ∧ target = joiner ∧ response.success = true
  | _ => False

/-- The goroutine will make the joiner the successor of the node before it. -/
def Phase.Correcting (a : NodeAddress) : Phase → Prop
  | .stabilizeCall _ succ => a = grown.previous joiner ∧ succ = grown.next joiner
  | .stabilizeReply response => response.youGood = false
  | .notify _ | .notifyCall _ _ | .notifyReply _ _ => True
  | _ => False

/-- The joiner has answered a `Notify`. -/
def Phase.Replied : Phase → Prop
  | .notifyReply _ _ => True
  | _ => False

/-- The steps a goroutine of the round still has to make, with those of what it starts. -/
def Phase.left : Phase → Nat
  | .stabilizeCall _ _ => 5
  | .stabilizeReply _ => 4
  | .notify _ => 3
  | .notifyCall _ _ => 2
  | .notifyReply _ _ => 1
  | _ => 0

/-! ## Steps of one goroutine -/

/-- What a step of a goroutine of node `a` does in the round. -/
structure Advances (a : NodeAddress) (phase : Phase) (chord changed : Chord) (next : Phase)
    (spawned : List Phase) : Prop where
  placed : Placed grown joiner extra a changed
  expected : ∀ p ∈ next :: spawned, p.Expected grown joiner extra a ∧ ¬ p.Replied
  predecessor : changed.node.predecessor = chord.node.predecessor
  first : changed.node.successors.first = chord.node.successors.first ∨ phase.Replied
  correcting : phase.Correcting grown joiner a →
    (a = grown.previous joiner ∧ changed.node.successors.first = joiner) ∨
      ∃ p ∈ next :: spawned, p.Correcting grown joiner a
  left : ((next :: spawned).map Phase.left).sum < phase.left

/-- What a handler at node `b` does in the round, for a request of node `a`. -/
structure Answers (a b : NodeAddress) (phase : Phase) (chord changed : Chord) (next : Phase) : Prop where
  placed : Placed grown joiner extra b changed
  expected : next.Expected grown joiner extra a
  first : changed.node.successors.first = chord.node.successors.first
  predecessor : changed.node.predecessor = chord.node.predecessor ∨
    changed.node.predecessor = grown.previous b
  replied : next.Replied → b = joiner ∧ changed.node.predecessor = grown.previous joiner
  correcting : phase.Correcting grown joiner a → next.Correcting grown joiner a
  left : next.left < phase.left

section Steps

variable {grown joiner extra} {disk : Disk} {a b : NodeAddress} {chord changed : Chord} {phase next : Phase}
  {spawned : List Phase}

/-- The joiner is in the ring, and its two neighbours are different. -/
structure Between (grown : Ring sha1) (joiner : NodeAddress) : Prop where
  noX : "X" ∉ grown.members
  joiner_mem : joiner ∈ grown.members
  apart : grown.next joiner ≠ grown.previous joiner

theorem Between.next_ne (between : Between grown joiner) (member : a ∈ grown.members) :
    grown.next a ≠ a := by
  intro alone
  have same : ∀ z ∈ grown.members, z = a := fun z inside => grown.eq_of_next_self member alone inside
  exact between.apart ((same _ grown.next_mem).trans (same _ grown.previous_mem).symm)

theorem Between.previous_ne (between : Between grown joiner) : grown.previous joiner ≠ joiner := by
  intro alone
  have same := grown.next_previous between.joiner_mem
  rw [alone] at same
  exact between.next_ne between.joiner_mem same

theorem Between.ne_X (between : Between grown joiner) (member : a ∈ grown.members) : a ≠ "X" :=
  fun isX => between.noX (isX ▸ member)

theorem Placed.first_mem (placed : Placed grown joiner extra a chord) :
    chord.node.successors.first ∈ grown.members := by
  rcases placed.first with right | ⟨_, late⟩
  · exact right ▸ grown.next_mem
  · exact late ▸ grown.next_mem

theorem Placed.first_ne (between : Between grown joiner) (member : a ∈ grown.members)
    (placed : Placed grown joiner extra a chord) : chord.node.successors.first ≠ a := by
  rcases placed.first with right | ⟨isPrevious, late⟩
  · exact right ▸ between.next_ne member
  · rw [isPrevious, late]
    exact between.apart

/-- No handler of the round has a second half, and no goroutine keeps a lock. -/
theorem Phase.Expected.site (expected : phase.Expected grown joiner extra a) (node : NodeAddress) :
    phase.site node = node ∧ phase.ownsLock = false := by
  cases phase with
  | finished | stabilizeCall | stabilizeReply | notify | notifyCall | notifyReply => exact ⟨rfl, rfl⟩
  | _ => exact expected.elim

theorem Phase.Replied.correcting (replied : phase.Replied) : phase.Correcting grown joiner a := by
  cases phase with
  | notifyReply => trivial
  | _ => exact replied.elim

theorem Proceeds.advances (between : Between grown joiner)
    (proceeds : Proceeds sha1 disk chord phase changed next spawned)
    (placed : Placed grown joiner extra a chord) (expected : phase.Expected grown joiner extra a) :
    Advances grown joiner extra a phase chord changed next spawned := by
  cases proceeds with
  | notify target =>
    obtain ⟨isPrevious, rfl⟩ := expected
    exact ⟨placed, by simp [Phase.Expected, Phase.Replied, isPrevious, request, placed.nodeAddress], rfl,
      .inl rfl, fun _ => .inr ⟨_, List.mem_cons_self, trivial⟩, by simp [Phase.left]⟩
  | accepted success =>
    obtain ⟨rfl, isJoiner, _⟩ := expected
    rw [isJoiner]
    have now : Placed grown joiner extra (grown.previous joiner) (chord.accepted joiner) :=
      ⟨placed.nodeAddress, placed.length, .inl (grown.next_previous between.joiner_mem).symm,
        placed.predecessor⟩
    exact ⟨now, by simp [Phase.Expected, Phase.Replied], rfl, .inr trivial, fun _ => .inl ⟨rfl, rfl⟩,
      by simp [Phase.left]⟩
  | refused refusal =>
    obtain ⟨_, _, success⟩ := expected
    simp [success] at refusal
  | @verified response _ good verifies =>
    obtain ⟨keeps, predecessor, first⟩ := verifySuccs_keeps verifies
    obtain ⟨others, verified, same⟩ := Option.map_eq_some_iff.mp verifies
    have length : changed.node.successors.others.length = extra := by
      rw [← same]
      exact (verifyOthers_length verified).trans placed.length
    have now : Placed grown joiner extra a changed :=
      ⟨keeps.nodeAddress.trans placed.nodeAddress, length, first ▸ placed.first,
        predecessor ▸ placed.predecessor⟩
    exact ⟨now, by simp [Phase.Expected, Phase.Replied], predecessor, .inl first,
      fun correcting => by simp [Phase.Correcting, good] at correcting, by simp [Phase.left]⟩
  | replaced bad other =>
    obtain ⟨isPrevious, isJoiner⟩ := expected.2 bad
    exact ⟨placed, by simp [Phase.Expected, Phase.Replied, isPrevious, isJoiner], rfl, .inl rfl,
      fun _ => .inr ⟨_, List.mem_cons_of_mem _ List.mem_cons_self, trivial⟩, by simp [Phase.left]⟩
  | incoherent bad mine =>
    -- The node before the joiner is not the joiner.
    obtain ⟨isPrevious, isJoiner⟩ := expected.2 bad
    rw [isJoiner, placed.nodeAddress, isPrevious] at mine
    exact absurd mine.symm between.previous_ne
  | _ => exact expected.elim

/-- `Stabilize` and `Notify` do the same at a node that has no other predecessor. -/
theorem stabilized_accepts {request : Request}
    (open_ : chord.node.predecessor = "X" ∨ chord.node.predecessor = request.nodeAddress) :
    stabilized chord request =
      (chord.setPredecessor request.nodeAddress, ⟨true, "", chord.node.successors.toList⟩) := by
  unfold stabilized
  split
  · rfl
  · next known =>
    have same := open_.resolve_left known
    rw [if_pos same, ← same]
    rfl

theorem notify_accepts {request : Request}
    (open_ : chord.node.predecessor = "X" ∨ chord.node.predecessor = request.nodeAddress) :
    notify sha1 chord request = (chord.setPredecessor request.nodeAddress, ⟨true, ""⟩) := by
  rw [notify, if_pos open_]

theorem Placed.setPredecessor (placed : Placed grown joiner extra b chord) :
    Placed grown joiner extra b (chord.setPredecessor (grown.previous b)) :=
  ⟨placed.nodeAddress, placed.length, placed.first, .inl rfl⟩

theorem Serves.answers (between : Between grown joiner) (member : a ∈ grown.members)
    (serves : Serves sha1 disk a chord phase changed next) (asks : phase.awaits = some b)
    (placed : Placed grown joiner extra b chord) (expected : phase.Expected grown joiner extra a) :
    Answers grown joiner extra a b phase chord changed next := by
  cases serves with
  | notify request target =>
    obtain ⟨isPrevious, isJoiner, mine⟩ := expected
    obtain rfl : b = joiner := (Option.some.inj asks).symm.trans isJoiner
    have isOpen : chord.node.predecessor = "X" ∨ chord.node.predecessor = request.nodeAddress := by
      rw [mine, isPrevious]
      exact placed.predecessor.symm.imp_left And.right
    rw [notify_accepts isOpen, mine, isPrevious]
    exact ⟨placed.setPredecessor, ⟨rfl, isJoiner, rfl⟩, rfl, .inr rfl, fun _ => ⟨rfl, rfl⟩, fun _ => trivial,
      by simp [Phase.left]⟩
  | stabilize request succ =>
    obtain rfl : succ = b := Option.some.inj asks
    obtain ⟨mine, rfl | ⟨rfl, rfl⟩⟩ := expected
    · -- The successor has this node for its predecessor, or none.
      have isPrevious := grown.previous_next member
      have isOpen : chord.node.predecessor = "X" ∨ chord.node.predecessor = request.nodeAddress := by
        have predecessor := placed.predecessor
        rw [isPrevious] at predecessor
        rw [mine]
        exact predecessor.symm.imp_left And.right
      have length : chord.node.successors.toList.length = extra + 1 := by
        simp [Successors.toList, placed.length]
      have now := placed.setPredecessor
      rw [isPrevious] at now
      rw [stabilized_accepts isOpen, mine]
      refine ⟨now, ⟨fun _ => length, nofun⟩, rfl, .inr isPrevious.symm, nofun, fun ⟨isBefore, late⟩ => ?_,
        by simp [Phase.left]⟩
      rw [isBefore, grown.next_previous between.joiner_mem] at late
      exact absurd late.symm (between.next_ne between.joiner_mem)
    · -- The node after the joiner knows the joiner.
      have knows : chord.node.predecessor = joiner := by
        rcases placed.predecessor with right | ⟨itself, _⟩
        · exact right.trans (grown.previous_next between.joiner_mem)
        · exact absurd itself (between.next_ne between.joiner_mem)
      have answer : stabilized chord request = (chord, ⟨false, joiner, []⟩) := by
        have other : joiner ≠ request.nodeAddress := mine ▸ between.previous_ne.symm
        simp [stabilized, knows, between.ne_X between.joiner_mem, other]
      rw [answer]
      exact ⟨placed, ⟨nofun, fun _ => ⟨rfl, rfl⟩⟩, rfl, .inl rfl, nofun, fun _ => rfl, by simp [Phase.left]⟩
  | _ => exact expected.elim

end Steps

end Round

/-! ## The whole network -/

namespace System

open Transition

section Network

variable {sha1 : String → Nat} (grown : Ring sha1) (joiner : NodeAddress) (extra : Nat)

/-- The joiner knows the node before it. -/
def Met (s : System) : Prop :=
  ∃ chord, s.nodes joiner = some chord ∧ chord.node.predecessor = grown.previous joiner

/-- The node before the joiner points to it. -/
def Pointed (s : System) : Prop :=
  ∃ chord, s.nodes (grown.previous joiner) = some chord ∧ chord.node.successors.first = joiner

structure Integrating (s : System) : Prop where
  running : ∀ a, (s.nodes a).isSome ↔ a ∈ grown.members
  placed : ∀ a chord, s.nodes a = some chord → Placed grown joiner extra a chord
  expected : ∀ task ∈ s.tasks,
    task.node ∈ grown.members ∧ task.phase.Expected grown joiner extra task.node
  met : (Pointed grown joiner s ∨ ∃ task ∈ s.tasks, task.phase.Replied) → Met grown joiner s
  free : ∀ a, s.owner a = none

/-- The node before the joiner points to it, or a goroutine will make it do so. -/
def Underway (s : System) : Prop :=
  Pointed grown joiner s ∨ ∃ task ∈ s.tasks, task.phase.Correcting grown joiner task.node

/-- The events of the round: nodes begin to stabilize, goroutines go on, requests are handled. -/
def Rounds : Event → Prop
  | .stabilize _ | .resume _ _ | .handle _ _ => True
  | _ => False

instance (e : Event) : Decidable (Rounds e) :=
  match e with
  | .stabilize _ | .resume _ _ | .handle _ _ => isTrue trivial
  | .create _ _ | .enter _ _ _ | .fixFingers _ | .checkPred _ | .storeFile _ _ _ | .lookup _ _ | .fail _
  | .crash _ => isFalse id

/-- Goroutines go on and requests are handled. -/
def Goes : Event → Prop
  | .resume _ _ | .handle _ _ => True
  | _ => False

/-- The steps still to be made. -/
def work (s : System) : Nat := (s.tasks.map fun task => task.phase.left).sum

end Network

section Network

variable {sha1 : String → Nat} {grown : Ring sha1} {joiner : NodeAddress} {extra : Nat} {s t : System}
  {e : Event}

theorem Pointed.update (pointed : Pointed grown joiner s) {b : NodeAddress} {chord changed : Chord}
    (found : s.nodes b = some chord) (nodes : t.nodes = Function.update s.nodes b (some changed))
    (same : changed.node.successors.first = chord.node.successors.first) : Pointed grown joiner t := by
  obtain ⟨owner, ownerFound, isFirst⟩ := pointed
  by_cases equal : grown.previous joiner = b
  · rw [equal] at ownerFound
    obtain rfl := Option.some.inj (found.symm.trans ownerFound)
    exact ⟨changed, by rw [nodes, equal, Function.update_self], same.trans isFirst⟩
  · exact ⟨owner, by rw [nodes, Function.update_of_ne equal]; exact ownerFound, isFirst⟩

/-- A step at one node that puts its pointers right or leaves them alone. -/
theorem Integrating.update (inv : Integrating grown joiner extra s) {b : NodeAddress}
    {chord changed : Chord} (found : s.nodes b = some chord)
    (nodes : t.nodes = Function.update s.nodes b (some changed)) (free : ∀ a, t.owner a = none)
    (placed : Placed grown joiner extra b changed)
    (predecessor : changed.node.predecessor = chord.node.predecessor ∨
      changed.node.predecessor = grown.previous b)
    (first : changed.node.successors.first = chord.node.successors.first ∨
      ∃ task ∈ s.tasks, task.phase.Replied)
    (expected : ∀ task ∈ t.tasks,
      task.node ∈ grown.members ∧ task.phase.Expected grown joiner extra task.node)
    (replied : ∀ task ∈ t.tasks, task.phase.Replied →
      (∃ task ∈ s.tasks, task.phase.Replied) ∨ Met grown joiner t) :
    Integrating grown joiner extra t := by
  have still : Met grown joiner s → Met grown joiner t := by
    rintro ⟨owner, ownerFound, knows⟩
    by_cases equal : joiner = b
    · subst equal
      obtain rfl := Option.some.inj (found.symm.trans ownerFound)
      exact ⟨changed, by rw [nodes, Function.update_self], predecessor.elim (·.trans knows) id⟩
    · exact ⟨owner, by rw [nodes, Function.update_of_ne equal]; exact ownerFound, knows⟩
  refine ⟨fun a => ?_, fun a other otherFound => ?_, expected, ?_, free⟩
  · rw [← inv.running a, nodes]
    by_cases equal : a = b
    · simp [equal, found]
    · rw [Function.update_of_ne equal]
  · rw [nodes] at otherFound
    by_cases equal : a = b
    · subst equal
      rw [Function.update_self] at otherFound
      exact Option.some.inj otherFound ▸ placed
    · rw [Function.update_of_ne equal] at otherFound
      exact inv.placed a other otherFound
  · rintro (⟨owner, ownerFound, isFirst⟩ | ⟨task, member, isReplied⟩)
    · refine still (inv.met ?_)
      rw [nodes] at ownerFound
      by_cases equal : grown.previous joiner = b
      · rw [equal, Function.update_self] at ownerFound
        obtain rfl := Option.some.inj ownerFound
        rcases first with same | before
        · exact .inl ⟨chord, equal ▸ found, same.symm.trans isFirst⟩
        · exact .inr before
      · rw [Function.update_of_ne equal] at ownerFound
        exact .inl ⟨owner, ownerFound, isFirst⟩
    · exact (replied task member isReplied).elim (fun before => still (inv.met (.inr before))) id

/-- The only event of the round that starts something is a tick of `CallStabilize`, and it always asks
the successor. -/
theorem Integrating.begins (inv : Integrating grown joiner extra s) (between : Between grown joiner)
    (rounds : Rounds e) {a : NodeAddress} {chord changed : Chord} {phase : Phase}
    (found : s.nodes a = some chord) (begins : Begins sha1 a chord e changed phase) :
    a ∈ grown.members ∧ chord = changed ∧ e = .stabilize a ∧
      phase = .stabilizeCall chord.request chord.node.successors.first := by
  have member : a ∈ grown.members := (inv.running a).mp (by simp [found])
  have placed := inv.placed a chord found
  cases begins with
  | searches unknown => exact absurd unknown (between.ne_X placed.first_mem)
  | alone itself => exact absurd (itself.trans placed.nodeAddress) (placed.first_ne between member)
  | stabilizes => exact ⟨member, rfl, rfl, rfl⟩
  | _ => exact rounds.elim

/-- A goroutine of the round goes on, at its own node. -/
theorem Integrating.advances (inv : Integrating grown joiner extra s) (between : Between grown joiner)
    {k : Nat} {disk : Disk} {task : Task} {chord changed : Chord} {phase : Phase} {spawned : List Phase}
    (member : s.tasks[k]? = some task) (found : s.nodes (task.phase.site task.node) = some chord)
    (proceeds : Proceeds sha1 disk chord task.phase changed phase spawned) :
    s.nodes task.node = some chord ∧
      Advances grown joiner extra task.node task.phase chord changed phase spawned := by
  obtain ⟨_, expected⟩ := inv.expected task (Pool.mem_of_found member)
  rw [(expected.site task.node).1] at found
  exact ⟨found, proceeds.advances between (inv.placed _ chord found) expected⟩

theorem Integrating.answers (inv : Integrating grown joiner extra s) (between : Between grown joiner)
    {k : Nat} {disk : Disk} {task : Task} {target : NodeAddress} {chord changed : Chord} {phase : Phase}
    (member : s.tasks[k]? = some task) (asks : task.phase.awaits = some target)
    (found : s.nodes target = some chord)
    (serves : Serves sha1 disk task.node chord task.phase changed phase) :
    Answers grown joiner extra task.node target task.phase chord changed phase := by
  obtain ⟨inRing, expected⟩ := inv.expected task (Pool.mem_of_found member)
  exact serves.answers between inRing asks (inv.placed target chord found) expected

theorem Integrating.step (inv : Integrating grown joiner extra s) (between : Between grown joiner)
    (rounds : Rounds e) (moved : System.step sha1 s e = some t) : Integrating grown joiner extra t := by
  cases step_effect moved with
  | launch boots => cases boots <;> exact rounds.elim
  | @start _ a _ _ chord _ _ starts found _ _ _ ran =>
    obtain ⟨inRing, rfl, _, rfl⟩ := inv.begins between rounds found (starts.begins ran)
    have placed := inv.placed a chord found
    refine inv.update found rfl (fun b => ?_) placed (.inl rfl) (.inl rfl) (fun task member => ?_)
      fun task member replied => .inl ?_
    · simp [Function.update_apply, Phase.ownsLock, inv.free]
    · rcases List.mem_append.mp member with old | new
      · exact inv.expected task old
      · obtain rfl := List.mem_singleton.mp new
        exact ⟨inRing, placed.nodeAddress, placed.first⟩
    · rcases List.mem_append.mp member with old | new
      · exact ⟨task, old, replied⟩
      · obtain rfl := List.mem_singleton.mp new
        exact replied.elim
  | @resume k disk task chord changed phase spawned member found may proceeds =>
    obtain ⟨here, advances⟩ := inv.advances between member found proceeds
    obtain ⟨inRing, expected⟩ := inv.expected task (Pool.mem_of_found member)
    refine inv.update here (by rw [(expected.site task.node).1]) (fun b => ?_) advances.placed
      (.inl advances.predecessor) ?_ (fun task' inside => ?_) fun task' inside replied => .inl ?_
    · have unlocked := ((advances.expected phase List.mem_cons_self).1.site task.node).2
      split <;> simp [Function.update_apply, unlocked, inv.free]
    · exact advances.first.imp_right fun replied => ⟨task, Pool.mem_of_found member, replied⟩
    · rcases mem_resumed inside with old | ⟨sameNode, isNew⟩
      · exact inv.expected task' old
      · rw [sameNode]
        exact ⟨inRing, (advances.expected _ isNew).1⟩
    · rcases mem_resumed inside with old | ⟨_, isNew⟩
      · exact ⟨task', old, replied⟩
      · exact absurd replied (advances.expected _ isNew).2
  | @handle k disk task target chord changed phase member asks found free serves =>
    have answers := inv.answers between member asks found serves
    obtain ⟨inRing, _⟩ := inv.expected task (Pool.mem_of_found member)
    refine inv.update found rfl inv.free answers.placed answers.predecessor (.inl answers.first)
      (Pool.forall_set inv.expected ⟨inRing, answers.expected⟩) fun task' inside replied => ?_
    rcases List.mem_or_eq_of_mem_set inside with kept | rfl
    · exact .inl ⟨task', kept, replied⟩
    · -- The joiner has just learned who is before it.
      obtain ⟨rfl, knows⟩ := answers.replied replied
      exact .inr ⟨changed, Function.update_self .., knows⟩
  | fail | crash => exact rounds.elim

theorem Underway.step (underway : Underway grown joiner s) (inv : Integrating grown joiner extra s)
    (between : Between grown joiner) (rounds : Rounds e) (moved : System.step sha1 s e = some t) :
    Underway grown joiner t := by
  cases step_effect moved with
  | launch boots => cases boots <;> exact rounds.elim
  | @start _ a _ _ chord _ _ starts found _ _ _ ran =>
    obtain ⟨_, rfl, _, rfl⟩ := inv.begins between rounds found (starts.begins ran)
    exact underway.imp (·.update found rfl rfl) fun ⟨task, member, correcting⟩ =>
      ⟨task, List.mem_append_left _ member, correcting⟩
  | @resume k disk task chord changed phase spawned member found may proceeds =>
    obtain ⟨here, advances⟩ := inv.advances between member found proceeds
    obtain ⟨_, expected⟩ := inv.expected task (Pool.mem_of_found member)
    rw [(expected.site task.node).1]
    have corrects : task.phase.Correcting grown joiner task.node → ∀ owner, Underway grown joiner
        ⟨Function.update s.nodes task.node (some changed), owner,
          s.tasks.set k { task with phase := phase } ++
            spawned.map fun phase => ⟨task.node, .spawned, phase⟩⟩ := by
      intro correcting owner
      rcases advances.correcting correcting with ⟨isPrevious, corrected⟩ | ⟨p, new, still⟩
      · exact .inl ⟨changed, by simp [isPrevious], corrected⟩
      · obtain ⟨task', inside, sameNode, samePhase⟩ := exists_resumed member new
        exact .inr ⟨task', inside, by rw [sameNode, samePhase]; exact still⟩
    rcases underway with pointed | ⟨task', inside, correcting⟩
    · rcases advances.first with same | replied
      · exact .inl (pointed.update here rfl same)
      · exact corrects replied.correcting _
    · rcases Pool.mem_set_or_eq member { task with phase := phase } inside with kept | rfl
      · exact .inr ⟨task', List.mem_append_left _ kept, correcting⟩
      · exact corrects correcting _
  | @handle k disk task target chord changed phase member asks found free serves =>
    have answers := inv.answers between member asks found serves
    exact underway.imp (·.update found rfl answers.first) (Pool.exists_set member answers.correcting)
  | fail | crash => exact rounds.elim

/-- A tick of the node before the joiner begins the correction, unless it is made already. -/
theorem Integrating.underway (inv : Integrating grown joiner extra s) (between : Between grown joiner)
    (moved : System.step sha1 s (.stabilize (grown.previous joiner)) = some t) :
    Underway grown joiner t := by
  cases step_effect moved with
  | launch boots => cases boots
  | @start _ a goroutine first chord changed phase starts found _ _ _ ran =>
    have rounds : Rounds (.stabilize (grown.previous joiner)) := trivial
    obtain ⟨_, rfl, sameEvent, rfl⟩ := inv.begins between rounds found (starts.begins ran)
    obtain rfl := Event.stabilize.inj sameEvent
    rcases (inv.placed _ chord found).first with right | ⟨_, late⟩
    · rw [grown.next_previous between.joiner_mem] at right
      exact .inl ⟨chord, Function.update_self .., right⟩
    · exact .inr ⟨⟨grown.previous joiner, goroutine, _⟩, List.mem_append_right _ List.mem_cons_self, rfl, late⟩

theorem work_lt (inv : Integrating grown joiner extra s) (between : Between grown joiner)
    (goes : Goes e) (moved : System.step sha1 s e = some t) : work t < work s := by
  cases step_effect moved with
  | launch boots => cases boots <;> exact goes.elim
  | start starts => cases starts <;> exact goes.elim
  | @resume k disk task chord changed phase spawned member found may proceeds =>
    have less := (inv.advances between member found proceeds).2.left
    have set := Pool.sum_map_set (fun task : Task => task.phase.left) member { task with phase := phase }
    have new : ((spawned.map fun phase => (⟨task.node, .spawned, phase⟩ : Task)).map
        fun task => task.phase.left) = spawned.map Phase.left := by simp
    simp only [work, List.map_append, new, List.sum_append, List.map_cons, List.sum_cons] at less set ⊢
    omega
  | @handle k disk task target chord changed phase member asks found free serves =>
    have less := (inv.answers between member asks found serves).left
    have set := Pool.sum_map_set (fun task : Task => task.phase.left) member { task with phase := phase }
    simp only [work] at set ⊢
    omega
  | fail | crash => exact goes.elim

/-- Nobody panics and nobody waits for ever: whatever is under way can go on. -/
theorem Integrating.goes (inv : Integrating grown joiner extra s) (between : Between grown joiner)
    (notYet : ¬ Quiet s) : ∃ e t, Goes e ∧ System.step sha1 s e = some t := by
  simp only [Quiet, not_forall] at notYet
  obtain ⟨⟨node, goroutine, phase⟩, inside, unfinished⟩ := notYet
  obtain ⟨k, member⟩ := List.mem_iff_getElem?.mp inside
  obtain ⟨inRing, expected⟩ := inv.expected _ inside
  have runs : ∀ a ∈ grown.members, ∃ chord, s.nodes a = some chord :=
    fun a inRing => Option.isSome_iff_exists.mp ((inv.running a).mpr inRing)
  obtain ⟨chord, found⟩ := runs node inRing
  have resumes : phase.site node = node → phase.ownsLock = false →
      (proceed sha1 .good chord phase).isSome → ∃ e t, Goes e ∧ System.step sha1 s e = some t := by
    intro here unlocked ready
    obtain ⟨t, moved⟩ := resume_enabled member (by rw [here]; exact found)
      (mayRun_of_free unlocked (inv.free _)) ready
    exact ⟨.resume k .good, t, trivial, moved⟩
  have handles : ∀ target ∈ grown.members, phase.awaits = some target →
      (∀ other, (serve sha1 .good node other phase).isSome) →
        ∃ e t, Goes e ∧ System.step sha1 s e = some t := by
    intro target isMember asks ready
    obtain ⟨other, otherFound⟩ := runs target isMember
    obtain ⟨t, moved⟩ := handle_enabled member asks otherFound (fun _ => inv.free target) (ready other)
    exact ⟨.handle k .good, t, trivial, moved⟩
  cases phase with
  | finished => exact absurd rfl unfinished
  | stabilizeCall request succ =>
    have isMember : succ ∈ grown.members := by
      rcases expected.2 with toNext | ⟨_, late⟩
      · exact toNext ▸ grown.next_mem
      · exact late ▸ grown.next_mem
    exact handles succ isMember rfl fun _ => rfl
  | stabilizeReply response =>
    refine resumes rfl rfl ?_
    simp only [proceed]
    split
    · next good =>
      -- The reply is one longer than the part of `Successors` it replaces.
      have length := (inv.placed node chord found).length
      have enough := expected.1 good
      simpa [verifySuccs] using verifyOthers_isSome_iff.mpr (.inl (by omega))
    · split <;> rfl
  | notify target => exact resumes rfl rfl rfl
  | notifyCall request target =>
    exact handles target (expected.2.1 ▸ between.joiner_mem) rfl fun _ => rfl
  | notifyReply target response =>
    refine resumes rfl rfl ?_
    simp only [proceed, expected.2.2, if_true, Option.isSome_some]
  | _ => exact expected.elim

theorem Integrating.completes (inv : Integrating grown joiner extra s) (between : Between grown joiner) :
    ∃ later final, Run (System.step sha1) s later final ∧ AllMeet (fun _ e => Goes e) later ∧
      Quiet final := by
  refine exists_run_of_descent work (fun s holds notYet => ?_) inv
  obtain ⟨e, t, goes, moved⟩ := holds.goes between notYet
  have rounds : Rounds e := by cases e <;> trivial
  exact ⟨e, t, goes, moved, holds.step between rounds moved, work_lt holds between goes moved⟩

/-- When all is at rest after the node before the joiner has stabilized, every pointer is right. -/
theorem Integrating.linked (inv : Integrating grown joiner extra s) (between : Between grown joiner)
    (underway : Underway grown joiner s) (quiet : Quiet s) : Linked grown s.nodes := by
  have pointed : Pointed grown joiner s := by
    rcases underway with pointed | ⟨task, member, correcting⟩
    · exact pointed
    · rw [quiet task member] at correcting
      exact correcting.elim
  obtain ⟨newcomer, newFound, knows⟩ := inv.met (.inl pointed)
  obtain ⟨before, beforeFound, isFirst⟩ := pointed
  refine ⟨between.noX, fun a member => ?_⟩
  obtain ⟨chord, found⟩ := Option.isSome_iff_exists.mp ((inv.running a).mpr member)
  have placed := inv.placed a chord found
  refine ⟨chord, found, ?_, ?_⟩
  · rcases placed.predecessor with right | ⟨rfl, _⟩
    · exact right
    · obtain rfl := Option.some.inj (newFound.symm.trans found)
      exact knows
  · rcases placed.first with right | ⟨rfl, _⟩
    · exact right
    · obtain rfl := Option.some.inj (beforeFound.symm.trans found)
      exact isFirst.trans (grown.next_previous between.joiner_mem).symm

/-- `joiner` has been accepted by `Notify` at its successor in the ring, with the pointers of all other
nodes as before; all have `extra + 1` successors, and nothing is under way. -/
structure JustAccepted (ring grown : Ring sha1) (joiner : NodeAddress) (extra : Nat) (s : System) : Prop where
  two : 2 ≤ ring.members.length
  joined : grown.members = joiner :: ring.members
  noX : "X" ∉ grown.members
  old : ∀ a ∈ ring.members, ∃ chord, s.nodes a = some chord ∧ chord.node.nodeAddress = a ∧
    chord.node.successors.others.length = extra ∧ chord.node.successors.first = ring.next a ∧
    chord.node.predecessor =
      if a = ring.successor (hashString sha1 joiner) then joiner else ring.previous a
  newcomer : ∃ chord, s.nodes joiner = some chord ∧ chord.node.nodeAddress = joiner ∧
    chord.node.successors.others.length = extra ∧
    chord.node.successors.first = ring.successor (hashString sha1 joiner) ∧ chord.node.predecessor = "X"
  only : ∀ a, (s.nodes a).isSome → a ∈ grown.members
  tasks : s.tasks = []
  free : ∀ a, s.owner a = none

theorem JustAccepted.between {ring : Ring sha1} (accepted : JustAccepted ring grown joiner extra s) :
    Between grown joiner := by
  refine ⟨accepted.noX, ring.joiner_mem accepted.joined, fun same => ?_⟩
  have neighbours := ring.next_previous_joiner accepted.joined
  rw [same] at neighbours
  exact ring.next_ne accepted.two (ring.previous_joiner_mem accepted.joined) neighbours

theorem JustAccepted.integrating {ring : Ring sha1} (accepted : JustAccepted ring grown joiner extra s) :
    Integrating grown joiner extra s := by
  have joined := accepted.joined
  have isNext := ring.next_joiner joined
  refine ⟨fun a => ⟨accepted.only a, fun member => ?_⟩, fun a chord found => ?_, ?_, ?_, accepted.free⟩
  · by_cases isJoiner : a = joiner
    · obtain ⟨chord, found, _⟩ := accepted.newcomer
      simp [isJoiner, found]
    · obtain ⟨chord, found, _⟩ := accepted.old a (ring.mem_of_joined joined member isJoiner)
      simp [found]
  · have member := accepted.only a (by simp [found])
    by_cases isJoiner : a = joiner
    · subst isJoiner
      obtain ⟨_, same, nodeAddress, length, first, predecessor⟩ := accepted.newcomer
      obtain rfl := Option.some.inj (found.symm.trans same)
      exact ⟨nodeAddress, length, .inl (first.trans isNext.symm), .inr ⟨rfl, predecessor⟩⟩
    · have old := ring.mem_of_joined joined member isJoiner
      obtain ⟨_, same, nodeAddress, length, first, predecessor⟩ := accepted.old a old
      obtain rfl := Option.some.inj (found.symm.trans same)
      refine ⟨nodeAddress, length, ?_, .inl ?_⟩
      · rw [first]
        by_cases isPrevious : a = grown.previous joiner
        · exact .inr ⟨isPrevious, isPrevious ▸ ring.next_previous_joiner joined⟩
        · exact .inl (ring.next_of_joined joined old isPrevious).symm
      · rw [predecessor, ← isNext]
        split
        · next isSuccessor => rw [isSuccessor, grown.previous_next (ring.joiner_mem joined)]
        · next other => exact (ring.previous_of_joined joined old other).symm
  · rw [accepted.tasks]
    exact List.forall_mem_nil _
  · rintro (⟨chord, found, isFirst⟩ | ⟨task, member, _⟩)
    · -- Before the round nobody of the old ring points to the joiner.
      obtain ⟨_, same, _, _, first, _⟩ := accepted.old _ (ring.previous_joiner_mem joined)
      obtain rfl := Option.some.inj (found.symm.trans same)
      exact absurd (isFirst ▸ first ▸ ring.next_mem) (ring.joiner_not_mem joined)
    · rw [accepted.tasks] at member
      cases member

theorem JustAccepted.reached {ring : Ring sha1} {start : System} {taken : List (Taken System Event)}
    (accepted : JustAccepted ring grown joiner extra start) (run : Run (System.step sha1) start taken s)
    (rounds : AllMeet (fun _ e => Rounds e) taken) : Integrating grown joiner extra s :=
  run.invariant rounds accepted.integrating fun _ _ _ holds rounds moved =>
    holds.step accepted.between rounds moved

/-- Once the node before the joiner has begun to stabilize, the correction is under way. -/
theorem JustAccepted.underway {ring : Ring sha1} {start : System} {taken : List (Taken System Event)}
    (accepted : JustAccepted ring grown joiner extra start) (run : Run (System.step sha1) start taken s)
    (rounds : AllMeet (fun _ e => Rounds e) taken)
    (ticked : ∃ τ ∈ taken, τ.event = .stabilize (grown.previous joiner)) : Underway grown joiner s := by
  have between := accepted.between
  induction run with
  | nil =>
    obtain ⟨τ, member, _⟩ := ticked
    cases member
  | @snoc taken s t e run moved ih =>
    have inv := accepted.reached run rounds.earlier
    obtain ⟨τ, member, isTick⟩ := ticked
    rcases List.mem_append.mp member with earlier | last
    · exact (ih rounds.earlier ⟨τ, earlier, isTick⟩).step inv between rounds.last moved
    · obtain rfl := List.mem_singleton.mp last
      obtain rfl : e = .stabilize (grown.previous joiner) := isTick
      exact inv.underway between moved

/-- A round of stabilization: in every order in which all nodes stabilize at least once, with the calls
they make delivered in any order, the pointers are those of the grown ring when everything has
completed.  And everything can always be completed. -/
theorem stabilization_integrates_joiner {ring : Ring sha1} {start : System}
    {taken : List (Taken System Event)} (accepted : JustAccepted ring grown joiner extra start)
    (run : Run (System.step sha1) start taken s) (rounds : AllMeet (fun _ e => Rounds e) taken) :
    ((∀ a ∈ grown.members, ∃ τ ∈ taken, τ.event = .stabilize a) → Quiet s → Linked grown s.nodes) ∧
      ∃ later final, Run (System.step sha1) s later final ∧ AllMeet (fun _ e => Goes e) later ∧
        Quiet final := by
  have between := accepted.between
  have inv := accepted.reached run rounds
  refine ⟨fun each quiet => inv.linked between ?_ quiet, inv.completes between⟩
  exact accepted.underway run rounds (each _ grown.previous_mem)

end Network

/-! ## A third node -/

/-- The nodes of a settled ring, and a joiner whose `CallNotify` was accepted. -/
def acceptedNodes {sha1 : String → Nat} (ring : Ring sha1) (joiner : NodeAddress) (extra : Nat)
    (a : NodeAddress) : Option Chord :=
  let succ := ring.successor (hashString sha1 joiner)
  if a = joiner then some ((initClient (hashString sha1 joiner) joiner extra).accepted succ)
  else (settled ring extra a).map fun chord => if a = succ then chord.setPredecessor joiner else chord

theorem acceptedNodes_justAccepted {sha1 : String → Nat} {ring grown : Ring sha1} {joiner : NodeAddress}
    (extra : Nat) (two : 2 ≤ ring.members.length) (joined : grown.members = joiner :: ring.members)
    (noX : "X" ∉ grown.members) :
    JustAccepted ring grown joiner extra ⟨acceptedNodes ring joiner extra, fun _ => none, []⟩ := by
  refine ⟨two, joined, noX, fun a member => ?_, ?_, fun a isNode => ?_, rfl, fun _ => rfl⟩
  · have other : a ≠ joiner := fun same => ring.joiner_not_mem joined (same ▸ member)
    simp only [acceptedNodes, settled, if_neg other, if_pos member, Option.map_some]
    split <;> exact ⟨_, rfl, rfl, ring.length_following extra, rfl, rfl⟩
  · exact ⟨_, if_pos rfl, rfl, List.length_replicate, rfl, rfl⟩
  · by_contra outside
    rw [joined, List.mem_cons, not_or] at outside
    simp [acceptedNodes, settled, outside] at isNode

def threePorts : Ring knownSha1 where
  members := ["localhost:1236", "localhost:1234", "localhost:1235"]
  nonempty := by decide
  bounded := fun address _ => hashString_lt address
  distinct := by decide +kernel

def thirdNode : System := ⟨acceptedNodes twoPorts "localhost:1236" 1, fun _ => none, []⟩

/-- The joiner and the node after it find everything in order; the node before it notifies the joiner. -/
def oneRound : List Event :=
  [.stabilize "localhost:1236", .stabilize "localhost:1235", .handle 1 .good, .stabilize "localhost:1234",
    .resume 1 .good, .handle 0 .good, .resume 3 .good, .handle 2 .good, .handle 3 .good, .resume 0 .good,
    .resume 2 .good, .resume 3 .good]

theorem third_node_integrated :
    Linked threePorts (outcome (step knownSha1) thirdNode oneRound).nodes :=
  (stabilization_integrates_joiner (acceptedNodes_justAccepted 1 (by decide) rfl (by decide))
    (run_trace (step knownSha1) thirdNode oneRound) (by decide +kernel)).1 (by decide +kernel)
    (by decide +kernel)

end System

end Tda596Labs.Chord
