import Tda596Labs.Chord.Invariants
import Tda596Labs.Chord.SuccessorLists

/-! # A settled ring stays settled

Once the predecessors and the successors of all nodes are the right ones, they stay so while nodes neither
join nor leave: whatever ticks and commands run at the same time and however their goroutines interleave,
`CallStabilize` finds nothing to correct, so that no `Notify` is sent, and no predecessor is forgotten.  In
every state on the way every node answers lookups with the owner of the key or passes them along.
-/

namespace Tda596Labs.Chord

open Transition

/-- The neighbours of a node are as they were. -/
structure KeepsLinks (before after : Chord) : Prop where
  nodeAddress : after.node.nodeAddress = before.node.nodeAddress
  identifier : after.node.identifier = before.node.identifier
  predecessor : after.node.predecessor = before.node.predecessor
  successors : after.node.successors = before.node.successors

theorem KeepsLinks.of_node {before after : Chord} (same : after.node = before.node) :
    KeepsLinks before after := by
  constructor <;> rw [same]

theorem KeepsRing.keepsLinks {before after : Chord} (keeps : KeepsRing before after) :
    KeepsLinks before after :=
  ⟨keeps.nodeAddress, keeps.identifier, keeps.predecessor, keeps.successors⟩

theorem KeepsLinks.trans {a b c : Chord} (first : KeepsLinks a b) (second : KeepsLinks b c) :
    KeepsLinks a c where
  nodeAddress := second.nodeAddress.trans first.nodeAddress
  identifier := second.identifier.trans first.identifier
  predecessor := second.predecessor.trans first.predecessor
  successors := second.successors.trans first.successors

section

variable {sha1 : String → Nat} (ring : Ring sha1)

theorem Links.of_keeps {a : NodeAddress} {before after : Chord} (links : Links ring a before)
    (keeps : KeepsLinks before after) : Links ring a after where
  nodeAddress := keeps.nodeAddress.trans links.nodeAddress
  identifier := keeps.identifier.trans links.identifier
  predecessor := keeps.predecessor.trans links.predecessor
  successors := by
    rw [keeps.successors]
    exact links.successors

/-- The running nodes are members of the ring, and their neighbours are the right ones. -/
structure Settles (nodes : NodeAddress → Option Chord) : Prop where
  noX : "X" ∉ ring.members
  member : ∀ a chord, nodes a = some chord → a ∈ ring.members
  links : ∀ a chord, nodes a = some chord → Links ring a chord

/-- The points that goroutines of node `a` reach in a settled ring. -/
def Phase.Settled (a : NodeAddress) : Phase → Prop
  | .stabilizeCall request succ => a ∈ ring.members ∧ request.nodeAddress = a ∧ succ = ring.next a
  | .stabilizeReply response =>
    response.youGood = true ∧ ∃ n, response.nodeSuccessors = ring.following (ring.next a) (n + 1)
  | .checked alive => alive = true
  | .notify _ | .notifyCall _ _ | .notifyReply _ _ | .join _ | .joinCall _ _ | .joinReply _ => False
  | .stabilizeFailed | .takeOver _ | .takeOverCall _ _ _ => False
  | _ => True

/-- The neighbours of node `a` are what they were at the start. -/
def Unmoved (start : NodeAddress → Option Chord) (a : NodeAddress) (chord : Chord) : Prop :=
  ∃ before, start a = some before ∧ KeepsLinks before chord

namespace System

/-- No process starts or stops, and no `Stabilize` or `CheckPred` fails. -/
def Calm (s : System) : Event → Prop
  | .create _ _ | .enter _ _ _ | .crash _ => False
  | .fail k => ∀ task, s.tasks[k]? = some task → task.phase.failed ≠ some .stabilizeFailed ∧
    task.phase.failed ≠ some (.checked false)
  | _ => True

end System

variable {ring} {start : NodeAddress → Option Chord} {a : NodeAddress} {chord changed : Chord}

theorem Unmoved.of_keeps (unmoved : Unmoved start a chord) (keeps : KeepsLinks chord changed) :
    Unmoved start a changed := by
  obtain ⟨before, found, kept⟩ := unmoved
  exact ⟨before, found, kept.trans keeps⟩

theorem Settles.links_of_unmoved (settles : Settles ring start) (unmoved : Unmoved start a chord) :
    Links ring a chord := by
  obtain ⟨before, found, kept⟩ := unmoved
  exact (settles.links a before found).of_keeps ring kept

theorem Settles.member_of_unmoved (settles : Settles ring start) (unmoved : Unmoved start a chord) :
    a ∈ ring.members := by
  obtain ⟨before, found, _⟩ := unmoved
  exact settles.member a before found

theorem Settles.first_ne_X (settles : Settles ring start) (unmoved : Unmoved start a chord) :
    chord.node.successors.first ≠ "X" := by
  rw [(settles.links_of_unmoved unmoved).first]
  exact ne_of_mem_of_not_mem ring.next_mem settles.noX

/-- The successors of the next node are those that the node has already. -/
theorem Settles.verifySuccs (settles : Settles ring start) (unmoved : Unmoved start a chord) {n : Nat}
    (ran : chord.verifySuccs (ring.following (ring.next a) (n + 1)) = some changed) :
    KeepsLinks chord changed := by
  obtain ⟨others, verified, rfl⟩ := Option.map_eq_some_iff.mp ran
  obtain ⟨extra, listed⟩ := (settles.links_of_unmoved unmoved).successors
  have own : chord.node.successors.others = ring.following (ring.next a) extra := (List.cons.inj listed).2
  have noX : "X" ∉ ring.following (ring.next a) (n + 1) :=
    fun isX => settles.noX (ring.mem_of_mem_following isX)
  have enough : extra ≤ n + 1 := by
    have inRange := verifyOthers_isSome_iff.mp (Option.isSome_of_eq_some verified)
    simpa [own, noX] using inRange
  have copied : verifyOthers chord.node.successors.others (ring.following (ring.next a) (n + 1)) = _ :=
    verifyOthers_eq_take noX (by simpa [own] using enough)
  have same : others = chord.node.successors.others := by
    rw [copied, own, ring.length_following, ring.take_following, Nat.min_eq_left enough] at verified
    rw [← Option.some.inj verified, own]
  exact ⟨rfl, rfl, rfl, by rw [same]⟩

theorem handedOff_settled (progress : HandOff) : (handedOff progress).Settled ring a := by
  cases progress <;> trivial

theorem storeResolved_settled (request : StoreFileRequest) (back : Return) (resolving : Resolving) :
    (storeResolved request back resolving).Settled ring a := by
  cases resolving <;> trivial

theorem lookupResolved_settled (request : RetreiveFileRequest) (resolving : Resolving) :
    (lookupResolved request resolving).Settled ring a := by
  cases resolving <;> trivial

theorem Proceeds.settled {disk : Disk} {phase next : Phase} {spawned : List Phase}
    (proceeds : Proceeds sha1 disk chord phase changed next spawned) (settles : Settles ring start)
    (unmoved : Unmoved start (phase.site a) chord) (settled : phase.Settled ring a) :
    KeepsLinks chord changed ∧ ∀ p ∈ next :: spawned, p.Settled ring a := by
  have only : ∀ {p : Phase}, p.Settled ring a → ∀ q ∈ [p], q.Settled ring a :=
    fun isSettled q listed => List.mem_singleton.mp listed ▸ isSettled
  cases proceeds with
  | verified _ verifies =>
    obtain ⟨_, n, sent⟩ := settled
    rw [sent] at verifies
    exact ⟨settles.verifySuccs unmoved verifies, only trivial⟩
  | replaced bad => exact absurd (bad.symm.trans settled.1) (by simp)
  | incoherent bad => exact absurd (bad.symm.trans settled.1) (by simp)
  | unfingered index => exact ⟨(setFinger_keeps chord index _).keepsLinks, only trivial⟩
  | fingered onward =>
    refine ⟨(resolvedFinger_keeps chord _ _).keepsLinks, only ?_⟩
    obtain rfl | ⟨query, rest, rfl⟩ := onward <;> trivial
  | handsOff => exact ⟨.of_node (reassignToPred_spec sha1 disk chord).node, only (handedOff_settled _)⟩
  | handsOn rest keepFiles =>
    exact ⟨.of_node (handOff_spec sha1 disk chord rest keepFiles).node, only (handedOff_settled _)⟩
  | resolves => exact ⟨.of_node rfl, only (storeResolved_settled _ _ _)⟩
  | rereads | commandDone | uncopied | copies | returns | answered => exact ⟨.of_node rfl, only trivial⟩
  | forgets | begins => cases settled
  | _ => exact settled.elim

theorem Serves.settled {disk : Disk} {me target : NodeAddress} {phase next : Phase}
    (serves : Serves sha1 disk me chord phase changed next) (settles : Settles ring start)
    (asks : phase.awaits = some target) (unmoved : Unmoved start target chord)
    (settled : phase.Settled ring me) : KeepsLinks chord changed ∧ next.Settled ring me := by
  cases serves with
  | stabilize request succ =>
    obtain ⟨member, sender, rfl⟩ := settled
    obtain rfl := Option.some.inj asks
    have links := settles.links_of_unmoved unmoved
    have knows : chord.node.predecessor = request.nodeAddress := by
      rw [links.predecessor, ring.previous_next member, sender]
    have notX : request.nodeAddress ≠ "X" := by
      rw [sender]
      exact ne_of_mem_of_not_mem member settles.noX
    obtain ⟨extra, listed⟩ := links.successors
    have good : stabilized chord request = (chord, ⟨true, "", chord.node.successors.toList⟩) := by
      simp [stabilized, knows, notX]
    rw [good]
    exact ⟨.of_node rfl, rfl, extra, listed⟩
  | check => exact ⟨.of_node rfl, rfl⟩
  | stores | unstored | duplicates => exact ⟨.of_node (storeFile_node _ _ _), trivial⟩
  | resolve => exact ⟨.of_node rfl, storeResolved_settled _ _ _⟩
  | lookupFind => exact ⟨.of_node rfl, lookupResolved_settled _ _⟩
  | finger | lookup => exact ⟨.of_node rfl, trivial⟩
  | _ => exact settled.elim

namespace System

theorem Begins.settled {e : Event} {phase : Phase} (begins : Begins sha1 a chord e changed phase)
    (settles : Settles ring start) (unmoved : Unmoved start a chord) :
    KeepsLinks chord changed ∧ phase.Settled ring a := by
  have links := settles.links_of_unmoved unmoved
  cases begins with
  | searches unknown => exact absurd unknown (settles.first_ne_X unmoved)
  | stabilizes =>
    exact ⟨.of_node rfl, settles.member_of_unmoved unmoved, links.nodeAddress, links.first⟩
  | fixed | fixes => exact ⟨(fixFingers_keeps sha1 chord).keepsLinks, trivial⟩
  | unpreceded unknown =>
    rw [links.predecessor] at unknown
    exact absurd (unknown ▸ ring.previous_mem) settles.noX
  | selfPreceded => exact ⟨.of_node rfl, rfl⟩
  | looksUp => exact ⟨.of_node rfl, lookupResolved_settled _ _⟩
  | alone | checks | stores => exact ⟨.of_node rfl, trivial⟩

theorem Phase.failed_settled {phase next : Phase} (gives : phase.failed = some next)
    (calm : phase.failed ≠ some .stabilizeFailed ∧ phase.failed ≠ some (.checked false))
    (settled : phase.Settled ring a) : next.Settled ring a := by
  cases phase with
  | stabilizeCall | stabilizeReply => exact absurd rfl calm.1
  | checkCall => exact absurd rfl calm.2
  | notifyCall | notifyReply | takeOverCall => exact settled.elim
  | _ => cases gives <;> trivial

/-- In a calm event neither the neighbours of a node nor what its goroutines are about changes. -/
theorem upholds_settled (settles : Settles ring start) :
    Upholds sha1 (Unmoved start) (fun a phase => phase.Settled ring a) Calm where
  boots calm boots := by cases boots <;> exact calm.elim
  begins _ unmoved begins := (begins.settled settles unmoved).imp_left unmoved.of_keeps
  proceeds _ unmoved settled ran :=
    ((proceed_proceeds ran).settled settles unmoved settled).imp_left unmoved.of_keeps
  serves _ unmoved settled asks serves :=
    (serves.settled settles asks unmoved settled).imp_left unmoved.of_keeps
  fails calm member settled gives := Phase.failed_settled gives (calm _ member) settled
  stops calm _ := calm.elim
  cutOff calm _ := calm.elim
  left calm _ _ := calm.elim

/-- No node comes or goes in a calm event. -/
theorem isSome_of_calm {s t : System} {e : Event} (calm : Calm s e) (moved : step sha1 s e = some t)
    (running : (s.nodes a).isSome) : (t.nodes a).isSome := by
  have kept : ∀ (b : NodeAddress) (chord : Chord), (Function.update s.nodes b (some chord) a).isSome := by
    intro b chord
    by_cases here : a = b
    · rw [here, Function.update_self]
      rfl
    · rwa [Function.update_of_ne here]
  cases step_effect moved with
  | launch boots => cases boots <;> exact calm.elim
  | start | resume | handle => exact kept _ _
  | fail => exact running
  | crash => exact calm.elim

/-- A ring whose neighbours are right stays as it is in every run in which no process starts or stops and no
`Stabilize` or `CheckPred` fails: whatever else is going on, the predecessor and the successors of every node
are always those of the start, and what a node answers to a lookup without passing it along is the owner. -/
theorem settled_stays {s t : System} (settles : Settles ring s.nodes) (quiet : Quiet s)
    {taken : List (Taken System Event)} (run : Run (System.step sha1) s taken t) (calm : AllMeet Calm taken)
    {a : NodeAddress} {chord : Chord} (found : s.nodes a = some chord) :
    ∃ now, t.nodes a = some now ∧ now.node.predecessor = chord.node.predecessor ∧
      now.node.successors = chord.node.successors ∧
      ∀ key < hashMod, ∀ response, (find sha1 now key response).1 ≠ .passAlong →
        (find sha1 now key response).2.nodeAddress = ring.successor key := by
  have start : s.All (Unmoved s.nodes) fun a phase => phase.Settled ring a := by
    refine ⟨fun b before isThere => ⟨before, isThere, .of_node rfl⟩, fun task listed => ?_⟩
    rw [quiet task listed]
    trivial
  have all := (upholds_settled settles).run run calm start
  have running : (t.nodes a).isSome :=
    run.invariant calm (Option.isSome_of_eq_some found) fun _ _ _ running calm moved =>
      isSome_of_calm calm moved running
  obtain ⟨now, isNow⟩ := Option.isSome_iff_exists.mp running
  have unmoved := all.nodes a now isNow
  have links := settles.links_of_unmoved unmoved
  have member := settles.member_of_unmoved unmoved
  obtain ⟨before, found', keeps⟩ := unmoved
  obtain rfl := Option.some.inj (found.symm.trans found')
  refine ⟨now, isNow, keeps.predecessor, keeps.successors, fun key small response answers => ?_⟩
  by_cases knows : ring.successor key = a ∨ ring.successor key ∈ now.node.successors.toList
  · obtain ⟨code, _, result⟩ := find_of_knows settles.noX links small member response knows
    rw [result]
  · obtain ⟨other, unlisted⟩ := not_or.mp knows
    rw [find_of_unknown settles.noX links small member response other unlisted] at answers
    exact absurd rfl answers

end System

end

theorem settled_settles {sha1 : String → Nat} (ring : Ring sha1) (extra : Nat) (noX : "X" ∉ ring.members) :
    Settles ring (settled ring extra) where
  noX := noX
  member a chord found := by
    by_contra outside
    simp [settled, outside] at found
  links a chord found := by
    by_cases member : a ∈ ring.members
    · obtain rfl : settledChord ring extra a = chord := by simpa [settled, member] using found
      exact (settledChord_stable ring extra a).links
    · simp [settled, member] at found

namespace System

def twoPortsSettled : System := ⟨settled twoPorts 1, fun _ => none, []⟩

/-- Both nodes stabilize and check their predecessors, while a file is stored and looked up. -/
def busyTicks : List Event :=
  [.stabilize "localhost:1234", .storeFile "localhost:1235" "a.txt" [7], .handle 0 .good,
    .stabilize "localhost:1235", .resume 1 .good, .handle 2 .good, .resume 0 .good,
    .checkPred "localhost:1234", .resume 2 .good, .handle 1 .good, .lookup "localhost:1234" "a.txt"]

theorem twoPorts_stays :
    ∃ now, (outcome (step knownSha1) twoPortsSettled busyTicks).nodes "localhost:1234" = some now ∧
      now.node.predecessor = twoPorts.previous "localhost:1234" ∧
      now.node.successors = (settledChord twoPorts 1 "localhost:1234").node.successors ∧
      ∀ key < hashMod, ∀ response, (find knownSha1 now key response).1 ≠ .passAlong →
        (find knownSha1 now key response).2.nodeAddress = twoPorts.successor key := by
  have calm : AllMeet Calm (trace (step knownSha1) twoPortsSettled busyTicks) := by
    intro τ member
    have listed := event_mem_of_mem_trace member
    generalize τ.event = e at listed
    simp only [busyTicks, List.mem_cons, List.not_mem_nil, or_false] at listed
    obtain rfl | rfl | rfl | rfl | rfl | rfl | rfl | rfl | rfl | rfl | rfl := listed <;> trivial
  exact settled_stays (settled_settles twoPorts 1 (by decide)) (fun _ listed => by cases listed)
    (run_trace (step knownSha1) twoPortsSettled busyTicks) calm (if_pos (by decide))

end System

end Tda596Labs.Chord
