import Tda596Labs.Chord.WholeCalls

/-! # Notifications

What a node makes of the nodes that notify it, and where the calls of a node that is refused lead.

The interval test of `Notify` compares two clockwise distances to the node that is asked, so a node keeps
the closest of all nodes it has heard of, in whatever order they come.  A refusal names the predecessor of
the node that refuses: the calls of a new node walk backwards over the ring, and end at the node that has
to become its successor.
-/

namespace Tda596Labs.Chord

open Tda596Labs.Circle Transition

variable {sha1 : String → Nat} {chord : Chord}

/-! ## One notification -/

theorem notify_of_known {request : Request} (known : chord.node.predecessor ≠ "X")
    (other : chord.node.predecessor ≠ request.nodeAddress) :
    notify sha1 chord request =
      if between (hashString sha1 chord.node.predecessor) request.identifier chord.node.identifier true then
        (chord.setPredecessor request.nodeAddress, ⟨true, ""⟩)
      else (chord, ⟨false, chord.node.predecessor⟩) := by
  simp [notify, known, other]

/-- The state after a notification by the node at `a`. -/
def notified (sha1 : String → Nat) (chord : Chord) (a : NodeAddress) : Chord :=
  (notify sha1 chord ⟨a, hashString sha1 a⟩).1

/-- The clockwise distance from the node at `a`. -/
def distanceFrom (sha1 : String → Nat) (chord : Chord) (a : NodeAddress) : Nat :=
  cw hashMod (hashString sha1 a) chord.node.identifier

/-- A node that knows no predecessor, or has itself, takes the first one that comes. -/
theorem notified_of_open (bounded : chord.node.identifier < hashMod)
    (open_ : chord.node.predecessor = "X" ∨
      hashString sha1 chord.node.predecessor = chord.node.identifier) (a : NodeAddress) :
    notified sha1 chord a = chord.setPredecessor a := by
  by_cases known : chord.node.predecessor = "X" ∨ chord.node.predecessor = a
  · simp [notified, notify, known]
  · have itself := open_.resolve_left fun isX => known (.inl isX)
    have inside : between (hashString sha1 chord.node.predecessor) (hashString sha1 a)
        chord.node.identifier true = true := by
      rw [between_iff_cw (hashString_lt _) (hashString_lt a) bounded, itself]
    simp [notified, notify, known, inside]

/-- Another predecessor is replaced by closer nodes only. -/
theorem notified_of_known (bounded : chord.node.identifier < hashMod) {a : NodeAddress}
    (known : chord.node.predecessor ≠ "X")
    (apart : hashString sha1 chord.node.predecessor ≠ chord.node.identifier) :
    notified sha1 chord a =
      if distanceFrom sha1 chord a < distanceFrom sha1 chord chord.node.predecessor then
        chord.setPredecessor a
      else chord := by
  by_cases again : chord.node.predecessor = a
  · subst again
    simp [notified, notify, setPredecessor]
  · have test := (between_iff_cw (hashString_lt chord.node.predecessor) (@hashString_lt sha1 a)
      bounded).trans (cw_le_iff_closer (hashString_lt a) (hashString_lt _) bounded apart)
    rw [notified, notify_of_known known again, apply_ite Prod.fst]
    exact if_congr test rfl rfl

/-! ## Any number of notifications -/

/-- The nodes notify one after the other. -/
def notifyAll (sha1 : String → Nat) (chord : Chord) (notifiers : List NodeAddress) : Chord :=
  notifiers.foldl (notified sha1) chord

/-- What the predecessor is after the nodes in `seen`: still open, or the closest of them. -/
inductive Keeps (sha1 : String → Nat) (chord : Chord) : List NodeAddress → Prop where
  | unknown (open_ : chord.node.predecessor = "X" ∨
      hashString sha1 chord.node.predecessor = chord.node.identifier) : Keeps sha1 chord []
  | closest {seen : List NodeAddress} (mem : chord.node.predecessor ∈ seen)
      (least : ∀ a ∈ seen, distanceFrom sha1 chord chord.node.predecessor ≤ distanceFrom sha1 chord a) :
      Keeps sha1 chord seen

theorem notified_identifier (sha1 : String → Nat) (chord : Chord) (a : NodeAddress) :
    (notified sha1 chord a).node.identifier = chord.node.identifier :=
  (notify_keeps sha1 chord _).1.identifier

theorem Keeps.notified {seen : List NodeAddress} {a : NodeAddress} (keeps : Keeps sha1 chord seen)
    (bounded : chord.node.identifier < hashMod) (noX : "X" ∉ seen)
    (apart : ∀ b ∈ seen, hashString sha1 b ≠ chord.node.identifier) :
    Keeps sha1 (notified sha1 chord a) (seen ++ [a]) := by
  cases keeps with
  | unknown open_ =>
    rw [notified_of_open bounded open_]
    exact .closest (List.mem_singleton.mpr rfl) fun b only => (List.mem_singleton.mp only) ▸ le_rfl
  | closest mem least =>
    have known : chord.node.predecessor ≠ "X" := ne_of_mem_of_not_mem mem noX
    rw [notified_of_known bounded known (apart _ mem)]
    split
    · next closer =>
      refine .closest (by simp [setPredecessor]) fun b member => ?_
      change distanceFrom sha1 chord a ≤ distanceFrom sha1 chord b
      obtain before | only := List.mem_append.mp member
      · exact closer.le.trans (least b before)
      · rw [List.mem_singleton.mp only]
    · next farther =>
      refine .closest (List.mem_append_left _ mem) fun b member => ?_
      obtain before | only := List.mem_append.mp member
      · exact least b before
      · rw [List.mem_singleton.mp only]
        exact not_lt.mp farther

theorem Keeps.notifyAll {seen notifiers : List NodeAddress} (keeps : Keeps sha1 chord seen)
    (bounded : chord.node.identifier < hashMod) (noX : "X" ∉ seen ++ notifiers)
    (apart : ∀ b ∈ seen ++ notifiers, hashString sha1 b ≠ chord.node.identifier) :
    Keeps sha1 (notifyAll sha1 chord notifiers) (seen ++ notifiers) := by
  induction notifiers generalizing chord seen with
  | nil => simpa [notifyAll] using keeps
  | cons a notifiers ih =>
    have same := notified_identifier sha1 chord a
    rw [List.append_cons] at noX apart ⊢
    exact ih (keeps.notified bounded (fun isX => noX (by simp [isX])) fun b member => apart b (by simp [member]))
      (same ▸ bounded) noX (same ▸ apart)

/-- The nodes that may be the predecessor at the end: those that notify, and the one known before. -/
def candidates (chord : Chord) (notifiers : List NodeAddress) : List NodeAddress :=
  (if chord.node.predecessor = "X" ∨ chord.node.predecessor = chord.node.nodeAddress then []
    else [chord.node.predecessor]) ++ notifiers

/-- The nodes that `m` hears of have hashes of their own, none of them that of `m`. -/
structure Distinct (sha1 : String → Nat) (m : Chord) (addresses : List NodeAddress) : Prop where
  noX : "X" ∉ addresses
  apart : ∀ a ∈ addresses, hashString sha1 a ≠ m.node.identifier
  injective : ∀ a ∈ addresses, ∀ b ∈ addresses, hashString sha1 a = hashString sha1 b → a = b

theorem Distinct.perm {m : Chord} {addresses reordered : List NodeAddress}
    (distinct : Distinct sha1 m addresses) (perm : reordered.Perm addresses) :
    Distinct sha1 m reordered where
  noX isX := distinct.noX (perm.subset isX)
  apart a member := distinct.apart a (perm.subset member)
  injective a member b member' := distinct.injective a (perm.subset member) b (perm.subset member')

theorem notifyAll_identifier (sha1 : String → Nat) (chord : Chord) (notifiers : List NodeAddress) :
    (notifyAll sha1 chord notifiers).node.identifier = chord.node.identifier := by
  induction notifiers generalizing chord with
  | nil => rfl
  | cons a notifiers ih => exact (ih (notified sha1 chord a)).trans (notified_identifier sha1 chord a)

section Candidates

variable {m : Chord} {notifiers : List NodeAddress} (bounded : m.node.identifier < hashMod)
  (itself : m.node.predecessor = m.node.nodeAddress → m.node.identifier = hashString sha1 m.node.nodeAddress)
  (distinct : Distinct sha1 m (candidates m notifiers))
include bounded itself distinct

theorem keeps_candidates : Keeps sha1 (notifyAll sha1 m notifiers) (candidates m notifiers) := by
  refine Keeps.notifyAll ?_ bounded distinct.noX distinct.apart
  split
  · next open_ => exact .unknown (open_.imp_right fun own => by rw [own, itself own])
  · exact .closest (List.mem_singleton.mpr rfl) fun b only => (List.mem_singleton.mp only) ▸ le_rfl

theorem predecessor_mem_candidates (some_ : candidates m notifiers ≠ []) :
    (notifyAll sha1 m notifiers).node.predecessor ∈ candidates m notifiers := by
  generalize listed : candidates m notifiers = addresses at some_
  cases listed ▸ keeps_candidates bounded itself distinct with
  | unknown => exact absurd rfl some_
  | closest mem => exact mem

theorem distanceFrom_predecessor_lt {a : NodeAddress} (member : a ∈ candidates m notifiers)
    (other : a ≠ (notifyAll sha1 m notifiers).node.predecessor) :
    distanceFrom sha1 m (notifyAll sha1 m notifiers).node.predecessor < distanceFrom sha1 m a := by
  have known := predecessor_mem_candidates bounded itself distinct (List.ne_nil_of_mem member)
  have atMost : distanceFrom sha1 m (notifyAll sha1 m notifiers).node.predecessor ≤
      distanceFrom sha1 m a := by
    have keeps := keeps_candidates bounded itself distinct
    simp only [distanceFrom, ← notifyAll_identifier sha1 m notifiers]
    generalize candidates m notifiers = addresses at keeps member
    cases keeps with
    | unknown => cases member
    | closest mem least => exact least a member
  refine lt_of_le_of_ne atMost fun same => other (distinct.injective a member _ known ?_)
  exact (cw_inj_left (hashString_lt _) (hashString_lt _) bounded same).symm

end Candidates

/-- The predecessor at the end is the closest candidate, so the order of the notifications does not
count. -/
theorem notifyAll_closest (m : Chord) (notifiers : List NodeAddress) (bounded : m.node.identifier < hashMod)
    (itself : m.node.predecessor = m.node.nodeAddress → m.node.identifier = hashString sha1 m.node.nodeAddress)
    (distinct : Distinct sha1 m (candidates m notifiers)) :
    (candidates m notifiers ≠ [] →
      (notifyAll sha1 m notifiers).node.predecessor ∈ candidates m notifiers ∧
        ∀ a ∈ candidates m notifiers, a ≠ (notifyAll sha1 m notifiers).node.predecessor →
          distanceFrom sha1 m (notifyAll sha1 m notifiers).node.predecessor < distanceFrom sha1 m a) ∧
      ∀ reordered, reordered.Perm notifiers →
        (notifyAll sha1 m reordered).node.predecessor = (notifyAll sha1 m notifiers).node.predecessor := by
  refine ⟨fun some_ => ⟨predecessor_mem_candidates bounded itself distinct some_, fun a member other =>
    distanceFrom_predecessor_lt bounded itself distinct member other⟩, fun reordered perm => ?_⟩
  have listed : (candidates m reordered).Perm (candidates m notifiers) := perm.append_left _
  have distinct' := distinct.perm listed
  by_cases some_ : candidates m notifiers = []
  · obtain rfl : notifiers = [] := (List.append_eq_nil_iff.mp some_).2
    rw [List.perm_nil.mp perm]
  · -- were they different, each would be closer than the other
    by_contra other
    have some' : candidates m reordered ≠ [] := fun none_ => some_ (List.perm_nil.mp (none_ ▸ listed.symm))
    have first := distanceFrom_predecessor_lt bounded itself distinct
      (listed.subset (predecessor_mem_candidates bounded itself distinct' some')) other
    have second := distanceFrom_predecessor_lt bounded itself distinct'
      (listed.symm.subset (predecessor_mem_candidates bounded itself distinct some_)) (Ne.symm other)
    omega

/-- A node alone in its ring hears of two nodes, of one of them twice. -/
theorem notifyAll_two_nodes :
    let m := (initClient (hashString knownSha1 "localhost:1234") "localhost:1234" 1).create
    let notifiers := ["localhost:1235", "localhost:1236", "localhost:1235"]
    (notifyAll knownSha1 m notifiers).node.predecessor = "localhost:1236" ∧
      (notifyAll knownSha1 m notifiers.reverse).node.predecessor =
        (notifyAll knownSha1 m notifiers).node.predecessor :=
  ⟨by decide +kernel,
    (notifyAll_closest _ _ (by decide +kernel) (fun _ => rfl)
      ⟨by decide +kernel, by decide +kernel, by decide +kernel⟩).2 _ (List.reverse_perm _)⟩

/-! ## The calls of a node that is refused -/

/-- `CallNotify` of node `me` and the calls it starts when it is refused: the nodes asked, in order, and the
network at the end.  `none`: a request fails, or `fuel` calls are not enough. -/
def callNotify (sha1 : String → Nat) (me : NodeAddress) :
    Nat → NodeAddress → (NodeAddress → Option Chord) →
      Option (List NodeAddress × (NodeAddress → Option Chord))
  | 0, _, _ => none
  | fuel + 1, target, nodes => do
    let chord ← nodes me
    let asked ← nodes target
    let (changed, response) := notify sha1 asked chord.request
    let served := Function.update nodes target (some changed)
    if response.success then
      let chord ← served me
      some ([target], Function.update served me (some (chord.accepted target)))
    else
      let (later, after) ← callNotify sha1 me fuel response.newPredAddress served
      some (target :: later, after)

/-- The ring before a new node has come: every identifier is a hash and every predecessor right. -/
structure Awaits (ring : Ring sha1) (joiner : NodeAddress) (nodes : NodeAddress → Option Chord) : Prop where
  noX : "X" ∉ ring.members
  new : ∀ a ∈ ring.members, hashString sha1 a ≠ hashString sha1 joiner
  node : ∀ a ∈ ring.members, ∃ chord, nodes a = some chord ∧
    chord.node.identifier = hashString sha1 a ∧ chord.node.predecessor = ring.previous a
  joining : ∃ chord, nodes joiner = some chord ∧ chord.node.nodeAddress = joiner ∧
    chord.node.identifier = hashString sha1 joiner

section Chain

variable {ring : Ring sha1} {joiner target : NodeAddress} {nodes : NodeAddress → Option Chord}
  {asked : Chord}

theorem Awaits.not_mem (awaits : Awaits ring joiner nodes) : joiner ∉ ring.members :=
  fun member => awaits.new joiner member rfl

/-- The true successor accepts, every other node names its predecessor. -/
theorem Awaits.notify (awaits : Awaits ring joiner nodes) (member : target ∈ ring.members)
    (identifier : asked.node.identifier = hashString sha1 target)
    (predecessor : asked.node.predecessor = ring.previous target) :
    Chord.notify sha1 asked ⟨joiner, hashString sha1 joiner⟩ =
      if ring.successor (hashString sha1 joiner) = target then (asked.setPredecessor joiner, ⟨true, ""⟩)
      else (asked, ⟨false, ring.previous target⟩) := by
  have known : asked.node.predecessor ≠ "X" := predecessor ▸ ne_of_mem_of_not_mem ring.previous_mem awaits.noX
  have other : asked.node.predecessor ≠ joiner :=
    predecessor ▸ ne_of_mem_of_not_mem ring.previous_mem awaits.not_mem
  rw [notify_of_known known other, predecessor, identifier]
  exact if_congr (between_previous_iff (hashString_lt joiner) member) rfl rfl

/-- The network when the new node has been accepted by `succ`. -/
def acceptedBy (nodes : NodeAddress → Option Chord) (joiner succ : NodeAddress) (joining owner : Chord) :
    NodeAddress → Option Chord :=
  Function.update (Function.update nodes succ (some (owner.setPredecessor joiner))) joiner
    (some (joining.accepted succ))

/-- Every refusal leads to a node before which fewer nodes are met from the new one on. -/
theorem Awaits.callNotify (awaits : Awaits ring joiner nodes) {joining owner : Chord}
    (found : nodes joiner = some joining)
    (foundOwner : nodes (ring.successor (hashString sha1 joiner)) = some owner) {fuel : Nat}
    (member : target ∈ ring.members) (enough : ring.metBefore (hashString sha1 joiner) target < fuel) :
    ∃ asked, callNotify sha1 joiner fuel target nodes =
        some (asked, acceptedBy nodes joiner (ring.successor (hashString sha1 joiner)) joining owner) ∧
      asked.length ≤ fuel ∧ asked.getLast? = some (ring.successor (hashString sha1 joiner)) := by
  obtain ⟨chord, found', named, hashed⟩ := awaits.joining
  obtain rfl : joining = chord := Option.some.inj (found.symm.trans found')
  have request : joining.request = ⟨joiner, hashString sha1 joiner⟩ := by rw [Chord.request, named, hashed]
  induction fuel generalizing target with
  | zero => omega
  | succ fuel ih =>
    obtain ⟨node, foundNode, identifier, predecessor⟩ := awaits.node target member
    have answer := awaits.notify member identifier predecessor
    have apart : joiner ≠ target := fun same => awaits.not_mem (same ▸ member)
    by_cases succ : ring.successor (hashString sha1 joiner) = target
    · obtain rfl : owner = node := Option.some.inj (foundOwner.symm.trans (succ ▸ foundNode))
      rw [if_pos succ] at answer
      refine ⟨[target], ?_, by simp, by simp [succ]⟩
      simp [Chord.callNotify, found, foundNode, request, answer, Function.update_of_ne apart, acceptedBy, succ]
    · rw [if_neg succ] at answer
      have fewer := ring.metBefore_previous_lt (hashString_lt joiner) member (Ne.symm succ)
      obtain ⟨later, chain, short, ends⟩ := ih (ring.previous_mem (x := target)) (by omega)
      have unchanged : Function.update nodes target (some node) = nodes :=
        Function.update_eq_self_iff.mpr foundNode.symm
      refine ⟨target :: later, ?_, by simpa using short, ?_⟩
      · simp [Chord.callNotify, found, foundNode, request, answer, unchanged, chain]
      · rw [List.getLast?_cons, ends, Option.getD_some]

end Chain

/-- From any node of the ring, the calls of a new node end at its true successor after at most as many
requests as the ring has nodes.  Only these two nodes change. -/
theorem callNotify_reaches_successor (ring : Ring sha1) (joiner start : NodeAddress)
    (nodes : NodeAddress → Option Chord) (awaits : Awaits ring joiner nodes) (inside : start ∈ ring.members) :
    ∃ asked after joining owner,
      callNotify sha1 joiner ring.members.length start nodes = some (asked, after) ∧
      asked.length ≤ ring.members.length ∧
      asked.getLast? = some (ring.successor (hashString sha1 joiner)) ∧
      nodes joiner = some joining ∧ nodes (ring.successor (hashString sha1 joiner)) = some owner ∧
      after joiner = some (joining.accepted (ring.successor (hashString sha1 joiner))) ∧
      after (ring.successor (hashString sha1 joiner)) = some (owner.setPredecessor joiner) ∧
      ∀ a, a ≠ joiner → a ≠ ring.successor (hashString sha1 joiner) → after a = nodes a := by
  obtain ⟨joining, found, _⟩ := awaits.joining
  obtain ⟨owner, foundOwner, _⟩ := awaits.node (ring.successor (hashString sha1 joiner)) ring.successor_mem
  obtain ⟨asked, chain, short, ends⟩ := awaits.callNotify found foundOwner inside (ring.metBefore_lt inside)
  have apart : ring.successor (hashString sha1 joiner) ≠ joiner :=
    ne_of_mem_of_not_mem ring.successor_mem awaits.not_mem
  refine ⟨asked, _, joining, owner, chain, short, ends, found, foundOwner, ?_, ?_, fun a other other' => ?_⟩
  · rw [acceptedBy, Function.update_self]
  · rw [acceptedBy, Function.update_of_ne apart, Function.update_self]
  · rw [acceptedBy, Function.update_of_ne other, Function.update_of_ne other']

/-- A node that has been started and not yet been accepted, next to a settled ring. -/
def withJoiner (ring : Ring sha1) (extra : Nat) (joiner : NodeAddress) : NodeAddress → Option Chord :=
  Function.update (settled ring extra) joiner (some (initClient (hashString sha1 joiner) joiner extra))

theorem withJoiner_awaits {ring : Ring sha1} {extra : Nat} {joiner : NodeAddress} (noX : "X" ∉ ring.members)
    (new : ∀ a ∈ ring.members, hashString sha1 a ≠ hashString sha1 joiner) :
    Awaits ring joiner (withJoiner ring extra joiner) where
  noX := noX
  new := new
  node a member := by
    have other : a ≠ joiner := fun same => new a member (same ▸ rfl)
    obtain ⟨chord, found, stable⟩ := (settled_stable ring extra noX).stableNode a member
    exact ⟨chord, by rw [withJoiner, Function.update_of_ne other, found], stable.identifier, stable.predecessor⟩
  joining := ⟨_, Function.update_self .., rfl, rfl⟩

/-- The new node asks the wrong one of two nodes first. -/
theorem callNotify_two_ports :
    ∃ asked after joining owner,
      callNotify knownSha1 "localhost:1236" 2 "localhost:1235" (withJoiner twoPorts 1 "localhost:1236") =
        some (asked, after) ∧
      asked.length ≤ 2 ∧ asked.getLast? = some (twoPorts.successor (hashString knownSha1 "localhost:1236")) ∧
      withJoiner twoPorts 1 "localhost:1236" "localhost:1236" = some joining ∧
      withJoiner twoPorts 1 "localhost:1236" (twoPorts.successor (hashString knownSha1 "localhost:1236")) =
        some owner ∧
      after "localhost:1236" =
        some (joining.accepted (twoPorts.successor (hashString knownSha1 "localhost:1236"))) ∧
      after (twoPorts.successor (hashString knownSha1 "localhost:1236")) =
        some (owner.setPredecessor "localhost:1236") ∧
      ∀ a, a ≠ "localhost:1236" → a ≠ twoPorts.successor (hashString knownSha1 "localhost:1236") →
        after a = withJoiner twoPorts 1 "localhost:1236" a :=
  callNotify_reaches_successor twoPorts "localhost:1236" "localhost:1235" _
    (withJoiner_awaits (by decide) (by decide +kernel)) (by decide)

/-! ## The calls are a run of the network -/

namespace System

variable {s : System} {me target : NodeAddress} {k : Nat} {goroutine : Goroutine}

/-- Nobody owns a lock, and goroutine `k` of node `me` is about to call `CallNotify`. -/
structure Notifies (s : System) (me : NodeAddress) (k : Nat) (goroutine : Goroutine) (target : NodeAddress) :
    Prop where
  unlocked : ∀ a, s.owner a = none
  task : s.tasks[k]? = some ⟨me, goroutine, .notify target⟩

/-- One call: the request, its handler, and what follows the reply. -/
theorem Notifies.call (notifies : s.Notifies me k goroutine target) {chord asked changed called : Chord}
    {response : NotifyResponse} (found : s.nodes me = some chord) (foundTarget : s.nodes target = some asked)
    (served : notify sha1 asked chord.request = (changed, response))
    (foundAgain : Function.update s.nodes target (some changed) me = some called) :
    ∃ taken t, Run (step sha1) s taken t ∧ taken.length = 3 ∧
      (∀ τ ∈ taken, isAnsweredCall k s.tasks.length τ.event) ∧ t.owner = s.owner ∧
      t.nodes = Function.update (Function.update s.nodes target (some changed)) me
        (some (if response.success then called.accepted target else called)) ∧
      t.tasks = s.tasks.set k ⟨me, goroutine, .finished⟩ ++
        (if response.success then [] else [.notify response.newPredAddress]).map fun next =>
          ⟨me, .spawned, next⟩ := by
  have handled : serve sha1 .good me asked (.notifyCall chord.request target) =
      some (changed, .notifyReply target response) := by
    simp only [serve, served]
  have goesOn : proceed sha1 .good called (.notifyReply target response) =
      some (if response.success then called.accepted target else called, .finished,
        if response.success then [] else [.notify response.newPredAddress]) := by
    cases success : response.success <;> simp [proceed, success]
  exact call_run notifies.unlocked notifies.task found rfl rfl foundTarget handled foundAgain goesOn
    ⟨⟨rfl, rfl⟩, ⟨rfl, rfl⟩, rfl, rfl⟩

theorem Notifies.run {fuel : Nat} {asked : List NodeAddress} {after : NodeAddress → Option Chord}
    (notifies : s.Notifies me k goroutine target)
    (ran : callNotify sha1 me fuel target s.nodes = some (asked, after)) :
    ∃ taken t, Run (step sha1) s taken t ∧ t.nodes = after ∧ taken.length = 3 * asked.length ∧
      ∀ τ ∈ taken, isAnsweredCall k s.tasks.length τ.event := by
  induction fuel generalizing s k goroutine target asked with
  | zero => cases ran
  | succ fuel ih =>
    simp only [callNotify, Option.bind_eq_bind, Option.bind_eq_some_iff] at ran
    obtain ⟨chord, found, node, foundTarget, ran⟩ := ran
    cases served : notify sha1 node chord.request with
    | mk changed response =>
      rw [served] at ran
      obtain ⟨called, foundAgain⟩ : ∃ called, Function.update s.nodes target (some changed) me = some called := by
        by_cases same : me = target
        · exact ⟨changed, by rw [same, Function.update_self]⟩
        · exact ⟨chord, by rw [Function.update_of_ne same, found]⟩
      obtain ⟨taken, t, run, three, own, owner, nodes, tasks⟩ :=
        notifies.call found foundTarget served foundAgain
      cases success : response.success with
      | true =>
        simp only [success, if_true, foundAgain, Option.bind_some, Option.some.injEq, Prod.mk.injEq] at ran nodes
        obtain ⟨rfl, rfl⟩ := ran
        exact ⟨taken, t, run, nodes, by simpa using three, own⟩
      | false =>
        simp only [success, Bool.false_eq_true, if_false, Option.bind_eq_some_iff] at ran nodes tasks
        obtain ⟨⟨later, final⟩, rest, same⟩ := ran
        cases same
        rw [Function.update_eq_self_iff.mpr foundAgain.symm] at nodes
        have onward : t.Notifies me s.tasks.length .spawned response.newPredAddress :=
          ⟨owner ▸ notifies.unlocked, by simp [tasks]⟩
        obtain ⟨taken', t', run', nodes', length', all'⟩ := ih onward (nodes ▸ rest)
        have longer : s.tasks.length ≤ t.tasks.length := by simp [tasks]
        refine ⟨taken ++ taken', t', run.append run', nodes', by simp [three, length']; omega, ?_⟩
        exact isAnsweredCall_append own all' (Nat.le_refl _) longer

end System

end Tda596Labs.Chord
