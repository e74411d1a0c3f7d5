import Tda596Labs.Chord.WholeCalls
import Tda596Labs.Chord.Ring

/-! # The exchange of successor lists

With a `YouGood` a node gets the successors of its first successor and copies them behind it.  The loop of
`verifySuccs` runs over the own list and reads the list of the reply, whose length another node has chosen.
Where all lists are of one length, what a node knows of the ring gets one entry longer in every round of
`CallStabilize`, in whatever order the nodes make their calls.
-/

namespace Tda596Labs.Chord

open Tda596Labs.Circle

/-! ## One exchange -/

/-- A reply without a marker is copied as far as the own list goes. -/
theorem verifyOthers_eq_take {own replied : List NodeAddress} (noX : "X" ∉ replied)
    (enough : own.length ≤ replied.length) : verifyOthers own replied = some (replied.take own.length) := by
  induction own generalizing replied with
  | nil => rfl
  | cons address own ih =>
    cases replied with
    | nil => cases enough
    | cons theirs replied =>
      obtain ⟨notX, noX⟩ := List.ne_and_not_mem_of_not_mem_cons noX
      rw [verifyOthers, if_neg notX.symm, ih noX (Nat.le_of_succ_le_succ enough)]
      rfl

/-- The exchange stays in range, and keeps the length, if and only if the asking node has at most one
successor more than the node it asks, or the list of that node has an `"X"`. -/
theorem verifySuccs_safe_iff (chord target : Chord) (request : Request)
    (good : (stabilized target request).2.youGood = true) :
    (∃ verified, chord.verifySuccs (stabilized target request).2.nodeSuccessors = some verified ∧
      verified.node.successors.toList.length = chord.node.successors.toList.length) ↔
    (chord.node.successors.toList.length ≤ target.node.successors.toList.length + 1 ∨
      "X" ∈ target.node.successors.toList) := by
  have sent : (stabilized target request).2.nodeSuccessors = target.node.successors.toList := by
    unfold stabilized at good ⊢
    split
    · rfl
    · split
      · rfl
      · next notX other => simp [notX, other] at good
  have runs : (∃ verified, chord.verifySuccs target.node.successors.toList = some verified ∧
      verified.node.successors.toList.length = chord.node.successors.toList.length) ↔
      (verifyOthers chord.node.successors.others target.node.successors.toList).isSome := by
    constructor
    · rintro ⟨verified, ran, _⟩
      obtain ⟨others, copied, _⟩ := Option.map_eq_some_iff.mp ran
      rw [copied]
      rfl
    · intro inRange
      obtain ⟨others, copied⟩ := Option.isSome_iff_exists.mp inRange
      refine ⟨_, Option.map_eq_some_iff.mpr ⟨others, copied, rfl⟩, ?_⟩
      simp [Successors.toList, verifyOthers_length copied]
  rw [sent, runs, verifyOthers_isSome_iff]
  simp [Successors.toList]

/-- A node with three successors. -/
def guest : Chord := initClient (hashString knownSha1 "localhost:1234") "localhost:1234" 2

/-- A ring of one node with one successor, which the guest has joined and notified. -/
def host : Chord :=
  let alone := (initClient (hashString knownSha1 "localhost:1235") "localhost:1235" 0).create
  (notify knownSha1 (join knownSha1 alone guest.request).1 guest.request).1

/-- With three successors against two the loop goes through both replied entries, and stays in range. -/
theorem verifySuccs_safe_by_one :
    ∃ verified, (settledChord twoPorts 2 "localhost:1234").verifySuccs
        (stabilized (settledChord twoPorts 1 "localhost:1235")
          (settledChord twoPorts 2 "localhost:1234").request).2.nodeSuccessors = some verified ∧
      verified.node.successors.toList.length =
        (settledChord twoPorts 2 "localhost:1234").node.successors.toList.length :=
  (verifySuccs_safe_iff _ (settledChord twoPorts 1 "localhost:1235") _ (by decide +kernel)).mpr
    (.inl (by decide +kernel))

/-- The host answers the guest with a list of one entry, and the guest reads a second one. -/
theorem verifySuccs_out_of_range :
    ¬ ∀ (chord target : Chord) (request : Request), (stabilized target request).2.youGood = true →
      ∃ verified, chord.verifySuccs (stabilized target request).2.nodeSuccessors = some verified ∧
        verified.node.successors.toList.length = chord.node.successors.toList.length := by
  intro always
  obtain ⟨verified, ran, _⟩ := always (guest.accepted "localhost:1235") host guest.request (by decide +kernel)
  have stops : ((guest.accepted "localhost:1235").verifySuccs
      (stabilized host guest.request).2.nodeSuccessors).isSome = false := by decide +kernel
  rw [ran] at stops
  cases stops

/-! ## Rounds -/

section Rounds

variable {sha1 : String → Nat} {ring : Ring sha1} {extra depth : Nat} {a : NodeAddress} {chord : Chord}
  {nodes : NodeAddress → Option Chord}

/-- A node with the right predecessor and `extra + 1` successors, of which the first `depth + 1` are right. -/
structure Agrees (ring : Ring sha1) (extra depth : Nat) (a : NodeAddress) (chord : Chord) : Prop where
  nodeAddress : chord.node.nodeAddress = a
  predecessor : chord.node.predecessor = ring.previous a
  length : chord.node.successors.others.length = extra
  noX : "X" ∉ chord.node.successors.toList
  agrees : chord.node.successors.toList.take (depth + 1) = ring.following a (min (depth + 1) (extra + 1))

theorem Agrees.first (agreed : Agrees ring extra depth a chord) :
    chord.node.successors.first = ring.next a := by
  have agrees := agreed.agrees
  rw [Nat.succ_min_succ, Ring.following, Successors.toList, List.take_succ_cons] at agrees
  exact (List.cons.inj agrees).1

theorem Agrees.mono (agreed : Agrees ring extra depth a chord) {less : Nat} (le : less ≤ depth) :
    Agrees ring extra less a chord where
  nodeAddress := agreed.nodeAddress
  predecessor := agreed.predecessor
  length := agreed.length
  noX := agreed.noX
  agrees := by
    have shorter : chord.node.successors.toList.take (less + 1) =
        (chord.node.successors.toList.take (depth + 1)).take (less + 1) := by
      rw [List.take_take, Nat.min_eq_left (Nat.succ_le_succ le)]
    rw [shorter, agreed.agrees, Ring.take_following]
    congr 1
    omega

/-- All the successors are right once `depth` has come to the end of the list. -/
theorem Agrees.all (agreed : Agrees ring extra depth a chord) (enough : extra ≤ depth) :
    chord.node.successors.toList = ring.following a (extra + 1) := by
  have agrees := (agreed.mono enough).agrees
  have length : chord.node.successors.toList.length = extra + 1 := by
    simp [Successors.toList, agreed.length]
  rwa [← length, List.take_length, length, Nat.min_self] at agrees

/-- A node that copies a list which is right up to `depth` is right up to `depth + 1`. -/
theorem Agrees.copied (noX : "X" ∉ ring.members) {shallow : Nat} (agreed : Agrees ring extra shallow a chord)
    {target : Chord} (theirs : Agrees ring extra depth (ring.next a) target) :
    ∃ verified, chord.verifySuccs target.node.successors.toList = some verified ∧
      Agrees ring extra (depth + 1) a verified := by
  have enough : chord.node.successors.others.length ≤ target.node.successors.toList.length := by
    simp [Successors.toList, theirs.length, agreed.length]
  have copied := verifyOthers_eq_take theirs.noX enough
  refine ⟨_, Option.map_eq_some_iff.mpr ⟨_, copied, rfl⟩, agreed.nodeAddress, agreed.predecessor, ?_, ?_, ?_⟩
  · rw [List.length_take, Nat.min_eq_left enough, agreed.length]
  · rw [Successors.toList, List.mem_cons, not_or]
    refine ⟨fun isX => noX ?_, fun inside => theirs.noX (List.mem_of_mem_take inside)⟩
    rw [isX, agreed.first]
    exact ring.next_mem
  · have known : (target.node.successors.toList.take extra).take (depth + 1) =
        ring.following (ring.next a) (min extra (depth + 1)) := by
      rw [List.take_take, Nat.min_comm, ← List.take_take, theirs.agrees, Ring.take_following]
      congr 1
      omega
    rw [Successors.toList, List.take_succ_cons, agreed.length, known, agreed.first, Nat.succ_min_succ,
      Ring.following, Nat.min_comm]

/-- Every node is right up to `depth`, and those that have made their call in this round one further. -/
def Spread (ring : Ring sha1) (extra depth : Nat) (visited : List NodeAddress)
    (nodes : NodeAddress → Option Chord) : Prop :=
  ∀ b ∈ ring.members, ∃ chord, nodes b = some chord ∧ Agrees ring extra depth b chord ∧
    (b ∈ visited → Agrees ring extra (depth + 1) b chord)

/-- One call: the first successor is right up to `depth`, whether it has made its call or not. -/
theorem Spread.call (two : 2 ≤ ring.members.length) (noX : "X" ∉ ring.members) {visited : List NodeAddress}
    (spread : Spread ring extra depth visited nodes) (member : a ∈ ring.members) :
    ∃ after, stabilizeOnce sha1 a nodes = some after ∧ Spread ring extra depth (visited ++ [a]) after := by
  obtain ⟨chord, found, agreed, _⟩ := spread a member
  obtain ⟨target, asked, theirs, _⟩ := spread (ring.next a) ring.next_mem
  obtain ⟨verified, copied, further⟩ := agreed.copied noX theirs
  have knows : target.node.predecessor = a := theirs.predecessor.trans (ring.previous_next member)
  have notX : ∀ b ∈ ring.members, b ≠ "X" := fun _ inside => ne_of_mem_of_not_mem inside noX
  have called : stabilizeOnce sha1 a nodes = _ :=
    stabilizeOnce_of_good found (agreed.first ▸ notX _ ring.next_mem) agreed.nodeAddress
      (agreed.first ▸ ring.next_ne two member) (agreed.first ▸ asked) knows (notX a member)
  refine ⟨_, called.trans (by rw [copied]; rfl), fun b inside => ?_⟩
  by_cases here : b = a
  · subst here
    exact ⟨verified, Function.update_self .., further.mono (Nat.le_succ depth), fun _ => further⟩
  · obtain ⟨chord', found', agreed', visited'⟩ := spread b inside
    refine ⟨chord', (Function.update_of_ne here ..).trans found', agreed', fun seen => visited' ?_⟩
    simpa [here] using seen

theorem Spread.calls (two : 2 ≤ ring.members.length) (noX : "X" ∉ ring.members)
    {order visited : List NodeAddress} (inside : ∀ b ∈ order, b ∈ ring.members)
    (spread : Spread ring extra depth visited nodes) :
    ∃ after, stabilizeEach sha1 order nodes = some after ∧
      Spread ring extra depth (visited ++ order) after := by
  induction order generalizing nodes visited with
  | nil => exact ⟨nodes, rfl, by simpa using spread⟩
  | cons b order ih =>
    obtain ⟨middle, called, spread⟩ := spread.call two noX (inside b List.mem_cons_self)
    obtain ⟨after, ran, spread⟩ := ih (fun c later => inside c (List.mem_cons_of_mem b later)) spread
    refine ⟨after, by rw [stabilizeEach, called, Option.bind_some, ran], ?_⟩
    simpa using spread

/-- A round in which every node makes a call takes all of them one entry further. -/
theorem Spread.round (two : 2 ≤ ring.members.length) (noX : "X" ∉ ring.members) {order : List NodeAddress}
    (each : order.Perm ring.members) (spread : Spread ring extra depth [] nodes) :
    ∃ after, stabilizeEach sha1 order nodes = some after ∧ Spread ring extra (depth + 1) [] after := by
  obtain ⟨after, ran, spread⟩ := spread.calls two noX fun b inside => each.mem_iff.mp inside
  refine ⟨after, ran, fun b inside => ?_⟩
  obtain ⟨chord, found, _, visited⟩ := spread b inside
  exact ⟨chord, found, visited (each.mem_iff.mpr inside), nofun⟩

theorem Spread.rounds (two : 2 ≤ ring.members.length) (noX : "X" ∉ ring.members)
    {rounds : List (List NodeAddress)} (each : ∀ order ∈ rounds, order.Perm ring.members)
    (spread : Spread ring extra depth [] nodes) :
    ∃ after, stabilizeEach sha1 rounds.flatten nodes = some after ∧
      Spread ring extra (depth + rounds.length) [] after := by
  induction rounds generalizing nodes depth with
  | nil => exact ⟨nodes, rfl, spread⟩
  | cons order rounds ih =>
    obtain ⟨middle, first, spread⟩ := spread.round two noX (each order List.mem_cons_self)
    obtain ⟨after, rest, spread⟩ := ih (fun o later => each o (List.mem_cons_of_mem order later)) spread
    refine ⟨after, ?_, ?_⟩
    · rw [List.flatten_cons, stabilizeEach_append, first, Option.bind_some, rest]
    · rwa [List.length_cons, Nat.add_comm rounds.length, ← Nat.add_assoc]

/-- In a ring with the right predecessors and first successors, and lists of one length without `"X"`, all
the successors are right after as many rounds as there are entries behind the first. -/
theorem successors_converge (two : 2 ≤ ring.members.length) (linked : Linked ring nodes)
    (lists : ∀ a ∈ ring.members, ∀ chord, nodes a = some chord → chord.node.nodeAddress = a ∧
      chord.node.successors.others.length = extra ∧ "X" ∉ chord.node.successors.others)
    (rounds : List (List NodeAddress)) (each : ∀ order ∈ rounds, order.Perm ring.members)
    (enough : extra ≤ rounds.length) :
    ∃ after, stabilizeEach sha1 rounds.flatten nodes = some after ∧
      ∀ a ∈ ring.members, ∃ chord, after a = some chord ∧
        chord.node.successors.toList = ring.following a (extra + 1) := by
  have spread : Spread ring extra 0 [] nodes := by
    intro a member
    obtain ⟨chord, found, predecessor, first⟩ := linked.neighbours a member
    obtain ⟨nodeAddress, length, noX⟩ := lists a member chord found
    refine ⟨chord, found, ⟨nodeAddress, predecessor, length, ?_, ?_⟩, nofun⟩
    · rw [Successors.toList, List.mem_cons, not_or]
      exact ⟨fun isX => linked.noX (isX ▸ first ▸ ring.next_mem), noX⟩
    · simp [Successors.toList, first, Ring.following]
  obtain ⟨after, ran, spread⟩ := spread.rounds two linked.noX each
  refine ⟨after, ran, fun a member => ?_⟩
  obtain ⟨chord, found, agreed, _⟩ := spread a member
  exact ⟨chord, found, agreed.all (by omega)⟩

end Rounds

/-- Two nodes that have not learned of their second successor yet. -/
def unsettled (address : NodeAddress) : Option Chord :=
  (settled twoPorts 0 address).map fun chord =>
    { chord with node := { chord.node with
        successors := { chord.node.successors with others := [chord.node.successors.first] } } }

theorem unsettled_lists : ∀ a ∈ twoPorts.members, ∃ chord, unsettled a = some chord ∧
    chord.node.nodeAddress = a ∧ chord.node.predecessor = twoPorts.previous a ∧
      chord.node.successors = ⟨twoPorts.next a, [twoPorts.next a]⟩ := by
  intro a member
  exact ⟨_, by rw [unsettled, settled, if_pos member, Option.map_some], rfl, rfl, rfl⟩

/-- One round is enough for them, in either order. -/
theorem two_successors_converge :
    ∃ after, stabilizeEach knownSha1 ["localhost:1235", "localhost:1234"] unsettled = some after ∧
      ∀ a ∈ twoPorts.members, ∃ chord, after a = some chord ∧
        chord.node.successors.toList = twoPorts.following a 2 := by
  have noX : "X" ∉ twoPorts.members := by decide
  refine successors_converge (by decide) ⟨noX, fun a member => ?_⟩ (fun a member chord found => ?_)
    [["localhost:1235", "localhost:1234"]] (by decide) (Nat.le_refl 1)
  · obtain ⟨chord, found, _, predecessor, successors⟩ := unsettled_lists a member
    exact ⟨chord, found, predecessor, by rw [successors]⟩
  · obtain ⟨_, found', nodeAddress, _, successors⟩ := unsettled_lists a member
    obtain rfl := Option.some.inj (found.symm.trans found')
    rw [successors]
    refine ⟨nodeAddress, rfl, fun isX => noX ?_⟩
    rw [List.mem_singleton.mp isX]
    exact twoPorts.next_mem

end Tda596Labs.Chord
