import Tda596Labs.Chord.Lookup

/-! # What a join does to the pointers

The handler `Join` takes its decision from the code `find` returns.  The code is the same for every entry
of `Successors`, so a joiner that belongs after the first successor still becomes the first successor.
And when the node itself is the successor of the joiner, the response names the node, so that the node
becomes its own predecessor.  In the remaining cases the handler brings a pointer closer, or none.
-/

namespace Tda596Labs.Chord

open Tda596Labs.Circle

section Tightening

variable {sha1 : String → Nat} {ring : Ring sha1} {nodes : NodeAddress → Option Chord}
  {x joiner : NodeAddress} {chord : Chord}

/-- The first successor and the predecessor of a node are kept or replaced by the joiner, and replaced
only by a joiner that is closer. -/
structure Tightens (ring : Ring sha1) (joiner : NodeAddress) (before after : Chord) : Prop where
  successor : after.node.successors.first = before.node.successors.first ∨
    after.node.successors.first = joiner
  successorCloser : after.node.successors.first = joiner →
    Inside hashMod before.node.identifier (hashString sha1 joiner)
        (hashString sha1 before.node.successors.first) ∨
      ∀ a ∈ ring.members, a = before.node.nodeAddress
  predecessor : after.node.predecessor = before.node.predecessor ∨ after.node.predecessor = joiner
  predecessorCloser : after.node.predecessor = joiner →
    Inside hashMod (hashString sha1 before.node.predecessor) (hashString sha1 joiner)
      before.node.identifier

/-- A joiner whose successor is the first successor of the node is between the two, and no other joiner
is. -/
theorem inside_next_iff (member : x ∈ ring.members) (other : ring.next x ≠ x)
    (fresh : ∀ a ∈ ring.members, hashString sha1 a ≠ hashString sha1 joiner) :
    Inside hashMod (hashString sha1 x) (hashString sha1 joiner) (hashString sha1 (ring.next x)) ↔
      ring.successor (hashString sha1 joiner) = ring.next x := by
  rw [inside_iff_cw (hashString_lt x) (hashString_lt joiner) (hashString_lt _)
    (fresh _ ring.next_mem).symm, ← ring.next_eq_successor_iff (hashString_lt joiner) member other, eq_comm]

theorem join_mySucc {response : Response}
    (answers : find sha1 chord (hashString sha1 joiner) .zero = (.mySucc, response)) :
    (join sha1 chord ⟨joiner, hashString sha1 joiner⟩).1 = chord.setSuccessor joiner := by
  rw [join, answers]

/-- A node that makes the joiner its first successor keeps its predecessor. -/
theorem tightens_setSuccessor_iff (stable : StableNode ring x chord) (unknown : joiner ∉ ring.members) :
    Tightens ring joiner chord (chord.setSuccessor joiner) ↔
      Inside hashMod (hashString sha1 x) (hashString sha1 joiner) (hashString sha1 (ring.next x)) ∨
        ∀ a ∈ ring.members, a = x := by
  rw [← stable.links.first, ← stable.identifier]
  constructor
  · intro tightens
    exact stable.nodeAddress ▸ tightens.successorCloser rfl
  · intro closer
    refine ⟨.inr rfl, fun _ => stable.nodeAddress ▸ closer, .inl rfl, fun same => absurd ?_ unknown⟩
    rw [← same]
    exact stable.predecessor ▸ ring.previous_mem

/-- A node with company that takes itself for its predecessor does not bring the joiner closer. -/
theorem not_tightens_setPredecessor_self (stable : StableNode ring x chord) (member : x ∈ ring.members)
    (company : ring.next x ≠ x) (unknown : joiner ∉ ring.members) :
    ¬ Tightens ring joiner chord (chord.setPredecessor x) := by
  intro tightens
  rcases tightens.predecessor with same | joined
  · have itself : x = ring.previous x := same.trans stable.predecessor
    have back := ring.next_previous member
    rw [← itself] at back
    exact absurd back company
  · exact absurd (joined ▸ member) unknown

/-- A node that passes the request on keeps its pointers. -/
theorem tightens_self (stable : StableNode ring x chord) (unknown : joiner ∉ ring.members) :
    Tightens ring joiner chord chord where
  successor := .inl rfl
  successorCloser same := absurd (same ▸ stable.links.first ▸ ring.next_mem) unknown
  predecessor := .inl rfl
  predecessorCloser same := absurd (same ▸ stable.predecessor ▸ ring.previous_mem) unknown

/-- Handling a `Join` only tightens pointers if and only if the true successor of the joiner is the first
successor of the node, or is a node that the handler does not know. -/
theorem join_tightens_iff (stable : Stable ring nodes) (member : x ∈ ring.members)
    (found : nodes x = some chord)
    (fresh : ∀ a ∈ ring.members, hashString sha1 a ≠ hashString sha1 joiner) :
    Tightens ring joiner chord (join sha1 chord ⟨joiner, hashString sha1 joiner⟩).1 ↔
      ring.successor (hashString sha1 joiner) = chord.node.successors.first ∨
        (ring.successor (hashString sha1 joiner) ≠ x ∧
          ring.successor (hashString sha1 joiner) ∉ chord.node.successors.toList) := by
  obtain ⟨_, found', node⟩ := stable.stableNode x member
  obtain rfl := Option.some.inj (found.symm.trans found')
  have hkey : hashString sha1 joiner < hashMod := hashString_lt joiner
  have unknown : joiner ∉ ring.members := fun inside => fresh joiner inside rfl
  by_cases owner : ring.successor (hashString sha1 joiner) = x
  · by_cases alone : ring.next x = x
    · -- Alone, the node finds every joiner between itself and itself.
      rw [join_mySucc (find_of_alone stable.noX node.links hkey .zero alone),
        tightens_setSuccessor_iff node unknown, node.links.first, owner]
      exact iff_of_true (.inr fun a inside => ring.eq_of_next_self member alone inside) (.inl alone.symm)
    · -- The node names itself in the response and takes the name for its predecessor.
      have answers := find_of_owner stable.noX node.links hkey member .zero owner alone
      have changed : (join sha1 chord ⟨joiner, hashString sha1 joiner⟩).1 = chord.setPredecessor x := by
        rw [join, answers]
      rw [changed, node.links.first, owner]
      refine iff_of_false (not_tightens_setPredecessor_self node member alone unknown) ?_
      rintro (first | ⟨notOwner, _⟩)
      · exact alone first.symm
      · exact notOwner rfl
  · have company : ring.next x ≠ x := fun alone =>
      owner (ring.eq_of_next_self member alone ring.successor_mem)
    by_cases among : ring.successor (hashString sha1 joiner) ∈ chord.node.successors.toList
    · -- The joiner becomes the first successor, whichever entry of the list it was found before.
      have notOnly : ¬ ∀ a ∈ ring.members, a = x := fun only => company (only _ ring.next_mem)
      rw [join_mySucc (find_of_listed stable.noX node.links hkey member .zero owner among),
        tightens_setSuccessor_iff node unknown, inside_next_iff member company fresh, node.links.first]
      simp [notOnly, among]
    · obtain ⟨identifier, answers⟩ := find_of_unaware stable.noX node hkey member .zero owner among
      have kept : (join sha1 chord ⟨joiner, hashString sha1 joiner⟩).1 = chord := by
        rw [join, answers]
      rw [kept]
      exact iff_of_true (tightens_self node unknown) (.inr ⟨owner, among⟩)

end Tightening

/-- `localhost:1241` belongs between `localhost:1236` and its first successor `localhost:1237`. -/
theorem join_tightens_at_1236 :
    (join knownSha1 (settledChord fourNodes 1 "localhost:1236") joiner).1.node.successors.first =
        "localhost:1241" ∧
      Tightens fourNodes "localhost:1241" (settledChord fourNodes 1 "localhost:1236")
        (join knownSha1 (settledChord fourNodes 1 "localhost:1236") joiner).1 := by
  refine ⟨by decide +kernel, (join_tightens_iff (settled_stable fourNodes 1 (by decide))
    (by decide : "localhost:1236" ∈ fourNodes.members) rfl (by decide +kernel)).mpr (.inl ?_)⟩
  decide +kernel

/-- `localhost:1235` finds the joiner before its second successor `localhost:1237`, and forgets the first,
`localhost:1236`, which is closer than the joiner. -/
theorem join_widens_at_1235 :
    ¬ ∀ (sha1 : String → Nat) (ring : Ring sha1) (nodes : NodeAddress → Option Chord),
      Stable ring nodes → ∀ x ∈ ring.members, ∀ chord, nodes x = some chord → ∀ joiner,
        (∀ a ∈ ring.members, hashString sha1 a ≠ hashString sha1 joiner) →
          Tightens ring joiner chord (join sha1 chord ⟨joiner, hashString sha1 joiner⟩).1 := by
  intro always
  have tightens := always knownSha1 fourNodes (settled fourNodes 1) (settled_stable fourNodes 1 (by decide))
    "localhost:1235" (by decide) _ rfl "localhost:1241" (by decide +kernel)
  have replaced : (join knownSha1 (settledChord fourNodes 1 "localhost:1235")
      joiner).1.node.successors.first = "localhost:1241" := by decide +kernel
  have closer := tightens.successorCloser replaced
  revert closer
  decide +kernel

end Tda596Labs.Chord
