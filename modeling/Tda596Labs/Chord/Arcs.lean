import Tda596Labs.Chord.HandOff
import Tda596Labs.Chord.Ring

/-! # Arcs and identifiers

A node owns the keys between its predecessor and itself.  The interval test that decides this is the
modular one, and over a ring of identifiers its arcs cover every key once.

A node takes its own identifier from `getIdentifier`, which is the hash of its address unless another
one is given with `-i`.  Its neighbour only knows the address, and hashes it: the arc of the neighbour
begins at the hash, whatever the identifier is.  The arcs of a network therefore cover every key once
exactly if all its identifiers are hashes.
-/

namespace Tda596Labs.Chord

open Tda596Labs.Circle

variable {sha1 : String → Nat}

/-! ## The interval test -/

theorem between_iff_emod {size start elt stop : Nat} (hstart : start < size) (helt : elt < size)
    (hstop : stop < size) :
    between start elt stop true = true ↔
      start = stop ∨ 0 < ((elt : Int) - start) % size ∧
        ((elt : Int) - start) % size ≤ ((stop : Int) - start) % size := by
  rw [between_iff_cw hstart helt hstop, ← cw_eq_emod hstart helt, ← cw_eq_emod hstart hstop]
  have toStop := cw_spec helt hstop
  have toStart := cw_spec helt hstart
  have fromStart := cw_spec hstart helt
  have whole := cw_spec hstart hstop
  omega

theorem between_rotate {size start elt stop : Nat} (hstart : start < size) (helt : elt < size)
    (hstop : stop < size) (offset : Nat) :
    between ((start + offset) % size) ((elt + offset) % size) ((stop + offset) % size) true =
      between start elt stop true := by
  have turned : ∀ a, (a + offset) % size < size := fun _ => Nat.mod_lt _ (by omega)
  rw [Bool.eq_iff_iff, between_iff_cw (turned _) (turned _) (turned _), between_iff_cw hstart helt hstop,
    cw_rotate helt hstop, cw_rotate helt hstart]

/-- A set of identifiers, each at its own place on the circle. -/
abbrev Identifiers := Circle.Ring hashMod fun identifier : Nat => identifier

/-- Every key lies on one arc of the ring; the test is the modular one, so that only the places of the
three arguments relative to each other count. -/
theorem arcs_partition (ring : Identifiers) {key start elt stop : Nat} (hkey : key < hashMod)
    (hstart : start < hashMod) (helt : elt < hashMod) (hstop : stop < hashMod) (offset : Nat) :
    (∃! n, n ∈ ring.members ∧ between (ring.previous n) key n true = true) ∧
      (between start elt stop true = true ↔
        start = stop ∨ 0 < ((elt : Int) - start) % hashMod ∧
          ((elt : Int) - start) % hashMod ≤ ((stop : Int) - start) % hashMod) ∧
      between ((start + offset) % hashMod) ((elt + offset) % hashMod) ((stop + offset) % hashMod) true =
        between start elt stop true := by
  refine ⟨?_, between_iff_emod hstart helt hstop, between_rotate hstart helt hstop offset⟩
  have test : ∀ n, n ∈ ring.members ∧ between (ring.previous n) key n true = true ↔
      n ∈ ring.members ∧ cw hashMod key n ≤ cw hashMod key (ring.previous n) := fun n =>
    and_congr_right fun member => between_iff_cw (ring.bounded _ ring.previous_mem) hkey (ring.bounded n member)
  simpa only [test] using ring.existsUnique_arc hkey

/-- Three identifiers, the last one at the end of the circle. -/
def threeIdentifiers : Identifiers where
  members := [5, 0, hashMod - 1]
  nonempty := by decide
  bounded := by decide +kernel
  distinct := by decide +kernel

theorem arcs_of_three_identifiers :
    (∃! n, n ∈ threeIdentifiers.members ∧ between (threeIdentifiers.previous n) 6 n true = true) ∧
      (between 5 6 0 true = true ↔
        5 = 0 ∨ 0 < (((6 : Nat) : Int) - (5 : Nat)) % hashMod ∧
          (((6 : Nat) : Int) - (5 : Nat)) % hashMod ≤ (((0 : Nat) : Int) - (5 : Nat)) % hashMod) ∧
      between ((5 + 7) % hashMod) ((6 + 7) % hashMod) ((0 + 7) % hashMod) true = between 5 6 0 true :=
  arcs_partition threeIdentifiers (by decide +kernel) (by decide +kernel) (by decide +kernel)
    (by decide +kernel) 7

/-! ## Identifiers of nodes -/

def hexDigit (c : Char) : Option Nat :=
  if '0' ≤ c ∧ c ≤ '9' then some (c.toNat - '0'.toNat)
  else if 'a' ≤ c ∧ c ≤ 'f' then some (c.toNat - 'a'.toNat + 10)
  else if 'A' ≤ c ∧ c ≤ 'F' then some (c.toNat - 'A'.toNat + 10)
  else none

/-- The digits of a number to base 16, at least one. -/
def parseHex : List Char → Option Nat
  | [] => none
  | digits => digits.foldlM (fun value c => (hexDigit c).map (16 * value + ·)) 0

/-- `SetString` of `big.Int` with base 16: digits after at most one sign. -/
def setString16 (text : String) : Option Int :=
  match text.toList with
  | '-' :: digits => (parseHex digits).map fun value => -(value : Int)
  | '+' :: digits => (parseHex digits).map Int.ofNat
  | digits => (parseHex digits).map Int.ofNat

/-- The identifier of a node with the given argument of `-i`; without a value the process ends. -/
def getIdentifier (sha1 : String → Nat) (address : NodeAddress) (specified : String) : Option Nat :=
  if specified = "XXX" then some (hashString sha1 address)
  else (setString16 specified).map fun n => (n % (hashMod : Int)).toNat

theorem getIdentifier_lt {address : NodeAddress} {specified : String} {identifier : Nat}
    (given : getIdentifier sha1 address specified = some identifier) : identifier < hashMod := by
  unfold getIdentifier at given
  split at given
  · rw [← Option.some.inj given]
    exact hashString_lt address
  · obtain ⟨n, _, rfl⟩ := Option.map_eq_some_iff.mp given
    have positive : (0 : Int) < hashMod := by decide
    have below := Int.emod_lt_of_pos n positive
    omega

/-- The arguments a node was started with and the identifier it got from them. -/
structure Participant (sha1 : String → Nat) where
  nodeAddress : NodeAddress
  specified : String
  identifier : Nat
  given : getIdentifier sha1 nodeAddress specified = some identifier

/-- Nodes on the circle, each at the identifier it has taken. -/
abbrev Participants (sha1 : String → Nat) := Circle.Ring hashMod fun p : Participant sha1 => p.identifier

/-- The node passes the test of `find` and `reassignToPred` for a key. -/
def owns (sha1 : String → Nat) (chord : Chord) (key : Nat) : Bool :=
  between (hashString sha1 chord.node.predecessor) key chord.node.identifier true

theorem stays_eq_owns (chord : Chord) (name : String) :
    stays sha1 chord name = owns sha1 chord (hashString sha1 name) := rfl

/-- The node has its identifier, and its predecessor is the one in the order of the identifiers. -/
structure Seated (ring : Participants sha1) (p : Participant sha1) (chord : Chord) : Prop where
  identifier : chord.node.identifier = p.identifier
  predecessor : chord.node.predecessor = (ring.previous p).nodeAddress

theorem Seated.owns_iff {ring : Participants sha1} {p : Participant sha1} {chord : Chord}
    (seated : Seated ring p chord) {key : Nat} (hkey : key < hashMod) :
    owns sha1 chord key = true ↔
      cw hashMod key p.identifier ≤ cw hashMod key (hashString sha1 (ring.previous p).nodeAddress) := by
  rw [owns, seated.identifier, seated.predecessor,
    between_iff_cw (hashString_lt _) hkey (getIdentifier_lt p.given)]

/-- Every key has exactly one owner if and only if every identifier is the hash of its node's address. -/
theorem existsUnique_owner_iff (ring : Participants sha1) (state : Participant sha1 → Chord)
    (seated : ∀ p ∈ ring.members, Seated ring p (state p)) :
    (∀ key < hashMod, ∃! p, p ∈ ring.members ∧ owns sha1 (state p) key = true) ↔
      ∀ p ∈ ring.members, p.identifier = hashString sha1 p.nodeAddress := by
  let start : Participant sha1 → Nat := fun p => hashString sha1 (ring.previous p).nodeAddress
  have test : ∀ key < hashMod, ∀ p, p ∈ ring.members ∧ owns sha1 (state p) key = true ↔
      p ∈ ring.members ∧ cw hashMod key p.identifier ≤ cw hashMod key (start p) := fun key hkey p =>
    and_congr_right fun member => (seated p member).owns_iff hkey
  have arcs := ring.existsUnique_arc_iff start fun _ _ => hashString_lt _
  constructor
  · intro unique p member
    have starts := arcs.mp fun key hkey => by simpa only [test key hkey] using unique key hkey
    have atNext : hashString sha1 (ring.previous (ring.next p)).nodeAddress =
        (ring.previous (ring.next p)).identifier := starts (ring.next p) ring.next_mem
    rw [ring.previous_next member] at atNext
    exact atNext.symm
  · intro hashed key hkey
    have starts := arcs.mpr fun p _ => (hashed _ ring.previous_mem).symm
    simpa only [test key hkey] using starts key hkey

/-- A node of a network with the pointers of its place. -/
def seatedChord (ring : Participants sha1) (p : Participant sha1) : Chord :=
  (initClient p.identifier p.nodeAddress 1).setPredecessor (ring.previous p).nodeAddress

/-- Two nodes with hashed identifiers: one was started without `-i`, the other with its own hash. -/
def twoHashed : Participants knownSha1 where
  members :=
    [⟨"localhost:1234", "XXX", _, rfl⟩,
      ⟨"localhost:1235", "8984ef7ce7f4630eb64fe87164048cd800274afe",
        0x8984ef7ce7f4630eb64fe87164048cd800274afe, by decide +kernel⟩]
  nonempty := by simp
  bounded p _ := getIdentifier_lt p.given
  distinct := by decide +kernel

theorem existsUnique_owner_twoHashed :
    ∃! p, p ∈ twoHashed.members ∧ owns knownSha1 (seatedChord twoHashed p) 0 = true :=
  (existsUnique_owner_iff twoHashed (seatedChord twoHashed) fun _ _ => ⟨rfl, rfl⟩).mpr
    (by simp only [twoHashed, List.forall_mem_cons]; decide +kernel) 0 (by decide)

/-- A node alone, started with `-i 0`. -/
def chosenZero : Participants knownSha1 where
  members := [⟨"localhost:1234", "0", 0, by decide +kernel⟩]
  nonempty := by simp
  bounded p _ := getIdentifier_lt p.given
  distinct := by decide +kernel

/-- The arc of the node that chose `0` begins at the hash of its address, which nobody owns. -/
theorem no_owner_of_chosenZero :
    ¬ ∀ (sha1 : String → Nat) (ring : Participants sha1) (state : Participant sha1 → Chord),
      (∀ p ∈ ring.members, Seated ring p (state p)) →
      ∀ key < hashMod, ∃! p, p ∈ ring.members ∧ owns sha1 (state p) key = true := by
  intro always
  have hashed := @hashString_lt knownSha1 "localhost:1234"
  obtain ⟨p, ⟨member, owned⟩, _⟩ :=
    always knownSha1 chosenZero (seatedChord chosenZero) (fun _ _ => ⟨rfl, rfl⟩) _ hashed
  have only := List.mem_singleton.mp member
  subst only
  revert owned
  decide +kernel

end Tda596Labs.Chord
