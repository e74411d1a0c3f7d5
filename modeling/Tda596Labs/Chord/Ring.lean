import Tda596Labs.Lib.Circle
import Tda596Labs.Chord.Node

/-! # Stable rings

The abstract picture of a Chord network is a ring of addresses placed on the circle of identifiers by
their hash.  A network is stable over a ring when the pointers of every node are the ones the ring
prescribes.  In a stable ring `find` is completely determined: a node that owns the key or has the
owner among its successors answers with the owner; any other node passes the question along, either
to its successor or, when the key is at most half a circle ahead, to its last finger, which lies
beyond the key.
-/

namespace Tda596Labs.Chord

open Tda596Labs.Circle

variable {sha1 : String → Nat}

/-- Addresses on the circle of identifiers. -/
abbrev Ring (sha1 : String → Nat) := Circle.Ring hashMod (hashString sha1)

/-- The pointers of a node are those the ring prescribes; every node has its own number of successors. -/
structure StableNode (ring : Ring sha1) (address : NodeAddress) (chord : Chord) : Prop where
  nodeAddress : chord.node.nodeAddress = address
  identifier : chord.node.identifier = hashString sha1 address
  predecessor : chord.node.predecessor = ring.previous address
  successors : ∃ extra, chord.node.successors.toList = ring.following address (extra + 1)
  fingerTable : ∀ n, 1 ≤ n → n ≤ keySize → chord.node.fingerTable n =
    ⟨jumpIdentifier (hashString sha1 address) n, ring.successor (jumpIdentifier (hashString sha1 address) n)⟩

/-- The predecessor and the successors are those the ring prescribes, whatever the fingers are. -/
structure Links (ring : Ring sha1) (address : NodeAddress) (chord : Chord) : Prop where
  nodeAddress : chord.node.nodeAddress = address
  identifier : chord.node.identifier = hashString sha1 address
  predecessor : chord.node.predecessor = ring.previous address
  successors : ∃ extra, chord.node.successors.toList = ring.following address (extra + 1)

theorem StableNode.links {ring : Ring sha1} {address : NodeAddress} {chord : Chord}
    (stable : StableNode ring address chord) : Links ring address chord :=
  ⟨stable.nodeAddress, stable.identifier, stable.predecessor, stable.successors⟩

theorem Links.first {ring : Ring sha1} {address : NodeAddress} {chord : Chord}
    (links : Links ring address chord) : chord.node.successors.first = ring.next address := by
  obtain ⟨extra, listed⟩ := links.successors
  exact (List.cons.inj listed).1

structure Stable (ring : Ring sha1) (nodes : NodeAddress → Option Chord) : Prop where
  noX : "X" ∉ ring.members
  stableNode : ∀ address ∈ ring.members, ∃ chord, nodes address = some chord ∧ StableNode ring address chord

/-- The predecessor and the first successor of every node are its neighbours in the ring. -/
structure Linked (ring : Ring sha1) (nodes : NodeAddress → Option Chord) : Prop where
  noX : "X" ∉ ring.members
  neighbours : ∀ address ∈ ring.members, ∃ chord, nodes address = some chord ∧
    chord.node.predecessor = ring.previous address ∧ chord.node.successors.first = ring.next address

/-- A node of the network that a ring settles to, with `extra + 1` successors. -/
def settledChord (ring : Ring sha1) (extra : Nat) (address : NodeAddress) : Chord :=
  let fresh := initClient (hashString sha1 address) address extra
  { fresh with node := { fresh.node with
      predecessor := ring.previous address
      successors := ⟨ring.next address, ring.following (ring.next address) extra⟩
      fingerTable := fun n =>
        let entry := fresh.node.fingerTable n
        { entry with nodeAddress := ring.successor entry.identifier }
      joinPending := false } }

def settled (ring : Ring sha1) (extra : Nat) (address : NodeAddress) : Option Chord :=
  if address ∈ ring.members then some (settledChord ring extra address) else none

theorem settledChord_stable (ring : Ring sha1) (extra : Nat) (address : NodeAddress) :
    StableNode ring address (settledChord ring extra address) := by
  refine ⟨rfl, rfl, rfl, ⟨extra, rfl⟩, ?_⟩
  intro n positive _
  simp [settledChord, initClient, Nat.pos_iff_ne_zero.mp positive]

theorem settled_stable (ring : Ring sha1) (extra : Nat) (noX : "X" ∉ ring.members) :
    Stable ring (settled ring extra) where
  noX := noX
  stableNode address member := ⟨_, if_pos member, settledChord_stable ring extra address⟩

/-! ## Intervals as distances -/

/-- Half a turn. -/
def halfway : Nat := 2 ^ (keySize - 1)

theorem hashMod_eq : hashMod = 2 * halfway := rfl

theorem halfway_pos : 0 < halfway := by decide

theorem hashString_lt (address : NodeAddress) : hashString sha1 address < hashMod :=
  Nat.mod_lt _ (by decide)

theorem jumpIdentifier_lt (identifier n : Nat) : jumpIdentifier identifier n < hashMod :=
  Nat.mod_lt _ (by decide)

/-- The interval test says which end is met first going clockwise from the key. -/
theorem between_iff_cw {size start elt stop : Nat} (hstart : start < size) (helt : elt < size)
    (hstop : stop < size) :
    between start elt stop true = true ↔ cw size elt stop ≤ cw size elt start := by
  simp only [between, cw]
  split_ifs <;>
    simp only [Bool.true_and, Bool.or_eq_true, Bool.and_eq_true, decide_eq_true_eq, beq_iff_eq] <;>
    omega

/-- How far past the key a node is. -/
def past (sha1 : String → Nat) (key : Nat) (address : NodeAddress) : Nat :=
  cw hashMod key (hashString sha1 address)

theorem past_lt (sha1 : String → Nat) {key : Nat} (hkey : key < hashMod) (address : NodeAddress) :
    past sha1 key address < hashMod :=
  cw_lt hkey (hashString_lt address)

theorem between_hash_iff {key : Nat} (hkey : key < hashMod) (x z : NodeAddress) :
    between (hashString sha1 x) key (hashString sha1 z) true = true ↔ past sha1 key z ≤ past sha1 key x :=
  between_iff_cw (hashString_lt x) hkey (hashString_lt z)

theorem two_pow_le_halfway {n : Nat} (upper : n ≤ keySize) : 2 ^ (n - 1) ≤ halfway :=
  Nat.pow_le_pow_right (by decide) (by omega)

theorem past_jump {key n : Nat} (hkey : key < hashMod) (upper : n ≤ keySize) (x : NodeAddress) :
    cw hashMod key (jumpIdentifier (hashString sha1 x) n) =
      if past sha1 key x + 2 ^ (n - 1) < hashMod then past sha1 key x + 2 ^ (n - 1)
      else past sha1 key x + 2 ^ (n - 1) - hashMod := by
  have bound := two_pow_le_halfway upper
  have positive := halfway_pos
  have double := hashMod_eq
  exact cw_add_mod (hashString_lt x) hkey (by omega)

/-- A finger is met before the node itself exactly if its jump leads over the key. -/
theorem between_finger_iff {key n : Nat} (hkey : key < hashMod) (upper : n ≤ keySize)
    (x : NodeAddress) :
    between (hashString sha1 x) key (jumpIdentifier (hashString sha1 x) n) true = true ↔
      hashMod ≤ past sha1 key x + 2 ^ (n - 1) := by
  rw [between_iff_cw (hashString_lt x) hkey (jumpIdentifier_lt _ _), past_jump hkey upper]
  have bound := two_pow_le_halfway upper
  have jumps : 0 < 2 ^ (n - 1) := Nat.two_pow_pos _
  have double := hashMod_eq
  change _ ≤ past sha1 key x ↔ _
  split_ifs <;> omega

/-! ## find in a stable ring -/

section Find

variable {ring : Ring sha1} {x : NodeAddress} {chord : Chord} {key : Nat}

/-- The node a question is passed along to. -/
def hop (ring : Ring sha1) (key : Nat) (x : NodeAddress) : NodeAddress :=
  if halfway ≤ past sha1 key x then ring.successor (jumpIdentifier (hashString sha1 x) keySize)
  else ring.next x

/-- The successors from a node `w` on, none of which has come round to the owner of the key yet, at a node
that does not take itself for the owner. -/
theorem findAmong_following (noX : "X" ∉ ring.members) (identifier : chord.node.identifier = hashString sha1 x)
    (hkey : key < hashMod) (member : x ∈ ring.members)
    (notMine : between (hashString sha1 chord.node.predecessor) key (hashString sha1 x) true = false)
    {w : NodeAddress} (inside : w ∈ ring.members) (onward : past sha1 key x ≤ past sha1 key w)
    (count : Nat) (rest : List NodeAddress) :
    (ring.successor key ∈ ring.following w count →
      findAmong sha1 chord key (ring.following w count ++ rest) =
        some (.mySucc, ⟨true, ring.successor key, hashString sha1 (ring.successor key)⟩)) ∧
    (ring.successor key ∉ ring.following w count →
      findAmong sha1 chord key (ring.following w count ++ rest) = findAmong sha1 chord key rest) := by
  induction count generalizing w with
  | zero => simp [Ring.following]
  | succ count ih =>
    have notX : ring.next w ≠ "X" := ne_of_mem_of_not_mem ring.next_mem noX
    have least : past sha1 key (ring.successor key) ≤ past sha1 key x := ring.successor_le member
    simp only [Ring.following, List.cons_append, findAmong, if_neg notX, identifier, between_hash_iff hkey,
      notMine, Bool.false_eq_true, if_false, List.mem_cons]
    by_cases farthest : ∀ z ∈ ring.members, past sha1 key z ≤ past sha1 key w
    · -- The next node after the farthest one owns the key.
      have owner := ring.next_of_farthest hkey inside farthest
      simp [owner, least]
    · push Not at farthest
      obtain ⟨z, zInside, farther⟩ := farthest
      obtain ⟨up, _⟩ := ring.next_of_lt hkey inside zInside farther
      change past sha1 key w < past sha1 key (ring.next w) at up
      have different : ring.successor key ≠ ring.next w := by
        intro equal
        rw [equal] at least
        omega
      have notYet : ¬ past sha1 key (ring.next w) ≤ past sha1 key x := by omega
      simpa [different, notYet] using ih ring.next_mem (by omega)

/-- A node that knows its predecessor takes itself for the owner of its own keys only. -/
theorem between_previous_iff (hkey : key < hashMod) (member : x ∈ ring.members) :
    between (hashString sha1 (ring.previous x)) key (hashString sha1 x) true = true ↔
      ring.successor key = x := by
  rw [between_hash_iff hkey, eq_comm]
  exact ring.cw_le_previous_iff hkey member

/-- Only the owner is closer to the key than the node before it. -/
theorem between_next_iff (hkey : key < hashMod) (member : x ∈ ring.members) (company : ring.next x ≠ x) :
    between (hashString sha1 x) key (hashString sha1 (ring.next x)) true = true ↔
      ring.successor key = ring.next x := by
  rw [between_hash_iff hkey, eq_comm, ring.next_eq_successor_iff hkey member company]
  constructor
  · intro closer
    exact lt_of_le_of_ne closer fun same => company (ring.cw_position_inj hkey ring.next_mem member same)
  · exact Nat.le_of_lt

theorem Links.notMine (links : Links ring x chord) (hkey : key < hashMod) (member : x ∈ ring.members)
    (other : ring.successor key ≠ x) :
    between (hashString sha1 chord.node.predecessor) key (hashString sha1 x) true = false := by
  rw [links.predecessor, Bool.eq_false_iff]
  exact fun mine => other ((between_previous_iff hkey member).mp mine)

theorem find_of_alone (noX : "X" ∉ ring.members) (links : Links ring x chord)
    (hkey : key < hashMod) (response : Response) (alone : ring.next x = x) :
    find sha1 chord key response = (.mySucc, ⟨true, x, hashString sha1 x⟩) := by
  obtain ⟨extra, listed⟩ := links.successors
  have notX : ring.next x ≠ "X" := ne_of_mem_of_not_mem ring.next_mem noX
  simp [find, listed, Ring.following, findAmong, links.identifier, between_hash_iff hkey, alone,
    alone ▸ notX]

/-- The owner of the key is nearer to it than its successor. -/
theorem find_of_owner (noX : "X" ∉ ring.members) (links : Links ring x chord)
    (hkey : key < hashMod) (member : x ∈ ring.members) (response : Response)
    (owner : ring.successor key = x) (other : ring.next x ≠ x) :
    find sha1 chord key response = (.iAmSucc, ⟨true, x, hashString sha1 x⟩) := by
  obtain ⟨extra, listed⟩ := links.successors
  have notX : ring.next x ≠ "X" := ne_of_mem_of_not_mem ring.next_mem noX
  have tested : past sha1 key x ≤ past sha1 key (ring.previous x) :=
    (ring.cw_le_previous_iff hkey member).mpr owner.symm
  have least : past sha1 key x ≤ past sha1 key (ring.next x) := owner ▸ ring.successor_le ring.next_mem
  have farther : ¬ past sha1 key (ring.next x) ≤ past sha1 key x := fun closer =>
    other (ring.cw_position_inj hkey ring.next_mem member (Nat.le_antisymm closer least))
  simp [find, listed, Ring.following, findAmong, if_neg notX, links.identifier, links.predecessor,
    links.nodeAddress, between_hash_iff hkey, farther, tested]

theorem find_of_listed (noX : "X" ∉ ring.members) (links : Links ring x chord)
    (hkey : key < hashMod) (member : x ∈ ring.members) (response : Response)
    (other : ring.successor key ≠ x) (among : ring.successor key ∈ chord.node.successors.toList) :
    find sha1 chord key response =
      (.mySucc, ⟨true, ring.successor key, hashString sha1 (ring.successor key)⟩) := by
  obtain ⟨extra, listed⟩ := links.successors
  rw [listed] at among
  have scanned := (findAmong_following noX links.identifier hkey member (links.notMine hkey member other) member
    (Nat.le_refl _) (extra + 1) []).1 among
  rw [List.append_nil] at scanned
  rw [find, listed, scanned]

theorem find_of_knows (noX : "X" ∉ ring.members) (links : Links ring x chord)
    (hkey : key < hashMod) (member : x ∈ ring.members) (response : Response)
    (knows : ring.successor key = x ∨ ring.successor key ∈ chord.node.successors.toList) :
    ∃ code, code ≠ RetCode.passAlong ∧ find sha1 chord key response =
      (code, ⟨true, ring.successor key, hashString sha1 (ring.successor key)⟩) := by
  by_cases owner : ring.successor key = x
  · rw [owner]
    by_cases alone : ring.next x = x
    · exact ⟨.mySucc, by decide, find_of_alone noX links hkey response alone⟩
    · exact ⟨.iAmSucc, by decide, find_of_owner noX links hkey member response owner alone⟩
  · exact ⟨.mySucc, by decide,
      find_of_listed noX links hkey member response owner (knows.resolve_left owner)⟩

/-- A node that does not know the owner asks its fingers. -/
theorem find_of_unknown (noX : "X" ∉ ring.members) (links : Links ring x chord)
    (hkey : key < hashMod) (member : x ∈ ring.members) (response : Response)
    (other : ring.successor key ≠ x) (unlisted : ring.successor key ∉ chord.node.successors.toList) :
    find sha1 chord key response = closestPreceedingNode chord key response := by
  obtain ⟨extra, listed⟩ := links.successors
  rw [listed] at unlisted
  have scanned := (findAmong_following noX links.identifier hkey member (links.notMine hkey member other) member
    (Nat.le_refl _) (extra + 1) []).2 unlisted
  rw [List.append_nil] at scanned
  rw [find, listed, scanned]
  rfl

/-- Short of half a circle no finger leads over the key. -/
theorem closestPreceedingFrom_of_low (stable : StableNode ring x chord) (hkey : key < hashMod)
    (low : past sha1 key x < halfway) (response : Response) {n : Nat} (upper : n ≤ keySize) :
    closestPreceedingFrom chord key response n = { response with nodeAddress := ring.next x } := by
  induction n with
  | zero => rw [closestPreceedingFrom, stable.links.first]
  | succ n ih =>
    have short := two_pow_le_halfway upper
    have double := hashMod_eq
    have notOver : ¬ hashMod ≤ past sha1 key x + 2 ^ (n + 1 - 1) := by omega
    rw [closestPreceedingFrom, stable.fingerTable (n + 1) (by omega) upper, stable.identifier]
    simp only [between_finger_iff hkey upper, if_neg notOver]
    exact ih (by omega)

theorem closestPreceedingFrom_of_high (stable : StableNode ring x chord) (hkey : key < hashMod)
    (high : halfway ≤ past sha1 key x) (response : Response) :
    closestPreceedingFrom chord key response keySize =
      { response with
        identifier := jumpIdentifier (hashString sha1 x) keySize
        nodeAddress := ring.successor (jumpIdentifier (hashString sha1 x) keySize) } := by
  have beyond : hashMod ≤ past sha1 key x + 2 ^ (keySize - 1) := by
    have double := hashMod_eq
    change hashMod ≤ past sha1 key x + halfway
    omega
  have finger := stable.fingerTable keySize (by decide) (Nat.le_refl _)
  have test := (between_finger_iff hkey (Nat.le_refl keySize) x).mpr beyond
  rw [← stable.identifier] at test
  change closestPreceedingFrom chord key response (159 + 1) = _
  rw [closestPreceedingFrom]
  change (if between chord.node.identifier key (chord.node.fingerTable keySize).identifier true then
    { response with
      identifier := (chord.node.fingerTable keySize).identifier
      nodeAddress := (chord.node.fingerTable keySize).nodeAddress } else _) = _
  rw [finger, if_pos (by simpa [stable.identifier] using test)]

theorem find_of_unaware (noX : "X" ∉ ring.members) (stable : StableNode ring x chord)
    (hkey : key < hashMod) (member : x ∈ ring.members) (response : Response)
    (other : ring.successor key ≠ x) (unlisted : ring.successor key ∉ chord.node.successors.toList) :
    ∃ identifier, find sha1 chord key response =
      (.passAlong, { response with identifier := identifier, nodeAddress := hop ring key x }) := by
  rw [find_of_unknown noX stable.links hkey member response other unlisted]
  simp only [closestPreceedingNode]
  by_cases high : halfway ≤ past sha1 key x
  · rw [closestPreceedingFrom_of_high stable hkey high, hop, if_pos high]
    exact ⟨_, rfl⟩
  · rw [closestPreceedingFrom_of_low stable hkey (by omega) response (Nat.le_refl _), hop, if_neg high]
    exact ⟨response.identifier, rfl⟩

end Find

/-- SHA-1 on a few strings. -/
def knownSha1 (text : String) : Nat :=
  match text with
  | "localhost:1234" => 0x53a33fa7cd5ee20ff113f1a124fbea4de6915fbd
  | "localhost:1235" => 0x8984ef7ce7f4630eb64fe87164048cd800274afe
  | "localhost:1236" => 0xa71e71d484312ec20f2e6b9cbd0e9ef988e85984
  | "localhost:1237" => 0xe8333d119d4de5f7fc0dc644149ddf10e1f097d1
  | "localhost:1238" => 0x8532d1b3c27dafc44f09c874d70fd360c7689214
  | "localhost:1241" => 0xca33e02663e295085e19b0848d4a72ce8d35cf6e
  | "a.txt" => 0xcfc7b4885384957ae445bc14914d4588f607651c
  | "d.txt" => 0x97e49c6f8f772dd4635dedb68dbf508e876a0ae3
  | _ => 0

def twoPorts : Ring knownSha1 where
  members := ["localhost:1234", "localhost:1235"]
  nonempty := by decide
  bounded := fun address _ => hashString_lt address
  distinct := by decide +kernel

end Tda596Labs.Chord
