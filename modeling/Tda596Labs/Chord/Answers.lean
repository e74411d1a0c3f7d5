import Tda596Labs.Chord.Lookup

/-! # What find answers

`find` goes through `Successors` and tests at every entry whether the key lies before it, and whether the
key lies between the predecessor and the node.  With the right predecessor and the right successors an
answer is right, whatever the fingers are.  The marker `"X"` breaks this in two ways: at any place in
`Successors` it is taken for the sign that the node is alone, and in place of the predecessor it is
hashed like an address.
-/

namespace Tda596Labs.Chord

open Tda596Labs.Circle

section Answers

variable {sha1 : String → Nat} {ring : Ring sha1} {x : NodeAddress} {chord : Chord} {key : Nat}

/-- What `find` answers when it does not pass the question along is the owner of the key. -/
theorem find_right_of_links (noX : "X" ∉ ring.members) (links : Links ring x chord)
    (member : x ∈ ring.members) (hkey : key < hashMod) (response : Response)
    (answers : (find sha1 chord key response).1 ≠ .passAlong) :
    (find sha1 chord key response).2.isSuccessor = true ∧
      (find sha1 chord key response).2.nodeAddress = ring.successor key ∧
      (find sha1 chord key response).2.identifier = hashString sha1 (ring.successor key) := by
  by_cases knows : ring.successor key = x ∨ ring.successor key ∈ chord.node.successors.toList
  · obtain ⟨code, _, result⟩ := find_of_knows noX links hkey member response knows
    rw [result]
    exact ⟨rfl, rfl, rfl⟩
  · obtain ⟨other, unlisted⟩ := not_or.mp knows
    rw [find_of_unknown noX links hkey member response other unlisted] at answers
    exact absurd rfl answers

/-- `localhost:1236` finds `a.txt` before its first successor. -/
theorem find_right_at_1236 :
    (find knownSha1 (settledChord fourNodes 1 "localhost:1236") (hashString knownSha1 "a.txt") .zero).1 ≠
        .passAlong ∧
      (find knownSha1 (settledChord fourNodes 1 "localhost:1236") (hashString knownSha1 "a.txt")
        .zero).2.nodeAddress = fourNodes.successor (hashString knownSha1 "a.txt") := by
  have answers : (find knownSha1 (settledChord fourNodes 1 "localhost:1236")
      (hashString knownSha1 "a.txt") .zero).1 ≠ .passAlong := by decide +kernel
  have links := (settledChord_stable fourNodes 1 "localhost:1236").links
  exact ⟨answers, (find_right_of_links (by decide) links (by decide) (hashString_lt _) .zero answers).2.1⟩

/-! ## Unknown neighbours -/

/-- The known successors are the right ones, and `"X"` stands for the others; the predecessor is right or
unknown. -/
structure Degraded (ring : Ring sha1) (address : NodeAddress) (known unknown : Nat) (chord : Chord) : Prop where
  nodeAddress : chord.node.nodeAddress = address
  identifier : chord.node.identifier = hashString sha1 address
  predecessor : chord.node.predecessor = ring.previous address ∨ chord.node.predecessor = "X"
  successors : chord.node.successors.toList =
    ring.following address (known + 1) ++ List.replicate unknown "X"

/-- The hash of the marker makes the node take the key for its own. -/
def Misled (sha1 : String → Nat) (chord : Chord) (key : Nat) : Prop :=
  chord.node.predecessor = "X" ∧ between (hashString sha1 "X") key chord.node.identifier true = true

variable {known unknown : Nat}

theorem Degraded.listed (degraded : Degraded ring x known unknown chord) :
    ∀ a ∈ chord.node.successors.toList, a = "X" ∨ a ∈ ring.members := by
  intro a inside
  rw [degraded.successors] at inside
  obtain right | marker := List.mem_append.mp inside
  · exact .inr (ring.mem_of_mem_following right)
  · exact .inl (List.eq_of_mem_replicate marker)

theorem find_of_found {code : RetCode} {answer : Response} (response : Response)
    (found : findAmong sha1 chord key chord.node.successors.toList = some (code, answer)) :
    find sha1 chord key response = (code, answer) := by
  rw [find, found]

theorem find_of_none (response : Response)
    (missing : findAmong sha1 chord key chord.node.successors.toList = none) :
    (find sha1 chord key response).1 = .passAlong := by
  rw [find, missing]
  rfl

/-- Every answer of the owner is the owner. -/
theorem findAmong_of_owner (nodeAddress : chord.node.nodeAddress = x)
    (identifier : chord.node.identifier = hashString sha1 x) (hkey : key < hashMod) (member : x ∈ ring.members)
    (owner : ring.successor key = x) {list : List NodeAddress} (listed : ∀ a ∈ list, a = "X" ∨ a ∈ ring.members)
    {code : RetCode} {answer : Response} (found : findAmong sha1 chord key list = some (code, answer)) :
    answer.nodeAddress = x := by
  induction list with
  | nil => cases found
  | cons succ later ih =>
    rw [findAmong] at found
    split at found
    · cases found
      exact nodeAddress
    · next notX =>
      split at found
      · next closer =>
        -- no other node is as close to the key
        cases found
        have inRing := (listed succ List.mem_cons_self).resolve_left notX
        rw [identifier, between_hash_iff hkey] at closer
        have least : past sha1 key x ≤ past sha1 key succ := owner ▸ ring.successor_le inRing
        exact ring.cw_position_inj hkey inRing member (Nat.le_antisymm closer least)
      · split at found
        · cases found
          exact nodeAddress
        · exact ih (fun a inside => listed a (List.mem_cons_of_mem _ inside)) found

/-- A node takes itself for the owner wrongly only if it is misled. -/
theorem Degraded.mine_iff (degraded : Degraded ring x known unknown chord) (hkey : key < hashMod)
    (member : x ∈ ring.members) (other : ring.successor key ≠ x) :
    between (hashString sha1 chord.node.predecessor) key chord.node.identifier true = true ↔
      Misled sha1 chord key := by
  constructor
  · intro mine
    obtain right | isX := degraded.predecessor
    · rw [right, degraded.identifier, between_previous_iff hkey member] at mine
      exact absurd mine other
    · exact ⟨isX, isX ▸ mine⟩
  · intro ⟨isX, mine⟩
    rw [isX]
    exact mine

/-- The first entry of the list decides for a misled node. -/
theorem Degraded.findAmong_of_misled (noX : "X" ∉ ring.members)
    (degraded : Degraded ring x known unknown chord) (hkey : key < hashMod) (member : x ∈ ring.members)
    (company : ring.next x ≠ x) (other : ring.successor key ≠ x) (notNext : ring.successor key ≠ ring.next x)
    (misled : Misled sha1 chord key) :
    findAmong sha1 chord key chord.node.successors.toList =
      some (.iAmSucc, ⟨true, x, hashString sha1 x⟩) := by
  have notX : ring.next x ≠ "X" := ne_of_mem_of_not_mem ring.next_mem noX
  have notCloser : ¬ between chord.node.identifier key (hashString sha1 (ring.next x)) true = true := by
    rw [degraded.identifier, between_next_iff hkey member company]
    exact notNext
  have mine := (degraded.mine_iff hkey member other).mpr misled
  rw [degraded.successors, Ring.following, List.cons_append, findAmong, if_neg notX, if_neg notCloser,
    if_pos mine, degraded.nodeAddress, degraded.identifier]

/-- A node that is not misled goes through the known successors and then meets a marker or the end. -/
theorem Degraded.findAmong_of_not_misled (noX : "X" ∉ ring.members)
    (degraded : Degraded ring x known unknown chord) (hkey : key < hashMod) (member : x ∈ ring.members)
    (other : ring.successor key ≠ x) (notMisled : ¬ Misled sha1 chord key) :
    (ring.successor key ∈ ring.following x (known + 1) →
      findAmong sha1 chord key chord.node.successors.toList =
        some (.mySucc, ⟨true, ring.successor key, hashString sha1 (ring.successor key)⟩)) ∧
    (ring.successor key ∉ ring.following x (known + 1) →
      findAmong sha1 chord key chord.node.successors.toList =
        if unknown = 0 then none else some (.soloNode, ⟨true, x, hashString sha1 x⟩)) := by
  have notMine : between (hashString sha1 chord.node.predecessor) key (hashString sha1 x) true = false := by
    rw [← degraded.identifier, Bool.eq_false_iff, ne_eq, degraded.mine_iff hkey member other]
    exact notMisled
  rw [degraded.successors]
  have scanned := findAmong_following noX degraded.identifier hkey member notMine member (Nat.le_refl _)
    (known + 1) (List.replicate unknown "X")
  refine ⟨scanned.1, fun unlisted => (scanned.2 unlisted).trans ?_⟩
  cases unknown with
  | zero => rfl
  | succ unknown =>
    simp [List.replicate_succ, findAmong, degraded.nodeAddress, degraded.identifier]

/-- With unknown neighbours, what `find` answers is the owner of the key if and only if the owner is the
node or its first successor, or the node is not misled and either knows the owner or meets no marker. -/
theorem find_right_iff_degraded (two : 2 ≤ ring.members.length) (noX : "X" ∉ ring.members)
    (degraded : Degraded ring x known unknown chord) (member : x ∈ ring.members) (hkey : key < hashMod)
    (response : Response) :
    ((find sha1 chord key response).1 ≠ .passAlong →
      (find sha1 chord key response).2.nodeAddress = ring.successor key) ↔
    (ring.successor key = x ∨ ring.successor key = ring.next x ∨
      (¬ Misled sha1 chord key ∧ (ring.successor key ∈ ring.following x (known + 1) ∨ unknown = 0))) := by
  have company := ring.next_ne two member
  by_cases owner : ring.successor key = x
  · refine iff_of_true (fun answers => ?_) (.inl owner)
    cases found : findAmong sha1 chord key chord.node.successors.toList with
    | none => exact absurd (find_of_none response found) answers
    | some result =>
      rw [find_of_found response found, owner]
      exact findAmong_of_owner degraded.nodeAddress degraded.identifier hkey member owner degraded.listed found
  · by_cases isNext : ring.successor key = ring.next x
    · refine iff_of_true (fun _ => ?_) (.inr (.inl isNext))
      have notX : ring.next x ≠ "X" := ne_of_mem_of_not_mem ring.next_mem noX
      have closer := (between_next_iff hkey member company).mpr isNext
      rw [← degraded.identifier] at closer
      rw [find, degraded.successors, Ring.following, List.cons_append, findAmong, if_neg notX, if_pos closer]
      exact isNext.symm
    · by_cases misled : Misled sha1 chord key
      · have found := degraded.findAmong_of_misled noX hkey member company owner isNext misled
        rw [find_of_found response found]
        simpa [owner, isNext, misled] using Ne.symm owner
      · have scanned := degraded.findAmong_of_not_misled noX hkey member owner misled
        by_cases among : ring.successor key ∈ ring.following x (known + 1)
        · rw [find_of_found response (scanned.1 among)]
          simp [misled, among]
        · have found := scanned.2 among
          by_cases none_ : unknown = 0
          · rw [if_pos none_] at found
            simp [find_of_none response found, misled, none_]
          · rw [if_neg none_] at found
            rw [find_of_found response found]
            simpa [owner, isNext, among, none_] using Ne.symm owner

end Answers

/-- A node of the ring that knows the first of two successors only. -/
def shortSighted (address : NodeAddress) : Chord :=
  let chord := settledChord fourNodes 0 address
  { chord with node := { chord.node with successors := ⟨fourNodes.next address, ["X"]⟩ } }

theorem shortSighted_degraded (address : NodeAddress) :
    Degraded fourNodes address 0 1 (shortSighted address) where
  nodeAddress := rfl
  identifier := rfl
  predecessor := .inl rfl
  successors := rfl

/-- `localhost:1236` knows the owner of `a.txt`. -/
theorem find_right_at_short_sighted :
    (find knownSha1 (shortSighted "localhost:1236") (hashString knownSha1 "a.txt") .zero).1 ≠ .passAlong ∧
      (find knownSha1 (shortSighted "localhost:1236") (hashString knownSha1 "a.txt") .zero).2.nodeAddress =
        fourNodes.successor (hashString knownSha1 "a.txt") := by
  have answers : (find knownSha1 (shortSighted "localhost:1236") (hashString knownSha1 "a.txt") .zero).1 ≠
      .passAlong := by decide +kernel
  have isNext : fourNodes.successor (hashString knownSha1 "a.txt") = fourNodes.next "localhost:1236" := by
    decide +kernel
  exact ⟨answers, (find_right_iff_degraded (by decide) (by decide) (shortSighted_degraded "localhost:1236")
    (by decide) (hashString_lt _) .zero).mpr (.inr (.inl isNext)) answers⟩

/-- `localhost:1235` meets the marker behind its first successor and takes itself for the owner of `a.txt`,
which is `localhost:1237`. -/
theorem find_answers_itself_at_marker :
    ¬ ∀ (sha1 : String → Nat) (ring : Ring sha1) (x : NodeAddress) (known unknown : Nat) (chord : Chord)
      (key : Nat) (response : Response), 2 ≤ ring.members.length → "X" ∉ ring.members → x ∈ ring.members →
      Degraded ring x known unknown chord →
      (0 < unknown ∧ chord.node.predecessor = ring.previous x) ∨
        (unknown = 0 ∧ chord.node.predecessor = "X") →
      key < hashMod → (find sha1 chord key response).1 ≠ .passAlong →
      (find sha1 chord key response).2.nodeAddress = ring.successor key := by
  intro always
  have right := always knownSha1 fourNodes "localhost:1235" 0 1 (shortSighted "localhost:1235")
    (hashString knownSha1 "a.txt") .zero (by decide) (by decide) (by decide)
    (shortSighted_degraded "localhost:1235") (.inl ⟨by decide, rfl⟩) (hashString_lt _) (by decide +kernel)
  revert right
  decide +kernel

end Tda596Labs.Chord
