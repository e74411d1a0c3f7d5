import Mathlib.Data.List.Basic

/-! # Bit sets

The checker keeps the set of linearized operations in words of 64 bits.  `Represents` says which set of
numbers the words stand for; `set` and `clear` then insert and remove a number, and two bit sets of the same
size are equal, and so have the same hash, exactly if they stand for the same set.
-/

namespace Tda596Labs.Porcupine

/-- Bits 0-63 are in the first word, the next are in the second one, and so on. -/
structure Bitset where
  words : List (BitVec 64)
  deriving DecidableEq, Repr

def chunks (bits : Nat) : Nat :=
  let extra := if bits % 64 ≠ 0 then 1 else 0
  bits / 64 + extra

def newBitset (bits : Nat) : Bitset := ⟨List.replicate (chunks bits) 0⟩

def bitsetIndex (pos : Nat) : Nat × Nat := (pos / 64, pos % 64)

namespace Bitset

/-- One word of a bit set is changed; `none`: the index is out of range. -/
def modify (b : Bitset) (pos : Nat) (change : BitVec 64 → BitVec 64 → BitVec 64) : Option Bitset :=
  let (major, minor) := bitsetIndex pos
  (b.words[major]?).map fun word => ⟨b.words.set major (change word (1#64 <<< minor))⟩

/-- `set`; `clone` before it is not needed, as this changes a copy. -/
def set (b : Bitset) (pos : Nat) : Option Bitset := b.modify pos fun word bit => word ||| bit

def clear (b : Bitset) (pos : Nat) : Option Bitset := b.modify pos fun word bit => word &&& ~~~bit

def get (b : Bitset) (pos : Nat) : Option Bool :=
  let (major, minor) := bitsetIndex pos
  (b.words[major]?).map fun word => word &&& (1#64 <<< minor) ≠ 0

/-- `bits.OnesCount64` -/
def onesCount64 (word : BitVec 64) : Nat := (List.range 64).countP word.getLsbD

def popcnt (b : Bitset) : Nat := b.words.foldl (fun total v => total + onesCount64 v) 0

def hash (b : Bitset) : BitVec 64 := b.words.foldl (· ^^^ ·) (BitVec.ofNat 64 b.popcnt)

def equals (b b2 : Bitset) : Bool :=
  if b.words.length ≠ b2.words.length then false
  else (b.words.zip b2.words).all fun pair => pair.1 = pair.2

end Bitset

/-! ## The set that the words stand for -/

namespace Bitset

variable {b : Bitset} {pos other bits : Nat}

/-- The word with one bit. -/
theorem getLsbD_bit {minor : Nat} (small : minor < 64) (i : Nat) :
    (1#64 <<< minor).getLsbD i = decide (i = minor) := by
  rw [← BitVec.twoPow_eq, BitVec.getLsbD_twoPow]
  simp [small, eq_comm]

theorem get_eq (b : Bitset) (pos : Nat) :
    b.get pos = (b.words[pos / 64]?).map fun word => word.getLsbD (pos % 64) := by
  have small : pos % 64 < 64 := Nat.mod_lt _ (by decide)
  unfold get bitsetIndex
  refine congrFun (congrArg Option.map (funext fun word => ?_)) _
  rw [Bool.eq_iff_iff, decide_eq_true_eq]
  constructor
  · intro nonzero
    by_contra unset
    rw [Bool.not_eq_true] at unset
    refine nonzero (BitVec.eq_of_getLsbD_eq fun i within => ?_)
    rw [BitVec.getLsbD_and, getLsbD_bit small]
    by_cases here : i = pos % 64 <;> simp [here, unset]
  · intro bit zero
    have read := congrArg (fun word => word.getLsbD (pos % 64)) zero
    simp [BitVec.getLsbD_and, getLsbD_bit small, bit] at read

theorem modify_isSome (change : BitVec 64 → BitVec 64 → BitVec 64) (within : pos / 64 < b.words.length) :
    ∃ b', b.modify pos change = some b' ∧ b'.words.length = b.words.length := by
  simp [modify, bitsetIndex, List.getElem?_eq_getElem within]

/-- Changing a word at one bit changes only this member. -/
theorem get_modify {b' : Bitset} {change : BitVec 64 → BitVec 64 → BitVec 64} {value : Bool}
    (modified : b.modify pos change = some b')
    (changes : ∀ word : BitVec 64, ∀ minor < 64, ∀ i < 64,
      (change word (1#64 <<< minor)).getLsbD i = if i = minor then value else word.getLsbD i) :
    b'.get other = if other = pos then some value else b.get other := by
  simp only [modify, bitsetIndex] at modified
  obtain ⟨word, found, rfl⟩ := Option.map_eq_some_iff.mp modified
  obtain ⟨within, rfl⟩ := List.getElem?_eq_some_iff.mp found
  have minor : pos % 64 < 64 := Nat.mod_lt _ (by decide)
  have minor' : other % 64 < 64 := Nat.mod_lt _ (by decide)
  rw [get_eq, get_eq]
  by_cases same : other / 64 = pos / 64
  · have agree : other % 64 = pos % 64 ↔ other = pos := by omega
    simp only [same, List.getElem?_set_self within, Option.map_some, List.getElem?_eq_getElem within,
      changes _ _ minor _ minor', agree]
    split <;> rfl
  · have different : other ≠ pos := fun equal => same (by rw [equal])
    simp [List.getElem?_set_ne (Ne.symm same), different]

theorem get_set {b' : Bitset} (done : b.set pos = some b') :
    b'.get other = if other = pos then some true else b.get other := by
  refine get_modify done fun word minor small i _ => ?_
  rw [BitVec.getLsbD_or, getLsbD_bit small]
  by_cases here : i = minor <;> simp [here]

theorem get_clear {b' : Bitset} (done : b.clear pos = some b') :
    b'.get other = if other = pos then some false else b.get other := by
  refine get_modify done fun word minor small i within => ?_
  rw [BitVec.getLsbD_and, BitVec.getLsbD_not, getLsbD_bit small]
  by_cases here : i = minor <;> simp [here, within]

/-- The words have room for `bits` bits and stand for the numbers of a list. -/
structure Represents (b : Bitset) (bits : Nat) (members : List Nat) : Prop where
  length : b.words.length = chunks bits
  get : ∀ pos < 64 * chunks bits, b.get pos = some (decide (pos ∈ members))

theorem lt_chunks (within : pos < bits) : pos < 64 * chunks bits := by
  unfold chunks
  dsimp only
  split <;> omega

theorem represents_new (bits : Nat) : (newBitset bits).Represents bits [] where
  length := List.length_replicate
  get pos within := by
    have word : pos / 64 < chunks bits := by omega
    rw [get_eq, newBitset, List.getElem?_replicate_of_lt word]
    simp

variable {members : List Nat}

theorem Represents.set (represents : b.Represents bits members) (within : pos < bits) :
    ∃ b', b.set pos = some b' ∧ b'.Represents bits (members ++ [pos]) := by
  have room := lt_chunks within
  obtain ⟨b', done, length⟩ := modify_isSome (b := b) (fun word bit => word ||| bit)
    (show pos / 64 < b.words.length by rw [represents.length]; omega)
  refine ⟨b', done, length.trans represents.length, fun other inside => ?_⟩
  rw [get_set done, represents.get other inside]
  by_cases same : other = pos <;> simp [same]

theorem Represents.clear (represents : b.Represents bits (members ++ [pos])) (fresh : pos ∉ members)
    (within : pos < bits) : ∃ b', b.clear pos = some b' ∧ b'.Represents bits members := by
  have room := lt_chunks within
  obtain ⟨b', done, length⟩ := modify_isSome (b := b) (fun word bit => word &&& ~~~bit)
    (show pos / 64 < b.words.length by rw [represents.length]; omega)
  refine ⟨b', done, length.trans represents.length, fun other inside => ?_⟩
  rw [get_clear done, represents.get other inside]
  by_cases same : other = pos <;> simp [same, fresh]

theorem equals_iff {b2 : Bitset} : b.equals b2 = true ↔ b = b2 := by
  obtain ⟨words⟩ := b
  obtain ⟨words2⟩ := b2
  simp only [equals, mk.injEq]
  induction words generalizing words2 with
  | nil => cases words2 <;> simp
  | cons word words ih =>
    cases words2 with
    | nil => simp
    | cons word2 words2 =>
      have rest := ih words2
      by_cases lengths : words.length = words2.length
      · simp_all
      · simp only [lengths, ne_eq, not_false_eq_true, if_true, Bool.false_eq_true, false_iff] at rest
        simp [lengths, rest]

theorem ext_get {b2 : Bitset} (length : b.words.length = b2.words.length)
    (same : ∀ pos < 64 * b.words.length, b.get pos = b2.get pos) : b = b2 := by
  obtain ⟨words⟩ := b
  obtain ⟨words2⟩ := b2
  refine congrArg mk (List.ext_getElem length fun i within within2 => ?_)
  apply BitVec.eq_of_getLsbD_eq
  intro j small
  have bit := same (64 * i + j) (by dsimp only at within ⊢; omega)
  rw [get_eq, get_eq] at bit
  have major : (64 * i + j) / 64 = i := by omega
  have minor : (64 * i + j) % 64 = j := by omega
  simpa [major, minor, List.getElem?_eq_getElem within, List.getElem?_eq_getElem within2] using bit

/-- Bit sets of one size are equal exactly if they stand for the same members. -/
theorem Represents.equals_iff {b2 : Bitset} {members2 : List Nat} (represents : b.Represents bits members)
    (represents2 : b2.Represents bits members2) (within : ∀ pos ∈ members, pos < bits)
    (within2 : ∀ pos ∈ members2, pos < bits) :
    b.equals b2 = true ↔ ∀ pos, pos ∈ members ↔ pos ∈ members2 := by
  rw [Bitset.equals_iff]
  constructor
  · rintro rfl pos
    by_cases inside : pos < 64 * chunks bits
    · have both := (represents.get pos inside).symm.trans (represents2.get pos inside)
      simpa using both
    · refine iff_of_false (fun listed => inside (lt_chunks (within pos listed))) fun listed => ?_
      exact inside (lt_chunks (within2 pos listed))
  · intro same
    refine ext_get (represents.length.trans represents2.length.symm) fun pos inside => ?_
    rw [represents.length] at inside
    rw [represents.get pos inside, represents2.get pos inside]
    simp only [same pos]

end Bitset

end Tda596Labs.Porcupine
