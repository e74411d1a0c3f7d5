import Mathlib.Data.Int.Order.Basic
import Mathlib.Tactic.Common

/-! # A gate with a limited number of places

One keeper lets guests in and counts them; guests leave on their own.  When all places are taken the
keeper parks on a condition variable, and a guest that leaves signals it only if it makes the first
place free.  Everything the keeper and a guest do with the count is done under one lock, so each of
the functions below is one step.

`Sound` is the invariant: the count is the number of guests, it never exceeds the capacity, and a
parked keeper that nobody has signalled is at a full gate.
-/

namespace Tda596Labs

/-- Where the keeper stands. -/
inductive Keeper where
  /-- nobody wants to enter -/
  | away
  /-- somebody wants to enter, and the lock is about to be taken -/
  | arriving
  /-- in `Wait`, not signalled -/
  | parked
  /-- in `Wait`, signalled, and the lock is about to be taken again -/
  | signalled
  deriving DecidableEq, Repr

/-- `Signal`: it wakes a parked keeper and is lost on any other. -/
def Keeper.signal : Keeper → Keeper
  | parked => signalled
  | keeper => keeper

structure Gate where
  count : Int
  keeper : Keeper
  deriving DecidableEq, Repr

/-- What the keeper finds when it has the lock. -/
inductive Passage where
  | parks
  | admits
  | overflows
  deriving DecidableEq, Repr

namespace Gate

def empty : Gate := ⟨0, .away⟩

def arrive (gate : Gate) : Gate := { gate with keeper := .arriving }

/-- The keeper waits while the count is exactly the capacity, and checks the new count once more. -/
def passage (capacity : Int) (gate : Gate) : Passage :=
  if gate.count = capacity then .parks
  else if gate.count + 1 > capacity then .overflows
  else .admits

def park (gate : Gate) : Gate := { gate with keeper := .parked }

def enter (gate : Gate) : Gate := ⟨gate.count + 1, .away⟩

/-- A guest leaves. -/
def leave (capacity : Int) (gate : Gate) : Gate where
  count := gate.count - 1
  keeper := if gate.count - 1 = capacity - 1 then gate.keeper.signal else gate.keeper

@[simp] theorem arrive_count (gate : Gate) : gate.arrive.count = gate.count := rfl
@[simp] theorem park_count (gate : Gate) : gate.park.count = gate.count := rfl
@[simp] theorem enter_count (gate : Gate) : gate.enter.count = gate.count + 1 := rfl
@[simp] theorem leave_count (capacity : Int) (gate : Gate) :
    (gate.leave capacity).count = gate.count - 1 := rfl

theorem signal_ne_parked (keeper : Keeper) : keeper.signal ≠ .parked := by
  cases keeper <;> simp [Keeper.signal]

/-- The gate counts `guests` guests. -/
structure Sound (capacity : Int) (guests : Nat) (gate : Gate) : Prop where
  count : gate.count = guests
  bound : gate.count ≤ capacity
  full : gate.keeper = .parked → gate.count = capacity

variable {capacity : Int} {guests : Nat} {gate : Gate}

theorem sound_empty (room : 0 ≤ capacity) : Sound capacity 0 empty where
  count := by simp [empty]
  bound := room
  full := by simp [empty]

theorem Sound.arrive (sound : Sound capacity guests gate) : Sound capacity guests gate.arrive where
  count := by simp [sound.count]
  bound := by simpa using sound.bound
  full := by simp [Gate.arrive]

theorem Sound.not_overflows (sound : Sound capacity guests gate) :
    gate.passage capacity ≠ .overflows := by
  have bound := sound.bound
  unfold passage
  split_ifs with full room
  · simp
  · omega
  · simp

theorem Sound.park (sound : Sound capacity guests gate) (parks : gate.passage capacity = .parks) :
    Sound capacity guests gate.park where
  count := by simp [sound.count]
  bound := by simpa using sound.bound
  full := by
    intro _
    show gate.count = capacity
    by_contra room
    simp only [passage, if_neg room] at parks
    split at parks <;> cases parks

theorem Sound.enter (sound : Sound capacity guests gate) (admits : gate.passage capacity = .admits) :
    Sound capacity (guests + 1) gate.enter where
  count := by simp [sound.count]
  bound := by
    show gate.count + 1 ≤ capacity
    by_contra tooMany
    simp only [passage, if_pos (not_le.mp tooMany)] at admits
    split at admits <;> cases admits
  full := by simp [Gate.enter]

/-- No wakeup is lost: the guest that frees the first place finds the keeper parked and signals it. -/
theorem Sound.leave (sound : Sound capacity (guests + 1) gate) :
    Sound capacity guests (gate.leave capacity) where
  count := by
    have count := sound.count
    simp only [leave_count]
    omega
  bound := by
    have bound := sound.bound
    simp only [leave_count]
    omega
  full := by
    intro parked
    simp only [Gate.leave] at parked
    split at parked
    · exact absurd parked (signal_ne_parked _)
    · next later =>
      -- a keeper that is parked and was not signalled now had parked at a full gate
      have full := sound.full parked
      omega

end Gate

end Tda596Labs
