import Tda596Labs.Lib.Transition
import Mathlib.Logic.Function.Iterate

/-! # Leases

A lease is a piece of work that one owner at a time is working on, until it is closed.  Owners are
numbered from 1, and an owner of 0 with a timer of 0 says that nobody has the lease.  The timer runs
while the lease is owned and open; a lease whose timer has passed a limit is available again, with its
owner still at work.
-/

namespace Tda596Labs

open Transition

structure Lease where
  owner : Nat
  timer : Nat
  closed : Bool
  deriving DecidableEq, Repr

namespace Lease

inductive Event where
  | take (owner : Nat)
  | close
  /-- the lease is given back, and opened again if it was closed -/
  | revoke
  /-- the lease is given back -/
  | release
  | tick
  | other
  deriving DecidableEq, Repr

def unowned : Lease := ⟨0, 0, false⟩

def available (limit : Nat) (lease : Lease) : Bool :=
  -- Neither test looks at `closed`.
  lease.timer > limit || (lease.owner = 0 && lease.timer = 0)

def tick (lease : Lease) : Lease :=
  if lease.timer > 0 && (lease.owner > 0 && !lease.closed) then { lease with timer := lease.timer + 1 }
  else lease

/-- The steps of a lease: it can be taken only when it is available. -/
def step (limit : Nat) (lease : Lease) : Event → Option Lease
  | .take owner => if lease.available limit then some ⟨owner, 1, lease.closed⟩ else none
  | .close => some { lease with closed := true }
  | .revoke => some unowned
  | .release => some ⟨0, 0, lease.closed⟩
  | .tick => some lease.tick
  | .other => some lease

variable {limit : Nat} {lease next : Lease} {e : Event}

@[simp] theorem tick_owner (lease : Lease) : lease.tick.owner = lease.owner := by
  unfold tick
  split <;> rfl

@[simp] theorem tick_closed (lease : Lease) : lease.tick.closed = lease.closed := by
  unfold tick
  split <;> rfl

theorem timer_le_tick (lease : Lease) : lease.timer ≤ lease.tick.timer := by
  unfold tick
  split
  · exact Nat.le_succ _
  · exact Nat.le_refl _

theorem tick_of_closed (closed : lease.closed = true) : lease.tick = lease := by simp [tick, closed]

theorem tick_timer_le (lease : Lease) : lease.tick.timer ≤ lease.timer + 1 := by
  unfold tick
  split
  · exact Nat.le_refl _
  · exact Nat.le_succ _

theorem available_iff : lease.available limit = true ↔
    limit < lease.timer ∨ lease.owner = 0 ∧ lease.timer = 0 := by
  simp [available]

theorem not_available_iff : lease.available limit = false ↔
    lease.timer ≤ limit ∧ (lease.owner = 0 → lease.timer ≠ 0) := by
  simp [available]

theorem take_eq_some {owner : Nat} (taken : step limit lease (.take owner) = some next) :
    lease.available limit = true ∧ next = ⟨owner, 1, lease.closed⟩ := by
  simp only [step, Option.ite_none_right_eq_some, Option.some.injEq] at taken
  exact ⟨taken.1, taken.2.symm⟩

/-! ## Owner and timer -/

/-- A lease has an owner and a running timer, or neither. -/
def Coupled (lease : Lease) : Prop := 0 < lease.owner ↔ 0 < lease.timer

theorem coupled_unowned : Coupled unowned := by simp [Coupled, unowned]

theorem Coupled.tick (coupled : Coupled lease) : Coupled lease.tick := by
  simp only [Coupled, tick_owner] at coupled ⊢
  unfold Lease.tick
  split
  · simp_all
  · exact coupled

theorem Coupled.step (coupled : Coupled lease) (named : ∀ owner, e = .take owner → 0 < owner)
    (moved : step limit lease e = some next) : Coupled next := by
  cases e with
  | take owner =>
    obtain ⟨_, rfl⟩ := take_eq_some moved
    have positive := named owner rfl
    simp [Coupled, positive]
  | revoke =>
    cases moved
    exact coupled_unowned
  | release =>
    cases moved
    simp [Coupled]
  | tick =>
    cases moved
    exact coupled.tick
  | close | other =>
    cases moved
    exact coupled

/-- The timer of an open lease that has an owner counts the ticks. -/
theorem tick_iterate (n : Nat) (owned : 0 < lease.owner) (running : 0 < lease.timer)
    (open_ : lease.closed = false) : Lease.tick^[n] lease = { lease with timer := lease.timer + n } := by
  induction n with
  | zero => rfl
  | succ n ih =>
    rw [Function.iterate_succ_apply', ih]
    simp [tick, owned, open_, Nat.add_assoc, Nat.add_pos_left running]

theorem tick_iterate_of_stopped (n : Nat) (stopped : lease.timer = 0) : Lease.tick^[n] lease = lease := by
  induction n with
  | zero => rfl
  | succ n ih =>
    rw [Function.iterate_succ_apply', ih]
    simp [tick, stopped]

@[simp] theorem tick_iterate_closed (n : Nat) (lease : Lease) :
    (Lease.tick^[n] lease).closed = lease.closed := by
  induction n with
  | zero => rfl
  | succ n ih => rw [Function.iterate_succ_apply', tick_closed, ih]

/-- After enough ticks every open lease is available. -/
theorem available_of_ticks {n : Nat} (coupled : Coupled lease) (open_ : lease.closed = false)
    (enough : limit ≤ n) : (Lease.tick^[n] lease).available limit = true := by
  rw [available_iff]
  by_cases running : 0 < lease.timer
  · rw [tick_iterate n (coupled.mpr running) running open_]
    left
    show limit < lease.timer + n
    omega
  · have stopped : lease.timer = 0 := by omega
    rw [tick_iterate_of_stopped n stopped]
    right
    have unowned := mt coupled.mp running
    omega

/-- Only a revocation opens a closed lease. -/
theorem closed_step (kept : e ≠ .revoke) (moved : step limit lease e = some next)
    (closed : lease.closed = true) : next.closed = true := by
  cases e with
  | take owner =>
    obtain ⟨_, rfl⟩ := take_eq_some moved
    exact closed
  | close =>
    cases moved
    rfl
  | revoke => exact absurd rfl kept
  | tick =>
    cases moved
    rwa [tick_closed]
  | release | other =>
    cases moved
    exact closed

/-- Only closing closes a lease. -/
theorem closed_of_step (kept : e ≠ .close) (moved : step limit lease e = some next)
    (closed : next.closed = true) : lease.closed = true := by
  cases e with
  | take owner =>
    obtain ⟨_, rfl⟩ := take_eq_some moved
    exact closed
  | close => exact absurd rfl kept
  | revoke =>
    cases moved
    cases closed
  | tick =>
    cases moved
    rwa [tick_closed] at closed
  | release | other =>
    cases moved
    exact closed

/-! ## From one owner to the next -/

/-- The event leaves the lease with its owner. -/
def Event.keeps : Event → Bool
  | close | tick | other => true
  | take _ | revoke | release => false

/-- The number of ticks in a run. -/
def ticks (taken : List (Taken Lease Event)) : Nat := taken.countP fun τ => τ.event = .tick

@[simp] theorem ticks_append (taken later : List (Taken Lease Event)) :
    ticks (taken ++ later) = ticks taken + ticks later := List.countP_append

variable {a b : Lease} {taken : List (Taken Lease Event)}

/-- While a lease stays with its owner, the timer does not run faster than the ticks. -/
theorem timer_le_ticks (run : Run (step limit) a taken b)
    (keeps : AllMeet (fun _ e => e.keeps = true) taken) :
    b.owner = a.owner ∧ b.timer ≤ a.timer + ticks taken := by
  induction run with
  | nil => exact ⟨rfl, Nat.le_add_right _ _⟩
  | @snoc taken s t e _ moved ih =>
    obtain ⟨sameOwner, bound⟩ := ih keeps.earlier
    have kept := keeps.last
    rw [ticks_append]
    cases e with
    | tick =>
      cases moved
      have slow := tick_timer_le s
      have one : ticks [⟨s, .tick, s.tick⟩] = 1 := rfl
      exact ⟨by rw [tick_owner, sameOwner], by omega⟩
    | close | other =>
      cases moved
      exact ⟨sameOwner, Nat.le_trans bound (by omega)⟩
    | take | revoke | release => cases kept

/-- A lease that is available again has been given back by its owner, or the limit has passed. -/
theorem limit_le_ticks (run : Run (step limit) a taken b) (owned : 0 < a.owner) (fresh : a.timer = 1)
    (again : b.available limit = true) :
    limit ≤ ticks taken ∨ ∃ τ ∈ taken, τ.event.keeps = false ∧ τ.before.owner = a.owner := by
  by_cases lost : 0 < taken.countP fun τ => !τ.event.keeps
  · -- up to the first event that takes the lease away its owner is the same
    right
    obtain ⟨before, τ, after, rfl, loses, kept⟩ := exists_first lost
    obtain ⟨middle, first, rest⟩ := run.split
    obtain ⟨rfl, _, _⟩ := rest.uncons
    refine ⟨τ, by simp, by simpa using loses, ?_⟩
    exact (timer_le_ticks first fun τ member => by simpa using kept τ member).1
  · -- nothing has, so only the timer can have made it available
    have keeps : AllMeet (fun _ e => e.keeps = true) taken := by
      simpa [AllMeet, List.countP_pos_iff] using lost
    obtain ⟨sameOwner, bound⟩ := timer_le_ticks run keeps
    obtain late | ⟨nobody, _⟩ := available_iff.mp again
    · left
      omega
    · omega

/-- A lease that stays with its owner and is closed before the limit passes stays unavailable. -/
theorem timer_le_limit (run : Run (step limit) a taken b) (fresh : a.timer = 1) (room : 0 < limit)
    (keeps : AllMeet (fun _ e => e.keeps = true) taken)
    (inTime : ∀ before after, taken = before ++ after → limit ≤ ticks before →
      ∃ τ ∈ before, τ.event = .close) :
    b.timer ≤ limit ∧ (b.closed = false → b.timer ≤ 1 + ticks taken ∧ ∀ τ ∈ taken, τ.event ≠ .close) := by
  -- An open lease has seen no `close`, so fewer ticks than the limit; closing stops the timer.
  induction run with
  | nil =>
    constructor
    · omega
    · intro _
      exact ⟨by omega, nofun⟩
  | @snoc taken s t e _ moved ih =>
    obtain ⟨bound, ifOpen⟩ := ih keeps.earlier fun before after whole =>
      inTime before (after ++ [⟨s, e, t⟩]) (by rw [whole, List.append_assoc])
    have kept := keeps.last
    rw [ticks_append]
    cases e with
    | tick =>
      cases moved
      by_cases closed : s.closed = true
      · rw [tick_of_closed closed]
        exact ⟨bound, by simp [closed]⟩
      · obtain ⟨slow, unclosed⟩ := ifOpen (by simpa using closed)
        have one : ticks [⟨s, .tick, s.tick⟩] = 1 := rfl
        have step := tick_timer_le s
        have never : ∀ τ ∈ taken ++ [⟨s, .tick, s.tick⟩], τ.event ≠ .close := by
          intro τ member
          obtain earlier | last := List.mem_append.mp member
          · exact unclosed τ earlier
          · rw [List.mem_singleton.mp last]
            simp
        have early : ¬ limit ≤ ticks (taken ++ [⟨s, .tick, s.tick⟩]) := by
          intro late
          obtain ⟨τ, member, close⟩ := inTime _ [] (List.append_nil _).symm late
          exact never τ member close
        rw [ticks_append] at early
        exact ⟨by omega, fun _ => ⟨by omega, never⟩⟩
    | close =>
      cases moved
      exact ⟨bound, by simp⟩
    | other =>
      cases moved
      refine ⟨bound, fun open_ => ?_⟩
      obtain ⟨slow, unclosed⟩ := ifOpen open_
      refine ⟨by omega, fun τ member => ?_⟩
      obtain earlier | last := List.mem_append.mp member
      · exact unclosed τ earlier
      · rw [List.mem_singleton.mp last]
        simp
    | take | revoke | release => cases kept

/-! ## Closed leases -/

/-- A lease is closed only while it is not available, and given back only while it is open. -/
def prompt (limit : Nat) (lease : Lease) : Event → Bool
  | .close => !lease.available limit
  | .release => !lease.closed
  | _ => true

/-- The lease is not both closed and available. -/
def Settled (limit : Nat) (lease : Lease) : Prop := lease.closed = true → lease.available limit = false

theorem Settled.step (settled : Settled limit lease) (room : 0 < limit)
    (inTime : lease.prompt limit e = true) (moved : step limit lease e = some next) :
    Settled limit next := by
  intro closed
  cases e with
  | take owner =>
    obtain ⟨_, rfl⟩ := take_eq_some moved
    rw [not_available_iff]
    exact ⟨room, by simp⟩
  | close =>
    cases moved
    simp only [prompt, Bool.not_eq_true'] at inTime
    exact inTime
  | revoke =>
    cases moved
    cases closed
  | release =>
    cases moved
    simp only [prompt, Bool.not_eq_true'] at inTime
    rw [inTime] at closed
    cases closed
  | tick =>
    cases moved
    rw [tick_closed] at closed
    rw [tick_of_closed closed]
    exact settled closed
  | other =>
    cases moved
    exact settled closed

end Lease

end Tda596Labs
