import Tda596Labs.Lib.Transition
import Tda596Labs.Porcupine.Operations

/-! # Checking the partitions of a history in parallel

`checkParallel` starts a goroutine for every partition and collects their results from a channel.  It stops
at the first `false` unless partial results are wanted, and at a timeout; both raise the flag that makes the
other goroutines give up.  Results that come after the flag was raised may be wrong, but they are not looked
at.  So in whatever order the goroutines finish, `Illegal` and `Ok` are right, `Unknown` comes only from a
timeout, and without one `checkParallel` comes to its end, provided that there is a partition at all.
-/

namespace Tda596Labs.Porcupine

open Transition

inductive CheckResult where
  | unknown
  | ok
  | illegal
  deriving DecidableEq, Repr

/-- How far `checkParallel` has got; a panic in one of its goroutines ends the program. -/
inductive Stage where
  | looping
  | draining
  | returned
  | crashed
  deriving DecidableEq, Repr

structure Parallel where
  /-- the partitions whose goroutines have not finished -/
  running : List Nat
  /-- the channel -/
  results : List Bool
  ok : Bool
  timedOut : Bool
  kill : Bool
  count : Nat
  stage : Stage
  deriving DecidableEq, Repr

inductive ParallelEvent where
  /-- the goroutine of a partition finishes; it has read the flag raised from some iteration on, or never -/
  | finish (i : Nat) (raisedAt : Option Nat) (fuel : Nat)
  | receive
  | timeout
  deriving DecidableEq, Repr

/-- What the iterations of a goroutine read of the flag. -/
def readFlag (raisedAt : Option Nat) (t : Nat) : Bool := raisedAt.any fun start => start ≤ t

namespace Parallel

variable {V S : Type} [Inhabited V] (model : Model V S) (history : List (List (Entry V)))
  (computeInfo timed : Bool)

def start : Parallel := ⟨List.range history.length, [], true, false, false, 0, .looping⟩

/-- `break loop`: with partial results the other goroutines are waited for. -/
def leaveLoop (s : Parallel) : Parallel :=
  { s with stage := if computeInfo = true ∧ s.count < history.length then .draining else .returned }

def finish (s : Parallel) (i : Nat) (raisedAt : Option Nat) (fuel : Nat) : Option Parallel :=
  if i ∈ s.running ∧ (raisedAt.isSome = true → s.kill = true) ∧ s.stage ≠ .crashed then
    match (history[i]?).bind fun subhistory =>
        checkSingle model subhistory computeInfo (readFlag raisedAt) fuel with
    | some (.returns ok _) => some { s with running := s.running.erase i, results := s.results ++ [ok] }
    | some .crash => some { s with stage := .crashed }
    | none => none
  else none

/-- A result that came in the loop. -/
def collect (s : Parallel) (result : Bool) (rest : List Bool) : Parallel :=
  let s := { s with results := rest, count := s.count + 1, ok := s.ok && result }
  if s.ok = false ∧ computeInfo = false then leaveLoop history computeInfo { s with kill := true }
  else if history.length ≤ s.count then leaveLoop history computeInfo s
  else s

/-- A result that is only waited for. -/
def discard (s : Parallel) (rest : List Bool) : Parallel :=
  let s := { s with results := rest, count := s.count + 1 }
  if s.count < history.length then s else { s with stage := .returned }

def step (s : Parallel) : ParallelEvent → Option Parallel
  | .finish i raisedAt fuel => s.finish model history computeInfo i raisedAt fuel
  | .receive =>
    match s.stage, s.results with
    | .looping, result :: rest => some (s.collect history computeInfo result rest)
    | .draining, _ :: rest => some (s.discard history rest)
    | _, _ => none
  | .timeout =>
    if timed = true ∧ s.stage = .looping then
      some (leaveLoop history computeInfo { s with timedOut := true, kill := true })
    else none

/-- What `checkParallel` returns. -/
def result (s : Parallel) : CheckResult :=
  if s.ok = false then .illegal else if s.timedOut then .unknown else .ok

end Parallel

/-! ## Results of goroutines -/

section Fuel

variable {V S : Type}

/-- More fuel does not change a verdict. -/
theorem Search.loop_mono {model : Model V S} {computePartial : Bool} {kill : Nat → Bool} {fuel t : Nat}
    {m : Search V S} {verdict : Verdict} (done : m.loop model computePartial kill fuel t = some verdict)
    (more : Nat) : m.loop model computePartial kill (fuel + more) t = some verdict := by
  induction fuel generalizing m t with
  | zero => cases done
  | succ fuel ih =>
    rw [Nat.add_right_comm]
    rw [Search.loop] at done ⊢
    cases iterates : m.iterate model computePartial (kill t) with
    | next m' =>
      rw [iterates] at done
      exact ih done
    | returns ok longest =>
      rw [iterates] at done
      exact done
    | crash =>
      rw [iterates] at done
      exact done

theorem checkSingle_mono [Inhabited V] {model : Model V S} {entries : List (Entry V)} {computePartial : Bool}
    {kill : Nat → Bool} {fuel : Nat} {verdict : Verdict}
    (done : checkSingle model entries computePartial kill fuel = some verdict) (more : Nat) :
    checkSingle model entries computePartial kill (fuel + more) = some verdict := by
  unfold checkSingle at done ⊢
  split
  · next crashed =>
    rw [crashed] at done
    exact done
  · next m started =>
    rw [started] at done
    exact Search.loop_mono done more

end Fuel

/-- `checkSingle` decides a question about each partition. -/
def Decides {V S : Type} [Inhabited V] (model : Model V S) (history : List (List (Entry V)))
    (computeInfo : Bool) (holds : Nat → Prop) : Prop :=
  ∀ i subhistory, history[i]? = some subhistory → Decided model subhistory computeInfo (holds i)

namespace Parallel

variable {V S : Type} {model : Model V S} {history : List (List (Entry V))}
  {computeInfo timed : Bool} {holds : Nat → Prop} {s t : Parallel}

section Finish

variable [Inhabited V]

theorem readFlag_none (t : Nat) : readFlag none t = false := rfl

/-- Whatever a goroutine comes to is a result, and a right one unless the flag was raised. -/
theorem finish_eq_some (decides : Decides model history computeInfo holds) {i fuel : Nat}
    {raisedAt : Option Nat} (finishes : s.finish model history computeInfo i raisedAt fuel = some t) :
    i ∈ s.running ∧ ∃ ok, t = { s with running := s.running.erase i, results := s.results ++ [ok] } ∧
      (s.kill = false → (ok = true ↔ holds i)) := by
  unfold finish at finishes
  split at finishes
  · next allowed =>
    refine ⟨allowed.1, ?_⟩
    cases found : history[i]? with
    | none => simp [found] at finishes
    | some subhistory =>
      rw [found, Option.bind_some] at finishes
      obtain ⟨enough, ok, longest, returns, sound, complete⟩ :=
        decides i subhistory found (readFlag raisedAt)
      cases done : checkSingle model subhistory computeInfo (readFlag raisedAt) fuel with
      | none => simp [done] at finishes
      | some verdict =>
        have same : verdict = .returns ok longest := by
          have first := checkSingle_mono done enough
          have second := returns fuel
          rw [Nat.add_comm] at second
          exact Option.some.inj (first.symm.trans second)
        subst same
        rw [done] at finishes
        refine ⟨ok, (Option.some.inj finishes).symm, fun unraised => ⟨sound, fun holds => complete holds ?_⟩⟩
        have never : raisedAt = none := by
          cases raisedAt with
          | none => rfl
          | some start => exact absurd (allowed.2.1 rfl) (by simp [unraised])
        subst never
        exact readFlag_none
  · cases finishes

theorem finish_enabled (decides : Decides model history computeInfo holds) {i : Nat} (running : i ∈ s.running)
    (small : i < history.length) (alive : s.stage ≠ .crashed) :
    ∃ fuel t, s.finish model history computeInfo i none fuel = some t := by
  obtain ⟨fuel, ok, longest, returns, _⟩ :=
    decides i _ (List.getElem?_eq_getElem small) (readFlag none)
  have done := returns 0
  rw [Nat.add_zero] at done
  refine ⟨fuel, { s with running := s.running.erase i, results := s.results ++ [ok] }, ?_⟩
  simp [finish, running, alive, List.getElem?_eq_getElem small, done]

end Finish

theorem result_eq_ok : s.result = .ok ↔ s.ok = true ∧ s.timedOut = false := by
  unfold result
  cases s.ok <;> cases s.timedOut <;> simp

theorem result_eq_illegal : s.result = .illegal ↔ s.ok = false := by
  unfold result
  cases s.ok <;> cases s.timedOut <;> simp

theorem result_eq_unknown : s.result = .unknown ↔ s.ok = true ∧ s.timedOut = true := by
  unfold result
  cases s.ok <;> cases s.timedOut <;> simp

/-! ## What is known of the results -/

/-- The results that came and those in the channel are the answers for as many partitions. -/
structure Tally (history : List (List (Entry V))) (holds : Nat → Prop) (s : Parallel)
    (received queued : List Nat) : Prop where
  perm : (received ++ queued ++ s.running).Perm (List.range history.length)
  queued : List.Forall₂ (fun i ok => ok = true ↔ holds i) queued s.results
  count : s.count = received.length
  ok : s.ok = true ↔ ∀ i ∈ received, holds i

/-- The loop is left with a right result. -/
structure Settled (history : List (List (Entry V))) (holds : Nat → Prop) (s : Parallel) : Prop where
  ok : s.ok = true → s.timedOut = true ∨ ∀ i < history.length, holds i
  illegal : s.ok = false → ∃ i < history.length, ¬ holds i

structure Inv (history : List (List (Entry V))) (holds : Nat → Prop) (timed : Bool) (s : Parallel) : Prop where
  alive : s.stage ≠ .crashed
  running : ∀ i ∈ s.running, i < history.length
  size : s.running.length + s.results.length + s.count = history.length
  timedOut : s.timedOut = true → timed = true
  looping : s.stage = .looping → s.kill = false ∧ s.timedOut = false ∧
    (history ≠ [] → s.count < history.length) ∧ ∃ received queued, Tally history holds s received queued
  draining : s.stage = .draining → s.count < history.length
  settled : s.stage ≠ .looping → Settled history holds s

theorem start_inv : Inv history holds timed (start history) where
  alive := nofun
  running i inside := by simpa [start] using inside
  size := by simp [start]
  timedOut := nofun
  looping _ := ⟨rfl, rfl, fun some_ => List.length_pos_iff.mpr some_,
    [], [], by simp [start], .nil, rfl, by simp [start]⟩
  draining := nofun
  settled notLooping := absurd rfl notLooping

theorem leaveLoop_inv {s : Parallel} (running : ∀ i ∈ s.running, i < history.length)
    (size : s.running.length + s.results.length + s.count = history.length)
    (timedOut : s.timedOut = true → timed = true) (settled : Settled history holds s) :
    Inv history holds timed (leaveLoop history computeInfo s) where
  alive := by
    unfold leaveLoop
    dsimp only
    split <;> exact nofun
  running := running
  size := size
  timedOut := timedOut
  looping looping := by
    unfold leaveLoop at looping
    dsimp only at looping
    split at looping <;> cases looping
  draining draining := by
    unfold leaveLoop at draining
    dsimp only at draining
    split at draining
    · next waits => exact waits.2
    · cases draining
  settled _ := ⟨settled.ok, settled.illegal⟩

/-- The tally after the oldest result in the channel has been received. -/
theorem Tally.receive {received queued : List Nat} {result : Bool} {rest : List Bool}
    (tally : Tally history holds s received queued) (results : s.results = result :: rest) :
    ∃ i queued', queued = i :: queued' ∧ (result = true ↔ holds i) ∧
      Tally history holds
        { s with results := rest, count := s.count + 1, ok := s.ok && result } (received ++ [i]) queued' := by
  have matched := tally.queued
  rw [results] at matched
  cases matched with
  | @cons i _ queued' _ answer others =>
    refine ⟨i, queued', rfl, answer, ?_, others, ?_, ?_⟩
    · have perm := tally.perm
      simp only [List.append_assoc, List.cons_append, List.nil_append] at perm ⊢
      exact perm
    · rw [List.length_append, ← tally.count]
      rfl
    · simp only [Bool.and_eq_true, tally.ok, answer, List.mem_append, List.mem_singleton]
      constructor
      · rintro ⟨all, last⟩ j (early | rfl)
        · exact all j early
        · exact last
      · exact fun all => ⟨fun j early => all j (.inl early), all i (.inr rfl)⟩

/-- All results are in. -/
theorem Tally.settled_of_all {received queued : List Nat} (tally : Tally history holds s received queued)
    (all : history.length ≤ s.count) : Settled history holds s := by
  have lengths := tally.perm.length_eq
  simp only [List.length_append, List.length_range, ← tally.count] at lengths
  have nothing : queued = [] ∧ s.running = [] :=
    ⟨List.eq_nil_of_length_eq_zero (by omega), List.eq_nil_of_length_eq_zero (by omega)⟩
  have perm := tally.perm
  rw [nothing.1, nothing.2, List.append_nil, List.append_nil] at perm
  have mem : ∀ i, i ∈ received ↔ i < history.length := fun i => perm.mem_iff.trans List.mem_range
  constructor
  · exact fun ok => .inr fun i small => tally.ok.mp ok i ((mem i).mpr small)
  · intro illegal
    by_contra none_
    push Not at none_
    exact absurd (tally.ok.mpr fun i inside => none_ i ((mem i).mp inside)) (by simp [illegal])

/-- A `false` has been received. -/
theorem Tally.settled_of_false {received queued : List Nat} (tally : Tally history holds s received queued)
    (illegal : s.ok = false) : Settled history holds s := by
  refine ⟨fun ok => absurd ok (by simp [illegal]), fun _ => ?_⟩
  by_contra none_
  push Not at none_
  refine absurd (tally.ok.mpr fun i inside => none_ i ?_) (by simp [illegal])
  exact List.mem_range.mp (tally.perm.mem_iff.mp (by simp [inside]))

theorem collect_inv (inv : Inv history holds timed s) (looping : s.stage = .looping) {result : Bool}
    {rest : List Bool} (results : s.results = result :: rest) :
    Inv history holds timed (s.collect history computeInfo result rest) := by
  obtain ⟨kill, timedOut, _, received, queued, tally⟩ := inv.looping looping
  obtain ⟨i, queued', _, _, tally'⟩ := tally.receive results
  have size := inv.size
  rw [results, List.length_cons] at size
  have size' : s.running.length + rest.length + (s.count + 1) = history.length := by omega
  unfold collect
  dsimp only
  split
  · next stops =>
    have settled := tally'.settled_of_false stops.1
    exact leaveLoop_inv inv.running size' inv.timedOut ⟨settled.ok, settled.illegal⟩
  · split
    · next all => exact leaveLoop_inv inv.running size' inv.timedOut (tally'.settled_of_all all)
    · next more =>
      exact ⟨inv.alive, inv.running, size', inv.timedOut,
        fun _ => ⟨kill, timedOut, fun _ => Nat.lt_of_not_le more, _, _, tally'⟩,
        fun draining => absurd (looping.symm.trans draining) (by simp), fun other => absurd looping other⟩

theorem discard_inv (inv : Inv history holds timed s) (draining : s.stage = .draining) {result : Bool}
    {rest : List Bool} (results : s.results = result :: rest) :
    Inv history holds timed (s.discard history rest) := by
  have settled := inv.settled (by simp [draining])
  have size := inv.size
  rw [results, List.length_cons] at size
  have size' : s.running.length + rest.length + (s.count + 1) = history.length := by omega
  unfold discard
  dsimp only
  split
  · next more =>
    exact ⟨inv.alive, inv.running, size', inv.timedOut,
      fun looping => absurd (draining.symm.trans looping) (by simp), fun _ => more,
      fun _ => ⟨settled.ok, settled.illegal⟩⟩
  · exact ⟨nofun, inv.running, size', inv.timedOut, nofun, nofun, fun _ => ⟨settled.ok, settled.illegal⟩⟩

variable [Inhabited V]

theorem finish_inv (decides : Decides model history computeInfo holds) (inv : Inv history holds timed s)
    {i fuel : Nat} {raisedAt : Option Nat}
    (finishes : s.finish model history computeInfo i raisedAt fuel = some t) :
    Inv history holds timed t := by
  obtain ⟨running, ok, rfl, right⟩ := finish_eq_some decides finishes
  have erased := List.length_erase_add_one running
  refine ⟨inv.alive, fun j inside => inv.running j (List.mem_of_mem_erase inside), ?_, inv.timedOut, ?_,
    inv.draining, fun other => ⟨(inv.settled other).ok, (inv.settled other).illegal⟩⟩
  · have size := inv.size
    simp only [List.length_append, List.length_singleton]
    omega
  · intro looping
    obtain ⟨kill, timedOut, more, received, queued, tally⟩ := inv.looping looping
    refine ⟨kill, timedOut, more, received, queued ++ [i], ?_, ?_, tally.count, tally.ok⟩
    · have perm := tally.perm
      simp only [List.append_assoc, List.singleton_append] at perm ⊢
      exact (((List.perm_cons_erase running).symm.append_left queued).append_left received).trans perm
    · exact List.rel_append tally.queued (.cons (right kill) .nil)

theorem step_inv (decides : Decides model history computeInfo holds) {e : ParallelEvent}
    (inv : Inv history holds timed s) (moved : step model history computeInfo timed s e = some t) :
    Inv history holds timed t := by
  cases e with
  | finish i raisedAt fuel => exact finish_inv decides inv moved
  | receive =>
    simp only [step] at moved
    split at moved
    · next looping results =>
      obtain rfl := Option.some.inj moved
      exact collect_inv inv looping results
    · next draining results =>
      obtain rfl := Option.some.inj moved
      exact discard_inv inv draining results
    · cases moved
  | timeout =>
    simp only [step] at moved
    split at moved
    · next allowed =>
      obtain rfl := Option.some.inj moved
      obtain ⟨_, _, _, received, queued, tally⟩ := inv.looping allowed.2
      refine leaveLoop_inv inv.running inv.size (fun _ => allowed.1) ⟨fun _ => .inl rfl, fun illegal => ?_⟩
      exact (tally.settled_of_false illegal).illegal illegal
    · cases moved

theorem inv_of_run (decides : Decides model history computeInfo holds)
    {taken : List (Taken Parallel ParallelEvent)}
    (run : Run (step model history computeInfo timed) (start history) taken s) :
    Inv history holds timed s := by
  have all : AllMeet (fun _ _ => True) taken := fun _ _ => trivial
  exact run.invariant all start_inv fun _ _ _ inv _ moved => step_inv decides inv moved

/-- What is returned is right. -/
theorem sound_of_run (decides : Decides model history computeInfo holds)
    {taken : List (Taken Parallel ParallelEvent)}
    (run : Run (step model history computeInfo timed) (start history) taken s) (returned : s.stage = .returned) :
    (s.result = .ok → ∀ i < history.length, holds i) ∧
      (s.result = .illegal → ¬ ∀ i < history.length, holds i) ∧ (s.result = .unknown → timed = true) := by
  have inv := inv_of_run decides run
  have settled := inv.settled (by simp [returned])
  refine ⟨fun ok => ?_, fun illegal all => ?_, fun unknown => ?_⟩
  · obtain ⟨right, inTime⟩ := result_eq_ok.mp ok
    exact (settled.ok right).resolve_left (by simp [inTime])
  · obtain ⟨i, small, wrong⟩ := settled.illegal (result_eq_illegal.mp illegal)
    exact wrong (all i small)
  · exact inv.timedOut (result_eq_unknown.mp unknown).2

/-! ## Coming to the end -/

/-- Results to be made, results to be received, and the timeout. -/
def budget (s : Parallel) : Nat :=
  2 * s.running.length + s.results.length + if s.stage = .looping then 1 else 0

omit [Inhabited V] in
theorem leaveLoop_stage : (leaveLoop history computeInfo s).stage ≠ .looping := by
  unfold leaveLoop
  dsimp only
  split <;> exact nofun

omit [Inhabited V] in
theorem budget_leaveLoop :
    budget (leaveLoop history computeInfo s) = 2 * s.running.length + s.results.length := by
  rw [budget, if_neg leaveLoop_stage]
  rfl

omit [Inhabited V] in
theorem budget_collect (looping : s.stage = .looping) {result : Bool} {rest : List Bool}
    (results : s.results = result :: rest) : budget (s.collect history computeInfo result rest) < budget s := by
  rw [show budget s = 2 * s.running.length + (rest.length + 1) + 1 by simp [budget, looping, results]]
  unfold collect
  dsimp only
  split
  · rw [budget_leaveLoop]
    dsimp only
    omega
  · split
    · rw [budget_leaveLoop]
      dsimp only
      omega
    · simp [budget, looping]

omit [Inhabited V] in
theorem budget_discard (draining : s.stage = .draining) {result : Bool} {rest : List Bool}
    (results : s.results = result :: rest) : budget (s.discard history rest) < budget s := by
  unfold discard
  dsimp only
  split <;> simp [budget, draining, results]

theorem step_budget (decides : Decides model history computeInfo holds) {e : ParallelEvent}
    (moved : step model history computeInfo timed s e = some t) : budget t < budget s := by
  cases e with
  | finish i raisedAt fuel =>
    obtain ⟨inside, ok, rfl, _⟩ := finish_eq_some decides moved
    have erased := List.length_erase_add_one inside
    simp only [budget, List.length_append, List.length_singleton]
    omega
  | receive =>
    simp only [step] at moved
    split at moved
    · next looping results =>
      obtain rfl := Option.some.inj moved
      exact budget_collect looping results
    · next draining results =>
      obtain rfl := Option.some.inj moved
      exact budget_discard draining results
    · cases moved
  | timeout =>
    simp only [step] at moved
    split at moved
    · next allowed =>
      obtain rfl := Option.some.inj moved
      rw [budget_leaveLoop]
      simp [budget, allowed.2]
    · cases moved

/-- As long as `checkParallel` has not returned, a goroutine can finish or a result can be received. -/
theorem exists_step (decides : Decides model history computeInfo holds) (inv : Inv history holds timed s)
    (some_ : history ≠ []) (pending : s.stage ≠ .returned) :
    ∃ e t, step model history computeInfo timed s e = some t := by
  have more : s.count < history.length := by
    cases stage : s.stage with
    | looping => exact (inv.looping stage).2.2.1 some_
    | draining => exact inv.draining stage
    | returned => exact absurd stage pending
    | crashed => exact absurd stage inv.alive
  cases results : s.results with
  | nil =>
    have size := inv.size
    rw [results, List.length_nil] at size
    obtain ⟨i, others, running⟩ := List.exists_cons_of_length_pos (show 0 < s.running.length by omega)
    have inside : i ∈ s.running := by simp [running]
    obtain ⟨fuel, t, finishes⟩ := finish_enabled decides inside (inv.running i inside) inv.alive
    exact ⟨.finish i none fuel, t, finishes⟩
  | cons result rest =>
    cases stage : s.stage with
    | looping => exact ⟨.receive, s.collect history computeInfo result rest, by simp [step, stage, results]⟩
    | draining => exact ⟨.receive, s.discard history rest, by simp [step, stage, results]⟩
    | returned => exact absurd stage pending
    | crashed => exact absurd stage inv.alive

theorem length_le_of_run (decides : Decides model history computeInfo holds)
    {taken : List (Taken Parallel ParallelEvent)}
    (run : Run (step model history computeInfo timed) (start history) taken s) :
    taken.length ≤ 2 * history.length + 1 := by
  have lowers := run.length_le budget (trivial : True) fun _ _ _ _ moved =>
    ⟨trivial, step_budget decides moved⟩
  have atStart : budget (start history) = 2 * history.length + 1 := by simp [budget, start]
  omega

theorem step_eq_none_of_idle (running : s.running = []) (quiet : s.results = [] ∨ s.stage = .returned)
    (inTime : timed = false ∨ s.stage = .returned) (e : ParallelEvent) :
    step model history computeInfo timed s e = none := by
  cases e with
  | finish i raisedAt fuel => simp [step, finish, running]
  | receive =>
    obtain empty | returned := quiet
    · cases stage : s.stage <;> simp [step, empty, stage]
    · simp [step, returned]
  | timeout =>
    obtain untimed | returned := inTime
    · simp [step, untimed]
    · simp [step, returned]

/-- `checkParallel` stops when it has returned and all its goroutines have finished.  With no partition there
is no result to wait for, and only a timeout ends the loop. -/
theorem forall_step_eq_none_iff (decides : Decides model history computeInfo holds)
    (inv : Inv history holds timed s) :
    (∀ e, step model history computeInfo timed s e = none) ↔
      (s.stage = .returned ∧ s.running = []) ∨ (history = [] ∧ timed = false) := by
  constructor
  · intro stuck
    have finished : s.running = [] := by
      refine List.eq_nil_iff_forall_not_mem.mpr fun i inside => ?_
      obtain ⟨fuel, t, finishes⟩ := finish_enabled decides inside (inv.running i inside) inv.alive
      exact absurd (stuck (.finish i none fuel)) (by simp [step, finishes])
    by_cases returned : s.stage = .returned
    · exact .inl ⟨returned, finished⟩
    · have nothing : history = [] := by
        by_contra some_
        obtain ⟨e, t, moved⟩ := exists_step decides inv some_ returned
        simp [stuck e] at moved
      refine .inr ⟨nothing, ?_⟩
      cases stage : s.stage with
      | looping => simpa [step, stage] using stuck .timeout
      | draining => exact absurd (inv.draining stage) (by simp [nothing])
      | returned => exact absurd stage returned
      | crashed => exact absurd stage inv.alive
  · rintro (⟨returned, finished⟩ | ⟨nothing, untimed⟩) e
    · exact step_eq_none_of_idle finished (.inr returned) (.inr returned) e
    · have size := inv.size
      rw [nothing, List.length_nil] at size
      exact step_eq_none_of_idle (List.eq_nil_of_length_eq_zero (by omega))
        (.inl (List.eq_nil_of_length_eq_zero (by omega))) (.inl untimed) e

end Parallel

/-! ## CheckOperations -/

section Operations

variable {V S : Type} [Inhabited V]

/-- The entries of the partitions of a history, as `checkOperations` hands them to `checkParallel`. -/
def entriesOf (sort : List (Entry V) → List (Entry V)) (partitions : List (List (Operation V))) :
    List (List (Entry V)) :=
  partitions.map (makeEntries sort)

/-- A partition can be linearized. -/
def LinearizesAt (model : Model V S) (partitions : List (List (Operation V))) (i : Nat) : Prop :=
  ∃ subhistory, partitions[i]? = some subhistory ∧ model.Linearizes subhistory

theorem decides_operations {model : Model V S} (congruent : model.Congruent)
    {sort : List (Entry V) → List (Entry V)} (sorts : Sorts sort) {partitions : List (List (Operation V))}
    (timely : ∀ subhistory ∈ partitions, ∀ op ∈ subhistory, op.call ≤ op.ret) (computeInfo : Bool) :
    Decides model (entriesOf sort partitions) computeInfo (LinearizesAt model partitions) := by
  intro i entries found
  rw [entriesOf, List.getElem?_map, Option.map_eq_some_iff] at found
  obtain ⟨subhistory, found, rfl⟩ := found
  have timely' := timely subhistory (List.mem_of_getElem? found)
  have exact_ : LinearizesAt model partitions i ↔ model.Linearizes subhistory := by
    simp [LinearizesAt, found]
  rw [exact_, ← linearizes_iff_problemOf sorts timely' congruent computeInfo]
  exact checkSingle_decides congruent computeInfo (wellFormed_makeEntries sorts timely')
    (carries_makeEntries sorts)

omit [Inhabited V] in
theorem forall_linearizesAt {model : Model V S} {sort : List (Entry V) → List (Entry V)}
    {partitions : List (List (Operation V))} :
    (∀ i < (entriesOf sort partitions).length, LinearizesAt model partitions i) ↔
      ∀ subhistory ∈ partitions, model.Linearizes subhistory := by
  rw [entriesOf, List.length_map]
  constructor
  · intro all subhistory inside
    obtain ⟨i, small, found⟩ := List.getElem_of_mem inside
    obtain ⟨_, found', linear⟩ := all i small
    rw [List.getElem?_eq_getElem small, found] at found'
    exact Option.some.inj found' ▸ linear
  · exact fun all i small => ⟨_, List.getElem?_eq_getElem small, all _ (List.getElem_mem small)⟩

/-- Whatever `checkOperations` returns is right, in whatever order its goroutines finish: it does not panic,
`Ok` means that every partition is linearizable, `Illegal` that some partition is not, also after a timeout,
and `Unknown` comes from a timeout only. -/
theorem checkOperations_sound {model : Model V S} (congruent : model.Congruent)
    {sort : List (Entry V) → List (Entry V)} (sorts : Sorts sort) {partitions : List (List (Operation V))}
    (timely : ∀ subhistory ∈ partitions, ∀ op ∈ subhistory, op.call ≤ op.ret) {verbose timed : Bool}
    {taken : List (Taken Parallel ParallelEvent)} {s : Parallel}
    (run : Run (Parallel.step model (entriesOf sort partitions) verbose timed)
      (Parallel.start (entriesOf sort partitions)) taken s) :
    s.stage ≠ .crashed ∧
      (s.stage = .returned →
        (s.result = .ok → ∀ subhistory ∈ partitions, model.Linearizes subhistory) ∧
        (s.result = .illegal → ∃ subhistory ∈ partitions, ¬ model.Linearizes subhistory) ∧
        (s.result = .unknown → timed = true)) := by
  have decides := decides_operations congruent sorts timely verbose
  refine ⟨(Parallel.inv_of_run decides run).alive, fun returned => ?_⟩
  have sound := Parallel.sound_of_run decides run returned
  rw [forall_linearizesAt] at sound
  push Not at sound
  exact sound

/-- `checkOperations` comes to its end: every run is bounded, and it can go on until it has returned.  The one
exception is a history without partitions, for which only a timeout ends the loop. -/
theorem checkOperations_returns {model : Model V S} (congruent : model.Congruent)
    {sort : List (Entry V) → List (Entry V)} (sorts : Sorts sort) {partitions : List (List (Operation V))}
    (timely : ∀ subhistory ∈ partitions, ∀ op ∈ subhistory, op.call ≤ op.ret) {verbose timed : Bool}
    {taken : List (Taken Parallel ParallelEvent)} {s : Parallel}
    (run : Run (Parallel.step model (entriesOf sort partitions) verbose timed)
      (Parallel.start (entriesOf sort partitions)) taken s) :
    taken.length ≤ 2 * partitions.length + 1 ∧
      ((∀ e, Parallel.step model (entriesOf sort partitions) verbose timed s e = none) ↔
        (s.stage = .returned ∧ s.running = []) ∨ (partitions = [] ∧ timed = false)) := by
  have decides := decides_operations congruent sorts timely verbose
  have bound := Parallel.length_le_of_run decides run
  have stops := Parallel.forall_step_eq_none_iff decides (Parallel.inv_of_run decides run)
  simp only [entriesOf, List.length_map, List.map_eq_nil_iff] at bound stops
  exact ⟨bound, stops⟩

/-- The reads of two registers: the first history cannot be linearized. -/
def twoRegisters : List (List (Operation Nat)) := [newThenOld, [⟨7, 0, 0, 1⟩, ⟨0, 2, 7, 3⟩]]

/-- The second register is checked first; the flag is never raised while results are awaited. -/
def secondFirst : List ParallelEvent := [.finish 1 none 20, .receive, .finish 0 none 40, .receive]

/-- The state of a check of `twoRegisters` after some events. -/
def twoRegistersAfter (events : List ParallelEvent) : Parallel :=
  outcome (Parallel.step register (entriesOf sortByTime twoRegisters) false true)
    (Parallel.start (entriesOf sortByTime twoRegisters)) events

theorem twoRegisters_illegal :
    (twoRegistersAfter secondFirst).stage = .returned ∧ (twoRegistersAfter secondFirst).result = .illegal ∧
      ∃ subhistory ∈ twoRegisters, ¬ register.Linearizes subhistory := by
  have returned : (twoRegistersAfter secondFirst).stage = .returned := by decide +kernel
  have illegal : (twoRegistersAfter secondFirst).result = .illegal := by decide +kernel
  have sound := checkOperations_sound register_congruent sortByTime_sorts (by decide) (run_trace
    (Parallel.step register (entriesOf sortByTime twoRegisters) false true) _ secondFirst)
  exact ⟨returned, illegal, (sound.2 returned).2.1 illegal⟩

theorem twoRegisters_stops :
    (trace (Parallel.step register (entriesOf sortByTime twoRegisters) false true)
      (Parallel.start (entriesOf sortByTime twoRegisters)) secondFirst).length ≤ 5 ∧
    ∀ e, Parallel.step register (entriesOf sortByTime twoRegisters) false true
      (twoRegistersAfter secondFirst) e = none := by
  have returns := checkOperations_returns register_congruent sortByTime_sorts (by decide) (run_trace
    (Parallel.step register (entriesOf sortByTime twoRegisters) false true) _ secondFirst)
  exact ⟨returns.1, returns.2.mpr (.inl (by decide +kernel))⟩

end Operations

end Tda596Labs.Porcupine
