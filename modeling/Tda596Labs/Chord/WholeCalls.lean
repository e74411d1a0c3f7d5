import Tda596Labs.Chord.Deadlock

/-! # Periodic tasks with nothing in between

What a periodic task does when no other goroutine moves before it ends.  The task is played step by step:
a request is handled at once if its target is running and fails otherwise, and what the task starts with
`go` waits.  The network runs such a call in this way and in no other (`wholeCall_completes`).
-/

namespace Tda596Labs.Chord

open Transition

section Whole

variable (sha1 : String → Nat) (me : NodeAddress)

/-- The next step of a goroutine of node `me`. -/
def advance (phase : Phase) (nodes : NodeAddress → Option Chord) :
    Option (Phase × (NodeAddress → Option Chord)) :=
  match phase.awaits with
  | some target =>
    match nodes target with
    | some chord =>
      (serve sha1 .good me chord phase).map fun (changed, next) =>
        (next, Function.update nodes target (some changed))
    | none => phase.failed.map fun next => (next, nodes)
  | none =>
    (nodes (phase.site me)).bind fun chord =>
      (proceed sha1 .good chord phase).map fun (changed, next, _) =>
        (next, Function.update nodes (phase.site me) (some changed))

/-- A goroutine of node `me` goes on to its end, for at most `fuel` steps. -/
def goOn : Nat → Phase → (NodeAddress → Option Chord) → Option (NodeAddress → Option Chord)
  | _, .finished, nodes => some nodes
  | 0, _, _ => none
  | fuel + 1, phase, nodes =>
    (advance sha1 me phase nodes).bind fun (next, changed) => goOn fuel next changed

/-- A task of node `me` from its first step to its end.  `none`: its process ends with an index out of
range, or `fuel` was not enough. -/
def wholeCall (first : Chord → Chord × Phase) (fuel : Nat) (nodes : NodeAddress → Option Chord) :
    Option (NodeAddress → Option Chord) :=
  (nodes me).bind fun chord =>
    goOn sha1 me fuel (first chord).2 (Function.update nodes me (some (first chord).1))

/-- `CallStabilize`: the request, and what follows the reply. -/
def stabilizeOnce (nodes : NodeAddress → Option Chord) : Option (NodeAddress → Option Chord) :=
  wholeCall sha1 me callStabilize 2 nodes

/-- `FixFingers`: 32 requests, and what follows each reply. -/
def fixFingersOnce (nodes : NodeAddress → Option Chord) : Option (NodeAddress → Option Chord) :=
  wholeCall sha1 me (callFixFingers sha1) 64 nodes

/-- The nodes call `CallStabilize` one after the other. -/
def stabilizeEach : List NodeAddress → (NodeAddress → Option Chord) → Option (NodeAddress → Option Chord)
  | [], nodes => some nodes
  | me :: order, nodes => (stabilizeOnce sha1 me nodes).bind (stabilizeEach order)

/-- `FixFingers` is called `n` times in a row. -/
def fixFingersTimes : Nat → (NodeAddress → Option Chord) → Option (NodeAddress → Option Chord)
  | 0, nodes => some nodes
  | n + 1, nodes => (fixFingersTimes n nodes).bind (fixFingersOnce sha1 me)

end Whole

section

variable {sha1 : String → Nat} {me : NodeAddress} {nodes after : NodeAddress → Option Chord} {chord : Chord}

theorem stabilizeEach_append (first second : List NodeAddress) (nodes : NodeAddress → Option Chord) :
    stabilizeEach sha1 (first ++ second) nodes =
      (stabilizeEach sha1 first nodes).bind (stabilizeEach sha1 second) := by
  induction first generalizing nodes with
  | nil => rfl
  | cons me first ih =>
    rw [List.cons_append, stabilizeEach, stabilizeEach, Option.bind_assoc]
    exact Option.bind_congr fun changed _ => ih changed

/-! ## What a call of CallStabilize does -/

theorem callStabilize_of_X (isX : chord.node.successors.first = "X") :
    callStabilize chord = (chord.findNewSucc, .stabilizeCall chord.request "X") := by
  simp [callStabilize, isX]

theorem callStabilize_of_other (notX : chord.node.successors.first ≠ "X")
    (other : chord.node.successors.first ≠ chord.node.nodeAddress) :
    callStabilize chord = (chord, .stabilizeCall chord.request chord.node.successors.first) := by
  simp [callStabilize, notX, other]

/-- The request fails: whatever the first successor is by then is dropped. -/
theorem stabilizeOnce_of_lost {changed : Chord} {request : Request} {succ : NodeAddress}
    (found : nodes me = some chord) (begins : callStabilize chord = (changed, .stabilizeCall request succ))
    (other : succ ≠ me) (lost : nodes succ = none) :
    stabilizeOnce sha1 me nodes = some (Function.update nodes me (some changed.clearDeadSucc)) := by
  have lost' : Function.update nodes me (some changed) succ = none := by
    rw [Function.update_of_ne other, lost]
  simp [stabilizeOnce, wholeCall, found, begins, goOn, advance, Phase.awaits, Phase.site, lost',
    Phase.failed, proceed]

/-- The successor answers `YouGood`: its own successors are taken over. -/
theorem stabilizeOnce_of_good {target : Chord} (found : nodes me = some chord)
    (notX : chord.node.successors.first ≠ "X") (named : chord.node.nodeAddress = me)
    (other : chord.node.successors.first ≠ me) (asked : nodes chord.node.successors.first = some target)
    (knows : target.node.predecessor = me) (meNotX : me ≠ "X") :
    stabilizeOnce sha1 me nodes =
      (chord.verifySuccs target.node.successors.toList).map fun verified =>
        Function.update nodes me (some verified) := by
  have begins := callStabilize_of_other notX (named ▸ other)
  have good : stabilized target chord.request = (target, ⟨true, "", target.node.successors.toList⟩) := by
    simp [stabilized, knows, meNotX, Chord.request, named]
  have kept : Function.update nodes me (some chord) = nodes := Function.update_eq_self_iff.mpr found.symm
  have unmoved : Function.update nodes chord.node.successors.first (some target) = nodes :=
    Function.update_eq_self_iff.mpr asked.symm
  cases verified : chord.verifySuccs target.node.successors.toList <;>
    simp [stabilizeOnce, wholeCall, found, begins, kept, goOn, advance, Phase.awaits, Phase.site, asked, serve,
      good, unmoved, proceed, verified]

end

/-! ## Calls are runs of the network -/

section GoOn

variable {sha1 : String → Nat} {me : NodeAddress} {nodes changed : NodeAddress → Option Chord} {phase next : Phase}

theorem goOn_step {fuel : Nat} (ran : advance sha1 me phase nodes = some (next, changed)) :
    goOn sha1 me (fuel + 1) phase nodes = goOn sha1 me fuel next changed := by
  have going : phase ≠ .finished := by
    rintro rfl
    cases found : nodes me <;> simp [advance, Phase.awaits, Phase.site, found, proceed] at ran
  rw [goOn.eq_3 _ _ _ _ _ going, ran, Option.bind_some]

/-- How a call ends does not depend on the fuel. -/
theorem goOn_unique {fuel fuel' : Nat} {after after' : NodeAddress → Option Chord}
    (ran : goOn sha1 me fuel phase nodes = some after) (ran' : goOn sha1 me fuel' phase nodes = some after') :
    after = after' := by
  induction fuel, phase, nodes using goOn.induct generalizing fuel' with
  | case1 =>
    rw [goOn] at ran ran'
    exact Option.some.inj (ran.symm.trans ran')
  | case2 phase nodes going =>
    rw [goOn.eq_2 _ _ _ _ going] at ran
    cases ran
  | case3 fuel phase nodes going ih =>
    cases fuel' with
    | zero =>
      rw [goOn.eq_2 _ _ _ _ going] at ran'
      cases ran'
    | succ fuel' =>
      rw [goOn.eq_3 _ _ _ _ _ going] at ran ran'
      obtain ⟨⟨next, changed⟩, advanced, ends⟩ := Option.bind_eq_some_iff.mp ran
      rw [advanced, Option.bind_some] at ran'
      exact ih next changed ends ran'

end GoOn

/-- The goroutine keeps no lock, and works at its own node. -/
def Phase.Light (me : NodeAddress) (phase : Phase) : Prop := phase.ownsLock = false ∧ phase.site me = me

namespace System

/-- The next step of goroutine `k` if nothing goes wrong: file operations succeed, and a request fails only if
its target is not running. -/
def turn (s : System) (k : Nat) : Option Event :=
  (s.tasks[k]?).map fun task =>
    match task.phase.awaits with
    | some target => if (s.nodes target).isSome then .handle k .good else .fail k
    | none => .resume k .good

/-- Goroutine `k` goes on to its end, with nothing going wrong and nothing in between. -/
structure Completes (sha1 : String → Nat) (k : Nat) (s : System) (taken : List (Taken System Event))
    (final : System) : Prop where
  run : Run (step sha1) s taken final
  alone : AllMeet (fun s e => s.turn k = some e) taken
  ended : ∃ task, final.tasks[k]? = some task ∧ task.phase = .finished

/-- Goroutine `k` of node `me` has reached the phase; no lock is owned, but for the one of `me` if the phase
owns it. -/
structure Plays (s : System) (me : NodeAddress) (k : Nat) (goroutine : Goroutine) (phase : Phase)
    (nodes : NodeAddress → Option Chord) : Prop where
  owner : ∀ a, s.owner a = if a = me ∧ phase.ownsLock = true then some k else none
  task : s.tasks[k]? = some ⟨me, goroutine, phase⟩
  asksOther : AsksOther me phase
  addressed : s.Addressed
  nodes : s.nodes = nodes

section Runs

variable {sha1 : String → Nat} {me : NodeAddress} {s t final : System} {k : Nat} {goroutine : Goroutine}
  {phase next : Phase} {nodes changed after : NodeAddress → Option Chord} {e : Event}
  {taken : List (Taken System Event)}

theorem turn_of_resume (task : s.tasks[k]? = some ⟨me, goroutine, phase⟩) (ready : phase.awaits = none) :
    s.turn k = some (.resume k .good) := by
  simp [turn, task, ready]

theorem turn_of_handle (task : s.tasks[k]? = some ⟨me, goroutine, phase⟩) {target : NodeAddress} {chord : Chord}
    (asks : phase.awaits = some target) (found : s.nodes target = some chord) :
    s.turn k = some (.handle k .good) := by
  simp [turn, task, asks, found]

theorem turn_of_fail (task : s.tasks[k]? = some ⟨me, goroutine, phase⟩) {target : NodeAddress}
    (asks : phase.awaits = some target) (lost : s.nodes target = none) : s.turn k = some (.fail k) := by
  simp [turn, task, asks, lost]

/-- A goroutine that proceeds keeps the lock of its own node only. -/
theorem Plays.owner_resumed (plays : s.Plays me k goroutine phase nodes) {chord proceeded : Chord}
    {spawned : List Phase} (proceeds : Proceeds sha1 .good chord phase proceeded next spawned) (a : NodeAddress) :
    (if phase.underLock then
      Function.update s.owner (phase.site me) (if next.ownsLock then some k else none) else s.owner) a =
      if a = me ∧ next.ownsLock = true then some k else none := by
  have gains := proceeds.locks.1
  cases owns : next.ownsLock with
  | true =>
    obtain ⟨here, locked⟩ := site_of_gains (gains owns) me
    rw [if_pos locked, here]
    by_cases isMe : a = me <;> simp [isMe, plays.owner]
  | false =>
    cases locked : phase.underLock with
    | true =>
      simp only [if_true, Bool.false_eq_true, if_false, and_false]
      by_cases there : a = phase.site me
      · rw [there, Function.update_self]
      · rw [Function.update_of_ne there, plays.owner, if_neg]
        rintro ⟨rfl, owned⟩
        exact there (site_of_ownsLock owned a).1.symm
    | false =>
      rw [if_neg Bool.false_ne_true, plays.owner]
      refine if_congr (and_congr_right fun _ => ⟨fun owned => ?_, fun owned => by cases owned⟩) rfl rfl
      exact absurd (site_of_ownsLock owned me).2 (by simp [locked])

theorem Plays.mayRun (plays : s.Plays me k goroutine phase nodes) : s.mayRun k (phase.site me) phase := by
  rw [System.mayRun]
  cases owns : phase.ownsLock with
  | true => simp [plays.owner, (site_of_ownsLock owns me).1, owns]
  | false => simp [plays.owner, owns]

/-- A step of the call is a step of the network. -/
theorem Plays.advances (plays : s.Plays me k goroutine phase nodes)
    (ran : advance sha1 me phase nodes = some (next, changed)) :
    ∃ e t, s.turn k = some e ∧ step sha1 s e = some t ∧ t.Plays me k goroutine next changed := by
  obtain ⟨owner, task, asksOther, addressed, rfl⟩ := plays
  have inRange := (List.getElem?_eq_some_iff.mp task).1
  unfold advance at ran
  split at ran
  · next target asks =>
    split at ran
    · next chord found =>
      obtain ⟨⟨served, next⟩, handled, same⟩ := Option.map_eq_some_iff.mp ran
      cases same
      obtain ⟨keeps, other⟩ := (serve_serves handled).locks
      have free : phase.handlerLocks = true → s.owner target = none := by
        intro locks
        rw [owner, if_neg]
        rintro ⟨itself, owned⟩
        exact asksOther owned target asks locks itself
      have moved := handle_eq task asks found free handled
      exact ⟨_, _, turn_of_handle task asks found, moved, keeps ▸ owner, List.getElem?_set_self inRange, other,
        addressed.step moved, rfl⟩
    · next lost =>
      obtain ⟨next, gives, same⟩ := Option.map_eq_some_iff.mp ran
      cases same
      obtain ⟨keeps, other⟩ := failed_locks gives
      have moved : step sha1 s (.fail k) = some
          { s with tasks := s.tasks.set k ⟨me, goroutine, next⟩ } := by
        simp [step, fail, task, gives]
      exact ⟨_, _, turn_of_fail task asks lost, moved, keeps ▸ owner, List.getElem?_set_self inRange, other,
        addressed.step moved, rfl⟩
  · next ready =>
    obtain ⟨chord, found, ran⟩ := Option.bind_eq_some_iff.mp ran
    obtain ⟨⟨proceeded, next, spawned⟩, goes, same⟩ := Option.map_eq_some_iff.mp ran
    cases same
    have proceeds := proceed_proceeds goes
    have plays : s.Plays me k goroutine phase s.nodes := ⟨owner, task, asksOther, addressed, rfl⟩
    have moved := resume_eq task found plays.mayRun goes
    refine ⟨_, _, turn_of_resume task ready, moved, plays.owner_resumed proceeds, ?_, fun owned => ?_,
      addressed.step moved, rfl⟩
    · simp [inRange, List.getElem?_append_left]
    · have here := (site_of_gains (proceeds.locks.1 owned) me).1
      have other := proceeds.locks.2.1 owned
      rwa [addressed _ chord found, here] at other

/-- Where the call has no next step, the goroutine has none. -/
theorem Plays.blocked (plays : s.Plays me k goroutine phase nodes) (ran : advance sha1 me phase nodes = none)
    (turn : s.turn k = some e) : step sha1 s e = none := by
  obtain ⟨_, task, _, _, rfl⟩ := plays
  unfold advance at ran
  split at ran
  · next target asks =>
    split at ran
    · next chord found =>
      rw [turn_of_handle task asks found, Option.some.injEq] at turn
      subst turn
      simp [step, handle, task, asks, found, Option.map_eq_none_iff.mp ran]
    · next lost =>
      rw [turn_of_fail task asks lost, Option.some.injEq] at turn
      subst turn
      simp [step, fail, task, Option.map_eq_none_iff.mp ran]
  · next ready =>
    rw [turn_of_resume task ready, Option.some.injEq] at turn
    subst turn
    cases found : s.nodes (phase.site me) with
    | none => simp [step, resume, task, found]
    | some chord =>
      rw [found, Option.bind_some] at ran
      simp [step, resume, task, found, Option.map_eq_none_iff.mp ran]

/-- The goroutine has no other next step than that of the call. -/
theorem Plays.follows (plays : s.Plays me k goroutine phase nodes) (turn : s.turn k = some e)
    (moved : step sha1 s e = some t) :
    ∃ next changed, advance sha1 me phase nodes = some (next, changed) ∧ t.Plays me k goroutine next changed := by
  cases ran : advance sha1 me phase nodes with
  | none =>
    rw [plays.blocked ran turn] at moved
    cases moved
  | some result =>
    obtain ⟨next, changed⟩ := result
    obtain ⟨e', t', turn', moved', played⟩ := plays.advances ran
    obtain rfl := Option.some.inj (turn.symm.trans turn')
    obtain rfl := Option.some.inj (moved.symm.trans moved')
    exact ⟨next, changed, rfl, played⟩

theorem Plays.reaches_end {fuel : Nat} (plays : s.Plays me k goroutine phase nodes)
    (ran : goOn sha1 me fuel phase nodes = some after) : ∃ taken final, Completes sha1 k s taken final := by
  induction fuel, phase, nodes using goOn.induct generalizing s with
  | case1 => exact ⟨[], s, .nil, List.forall_mem_nil _, _, plays.task, rfl⟩
  | case2 phase nodes going =>
    rw [goOn.eq_2 _ _ _ _ going] at ran
    cases ran
  | case3 fuel phase nodes going ih =>
    rw [goOn.eq_3 _ _ _ _ _ going] at ran
    obtain ⟨⟨next, changed⟩, advanced, rest⟩ := Option.bind_eq_some_iff.mp ran
    obtain ⟨e, t, turn, moved, played⟩ := plays.advances advanced
    obtain ⟨taken, final, run, alone, ended⟩ := ih next changed played rest
    exact ⟨_, final, run.cons moved, List.forall_mem_cons.mpr ⟨turn, alone⟩, ended⟩

theorem Plays.goOn_of_completes (plays : s.Plays me k goroutine phase nodes)
    (completes : Completes sha1 k s taken final) :
    (∃ fuel, goOn sha1 me fuel phase nodes = some final.nodes) ∧ ∀ a, final.owner a = none := by
  induction taken generalizing s phase nodes with
  | nil =>
    obtain ⟨run, _, task, found, isFinished⟩ := completes
    obtain rfl := run.eq_of_nil
    obtain rfl := Option.some.inj (plays.task.symm.trans found)
    obtain rfl : phase = .finished := isFinished
    exact ⟨⟨0, by rw [goOn, plays.nodes]⟩, fun a => by simp [plays.owner, Phase.ownsLock]⟩
  | cons τ later ih =>
    obtain ⟨run, alone, ended⟩ := completes
    obtain ⟨turn, aloneLater⟩ := List.forall_mem_cons.mp alone
    obtain ⟨rfl, moved, rest⟩ := run.uncons
    obtain ⟨next, changed, advanced, played⟩ := plays.follows turn moved
    obtain ⟨⟨fuel, ends⟩, free⟩ := ih played ⟨rest, aloneLater, ended⟩
    exact ⟨⟨fuel + 1, (goOn_step advanced).trans ends⟩, free⟩

theorem start_of_starts {e : Event} {first : Chord → Chord × Phase} {chord : Chord}
    (starts : Starts sha1 e me goroutine first) (found : s.nodes me = some chord)
    (joined : chord.node.joinPending = false) (free : s.owner me = none) (idle : ¬ s.busy me goroutine) :
    step sha1 s e = some
      { nodes := Function.update s.nodes me (some (first chord).1)
        owner := Function.update s.owner me (if (first chord).2.ownsLock then some s.tasks.length else none)
        tasks := s.tasks ++ [⟨me, goroutine, (first chord).2⟩] } := by
  cases starts <;> simp [step, start, found, joined, free, idle]

/-- The task that an event starts, in a network in which no lock is owned. -/
theorem plays_of_starts {first : Chord → Chord × Phase} {chord : Chord} (starts : Starts sha1 e me goroutine first)
    (unlocked : ∀ a, s.owner a = none) (addressed : s.Addressed) (idle : ¬ s.busy me goroutine)
    (found : s.nodes me = some chord) (joined : chord.node.joinPending = false) :
    ∃ t, step sha1 s e = some t ∧
      t.Plays me s.tasks.length goroutine (first chord).2 (Function.update s.nodes me (some (first chord).1)) := by
  have moved := start_of_starts starts found joined (unlocked me) idle
  have other := (starts.begins (rfl : first chord = ((first chord).1, (first chord).2))).locks.2
  rw [addressed me chord found] at other
  refine ⟨_, moved, fun a => ?_, by simp, other, addressed.step moved, rfl⟩
  by_cases isMe : a = me <;> simp [isMe, unlocked]

/-- A call with nothing in between: the tick is a step of the network, and the goroutine that it starts can only go
on as the call does, to the same end. -/
theorem wholeCall_completes {first : Chord → Chord × Phase} {chord : Chord} {fuel : Nat}
    (starts : Starts sha1 e me goroutine first) (unlocked : ∀ a, s.owner a = none) (addressed : s.Addressed)
    (idle : ¬ s.busy me goroutine) (found : s.nodes me = some chord) (joined : chord.node.joinPending = false)
    (ran : wholeCall sha1 me first fuel s.nodes = some after) :
    ∃ t, step sha1 s e = some t ∧ (∃ taken final, Completes sha1 s.tasks.length t taken final) ∧
      ∀ taken final, Completes sha1 s.tasks.length t taken final →
        final.nodes = after ∧ ∀ a, final.owner a = none := by
  rw [wholeCall, found, Option.bind_some] at ran
  obtain ⟨t, moved, plays⟩ := plays_of_starts starts unlocked addressed idle found joined
  refine ⟨t, moved, plays.reaches_end ran, fun taken final completes => ?_⟩
  obtain ⟨⟨fuel', ends⟩, free⟩ := plays.goOn_of_completes completes
  exact ⟨goOn_unique ends ran, free⟩

theorem stabilizeOnce_completes {chord : Chord} (unlocked : ∀ a, s.owner a = none) (addressed : s.Addressed)
    (idle : ¬ s.busy me .ticker) (found : s.nodes me = some chord) (joined : chord.node.joinPending = false)
    (ran : stabilizeOnce sha1 me s.nodes = some after) :
    ∃ t, step sha1 s (.stabilize me) = some t ∧ (∃ taken final, Completes sha1 s.tasks.length t taken final) ∧
      ∀ taken final, Completes sha1 s.tasks.length t taken final →
        final.nodes = after ∧ ∀ a, final.owner a = none :=
  wholeCall_completes (.stabilize me) unlocked addressed idle found joined ran

theorem fixFingersOnce_completes {chord : Chord} (unlocked : ∀ a, s.owner a = none) (addressed : s.Addressed)
    (idle : ¬ s.busy me .ticker) (found : s.nodes me = some chord) (joined : chord.node.joinPending = false)
    (ran : fixFingersOnce sha1 me s.nodes = some after) :
    ∃ t, step sha1 s (.fixFingers me) = some t ∧ (∃ taken final, Completes sha1 s.tasks.length t taken final) ∧
      ∀ taken final, Completes sha1 s.tasks.length t taken final →
        final.nodes = after ∧ ∀ a, final.owner a = none :=
  wholeCall_completes (.fixFingers me) unlocked addressed idle found joined ran

/-! ## Chains of calls

`CallNotify` and `CallJoin` make one request, and start the next call in a goroutine of its own. -/

/-- The steps of goroutine `k` and of those started later, in which every request is answered. -/
def isAnsweredCall (k later : Nat) (e : Event) : Prop :=
  ∃ j, (j = k ∨ later ≤ j) ∧ (e = .resume j .good ∨ e = .handle j .good)

/-- One such call while nobody owns a lock: the request, its handler, and what follows the reply. -/
theorem call_run {target : NodeAddress} {call reply : Phase} {spawned : List Phase}
    {chord asked changed called final : Chord} (unlocked : ∀ a, s.owner a = none)
    (task : s.tasks[k]? = some ⟨me, goroutine, phase⟩) (found : s.nodes me = some chord)
    (asks : proceed sha1 .good chord phase = some (chord, call, [])) (waits : call.awaits = some target)
    (foundTarget : s.nodes target = some asked) (handled : serve sha1 .good me asked call = some (changed, reply))
    (foundAgain : Function.update s.nodes target (some changed) me = some called)
    (ends : proceed sha1 .good called reply = some (final, .finished, spawned))
    (light : phase.Light me ∧ call.Light me ∧ reply.Light me) :
    ∃ taken t, Run (step sha1) s taken t ∧ taken.length = 3 ∧
      (∀ τ ∈ taken, isAnsweredCall k s.tasks.length τ.event) ∧ t.owner = s.owner ∧
      t.nodes = Function.update (Function.update s.nodes target (some changed)) me (some final) ∧
      t.tasks = s.tasks.set k ⟨me, goroutine, .finished⟩ ++ spawned.map fun next => ⟨me, .spawned, next⟩ := by
  obtain ⟨⟨free, here⟩, ⟨callFree, _⟩, replyFree, replyHere⟩ := light
  have inRange := (List.getElem?_eq_some_iff.mp task).1
  have sameOwner : Function.update s.owner me none = s.owner :=
    Function.update_eq_self_iff.mpr (unlocked me).symm
  have sameNodes : Function.update s.nodes me (some chord) = s.nodes :=
    Function.update_eq_self_iff.mpr found.symm
  have sends : step sha1 s (.resume k .good) =
      some { s with tasks := s.tasks.set k ⟨me, goroutine, call⟩ } := by
    rw [resume_eq task (by rwa [here]) (mayRun_of_free free (unlocked _)) asks]
    simp [here, callFree, sameOwner, sameNodes]
  have answers : step sha1 { s with tasks := s.tasks.set k ⟨me, goroutine, call⟩ } (.handle k .good) = some
      { s with
        nodes := Function.update s.nodes target (some changed)
        tasks := s.tasks.set k ⟨me, goroutine, reply⟩ } := by
    rw [handle_eq (s := { s with tasks := _ }) (List.getElem?_set_self inRange) waits foundTarget
      (fun _ => unlocked target) handled, List.set_set]
  have finishes : step sha1
      { s with
        nodes := Function.update s.nodes target (some changed)
        tasks := s.tasks.set k ⟨me, goroutine, reply⟩ } (.resume k .good) = some
      { s with
        nodes := Function.update (Function.update s.nodes target (some changed)) me (some final)
        tasks := s.tasks.set k ⟨me, goroutine, .finished⟩ ++ spawned.map fun next => ⟨me, .spawned, next⟩ } := by
    have member : (s.tasks.set k ⟨me, goroutine, reply⟩)[k]? = some ⟨me, goroutine, reply⟩ :=
      List.getElem?_set_self inRange
    rw [resume_eq (s := ⟨_, s.owner, s.tasks.set k _⟩) member (by rwa [replyHere])
      (mayRun_of_free replyFree (unlocked _)) ends]
    simp [replyHere, Phase.ownsLock, sameOwner]
  refine ⟨_, _, ((Run.nil.cons finishes).cons answers).cons sends, rfl, fun τ member => ⟨k, .inl rfl, ?_⟩, rfl, rfl, rfl⟩
  simp only [List.mem_cons, List.not_mem_nil, or_false] at member
  obtain rfl | rfl | rfl := member
  · exact .inl rfl
  · exact .inr rfl
  · exact .inl rfl

/-- A chain that goes on in a goroutine started later. -/
theorem isAnsweredCall_append {later : List (Taken System Event)} {j : Nat}
    (first : ∀ τ ∈ taken, isAnsweredCall k s.tasks.length τ.event)
    (rest : ∀ τ ∈ later, isAnsweredCall j t.tasks.length τ.event) (new : s.tasks.length ≤ j)
    (longer : s.tasks.length ≤ t.tasks.length) :
    ∀ τ ∈ taken ++ later, isAnsweredCall k s.tasks.length τ.event := by
  intro τ member
  obtain before | after := List.mem_append.mp member
  · exact first τ before
  · obtain ⟨i, isNew, is⟩ := rest τ after
    exact ⟨i, .inr (by omega), is⟩

end Runs

end System

end Tda596Labs.Chord
