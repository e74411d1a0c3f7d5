import Tda596Labs.Lib.Pool
import Tda596Labs.Raft.Cluster

/-! # The retry loops

`askForVote` and `sendHeartBeatToPeer` call a peer in the init statement of a `for` loop whose condition is
that the call has failed.  The loop has no post statement and its body does not call again: the body only
looks whether to give up, and sleeps.  So there is one call, whatever becomes of it, and the loop ends with
a reply only if that call succeeds.  In the cluster such a goroutine stays where it is until its peer is
killed, or, for a heartbeat, no longer leads.
-/

namespace Tda596Labs.Raft

open Tda596Labs.Transition

/-! ## A for loop -/

/-- How a loop ends: at its condition, or by a `return` in its body. -/
inductive LoopExit (σ : Type) where
  | left (state : σ) (turn : Nat)
  | returned (state : σ)
deriving DecidableEq, Repr

/-- `for ; cond; post`, with a body that may return and changes nothing that is read later.  `none`: `fuel`
turns are not enough. -/
def forLoop {σ : Type} (cond : σ → Bool) (returns : Nat → Bool) (post : σ → σ) :
    Nat → Nat → σ → Option (LoopExit σ)
  | 0, _, _ => none
  | fuel + 1, turn, s =>
    if !cond s then some (.left s turn)
    else if returns turn then some (.returned s)
    else forLoop cond returns post fuel (turn + 1) (post s)

theorem forLoop_none {σ : Type} {cond : σ → Bool} {returns : Nat → Bool} {s : σ} (holds : cond s = true)
    (stays : ∀ turn, returns turn = false) (fuel turn : Nat) :
    forLoop cond returns id fuel turn s = none := by
  induction fuel generalizing turn with
  | zero => rfl
  | succ fuel ih => simp [forLoop, holds, stays, ih]

/-- Without a post statement the state at the end is the one at the beginning. -/
theorem forLoop_id {σ : Type} {cond : σ → Bool} {returns : Nat → Bool} {s : σ} {fuel turn : Nat}
    {exit : LoopExit σ} (ran : forLoop cond returns id fuel turn s = some exit) :
    (∃ turn, exit = .left s turn) ∨ exit = .returned s := by
  induction fuel generalizing turn with
  | zero => cases ran
  | succ fuel ih =>
    simp only [forLoop] at ran
    split at ran
    · exact .inl ⟨turn, (Option.some.inj ran).symm⟩
    · split at ran
      · exact .inr (Option.some.inj ran).symm
      · exact ih ran

/-! ## Calls in a loop -/

/-- The requests issued so far, whether the last call has succeeded, and the reply it has filled in. -/
structure Attempts (Args Reply : Type) where
  issued : List Args
  ok : Bool
  reply : Reply

/-- One call; `outcomes i` is what becomes of call number `i`, with `none` for one that fails. -/
def Attempts.send {Args Reply : Type} (attempts : Attempts Args Reply) (args : Args)
    (outcomes : Nat → Option Reply) : Attempts Args Reply :=
  match outcomes attempts.issued.length with
  | some reply => ⟨attempts.issued ++ [args], true, reply⟩
  | none => ⟨attempts.issued ++ [args], false, attempts.reply⟩

section Retry

variable {n : Nat} {Args Reply : Type} (args : Args) (zero : Reply) (gone : Server n → Bool)
  (answered : Server n → Reply → Server n) (servers : Nat → Server n) (outcomes : Nat → Option Reply)

/-- The calls of a goroutine and what follows them: the requests issued, and the peer once it has used the
reply.  `servers turn` is the peer when the loop has turned `turn` times. -/
def retry (fuel : Nat) : Option (List Args × Option (Server n)) :=
  let first := (⟨[], false, zero⟩ : Attempts Args Reply).send args outcomes
  (forLoop (fun s => !s.ok) (fun turn => gone (servers turn)) id fuel 0 first).map fun
    | .left s turn => (s.issued, some (answered (servers turn) s.reply))
    | .returned s => (s.issued, none)

variable {args zero gone answered servers outcomes}

/-- Whatever happens, one request is issued. -/
theorem retry_issued {fuel : Nat} {issued : List Args} {result : Option (Server n)}
    (ran : retry args zero gone answered servers outcomes fuel = some (issued, result)) :
    issued = [args] := by
  have once : ((⟨[], false, zero⟩ : Attempts Args Reply).send args outcomes).issued = [args] := by
    unfold Attempts.send
    split <;> rfl
  obtain ⟨exit, looped, same⟩ := Option.map_eq_some_iff.mp ran
  obtain ⟨turn, rfl⟩ | rfl := forLoop_id looped
  · cases same
    exact once
  · cases same
    exact once

theorem retry_of_success {reply : Reply} (success : outcomes 0 = some reply) (fuel : Nat) :
    retry args zero gone answered servers outcomes (fuel + 1) =
      some ([args], some (answered (servers 0) reply)) := by
  simp [retry, Attempts.send, success, forLoop]

theorem retry_of_failure (failure : outcomes 0 = none) (here : ∀ turn, gone (servers turn) = false)
    (fuel : Nat) : retry args zero gone answered servers outcomes fuel = none := by
  rw [retry, Attempts.send, List.length_nil, failure, forLoop_none rfl here, Option.map_none]

/-- The first call that would succeed is number `k`, counted from one. -/
structure FirstSuccess (outcomes : Nat → Option Reply) (k : Nat) (reply : Reply) : Prop where
  positive : 1 ≤ k
  failures : ∀ i, i + 1 < k → outcomes i = none
  success : outcomes (k - 1) = some reply

theorem retry_iff {k : Nat} {reply : Reply} (first : FirstSuccess outcomes k reply) :
    (∃ fuel turn, retry args zero gone answered servers outcomes fuel =
      some (List.replicate k args, some (answered (servers turn) reply))) ↔ k = 1 := by
  constructor
  · rintro ⟨fuel, turn, ran⟩
    simpa using congrArg List.length (retry_issued ran)
  · rintro rfl
    exact ⟨1, 0, retry_of_success first.success 0⟩

theorem FirstSuccess.retry_none {k : Nat} {reply : Reply} (first : FirstSuccess outcomes k reply)
    (here : ∀ turn, gone (servers turn) = false) (later : k ≠ 1) (fuel : Nat) :
    retry args zero gone answered servers outcomes fuel = none :=
  have positive := first.positive
  retry_of_failure (first.failures 0 (by omega)) here fuel

end Retry

section Loops

variable {n : Nat} (started : Server n) (servers : Nat → Server n)

def askForVote (outcomes : Nat → Option RequestVoteReply) (fuel : Nat) :
    Option (List (RequestVoteArgs n) × Option (Server n)) :=
  retry started.voteRequest ⟨0, false⟩ (fun rf => rf.dead) Server.countVote servers outcomes fuel

def sendHeartBeatToPeer (outcomes : Nat → Option AppendEntriesReply) (fuel : Nat) :
    Option (List (AppendEntriesArgs n) × Option (Server n)) :=
  retry started.heartBeat ⟨0, false⟩ (fun rf => rf.dead || rf.serverState ≠ .leader)
    Server.heartBeatAnswered servers outcomes fuel

/-- The loops issue `k` requests and use the reply to the last one exactly if the first call succeeds.
Otherwise they never end. -/
theorem retry_loops_iff (k : Nat) (alive : ∀ turn, (servers turn).dead = false) :
    (∀ votes vote, FirstSuccess votes k vote →
      ((∃ fuel turn, askForVote started servers votes fuel =
        some (List.replicate k started.voteRequest, some ((servers turn).countVote vote))) ↔ k = 1) ∧
      (k ≠ 1 → ∀ fuel, askForVote started servers votes fuel = none)) ∧
    (∀ beats beat, FirstSuccess beats k beat → (∀ turn, (servers turn).serverState = .leader) →
      ((∃ fuel turn, sendHeartBeatToPeer started servers beats fuel =
        some (List.replicate k started.heartBeat, some ((servers turn).heartBeatAnswered beat))) ↔ k = 1) ∧
      (k ≠ 1 → ∀ fuel, sendHeartBeatToPeer started servers beats fuel = none)) := by
  refine ⟨fun votes vote first => ⟨retry_iff first, first.retry_none alive⟩, fun beats beat first leads =>
    ⟨retry_iff first, first.retry_none fun turn => ?_⟩⟩
  simp [alive turn, leads turn]

end Loops

/-- The first candidate of three peers, with a call that succeeds at once. -/
theorem retry_loops_of_one_call :
    ∃ fuel turn, askForVote (Server.make (0 : Fin 3)) (fun _ => Server.make 0) (fun _ => some ⟨0, true⟩) fuel =
      some ([(Server.make (0 : Fin 3)).voteRequest],
        some (Server.countVote ((fun _ : Nat => Server.make (0 : Fin 3)) turn) ⟨0, true⟩)) :=
  (((retry_loops_iff (Server.make (0 : Fin 3)) (fun _ => Server.make 0) 1 fun _ => rfl).1
    (fun _ => some ⟨0, true⟩) ⟨0, true⟩ ⟨le_rfl, by omega, rfl⟩).1).mpr rfl

/-- The first call fails and the second one would succeed. -/
def secondSucceeds {Reply : Type} (reply : Reply) (i : Nat) : Option Reply := if i = 0 then none else some reply

theorem secondSucceeds_firstSuccess {Reply : Type} (reply : Reply) :
    FirstSuccess (secondSucceeds reply) 2 reply where
  positive := by decide
  failures i early := if_pos (by omega)
  success := rfl

/-- A leader that stays alive: neither loop makes the second call. -/
theorem no_second_call :
    ¬ (∀ (n k : Nat) (started : Server n) (servers : Nat → Server n), (∀ turn, (servers turn).dead = false) →
      ∀ votes vote, FirstSuccess votes k vote →
        ∃ fuel turn, askForVote started servers votes fuel =
          some (List.replicate k started.voteRequest, some ((servers turn).countVote vote))) ∧
    ¬ (∀ (n k : Nat) (started : Server n) (servers : Nat → Server n), (∀ turn, (servers turn).dead = false) →
      (∀ turn, (servers turn).serverState = .leader) → ∀ beats beat, FirstSuccess beats k beat →
        ∃ fuel turn, sendHeartBeatToPeer started servers beats fuel =
          some (List.replicate k started.heartBeat, some ((servers turn).heartBeatAnswered beat))) := by
  let leader : Server 3 := { Server.make 0 with serverState := .leader }
  constructor
  · intro always
    obtain ⟨fuel, turn, ran⟩ := always 3 2 leader (fun _ => leader) (fun _ => rfl) _ ⟨1, true⟩
      (secondSucceeds_firstSuccess _)
    cases retry_issued ran
  · intro always
    obtain ⟨fuel, turn, ran⟩ := always 3 2 leader (fun _ => leader) (fun _ => rfl) (fun _ => rfl) _ ⟨1, true⟩
      (secondSucceeds_firstSuccess _)
    cases retry_issued ran

/-! ## Goroutines of the cluster that retry -/

/-- Goroutine `k` of a peer is in its retry loop, with the request it has issued. -/
def Retrying {n : Nat} {Args Reply : Type} (pool : List (Goroutine n Args Reply)) (k : Nat) (server : Fin n)
    (request : Option Args) : Prop :=
  ∃ g, pool[k]? = some g ∧ g.server = server ∧ g.request = request ∧ g.phase = .retrying

section Pools

variable {n : Nat} {Args Reply : Type} {pool : List (Goroutine n Args Reply)} {k j : Nat} {server : Fin n}
  {request : Option Args} {g h : Goroutine n Args Reply}

theorem Retrying.append (retrying : Retrying pool k server request) (more : List (Goroutine n Args Reply)) :
    Retrying (pool ++ more) k server request := by
  obtain ⟨g, found, same⟩ := retrying
  exact ⟨g, Pool.found_append found more, same⟩

/-- A goroutine makes a step that, from the retry loop, leads back to it. -/
theorem Retrying.set (retrying : Retrying pool k server request) (found : pool[j]? = some g)
    (kept : g.server = server → g.request = request → g.phase = .retrying →
      h.server = server ∧ h.request = request ∧ h.phase = .retrying) :
    Retrying (pool.set j h) k server request := by
  obtain ⟨g', found', isOf, asks, phase⟩ := retrying
  by_cases same : j = k
  · subst same
    obtain rfl := Option.some.inj (found.symm.trans found')
    exact ⟨h, Pool.found_set_self found h, kept isOf asks phase⟩
  · exact ⟨g', by rw [List.getElem?_set_ne same, found'], isOf, asks, phase⟩

end Pools

namespace Cluster

variable {n : Nat} {c d : Cluster n} {e : Event n} {k : Nat} {i : Fin n}

/-- Where a step of the same goroutine leads from the retry loop, if the peer gives no reason to return. -/
def StaysIn {Args Reply : Type} (here : Prop) (g h : Goroutine n Args Reply) : Prop :=
  here → g.phase = .retrying → h.server = g.server ∧ h.request = g.request ∧ h.phase = .retrying

/-- What a step does to the goroutines: some are started, or one of them moves. -/
inductive Moves (c d : Cluster n) : Prop where
  | started {votes : List (AskForVote n)} {beats : List (SendHeartBeat n)} (votesNow : d.votes = c.votes ++ votes)
      (beatsNow : d.beats = c.beats ++ beats) : Moves c d
  | vote {k : Nat} {g h : AskForVote n} (found : c.votes[k]? = some g) (votesNow : d.votes = c.votes.set k h)
      (beatsNow : d.beats = c.beats) (stays : StaysIn ((c.servers g.server).dead = false) g h) : Moves c d
  | beat {k : Nat} {g h : SendHeartBeat n} (found : c.beats[k]? = some g) (beatsNow : d.beats = c.beats.set k h)
      (votesNow : d.votes = c.votes)
      (stays : StaysIn ((c.servers g.server).dead = false ∧ (c.servers g.server).serverState = .leader) g h) :
      Moves c d

theorem Moves.none (votes : d.votes = c.votes) (beats : d.beats = c.beats) : Moves c d :=
  .started (votes.trans (List.append_nil _).symm) (beats.trans (List.append_nil _).symm)

theorem loop_moves (moved : c.resetTimer i = some d ∨ c.checkTimer i = some d ∨
    c.sleepHeartBeats i = some d ∨ c.sendHeartBeats i = some d) : Moves c d := by
  obtain moved | moved | moved | moved := moved
  · simp only [resetTimer] at moved
    split at moved
    · split at moved <;> cases moved <;> exact .none rfl rfl
    · cases moved
  · simp only [checkTimer] at moved
    split at moved
    · split at moved <;> cases moved
      · exact .started rfl (List.append_nil _).symm
      · exact .none rfl rfl
    · cases moved
  · simp only [sleepHeartBeats] at moved
    split at moved <;> cases moved
    exact .none rfl rfl
  · simp only [sendHeartBeats] at moved
    split at moved
    · split at moved <;> cases moved
      · exact .started (List.append_nil _).symm rfl
      · exact .none rfl rfl
    · cases moved

theorem step_moves (moved : c.step e = some d) : Moves c d := by
  cases e with
  | resetTimer i => exact loop_moves (.inl moved)
  | checkTimer i => exact loop_moves (.inr (.inl moved))
  | sleepHeartBeats i => exact loop_moves (.inr (.inr (.inl moved)))
  | sendHeartBeats i => exact loop_moves (.inr (.inr (.inr moved)))
  | kill i => cases moved; exact .none rfl rfl
  | ask k | voteCallFails k =>
    simp only [step, voteEvent, Option.bind_eq_some_iff, Option.ite_none_right_eq_some] at moved
    obtain ⟨g, found, phase, moved⟩ := moved
    cases moved
    exact .vote found rfl rfl fun _ retrying => by simp [phase] at retrying
  | voteRetry k =>
    simp only [step, voteEvent, Option.bind_eq_some_iff, Option.ite_none_right_eq_some] at moved
    obtain ⟨g, found, phase, moved⟩ := moved
    cases moved
    exact .vote found rfl rfl fun alive _ => ⟨rfl, rfl, by simp [Goroutine.enter, alive]⟩
  | handleVote k =>
    simp only [step, voteEvent, Option.bind_eq_some_iff] at moved
    obtain ⟨g, found, moved⟩ := moved
    split at moved <;> cases moved
    exact .vote found rfl rfl fun _ retrying => ⟨rfl, rfl, retrying⟩
  | voteReply k =>
    simp only [step, voteEvent, Option.bind_eq_some_iff] at moved
    obtain ⟨g, found, moved⟩ := moved
    split at moved
    · next phase _ =>
      cases moved
      exact .vote found rfl rfl fun _ retrying => by simp [phase] at retrying
    · cases moved
  | beat k | beatCallFails k =>
    simp only [step, beatEvent, Option.bind_eq_some_iff, Option.ite_none_right_eq_some] at moved
    obtain ⟨g, found, phase, moved⟩ := moved
    cases moved
    exact .beat found rfl rfl fun _ retrying => by simp [phase] at retrying
  | beatRetry k =>
    simp only [step, beatEvent, Option.bind_eq_some_iff, Option.ite_none_right_eq_some] at moved
    obtain ⟨g, found, phase, moved⟩ := moved
    cases moved
    exact .beat found rfl rfl fun here _ => ⟨rfl, rfl, by simp [Goroutine.enter, here]⟩
  | handleBeat k =>
    simp only [step, beatEvent, Option.bind_eq_some_iff] at moved
    obtain ⟨g, found, moved⟩ := moved
    split at moved <;> cases moved
    exact .beat found rfl rfl fun _ retrying => ⟨rfl, rfl, retrying⟩
  | beatReply k =>
    simp only [step, beatEvent, Option.bind_eq_some_iff] at moved
    obtain ⟨g, found, moved⟩ := moved
    split at moved
    · next phase _ =>
      cases moved
      exact .beat found rfl rfl fun _ retrying => by simp [phase] at retrying
    · cases moved

theorem StaysIn.retrying {Args Reply : Type} {pool : List (Goroutine n Args Reply)}
    {g h : Goroutine n Args Reply} {j : Nat} {request : Option Args} (here : Fin n → Prop)
    (stays : StaysIn (here g.server) g h)
    (found : pool[j]? = some g) (retrying : Retrying pool k i request) (holds : here i) :
    Retrying (pool.set j h) k i request :=
  retrying.set found fun isOf asks phase => by
    subst isOf asks
    exact stays holds phase

theorem vote_retrying_step {request : Option (RequestVoteArgs n)} (moved : c.step e = some d)
    (alive : (c.servers i).dead = false) (retrying : Retrying c.votes k i request) :
    Retrying d.votes k i request := by
  cases step_moves moved with
  | started votesNow => exact votesNow ▸ retrying.append _
  | vote found votesNow _ stays =>
    exact votesNow ▸ stays.retrying (fun i => (c.servers i).dead = false) found retrying alive
  | beat _ _ votesNow => exact votesNow ▸ retrying

theorem beat_retrying_step {request : Option (AppendEntriesArgs n)} (moved : c.step e = some d)
    (leads : (c.servers i).dead = false ∧ (c.servers i).serverState = .leader)
    (retrying : Retrying c.beats k i request) : Retrying d.beats k i request := by
  cases step_moves moved with
  | started _ beatsNow => exact beatsNow ▸ retrying.append _
  | vote _ _ beatsNow => exact beatsNow ▸ retrying
  | beat found beatsNow _ stays =>
    exact beatsNow ▸ stays.retrying
      (fun i => (c.servers i).dead = false ∧ (c.servers i).serverState = .leader) found retrying leads

/-- A goroutine of `askForVote` whose call has failed makes no other call while its peer is alive. -/
theorem vote_retrying_run {request : Option (RequestVoteArgs n)} {taken : List (Taken (Cluster n) (Event n))}
    (run : Run step c taken d) (alive : AllMeet (fun s _ => (s.servers i).dead = false) taken)
    (retrying : Retrying c.votes k i request) : Retrying d.votes k i request :=
  @Run.invariant _ _ _ _ _ _ _ (fun s => Retrying s.votes k i request) run alive retrying
    fun _ _ _ retrying alive moved => vote_retrying_step moved alive retrying

/-- A heartbeat whose call has failed is not sent again while its peer is alive and leads. -/
theorem beat_retrying_run {request : Option (AppendEntriesArgs n)} {taken : List (Taken (Cluster n) (Event n))}
    (run : Run step c taken d)
    (leads : AllMeet (fun s _ => (s.servers i).dead = false ∧ (s.servers i).serverState = .leader) taken)
    (retrying : Retrying c.beats k i request) : Retrying d.beats k i request :=
  @Run.invariant _ _ _ _ _ _ _ (fun s => Retrying s.beats k i request) run leads retrying
    fun _ _ _ retrying leads moved => beat_retrying_step moved leads retrying

end Cluster

end Tda596Labs.Raft
