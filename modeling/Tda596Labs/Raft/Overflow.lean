import Tda596Labs.Raft.Ballot
import Tda596Labs.Raft.Leadership

/-! # The width of a term

`Cluster` counts terms without bound, the code in an `int` of 64 bits.  Only `currentTerm++` makes a term
that was not there before; everything else that is written to `currentTerm` was the term of some peer once.
So no term exceeds the number of election timers that have been checked, and as long as there are fewer than
the largest term, the code with its overflow goes through a run of `Cluster`.
-/

namespace Tda596Labs.Raft

open Tda596Labs.Transition

namespace Cluster

variable {n : Nat}

/-! ## The code with its overflow -/

/-- The second locked section of `checkElectionTimeout`, with the overflow of `currentTerm++`. -/
def checkTimerWrapped (c : Cluster n) (i : Fin n) : Option (Cluster n) :=
  match c.electionLoops i with
  | .sleeping currTerm =>
    let c := { c with electionLoops := Function.update c.electionLoops i .head }
    if (c.servers i).electionTimedOut currTerm then
      some ((c.setServer i (c.servers i).startElectionWrapped).askAllPeersForVote i)
    else some c
  | _ => none

def stepWrapped (c : Cluster n) : Event n → Option (Cluster n)
  | .checkTimer i => c.checkTimerWrapped i
  | e => c.step e

theorem stepWrapped_eq {c : Cluster n} (room : ∀ i, (c.servers i).currentTerm ≠ maxTerm) (e : Event n) :
    c.stepWrapped e = c.step e := by
  cases e with
  | checkTimer i =>
    have same := Server.startElectionWrapped_eq (room i)
    cases loop : c.electionLoops i <;> simp only [stepWrapped, step, checkTimerWrapped, checkTimer, loop, same]
  | _ => rfl

/-! ## Where terms come from -/

/-- No peer is in a term beyond the bound, and no request or refusal brings one. -/
structure TermsWithin (bound : Int) (c : Cluster n) : Prop where
  servers : ∀ i, (c.servers i).currentTerm ≤ bound
  votes : ∀ g ∈ c.votes, ∀ args ∈ g.request, args.candidateTerm ≤ bound
  beats : ∀ g ∈ c.beats, ∀ args ∈ g.request, args.leaderTerm ≤ bound
  refusals : ∀ g ∈ c.beats, ∀ reply ∈ g.reply, reply.success = false → reply.followersTerm ≤ bound

/-- The second locked section of `checkElectionTimeout` runs. -/
def checksTimer : Event n → Bool
  | .checkTimer _ => true
  | _ => false

namespace TermsWithin

variable {c d : Cluster n} {bound : Int} {e : Event n}

theorem init : TermsWithin 0 (init n) where
  servers _ := le_rfl
  votes _ listed := by cases listed
  beats _ listed := by cases listed
  refusals _ listed := by cases listed

theorem mono (within : TermsWithin bound c) {bound' : Int} (le : bound ≤ bound') : TermsWithin bound' c where
  servers i := (within.servers i).trans le
  votes g listed args asks := (within.votes g listed args asks).trans le
  beats g listed args asks := (within.beats g listed args asks).trans le
  refusals g listed reply answered refused := (within.refusals g listed reply answered refused).trans le

theorem servers_update (within : TermsWithin bound c) {j : Fin n} {rf : Server n}
    (servers : d.servers = Function.update c.servers j rf) (le : rf.currentTerm ≤ bound) (i : Fin n) :
    (d.servers i).currentTerm ≤ bound := by
  rw [servers]
  by_cases equal : i = j
  · rw [equal, Function.update_self]
    exact le
  · rw [Function.update_of_ne equal]
    exact within.servers i

theorem vote (within : TermsWithin bound c) {k : Nat} {g h : AskForVote n} (found : c.votes[k]? = some g)
    (turn : Turn c d Server.voteRequest Server.requestVote Server.countVote g h)
    (votes : d.votes = c.votes.set k h) (beats : d.beats = c.beats) : TermsWithin bound d := by
  have listed := List.mem_of_getElem? found
  refine ⟨?_, ?_, beats ▸ within.beats, beats ▸ within.refusals⟩
  · cases turn with
    | send _ _ servers | enter _ _ servers => exact servers ▸ within.servers
    | @answer args asks _ _ servers =>
      -- a vote, granted or not, leaves the voter in its own term or in that of the request
      refine within.servers_update servers ?_
      have requested := within.votes g listed args asks
      cases verdict : ((c.servers g.peer).requestVote args).2.voteGrandted with
      | true => exact (Server.requestVote_granted verdict).1.trans_le requested
      | false =>
        obtain same | ⟨_, adopted, _⟩ := Server.requestVote_refused verdict
        · rw [same]
          exact within.servers g.peer
        · exact adopted.trans_le requested
    | take _ _ _ servers =>
      refine within.servers_update servers ?_
      rw [(Server.countVote_effect _ _).2.1]
      exact within.servers g.server
  · refine votes ▸ Pool.forall_set within.votes fun args asks => ?_
    obtain ⟨_, _, same | fresh⟩ := turn.asks
    · exact within.votes g listed args (same ▸ asks)
    · rw [fresh, Option.mem_some_iff] at asks
      exact asks ▸ within.servers g.server

theorem beat (within : TermsWithin bound c) {k : Nat} {g h : SendHeartBeat n} (found : c.beats[k]? = some g)
    (turn : Turn c d Server.heartBeat Server.appendEntries Server.heartBeatAnswered g h)
    (votes : d.votes = c.votes) (beats : d.beats = c.beats.set k h) : TermsWithin bound d := by
  have listed := List.mem_of_getElem? found
  refine ⟨?_, votes ▸ within.votes, ?_, ?_⟩
  · cases turn with
    | send _ _ servers | enter _ _ servers => exact servers ▸ within.servers
    | answer asks _ _ servers =>
      -- a follower takes over the term of the heartbeat if it is newer
      refine within.servers_update servers ?_
      rw [appendEntries_term]
      exact max_le (within.servers g.peer) (within.beats g listed _ asks)
    | take _ answered _ servers =>
      -- a refusal is copied without a comparison
      refine within.servers_update servers ?_
      obtain ⟨_, _, _, same | ⟨refused, copied, _⟩⟩ := Server.heartBeatAnswered_effect (c.servers g.server) _
      · rw [same]
        exact within.servers g.server
      · exact copied.trans_le (within.refusals g listed _ answered refused)
  · refine beats ▸ Pool.forall_set within.beats fun args asks => ?_
    obtain ⟨_, _, same | fresh⟩ := turn.asks
    · exact within.beats g listed args (same ▸ asks)
    · rw [fresh, Option.mem_some_iff] at asks
      exact asks ▸ within.servers g.server
  · refine beats ▸ Pool.forall_set within.refusals fun reply answered refused => ?_
    have old : g.reply = some reply → reply.followersTerm ≤ bound := fun was =>
      within.refusals g listed reply was refused
    cases turn with
    | send _ sent =>
      rw [sent] at answered
      exact old answered
    | @answer args _ _ answers =>
      rw [answers] at answered
      cases answered
      rw [(appendEntries_reply (c.servers g.peer) args).1 refused]
      exact within.servers g.peer
    | enter _ entered =>
      rw [entered] at answered
      exact old answered
    | take _ _ ends =>
      rw [ends] at answered
      exact old answered

/-- Only a check of an election timer raises the bound. -/
theorem step (within : TermsWithin bound c) (moved : c.step e = some d) :
    TermsWithin (bound + if checksTimer e then 1 else 0) d := by
  have grows : bound ≤ bound + if checksTimer e then 1 else 0 := by
    split <;> omega
  cases step_change moved with
  | server servers votes beats =>
    refine mono ⟨fun i => ?_, votes ▸ within.votes, beats ▸ within.beats, beats ▸ within.refusals⟩ grows
    rw [(servers i).currentTerm]
    exact within.servers i
  | @election j _ _ _ servers votes beats =>
    have wide := within.mono grows
    refine ⟨wide.servers_update servers ?_, ?_, beats ▸ wide.beats, beats ▸ wide.refusals⟩
    · exact Int.add_le_add_right (within.servers j) 1
    · rw [votes]
      refine List.forall_mem_append.mpr ⟨wide.votes, fun g started args asks => ?_⟩
      obtain ⟨peer, _, rfl⟩ := List.mem_map.mp started
      cases asks
  | heartBeats servers votes beats =>
    refine mono ⟨servers ▸ within.servers, votes ▸ within.votes, ?_, ?_⟩ grows
    · rw [beats]
      refine List.forall_mem_append.mpr ⟨within.beats, fun g started args asks => ?_⟩
      rw [(mem_goAll started).2.2.1] at asks
      cases asks
    · rw [beats]
      refine List.forall_mem_append.mpr ⟨within.refusals, fun g started reply answered => ?_⟩
      rw [(mem_goAll started).2.2.2] at answered
      cases answered
  | vote found turn votes beats => exact (within.vote found turn votes beats).mono grows
  | beat found turn votes beats => exact (within.beat found turn votes beats).mono grows

end TermsWithin

/-! ## No overflow -/

/-- The election timers that were checked along a run. -/
def timersChecked (taken : List (Taken (Cluster n) (Event n))) : Nat := taken.countP (checksTimer ·.event)

theorem timersChecked_snoc (taken : List (Taken (Cluster n) (Event n))) (c d : Cluster n) (e : Event n) :
    (timersChecked (taken ++ [⟨c, e, d⟩]) : Int) = timersChecked taken + if checksTimer e then 1 else 0 := by
  unfold timersChecked
  rw [List.countP_append, List.countP_singleton]
  split <;> simp

/-- A run of the code, overflow included, in which fewer election timers are checked than there are terms is a
run of `Cluster`, and no term exceeds the number of checks. -/
theorem clusterRun_of_wrapped {taken : List (Taken (Cluster n) (Event n))} {final : Cluster n}
    (run : Run stepWrapped (init n) taken final) (few : (timersChecked taken : Int) < maxTerm) :
    ClusterRun n taken final ∧ TermsWithin (timersChecked taken) final := by
  induction run with
  | nil => exact ⟨.nil, .init⟩
  | @snoc taken c d e _ moved ih =>
    have count := timersChecked_snoc taken c d e
    have fewer : (timersChecked taken : Int) < maxTerm := by
      split at count <;> omega
    obtain ⟨reached, within⟩ := ih fewer
    -- no term has come to the last one, so that this step does not overflow
    have room : ∀ i, (c.servers i).currentTerm ≠ maxTerm := fun i =>
      ((within.servers i).trans_lt fewer).ne
    rw [stepWrapped_eq room] at moved
    exact ⟨reached.snoc moved, count ▸ within.step moved⟩

end Cluster

end Tda596Labs.Raft
