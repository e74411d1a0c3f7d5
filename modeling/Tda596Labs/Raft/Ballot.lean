import Tda596Labs.Raft.Cluster
import Mathlib.Algebra.Group.Int.Defs

/-! # The votes of one peer

One peer and whatever arrives at it: requests of any term, election timeouts, replies to its own requests.
A vote it gives is backed by `currentTerm` and `votedFor`, and a term that has passed does not come back.
What breaks this is the width of an `int`: a request may bring the largest term there is, and the
timeout after that wraps around to the smallest one.
-/

namespace Tda596Labs.Raft

open Tda596Labs.Transition

/-! ## Terms as machine integers -/

def minTerm : Int := -2 ^ 63

def maxTerm : Int := 2 ^ 63 - 1

/-- The values of an `int`. -/
def isTerm (term : Int) : Bool := minTerm ≤ term && term ≤ maxTerm

/-- `currentTerm++` -/
def nextTerm (term : Int) : Int := if term = maxTerm then minTerm else term + 1

/-- `startElection` with the overflow of `currentTerm++`. -/
def Server.startElectionWrapped {n : Nat} (rf : Server n) : Server n :=
  { rf.startElection with currentTerm := nextTerm rf.currentTerm }

theorem Server.startElectionWrapped_eq {n : Nat} {rf : Server n} (room : rf.currentTerm ≠ maxTerm) :
    rf.startElectionWrapped = rf.startElection := by
  simp [startElectionWrapped, nextTerm, room, startElection]

/-! ## One peer -/

/-- A peer with its loop `checkElectionTimeout`. -/
structure Voter (n : Nat) where
  server : Server n
  electionLoop : Loop Int

namespace Voter

variable {n : Nat}

inductive Event (n : Nat) where
  | requestVote (args : RequestVoteArgs n)
  | appendEntries (args : AppendEntriesArgs n)
  /-- the two locked sections of `checkElectionTimeout` -/
  | resetTimer
  | checkTimer
  /-- the end of an `askForVote` -/
  | voteReply (reply : RequestVoteReply)
  deriving DecidableEq, Repr

def make (me : Fin n) : Voter n := ⟨.make me, .head⟩

/-- The timer runs out in the second locked section. -/
def timesOut (v : Voter n) : Bool :=
  match v.electionLoop with
  | .sleeping currTerm => v.server.electionTimedOut currTerm
  | _ => false

def step (v : Voter n) : Event n → Option (Voter n)
  | .requestVote args =>
    if isTerm args.candidateTerm then some { v with server := (v.server.requestVote args).1 } else none
  | .appendEntries args =>
    if isTerm args.leaderTerm then some { v with server := (v.server.appendEntries args).1 } else none
  | .resetTimer =>
    match v.electionLoop with
    | .head =>
      if v.server.dead then some { v with electionLoop := .exited }
      else some ⟨v.server.resetElectionTimer, .sleeping v.server.currentTerm⟩
    | _ => none
  | .checkTimer =>
    match v.electionLoop with
    | .sleeping _ => some ⟨if v.timesOut then v.server.startElectionWrapped else v.server, .head⟩
    | _ => none
  | .voteReply reply => some { v with server := v.server.countVote reply }

/-- The vote that an event gives: its term and the candidate. -/
def voteOf (v : Voter n) : Event n → Option (Int × Fin n)
  | .requestVote args =>
    if (v.server.requestVote args).2.voteGrandted then some (args.candidateTerm, args.candidateId) else none
  | .checkTimer => if v.timesOut then some (nextTerm v.server.currentTerm, v.server.me) else none
  | _ => none

/-- No timer runs out in the last term. -/
def hasRoom (v : Voter n) : Event n → Bool
  | .checkTimer => !(v.timesOut && v.server.currentTerm = maxTerm)
  | _ => true

variable {v w : Voter n} {e : Event n} {term : Int} {candidate : Fin n}

/-! ## One step -/

/-- What a step without a vote does: the vote stays as long as the term does. -/
structure Keeps (v w : Voter n) : Prop where
  le : v.server.currentTerm ≤ w.server.currentTerm
  votedFor : v.server.currentTerm = w.server.currentTerm → w.server.votedFor = v.server.votedFor

/-- What a step with a vote does. -/
structure Casts (v w : Voter n) (term : Int) (candidate : Fin n) : Prop where
  currentTerm : w.server.currentTerm = term
  votedFor : w.server.votedFor = some candidate
  le : v.server.currentTerm ≤ term
  same : v.server.currentTerm = term → ∀ other, v.server.votedFor = some other → other = candidate

theorem Keeps.refl (v : Voter n) : Keeps v v := ⟨le_rfl, fun _ => rfl⟩

/-- In one step a peer casts the vote that the event gives, or keeps its vote. -/
theorem step_votes (room : hasRoom v e = true) (moved : step v e = some w) :
    (∃ term candidate, voteOf v e = some (term, candidate) ∧ Casts v w term candidate) ∨
      (voteOf v e = none ∧ Keeps v w) := by
  cases e with
  | requestVote args =>
    simp only [step, Option.ite_none_right_eq_some, Option.some.injEq] at moved
    obtain ⟨_, rfl⟩ := moved
    cases verdict : (v.server.requestVote args).2.voteGrandted with
    | true =>
      obtain ⟨isTerm, voted, _, le, same⟩ := Server.requestVote_granted verdict
      exact .inl ⟨_, _, by simp [voteOf, verdict], isTerm, voted, le, fun equal => (same equal).2⟩
    | false =>
      refine .inr ⟨by simp [voteOf, verdict], ?_⟩
      obtain unchanged | ⟨newer, isTerm, _⟩ := Server.requestVote_refused verdict
      · rw [unchanged]
        exact .refl v
      · refine ⟨by simp only; omega, fun same => ?_⟩
        simp only at same
        omega
  | appendEntries args =>
    simp only [step, Option.ite_none_right_eq_some, Option.some.injEq] at moved
    obtain ⟨_, rfl⟩ := moved
    obtain ⟨_, votedFor, _, ⟨isTerm, _⟩ | ⟨newer, _⟩⟩ := v.server.appendEntries_effect args
    · exact .inr ⟨rfl, isTerm.ge, fun _ => votedFor⟩
    · exact .inr ⟨rfl, newer.le, fun _ => votedFor⟩
  | resetTimer =>
    simp only [step] at moved
    split at moved
    · split at moved <;> cases moved <;> exact .inr ⟨rfl, le_rfl, fun _ => rfl⟩
    · cases moved
  | checkTimer =>
    simp only [step] at moved
    split at moved
    · obtain rfl := Option.some.inj moved
      cases out : v.timesOut with
      | false => exact .inr ⟨by simp [voteOf, out], by simp, fun _ => by simp⟩
      | true =>
        -- the new term is larger, so no vote has been given in it
        have below : v.server.currentTerm ≠ maxTerm := by simpa [hasRoom, out] using room
        have isNext : nextTerm v.server.currentTerm = v.server.currentTerm + 1 := if_neg below
        refine .inl ⟨v.server.currentTerm + 1, v.server.me, by simp [voteOf, out, isNext], ?_⟩
        rw [if_pos rfl, Server.startElectionWrapped_eq below]
        exact ⟨rfl, rfl, by omega, fun same => by omega⟩
    · cases moved
  | voteReply reply =>
    cases moved
    obtain ⟨_, isTerm, votedFor, _⟩ := v.server.countVote_effect reply
    exact .inr ⟨rfl, isTerm.ge, fun _ => votedFor⟩

/-! ## Runs -/

/-- The peer gave its vote of the term to the candidate. -/
def Gives (taken : List (Taken (Voter n) (Event n))) (term : Int) (candidate : Fin n) : Prop :=
  ∃ τ ∈ taken, voteOf τ.before τ.event = some (term, candidate)

/-- The votes given are backed by the state of the peer, and no two are for the same term. -/
structure Backed (taken : List (Taken (Voter n) (Event n))) (v : Voter n) : Prop where
  le : ∀ term candidate, Gives taken term candidate → term ≤ v.server.currentTerm
  votedFor : ∀ candidate, Gives taken v.server.currentTerm candidate → v.server.votedFor = some candidate
  unique : ∀ term a b, Gives taken term a → Gives taken term b → a = b

theorem not_gives_nil : ¬ Gives ([] : List (Taken (Voter n) (Event n))) term candidate := by simp [Gives]

theorem gives_snoc {taken : List (Taken (Voter n) (Event n))} :
    Gives (taken ++ [⟨v, e, w⟩]) term candidate ↔
      Gives taken term candidate ∨ voteOf v e = some (term, candidate) := by
  simp [Gives, or_and_right, exists_or]

theorem Backed.keeps {taken : List (Taken (Voter n) (Event n))} (backed : Backed taken v)
    (silent : voteOf v e = none) (keeps : Keeps v w) : Backed (taken ++ [⟨v, e, w⟩]) w := by
  have old : ∀ {term candidate}, Gives (taken ++ [⟨v, e, w⟩]) term candidate →
      Gives taken term candidate := by
    intro term candidate gives
    exact (gives_snoc.mp gives).resolve_right (by simp [silent])
  refine ⟨fun term candidate gives => (backed.le _ _ (old gives)).trans keeps.le, fun candidate gives => ?_,
    fun term a b first second => backed.unique term a b (old first) (old second)⟩
  -- a vote of the new term was given in it, so the term has not changed
  have same : v.server.currentTerm = w.server.currentTerm :=
    le_antisymm keeps.le (backed.le _ _ (old gives))
  rw [keeps.votedFor same]
  exact backed.votedFor candidate (same ▸ old gives)

theorem Backed.casts {taken : List (Taken (Voter n) (Event n))} (backed : Backed taken v)
    (votes : voteOf v e = some (term, candidate)) (casts : Casts v w term candidate) :
    Backed (taken ++ [⟨v, e, w⟩]) w := by
  -- an earlier vote of this term went to the same candidate
  have agrees : ∀ {other}, Gives (taken ++ [⟨v, e, w⟩]) term other → other = candidate := by
    intro other gives
    obtain earlier | now := gives_snoc.mp gives
    · have same : v.server.currentTerm = term := le_antisymm casts.le (backed.le _ _ earlier)
      exact casts.same same other (backed.votedFor other (same ▸ earlier))
    · rw [votes] at now
      cases now
      rfl
  have old : ∀ {past other}, past ≠ term → Gives (taken ++ [⟨v, e, w⟩]) past other →
      Gives taken past other := by
    intro past other different gives
    refine (gives_snoc.mp gives).resolve_right fun now => different ?_
    rw [votes] at now
    cases now
    rfl
  refine ⟨fun past other gives => ?_, fun other gives => ?_, fun past a b first second => ?_⟩
  · rw [casts.currentTerm]
    by_cases same : past = term
    · exact same.le
    · exact (backed.le _ _ (old same gives)).trans casts.le
  · rw [casts.currentTerm] at gives
    rw [agrees gives, casts.votedFor]
  · by_cases same : past = term
    · subst same
      exact (agrees first).trans (agrees second).symm
    · exact backed.unique past a b (old same first) (old same second)

variable {me : Fin n} {taken : List (Taken (Voter n) (Event n))} {final : Voter n}

theorem backed_of_run (run : Run step (make me) taken final)
    (room : AllMeet (fun v e => hasRoom v e = true) taken) : Backed taken final := by
  induction run with
  | nil =>
    exact ⟨fun _ _ gives => absurd gives not_gives_nil, fun _ gives => absurd gives not_gives_nil,
      fun _ _ _ gives => absurd gives not_gives_nil⟩
  | snoc _ moved ih =>
    have backed := ih room.earlier
    obtain ⟨_, _, votes, casts⟩ | ⟨silent, keeps⟩ := step_votes room.last moved
    · exact backed.casts votes casts
    · exact backed.keeps silent keeps

/-- A peer gives at most one vote in a term, in every run in which no timer runs out in the last term. -/
theorem one_vote_per_term (run : Run step (make me) taken final)
    (room : AllMeet (fun v e => hasRoom v e = true) taken) (term : Int) (a b : Fin n)
    (first : Gives taken term a) (second : Gives taken term b) : a = b :=
  (backed_of_run run room).unique term a b first second

/-- Two candidates ask for the vote of term 5, and the timer runs out. -/
def twoCandidates : List (Event 3) :=
  [.resetTimer, .requestVote ⟨5, 1, 0, 0⟩, .requestVote ⟨5, 2, 0, 0⟩, .checkTimer, .resetTimer, .checkTimer]

theorem one_vote_with_two_candidates :
    Gives (trace step (make 0) twoCandidates) 5 1 ∧ ¬ Gives (trace step (make 0) twoCandidates) 5 2 := by
  have first : Gives (trace step (make 0) twoCandidates) 5 1 := by
    unfold Gives
    decide
  refine ⟨first, fun second => ?_⟩
  have same := one_vote_per_term (run_trace step (make 0) twoCandidates) (by decide) 5 1 2 first second
  cases same

/-- A request of the last term, a timeout, and another request of the last term. -/
def lastTerm : List (Event 3) :=
  [.requestVote ⟨maxTerm, 1, 0, 0⟩, .resetTimer, .checkTimer, .requestVote ⟨maxTerm, 2, 0, 0⟩]

/-- The peer votes for both candidates of the last term. -/
theorem two_votes_in_last_term : ∃ taken final,
    Run step (make (0 : Fin 3)) taken final ∧ Gives taken maxTerm 1 ∧ Gives taken maxTerm 2 := by
  refine ⟨_, _, run_trace step (make 0) lastTerm, ?_, ?_⟩ <;> unfold Gives <;> decide

end Voter

end Tda596Labs.Raft
