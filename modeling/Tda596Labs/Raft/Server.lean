import Mathlib.Algebra.GroupWithZero.Nat
import Mathlib.Data.Fin.Basic
import Mathlib.Tactic.Common

/-! # One Raft peer

The state of a `Raft` object of `raft.go` and the sections of its code that run under `rf.mu`, each as
a function of the state.  The cluster has `n` peers, so `len(peers)` is `n`, a peer index is a
`Fin n`, a `Term` is an `Int`, and the `-1` of `votedFor` is `none`.
-/

namespace Tda596Labs.Raft

inductive ServerState where
  | follower
  | candidate
  | leader
deriving DecidableEq, Repr

structure LogEntry where
  command : Int
  logTerm : Int
  logIndex : Int
deriving DecidableEq, Repr

/-- The fields of `Raft` that the code reads or writes after `Make`. -/
structure Server (n : Nat) where
  me : Fin n
  dead : Bool
  hasReceivedHeartbeat : Bool
  serverState : ServerState
  currentTerm : Int
  receivedVotes : Nat
  votedFor : Option (Fin n)
  log : List LogEntry
  commitIndex : Int
  lastApplied : Int
  nextIndex : Fin n → Int

structure RequestVoteArgs (n : Nat) where
  candidateTerm : Int
  candidateId : Fin n
  lastLogIndex : Int
  lastLogTerm : Int
deriving DecidableEq, Repr

structure RequestVoteReply where
  responseTerm : Int
  voteGrandted : Bool
deriving DecidableEq, Repr

structure AppendEntriesArgs (n : Nat) where
  leaderTerm : Int
  leaderId : Fin n
  prevLogIndex : Int
  prevLogTerm : Int
  entries : List LogEntry
  leaderCommitIndex : Int
deriving DecidableEq, Repr

structure AppendEntriesReply where
  followersTerm : Int
  success : Bool
deriving DecidableEq, Repr

namespace Server

variable {n : Nat}

/-- `Make`: the state a peer starts with. -/
def make (me : Fin n) : Server n where
  me := me
  dead := false
  hasReceivedHeartbeat := false
  serverState := .follower
  currentTerm := 0
  receivedVotes := 0
  votedFor := none
  log := [⟨0, 0, 0⟩]
  commitIndex := 0
  lastApplied := 0
  nextIndex := fun _ => 0

def stepDown (rf : Server n) : Server n := { rf with serverState := .follower }

/-! ## RPC handlers -/

/-- The part of `RequestVote` that a request of a newer term runs first. -/
def adoptCandidateTerm (rf : Server n) (args : RequestVoteArgs n) : Server n :=
  if args.candidateTerm > rf.currentTerm then
    -- a candidate that adopts the term stays a candidate
    let rf := { rf with votedFor := none, receivedVotes := 0, currentTerm := args.candidateTerm }
    if rf.serverState = .leader then rf.stepDown else rf
  else rf

/-- `RequestVote`.  A granted reply leaves `ResponseTerm` at its zero value, as the code does. -/
def requestVote (rf : Server n) (args : RequestVoteArgs n) : Server n × RequestVoteReply :=
  if args.candidateTerm < rf.currentTerm then
    (rf, { responseTerm := rf.currentTerm, voteGrandted := false })
  else
    let rf := rf.adoptCandidateTerm args
    -- `nextIndex` is never written, so this holds for every candidate whose index is at least -1
    let logUpToDate := args.lastLogIndex ≥ rf.nextIndex args.candidateId - 1
    if (rf.votedFor = none ∨ rf.votedFor = some args.candidateId) ∧ logUpToDate then
      -- the voter becomes a follower without counting as having heard a heartbeat
      ({ rf with votedFor := some args.candidateId, currentTerm := args.candidateTerm,
                 serverState := .follower },
        { responseTerm := 0, voteGrandted := true })
    else (rf, { responseTerm := rf.currentTerm, voteGrandted := false })

/-- `AppendEntries`.  A newer term is adopted without touching `votedFor` or `receivedVotes`. -/
def appendEntries (rf : Server n) (args : AppendEntriesArgs n) : Server n × AppendEntriesReply :=
  if args.leaderTerm < rf.currentTerm then
    (rf, { followersTerm := rf.currentTerm, success := false })
  else
    let rf := if args.leaderTerm > rf.currentTerm then
        let rf := { rf with currentTerm := args.leaderTerm }
        if rf.serverState = .leader then rf.stepDown else rf
      else rf
    ({ rf with hasReceivedHeartbeat := true }, { followersTerm := 0, success := true })

/-! ## Election timeout -/

/-- The first locked section of `checkElectionTimeout`; the loop remembers `currentTerm` itself. -/
def resetElectionTimer (rf : Server n) : Server n := { rf with hasReceivedHeartbeat := false }

/-- The test of the second locked section, for the term remembered before the sleep. -/
def electionTimedOut (rf : Server n) (currTerm : Int) : Bool :=
  rf.serverState ≠ .leader && !rf.hasReceivedHeartbeat && currTerm = rf.currentTerm

/-- What the second locked section does when the test succeeds. -/
def startElection (rf : Server n) : Server n :=
  { rf with receivedVotes := 1, currentTerm := rf.currentTerm + 1, votedFor := some rf.me,
            serverState := .candidate }

/-! ## The two kinds of RPC goroutine -/

/-- The request that `askForVote` builds from the state it finds when it runs. -/
def voteRequest (rf : Server n) : RequestVoteArgs n where
  candidateTerm := rf.currentTerm
  candidateId := rf.me
  lastLogIndex := rf.commitIndex
  lastLogTerm := rf.lastApplied

/-- The end of `askForVote`, once a reply has arrived. -/
def countVote (rf : Server n) (reply : RequestVoteReply) : Server n :=
  if reply.voteGrandted then
    let rf := { rf with receivedVotes := rf.receivedVotes + 1 }
    -- neither the term of the vote nor the candidacy is looked at again
    if rf.receivedVotes > n / 2 ∧ rf.serverState ≠ .leader then
      { rf with serverState := .leader }
    else rf
  else rf

/-- The request of `sendHeartBeatToPeer`.  The log holds its initial entry at `commitIndex`. -/
def heartBeat (rf : Server n) : AppendEntriesArgs n where
  leaderTerm := rf.currentTerm
  leaderId := rf.me
  prevLogIndex := rf.commitIndex
  prevLogTerm := ((rf.log[rf.commitIndex.toNat]?).map LogEntry.logTerm).getD 0
  entries := []
  leaderCommitIndex := rf.commitIndex

/-- The end of `sendHeartBeatToPeer`, once a reply has arrived. -/
def heartBeatAnswered (rf : Server n) (reply : AppendEntriesReply) : Server n :=
  if reply.success then rf
  else
    -- the term is copied whether or not it is the larger one
    let rf := { rf with currentTerm := reply.followersTerm }
    if rf.serverState = .leader then rf.stepDown else rf

/-! ## What each section does to a peer

The proofs about the cluster use these lemmas and do not unfold the sections again. -/

@[simp] theorem make_serverState (i : Fin n) : (make i).serverState = .follower := rfl

theorem adoptCandidateTerm_old {rf : Server n} {args : RequestVoteArgs n}
    (old : args.candidateTerm ≤ rf.currentTerm) : rf.adoptCandidateTerm args = rf := by
  simp [adoptCandidateTerm, not_lt.mpr old]

theorem adoptCandidateTerm_new {rf : Server n} {args : RequestVoteArgs n}
    (new : rf.currentTerm < args.candidateTerm) :
    (rf.adoptCandidateTerm args).currentTerm = args.candidateTerm ∧
      (rf.adoptCandidateTerm args).votedFor = none ∧
      (rf.adoptCandidateTerm args).receivedVotes = 0 ∧
      (rf.adoptCandidateTerm args).me = rf.me ∧
      (rf.adoptCandidateTerm args).serverState ≠ .leader := by
  unfold adoptCandidateTerm stepDown
  rw [if_pos new]
  dsimp only
  split <;> simp_all

@[simp] theorem requestVote_me (rf : Server n) (args : RequestVoteArgs n) :
    (rf.requestVote args).1.me = rf.me := by
  unfold requestVote adoptCandidateTerm stepDown
  split
  · rfl
  · dsimp only
    split <;> split <;> (try split) <;> rfl

/-- A granted vote is cast for the request's own term, by a peer that was at most in that term and, if
it was in it, had not voted for somebody else. -/
theorem requestVote_granted {rf : Server n} {args : RequestVoteArgs n}
    (granted : (rf.requestVote args).2.voteGrandted = true) :
    (rf.requestVote args).1.currentTerm = args.candidateTerm ∧
      (rf.requestVote args).1.votedFor = some args.candidateId ∧
      (rf.requestVote args).1.serverState = .follower ∧
      rf.currentTerm ≤ args.candidateTerm ∧
      (rf.currentTerm = args.candidateTerm →
        (rf.requestVote args).1.receivedVotes = rf.receivedVotes ∧
          ∀ other, rf.votedFor = some other → other = args.candidateId) := by
  unfold requestVote at granted ⊢
  split at granted
  · simp at granted
  · rename_i notOlder
    rw [if_neg notOlder]
    dsimp only at granted ⊢
    split at granted
    · rename_i vote
      rw [if_pos vote]
      refine ⟨rfl, rfl, rfl, by omega, fun same => ?_⟩
      -- in its own term the peer votes with the vote it already has, if any
      rw [adoptCandidateTerm_old same.ge] at vote ⊢
      refine ⟨rfl, fun other voted => ?_⟩
      rcases vote.1 with unset | equal
      · simp [voted] at unset
      · exact Option.some.inj (voted.symm.trans equal)
    · simp at granted

/-- A refused request changes nothing in the same term; in a newer term it only clears the vote. -/
theorem requestVote_refused {rf : Server n} {args : RequestVoteArgs n}
    (refused : (rf.requestVote args).2.voteGrandted = false) :
    (rf.requestVote args).1 = rf ∨
      (rf.currentTerm < args.candidateTerm ∧
        (rf.requestVote args).1.currentTerm = args.candidateTerm ∧
        (rf.requestVote args).1.serverState ≠ .leader) := by
  unfold requestVote at refused ⊢
  split at refused
  · rename_i older
    rw [if_pos older]
    exact .inl rfl
  · rename_i notOlder
    rw [if_neg notOlder]
    dsimp only at refused ⊢
    split at refused
    · simp at refused
    · rename_i noVote
      rw [if_neg noVote]
      rcases lt_or_ge rf.currentTerm args.candidateTerm with newer | old
      · have adopted := adoptCandidateTerm_new newer
        exact .inr ⟨newer, adopted.1, adopted.2.2.2.2⟩
      · exact .inl (adoptCandidateTerm_old old)

theorem requestVote_term_le (rf : Server n) (args : RequestVoteArgs n) :
    rf.currentTerm ≤ (rf.requestVote args).1.currentTerm := by
  cases verdict : (rf.requestVote args).2.voteGrandted with
  | true =>
    obtain ⟨term, _, _, le, _⟩ := requestVote_granted verdict
    omega
  | false =>
    rcases requestVote_refused verdict with same | ⟨newer, term, _⟩
    · rw [same]
    · omega

/-- A request that leaves the term alone leaves the count of votes alone. -/
theorem requestVote_receivedVotes {rf : Server n} {args : RequestVoteArgs n}
    (sameTerm : (rf.requestVote args).1.currentTerm = rf.currentTerm) :
    (rf.requestVote args).1.receivedVotes = rf.receivedVotes := by
  cases verdict : (rf.requestVote args).2.voteGrandted with
  | true =>
    obtain ⟨term, _, _, _, unchanged⟩ := requestVote_granted verdict
    exact (unchanged (by omega)).1
  | false =>
    obtain same | ⟨newer, term, _⟩ := requestVote_refused verdict
    · rw [same]
    · omega

/-- `AppendEntries` keeps the vote and the count; it leaves the term alone or raises it, and no leader
survives a raise. -/
theorem appendEntries_effect (rf : Server n) (args : AppendEntriesArgs n) :
    (rf.appendEntries args).1.me = rf.me ∧
      (rf.appendEntries args).1.votedFor = rf.votedFor ∧
      (rf.appendEntries args).1.receivedVotes = rf.receivedVotes ∧
      (((rf.appendEntries args).1.currentTerm = rf.currentTerm ∧
          (rf.appendEntries args).1.serverState = rf.serverState) ∨
        (rf.currentTerm < (rf.appendEntries args).1.currentTerm ∧
          (rf.appendEntries args).1.serverState ≠ .leader)) := by
  unfold appendEntries stepDown
  split
  · simp
  · dsimp only
    split
    · split <;> simp_all
    · simp

theorem heartBeatAnswered_effect (rf : Server n) (reply : AppendEntriesReply) :
    (rf.heartBeatAnswered reply).me = rf.me ∧
      (rf.heartBeatAnswered reply).votedFor = rf.votedFor ∧
      (rf.heartBeatAnswered reply).receivedVotes = rf.receivedVotes ∧
      (rf.heartBeatAnswered reply = rf ∨
        (reply.success = false ∧
          (rf.heartBeatAnswered reply).currentTerm = reply.followersTerm ∧
          (rf.heartBeatAnswered reply).serverState ≠ .leader)) := by
  unfold heartBeatAnswered stepDown
  split
  · simp
  · dsimp only
    split <;> simp_all

theorem countVote_effect (rf : Server n) (reply : RequestVoteReply) :
    (rf.countVote reply).me = rf.me ∧
      (rf.countVote reply).currentTerm = rf.currentTerm ∧
      (rf.countVote reply).votedFor = rf.votedFor ∧
      (rf.countVote reply).receivedVotes =
        rf.receivedVotes + (if reply.voteGrandted then 1 else 0) ∧
      ((rf.countVote reply).serverState = rf.serverState ∨
        (reply.voteGrandted = true ∧ rf.serverState ≠ .leader ∧ n / 2 < rf.receivedVotes + 1)) := by
  unfold countVote
  split
  · dsimp only
    split <;> simp_all
  · simp_all

end Server

end Tda596Labs.Raft
