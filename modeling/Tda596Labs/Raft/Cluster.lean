import Tda596Labs.Lib.Transition
import Tda596Labs.Raft.Server
import Mathlib.Logic.Function.Basic
import Mathlib.Data.List.FinRange

/-! # A cluster of Raft peers

Every peer runs `checkElectionTimeout` and `leaderSendHeartBeats`; both start goroutines that make one
RPC each.  A goroutine outlives the election or the tick that started it, and its request and its
reply may be delayed, reordered or lost without bound.  Each section of code between two
acquisitions of `rf.mu` is one event.
-/

namespace Tda596Labs.Raft

open Tda596Labs.Transition

/-! ## Goroutines that make one RPC

`askForVote` and `sendHeartBeatToPeer` have the same life: a locked section builds the request, one
`Call` carries it, and a last locked section uses the reply.  When `Call` returns false the retry loop
turns without ever calling again, because the loop has no post statement. -/

inductive Phase where
  | ready
  | calling
  | retrying
  | returned
deriving DecidableEq, Repr

/-- `startTerm` is the term in which the `go` statement ran.  The code does not keep it. -/
structure Goroutine (n : Nat) (Args Reply : Type) where
  server : Fin n
  peer : Fin n
  startTerm : Int
  phase : Phase
  request : Option Args
  reply : Option Reply

namespace Goroutine

variable {n : Nat} {Args Reply : Type}

def start (server : Fin n) (startTerm : Int) (peer : Fin n) : Goroutine n Args Reply :=
  ⟨server, peer, startTerm, .ready, none, none⟩

def send (g : Goroutine n Args Reply) (args : Args) : Goroutine n Args Reply :=
  { g with phase := .calling, request := some args }

def answer (g : Goroutine n Args Reply) (reply : Reply) : Goroutine n Args Reply :=
  { g with reply := some reply }

def enter (g : Goroutine n Args Reply) (phase : Phase) : Goroutine n Args Reply :=
  { g with phase := phase }

end Goroutine

abbrev AskForVote (n : Nat) := Goroutine n (RequestVoteArgs n) RequestVoteReply
abbrev SendHeartBeat (n : Nat) := Goroutine n (AppendEntriesArgs n) AppendEntriesReply

/-- Where a `for !rf.killed()` loop stands, with what it remembers while it sleeps. -/
inductive Loop (α : Type) where
  | head
  | sleeping (remembered : α)
  | exited
deriving DecidableEq, Repr

structure Cluster (n : Nat) where
  servers : Fin n → Server n
  electionLoops : Fin n → Loop Int
  heartBeatLoops : Fin n → Loop Unit
  votes : List (AskForVote n)
  beats : List (SendHeartBeat n)

inductive Event (n : Nat) where
  /-- first locked section of `checkElectionTimeout` -/
  | resetTimer (i : Fin n)
  /-- second locked section of `checkElectionTimeout` -/
  | checkTimer (i : Fin n)
  | sleepHeartBeats (i : Fin n)
  | sendHeartBeats (i : Fin n)
  | kill (i : Fin n)
  | ask (k : Nat)
  | handleVote (k : Nat)
  | voteCallFails (k : Nat)
  | voteRetry (k : Nat)
  | voteReply (k : Nat)
  | beat (k : Nat)
  | handleBeat (k : Nat)
  | beatCallFails (k : Nat)
  | beatRetry (k : Nat)
  | beatReply (k : Nat)
deriving DecidableEq, Repr

namespace Cluster

variable {n : Nat}

/-- All peers as `Make` leaves them. -/
def init (n : Nat) : Cluster n where
  servers := Server.make
  electionLoops := fun _ => .head
  heartBeatLoops := fun _ => .head
  votes := []
  beats := []

def setServer (c : Cluster n) (i : Fin n) (rf : Server n) : Cluster n :=
  { c with servers := Function.update c.servers i rf }

/-- One goroutine for every peer but `i`, in the order of `rf.peers`. -/
def goAll {Args Reply : Type} (c : Cluster n) (i : Fin n) : List (Goroutine n Args Reply) :=
  ((List.finRange n).filter (· ≠ i)).map (Goroutine.start i (c.servers i).currentTerm)

/-- `askAllPeersForVote` -/
def askAllPeersForVote (c : Cluster n) (i : Fin n) : Cluster n :=
  { c with votes := c.votes ++ c.goAll i }

/-- `sendHeartBeatToAllPeers` -/
def sendHeartBeatToAllPeers (c : Cluster n) (i : Fin n) : Cluster n :=
  { c with beats := c.beats ++ c.goAll i }

def setVote (c : Cluster n) (k : Nat) (g : AskForVote n) : Cluster n :=
  { c with votes := c.votes.set k g }

def setBeat (c : Cluster n) (k : Nat) (g : SendHeartBeat n) : Cluster n :=
  { c with beats := c.beats.set k g }

def resetTimer (c : Cluster n) (i : Fin n) : Option (Cluster n) :=
  match c.electionLoops i with
  | .head =>
    if (c.servers i).dead then
      some { c with electionLoops := Function.update c.electionLoops i .exited }
    else
      some { c.setServer i (c.servers i).resetElectionTimer with
        electionLoops := Function.update c.electionLoops i (.sleeping (c.servers i).currentTerm) }
  | _ => none

def checkTimer (c : Cluster n) (i : Fin n) : Option (Cluster n) :=
  match c.electionLoops i with
  | .sleeping currTerm =>
    -- the loop asks `killed` again only at its head, so a killed peer may still start an election
    let c := { c with electionLoops := Function.update c.electionLoops i .head }
    if (c.servers i).electionTimedOut currTerm then
      some ((c.setServer i (c.servers i).startElection).askAllPeersForVote i)
    else some c
  | _ => none

def sleepHeartBeats (c : Cluster n) (i : Fin n) : Option (Cluster n) :=
  match c.heartBeatLoops i with
  | .head =>
    let next := if (c.servers i).dead then .exited else .sleeping ()
    some { c with heartBeatLoops := Function.update c.heartBeatLoops i next }
  | _ => none

def sendHeartBeats (c : Cluster n) (i : Fin n) : Option (Cluster n) :=
  match c.heartBeatLoops i with
  | .sleeping () =>
    -- the peer may have become or ceased to be the leader while the loop slept
    let c := { c with heartBeatLoops := Function.update c.heartBeatLoops i .head }
    if (c.servers i).serverState = .leader then some (c.sendHeartBeatToAllPeers i) else some c
  | _ => none

/-- The `k`-th event of a goroutine of `askForVote`. -/
def voteEvent (c : Cluster n) (k : Nat) (act : AskForVote n → Option (Cluster n)) :
    Option (Cluster n) :=
  (c.votes[k]?).bind act

def beatEvent (c : Cluster n) (k : Nat) (act : SendHeartBeat n → Option (Cluster n)) :
    Option (Cluster n) :=
  (c.beats[k]?).bind act

def step (c : Cluster n) : Event n → Option (Cluster n)
  | .resetTimer i => c.resetTimer i
  | .checkTimer i => c.checkTimer i
  | .sleepHeartBeats i => c.sleepHeartBeats i
  | .sendHeartBeats i => c.sendHeartBeats i
  | .kill i => some (c.setServer i { c.servers i with dead := true })
  | .ask k => c.voteEvent k fun g =>
    if g.phase = .ready then some (c.setVote k (g.send (c.servers g.server).voteRequest)) else none
  | .handleVote k => c.voteEvent k fun g =>
    match g.request, g.reply with
    | some args, none =>
      -- a request is handled at most once, also after the caller has given up on it
      let (rf, reply) := (c.servers g.peer).requestVote args
      some ((c.setServer g.peer rf).setVote k (g.answer reply))
    | _, _ => none
  | .voteCallFails k => c.voteEvent k fun g =>
    if g.phase = .calling then some (c.setVote k (g.enter .retrying)) else none
  | .voteRetry k => c.voteEvent k fun g =>
    if g.phase = .retrying then
      some (c.setVote k (g.enter (if (c.servers g.server).dead then .returned else .retrying)))
    else none
  | .voteReply k => c.voteEvent k fun g =>
    match g.phase, g.reply with
    -- the answer to a call that has failed is never read
    | .calling, some reply =>
      some ((c.setServer g.server ((c.servers g.server).countVote reply)).setVote k
        (g.enter .returned))
    | _, _ => none
  | .beat k => c.beatEvent k fun g =>
    if g.phase = .ready then some (c.setBeat k (g.send (c.servers g.server).heartBeat)) else none
  | .handleBeat k => c.beatEvent k fun g =>
    match g.request, g.reply with
    | some args, none =>
      let (rf, reply) := (c.servers g.peer).appendEntries args
      some ((c.setServer g.peer rf).setBeat k (g.answer reply))
    | _, _ => none
  | .beatCallFails k => c.beatEvent k fun g =>
    if g.phase = .calling then some (c.setBeat k (g.enter .retrying)) else none
  | .beatRetry k => c.beatEvent k fun g =>
    if g.phase = .retrying then
      -- unlike `askForVote`, this loop also ends when the peer no longer leads
      let gone := (c.servers g.server).dead ∨ (c.servers g.server).serverState ≠ .leader
      some (c.setBeat k (g.enter (if gone then .returned else .retrying)))
    else none
  | .beatReply k => c.beatEvent k fun g =>
    match g.phase, g.reply with
    | .calling, some reply =>
      some ((c.setServer g.server ((c.servers g.server).heartBeatAnswered reply)).setBeat k
        (g.enter .returned))
    | _, _ => none

abbrev ClusterRun (n : Nat) := Run (step (n := n)) (init n)

/-! ## What a step can do to an election

Every invariant below is about the fields of a peer that an election reads and about the goroutines
of `askForVote`.  `Effect` says once, for every event, how a step moves these. -/

/-- The two states of a peer agree on everything an election reads. -/
structure SameBallot (rf rf' : Server n) : Prop where
  me : rf'.me = rf.me
  currentTerm : rf'.currentTerm = rf.currentTerm
  votedFor : rf'.votedFor = rf.votedFor
  receivedVotes : rf'.receivedVotes = rf.receivedVotes
  serverState : rf'.serverState = rf.serverState

inductive Effect (c d : Cluster n) : Event n → Prop where
  | quiet {e : Event n} (servers : ∀ i, SameBallot (c.servers i) (d.servers i))
      (votes : d.votes = c.votes) (other : ∀ k, e ≠ .beatReply k) : Effect c d e
  | election {i : Fin n} (servers : d.servers = Function.update c.servers i (c.servers i).startElection)
      (votes : d.votes = c.votes ++
        ((List.finRange n).filter (· ≠ i)).map (Goroutine.start i ((c.servers i).currentTerm + 1))) :
      Effect c d (.checkTimer i)
  | ask {k : Nat} {g : AskForVote n} (found : c.votes[k]? = some g) (ready : g.phase = .ready)
      (servers : d.servers = c.servers)
      (votes : d.votes = c.votes.set k (g.send (c.servers g.server).voteRequest)) :
      Effect c d (.ask k)
  | phase {e : Event n} {k : Nat} {g : AskForVote n} {phase : Phase} (found : c.votes[k]? = some g)
      (sent : g.phase ≠ .ready) (open_ : g.phase ≠ .returned) (next : phase ≠ .ready)
      (servers : d.servers = c.servers)
      (votes : d.votes = c.votes.set k (g.enter phase)) (other : ∀ k, e ≠ .beatReply k) :
      Effect c d e
  | handleVote {k : Nat} {g : AskForVote n} {args : RequestVoteArgs n} (found : c.votes[k]? = some g)
      (request : g.request = some args) (unanswered : g.reply = none)
      (servers : d.servers = Function.update c.servers g.peer ((c.servers g.peer).requestVote args).1)
      (votes : d.votes = c.votes.set k (g.answer ((c.servers g.peer).requestVote args).2)) :
      Effect c d (.handleVote k)
  | voteReply {k : Nat} {g : AskForVote n} {reply : RequestVoteReply} (found : c.votes[k]? = some g)
      (waiting : g.phase = .calling) (answered : g.reply = some reply)
      (servers : d.servers = Function.update c.servers g.server ((c.servers g.server).countVote reply))
      (votes : d.votes = c.votes.set k (g.enter .returned)) : Effect c d (.voteReply k)
  | handleBeat {k : Nat} {g : SendHeartBeat n} {args : AppendEntriesArgs n}
      (servers : d.servers = Function.update c.servers g.peer ((c.servers g.peer).appendEntries args).1)
      (votes : d.votes = c.votes) : Effect c d (.handleBeat k)
  | beatReply {k : Nat} {g : SendHeartBeat n} {reply : AppendEntriesReply}
      (found : c.beats[k]? = some g) (answered : g.reply = some reply)
      (servers : d.servers =
        Function.update c.servers g.server ((c.servers g.server).heartBeatAnswered reply))
      (votes : d.votes = c.votes) : Effect c d (.beatReply k)

theorem sameBallot_of_servers_eq {c d : Cluster n} (same : d.servers = c.servers) (i : Fin n) :
    SameBallot (c.servers i) (d.servers i) := by
  rw [same]
  exact ⟨rfl, rfl, rfl, rfl, rfl⟩

theorem sameBallot_update {c d : Cluster n} {i : Fin n} {rf : Server n}
    (servers : d.servers = Function.update c.servers i rf) (same : SameBallot (c.servers i) rf)
    (j : Fin n) : SameBallot (c.servers j) (d.servers j) := by
  rw [servers]
  by_cases equal : j = i
  · subst equal
    simpa using same
  · simp only [Function.update_of_ne equal]
    exact ⟨rfl, rfl, rfl, rfl, rfl⟩

theorem goAll_setServer {Args Reply : Type} (c : Cluster n) (i : Fin n) (rf : Server n) :
    ((c.setServer i rf).goAll i : List (Goroutine n Args Reply)) =
      ((List.finRange n).filter (· ≠ i)).map (Goroutine.start i rf.currentTerm) := by
  simp [goAll, setServer]

theorem checkTimer_effect {c d : Cluster n} {i : Fin n} (moved : c.checkTimer i = some d) :
    Effect c d (.checkTimer i) := by
  simp only [checkTimer] at moved
  split at moved
  · split at moved
    · cases moved
      refine .election rfl ?_
      simp only [askAllPeersForVote, goAll_setServer]
      rfl
    · cases moved
      exact .quiet (sameBallot_of_servers_eq rfl) rfl (by simp)
  · cases moved

theorem resetTimer_effect {c d : Cluster n} {i : Fin n} (moved : c.resetTimer i = some d) :
    Effect c d (.resetTimer i) := by
  simp only [resetTimer] at moved
  split at moved
  · split at moved
    · cases moved
      exact .quiet (sameBallot_of_servers_eq rfl) rfl (by simp)
    · cases moved
      exact .quiet (sameBallot_update rfl ⟨rfl, rfl, rfl, rfl, rfl⟩) rfl (by simp)
  · cases moved

theorem heartBeatLoop_effect {c d : Cluster n} {i : Fin n}
    (moved : c.sleepHeartBeats i = some d ∨ c.sendHeartBeats i = some d) :
    d.servers = c.servers ∧ d.votes = c.votes := by
  obtain slept | sent := moved
  · simp only [sleepHeartBeats] at slept
    split at slept
    · cases slept
      exact ⟨rfl, rfl⟩
    · cases slept
  · simp only [sendHeartBeats] at sent
    split at sent
    · split at sent
      · cases sent
        exact ⟨rfl, rfl⟩
      · cases sent
        exact ⟨rfl, rfl⟩
    · cases sent

/-- Every step has one of the effects above. -/
theorem step_effect {c d : Cluster n} {e : Event n} (moved : c.step e = some d) : Effect c d e := by
  cases e with
  | resetTimer i => exact resetTimer_effect moved
  | checkTimer i => exact checkTimer_effect moved
  | sleepHeartBeats i =>
    obtain ⟨servers, votes⟩ := heartBeatLoop_effect (.inl moved)
    exact .quiet (sameBallot_of_servers_eq servers) votes (by simp)
  | sendHeartBeats i =>
    obtain ⟨servers, votes⟩ := heartBeatLoop_effect (.inr moved)
    exact .quiet (sameBallot_of_servers_eq servers) votes (by simp)
  | kill i =>
    cases moved
    exact .quiet (sameBallot_update rfl ⟨rfl, rfl, rfl, rfl, rfl⟩) rfl (by simp)
  | ask k =>
    simp only [step, voteEvent, Option.bind_eq_some_iff, Option.ite_none_right_eq_some] at moved
    obtain ⟨g, found, ready, moved⟩ := moved
    cases moved
    exact .ask found ready rfl rfl
  | handleVote k =>
    simp only [step, voteEvent, Option.bind_eq_some_iff] at moved
    obtain ⟨g, found, moved⟩ := moved
    split at moved
    · next request unanswered =>
      cases moved
      exact .handleVote found request unanswered rfl rfl
    · cases moved
  | voteCallFails k =>
    simp only [step, voteEvent, Option.bind_eq_some_iff, Option.ite_none_right_eq_some] at moved
    obtain ⟨g, found, calling, moved⟩ := moved
    cases moved
    exact .phase found (by simp [calling]) (by simp [calling]) (by simp) rfl rfl (by simp)
  | voteRetry k =>
    simp only [step, voteEvent, Option.bind_eq_some_iff, Option.ite_none_right_eq_some] at moved
    obtain ⟨g, found, retrying, moved⟩ := moved
    cases moved
    exact .phase found (by simp [retrying]) (by simp [retrying]) (by split <;> simp) rfl rfl (by simp)
  | voteReply k =>
    simp only [step, voteEvent, Option.bind_eq_some_iff] at moved
    obtain ⟨g, found, moved⟩ := moved
    split at moved
    · next waiting answered =>
      cases moved
      exact .voteReply found waiting answered rfl rfl
    · cases moved
  | beat k | beatCallFails k | beatRetry k =>
    -- A heartbeat that is sent, fails or is tried again changes no peer and no goroutine of `askForVote`.
    simp only [step, beatEvent, Option.bind_eq_some_iff, Option.ite_none_right_eq_some] at moved
    obtain ⟨g, _, _, moved⟩ := moved
    cases moved
    exact .quiet (sameBallot_of_servers_eq rfl) rfl (by simp)
  | handleBeat k =>
    simp only [step, beatEvent, Option.bind_eq_some_iff] at moved
    obtain ⟨g, found, moved⟩ := moved
    split at moved
    · cases moved
      exact .handleBeat rfl rfl
    · cases moved
  | beatReply k =>
    simp only [step, beatEvent, Option.bind_eq_some_iff] at moved
    obtain ⟨g, found, moved⟩ := moved
    split at moved
    · next answered =>
      cases moved
      exact .beatReply found answered rfl rfl
    · cases moved

end Cluster

end Tda596Labs.Raft
