import Tda596Labs.Labrpc.Delivery
import Tda596Labs.Raft.Cluster

/-! # Raft over the simulated network

`Cluster` lets a goroutine's request be handled at any later time, once or never, and its answer be lost or read.
Here the same code of Raft makes its calls through `labrpc`, with one end for every pair of peers, and the network
may lose, delay and cut off what it likes.  Every run of the two together is a run of `Cluster`: a call is a
request from the moment it is made, it is handled when its handler runs, and the network does nothing else that
Raft could see.  `Simulation` proves it.
-/

namespace Tda596Labs.Raft

open Tda596Labs.Transition

/-! ## The two methods -/

inductive RaftArgs (n : Nat) where
  | requestVote (args : RequestVoteArgs n)
  | appendEntries (args : AppendEntriesArgs n)
  deriving DecidableEq, Repr

inductive RaftReply where
  | requestVote (reply : RequestVoteReply)
  | appendEntries (reply : AppendEntriesReply)
  deriving DecidableEq, Repr

abbrev RaftNetwork (n : Nat) := Labrpc.Network (Fin n × Fin n) (Fin n) (Fin n) (RaftArgs n) RaftReply (Server n)
abbrev RaftNetworkEvent (n : Nat) := Labrpc.Event (Fin n × Fin n) (Fin n) (Fin n) (RaftArgs n) RaftReply (Server n)
abbrev RaftCall (n : Nat) := Labrpc.Call (Fin n × Fin n) (Fin n) (Fin n) (RaftArgs n) RaftReply

/-- The handlers of the service `Raft`. -/
def raftMethods {n : Nat} (name : String) : Option (Labrpc.Method (RaftArgs n) RaftReply (Server n)) :=
  if name = "RequestVote" then
    some fun rf args =>
      match args with
      | .requestVote args => some ((rf.requestVote args).1, .requestVote (rf.requestVote args).2)
      | .appendEntries _ => none
  else if name = "AppendEntries" then
    some fun rf args =>
      match args with
      | .appendEntries args => some ((rf.appendEntries args).1, .appendEntries (rf.appendEntries args).2)
      | .requestVote _ => none
  else none

def raftServices {n : Nat} : Labrpc.Services (RaftArgs n) RaftReply (Server n) :=
  fun name => if name = "Raft" then some raftMethods else none

/-- One of the two RPCs: the request that its goroutine builds, the handler, what is done with the reply, and when
the retry loop gives up. -/
structure Rpc (n : Nat) (Args Reply : Type) where
  svcMeth : String
  args : Args → RaftArgs n
  asArgs : RaftArgs n → Option Args
  asReply : RaftReply → Option Reply
  request : Server n → Args
  handle : Server n → Args → Server n × Reply
  take : Server n → Reply → Server n
  gone : Server n → Bool
  asArgs_args : ∀ a, asArgs (args a) = some a
  handled : ∀ rf a, ∃ reply, asReply reply = some (handle rf a).2 ∧
    Labrpc.dispatch raftServices svcMeth rf (args a) = some ((handle rf a).1, reply)

/-- `askForVote` -/
def askForVoteRpc (n : Nat) : Rpc n (RequestVoteArgs n) RequestVoteReply where
  svcMeth := "Raft.RequestVote"
  args := .requestVote
  asArgs | .requestVote args => some args | .appendEntries _ => none
  asReply | .requestVote reply => some reply | .appendEntries _ => none
  request := Server.voteRequest
  handle := Server.requestVote
  take := Server.countVote
  gone := Server.dead
  asArgs_args _ := rfl
  handled rf a := ⟨.requestVote (rf.requestVote a).2, rfl, by rfl⟩

/-- `sendHeartBeatToPeer` -/
def sendHeartBeatRpc (n : Nat) : Rpc n (AppendEntriesArgs n) AppendEntriesReply where
  svcMeth := "Raft.AppendEntries"
  args := .appendEntries
  asArgs | .appendEntries args => some args | .requestVote _ => none
  asReply | .appendEntries reply => some reply | .requestVote _ => none
  request := Server.heartBeat
  handle := Server.appendEntries
  take := Server.heartBeatAnswered
  gone rf := rf.dead ∨ rf.serverState ≠ .leader
  asArgs_args _ := rfl
  handled rf a := ⟨.appendEntries (rf.appendEntries a).2, rfl, by rfl⟩

inductive RpcKind where
  | vote
  | beat
  deriving DecidableEq, Repr

namespace RpcKind

def Args (n : Nat) : RpcKind → Type
  | vote => RequestVoteArgs n
  | beat => AppendEntriesArgs n

def Reply : RpcKind → Type
  | vote => RequestVoteReply
  | beat => AppendEntriesReply

def rpc (n : Nat) : (kind : RpcKind) → Rpc n (kind.Args n) kind.Reply
  | vote => askForVoteRpc n
  | beat => sendHeartBeatRpc n

end RpcKind

/-! ## Peers and network -/

/-- A goroutine that makes one call, with the number of the call once it has made it. -/
structure Caller (n : Nat) where
  server : Fin n
  peer : Fin n
  startTerm : Int
  phase : Phase
  call : Option Nat
  deriving DecidableEq, Repr

structure Wired (n : Nat) where
  /-- the receivers are the peers -/
  net : RaftNetwork n
  electionLoops : Fin n → Loop Int
  heartBeatLoops : Fin n → Loop Unit
  callers : RpcKind → List (Caller n)

namespace Wired

variable {n : Nat}

inductive Event (n : Nat) where
  | resetTimer (i : Fin n)
  | checkTimer (i : Fin n)
  | sleepHeartBeats (i : Fin n)
  | sendHeartBeats (i : Fin n)
  | kill (i : Fin n)
  /-- goroutine `k` of a kind calls; its call has returned; its loop turns -/
  | begins (kind : RpcKind) (k : Nat)
  | returns (kind : RpcKind) (k : Nat)
  | retries (kind : RpcKind) (k : Nat)
  | network (e : RaftNetworkEvent n)

/-- Peers as `start1` leaves them: every peer has an end to every peer, none of them enabled. -/
def init (n : Nat) : Wired n where
  net := { (.make Server.make : RaftNetwork n) with
    ends := fun _ => true
    connections := fun endname => some endname.2
    servers := fun i => some i
    services := fun _ => raftServices }
  electionLoops := fun _ => .head
  heartBeatLoops := fun _ => .head
  callers := fun _ => []

def rf (w : Wired n) (i : Fin n) : Server n := w.net.rcvrs i

def setServer (w : Wired n) (i : Fin n) (rf : Server n) : Wired n :=
  { w with net := { w.net with rcvrs := Function.update w.net.rcvrs i rf } }

/-- One goroutine of the kind for every peer but `i`. -/
def goAll (w : Wired n) (kind : RpcKind) (i : Fin n) : Wired n :=
  { w with callers := Function.update w.callers kind (w.callers kind ++
      ((List.finRange n).filter (· ≠ i)).map fun peer => ⟨i, peer, (w.rf i).currentTerm, .ready, none⟩) }

def resetTimer (w : Wired n) (i : Fin n) : Option (Wired n) :=
  match w.electionLoops i with
  | .head =>
    if (w.rf i).dead then some { w with electionLoops := Function.update w.electionLoops i .exited }
    else
      some { w.setServer i (w.rf i).resetElectionTimer with
        electionLoops := Function.update w.electionLoops i (.sleeping (w.rf i).currentTerm) }
  | _ => none

def checkTimer (w : Wired n) (i : Fin n) : Option (Wired n) :=
  match w.electionLoops i with
  | .sleeping currTerm =>
    let w := { w with electionLoops := Function.update w.electionLoops i .head }
    if (w.rf i).electionTimedOut currTerm then some ((w.setServer i (w.rf i).startElection).goAll .vote i)
    else some w
  | _ => none

def sleepHeartBeats (w : Wired n) (i : Fin n) : Option (Wired n) :=
  match w.heartBeatLoops i with
  | .head =>
    let next := if (w.rf i).dead then .exited else .sleeping ()
    some { w with heartBeatLoops := Function.update w.heartBeatLoops i next }
  | _ => none

def sendHeartBeats (w : Wired n) (i : Fin n) : Option (Wired n) :=
  match w.heartBeatLoops i with
  | .sleeping () =>
    let w := { w with heartBeatLoops := Function.update w.heartBeatLoops i .head }
    if (w.rf i).serverState = .leader then some (w.goAll .beat i) else some w
  | _ => none

/-- The locked section that builds the request, and the beginning of `Call`. -/
def begin_ {Args Reply : Type} (rpc : Rpc n Args Reply) (net : RaftNetwork n) (g : Caller n) :
    Option (RaftNetwork n × Caller n) :=
  if g.phase = .ready then
    (net.step (.call (g.server, g.peer) rpc.svcMeth (rpc.args (rpc.request (net.rcvrs g.server))))).map
      fun net' => (net', { g with phase := .calling, call := some net.calls.length })
  else none

/-- The call has returned: the reply is used, or the retry loop entered. -/
def end_ {Args Reply : Type} (rpc : Rpc n Args Reply) (net : RaftNetwork n) (g : Caller n) :
    Option (RaftNetwork n × Caller n) :=
  if g.phase = .calling then
    match g.call.bind fun c => (net.calls[c]?).map Labrpc.Call.stage with
    | some (.returned none) => some (net, { g with phase := .retrying })
    | some (.returned (some reply)) => (rpc.asReply reply).map fun reply =>
      ({ net with rcvrs := Function.update net.rcvrs g.server (rpc.take (net.rcvrs g.server) reply) },
        { g with phase := .returned })
    | _ => none
  else none

/-- A turn of the retry loop, which ends when its condition fails. -/
def retry {Args Reply : Type} (rpc : Rpc n Args Reply) (net : RaftNetwork n) (g : Caller n) :
    Option (RaftNetwork n × Caller n) :=
  if g.phase = .retrying then
    some (net, { g with phase := if rpc.gone (net.rcvrs g.server) then .returned else .retrying })
  else none

/-- Caller `k` of the kind moves, with the network. -/
def setCaller (w : Wired n) (kind : RpcKind) (k : Nat) (net : RaftNetwork n) (g : Caller n) : Wired n :=
  { w with net := net, callers := Function.update w.callers kind ((w.callers kind).set k g) }

def callerEvent (w : Wired n) (kind : RpcKind) (k : Nat)
    (act : RaftNetwork n → Caller n → Option (RaftNetwork n × Caller n)) : Option (Wired n) :=
  (w.callers kind)[k]?.bind fun g => (act w.net g).map fun moved => w.setCaller kind k moved.1 moved.2

/-- What may happen to the network besides the calls that Raft makes: all that `labrpc` does, and what
`config.go` does while no peer is started again. -/
def allowed : RaftNetworkEvent n → Bool
  | .call _ _ _ | .makeEnd _ | .addService _ _ _ => false
  | .addServer servername server => servername = server
  | .connect endname servername => endname.2 = servername
  | _ => true

def live (w : Wired n) : Event n → Option (Wired n)
  | .resetTimer i => w.resetTimer i
  | .checkTimer i => w.checkTimer i
  | .sleepHeartBeats i => w.sleepHeartBeats i
  | .sendHeartBeats i => w.sendHeartBeats i
  | .kill i => some (w.setServer i { w.rf i with dead := true })
  | .begins kind k => w.callerEvent kind k (begin_ (kind.rpc n))
  | .returns kind k => w.callerEvent kind k (end_ (kind.rpc n))
  | .retries kind k => w.callerEvent kind k (retry (kind.rpc n))
  | .network e => if allowed e then (w.net.step e).map fun net => { w with net := net } else none

/-- The peers and the network are one process, which may have ended. -/
def step (w : Wired n) (e : Event n) : Option (Wired n) := if w.net.exited then none else w.live e

end Wired

/-! ## What Raft sees of a call -/

namespace Caller

variable {n : Nat} {Args Reply : Type}

/-- The arguments and the answer of the call that the goroutine has made. -/
def seen (calls : List (RaftCall n)) (g : Caller n) : Option (RaftArgs n × Option RaftReply) :=
  (g.call.bind fun c => calls[c]?).map fun call => (call.args, call.handler.reply)

/-- The goroutine with its request and the answer to it. -/
def goroutine (rpc : Rpc n Args Reply) (calls : List (RaftCall n)) (g : Caller n) : Goroutine n Args Reply where
  server := g.server
  peer := g.peer
  startTerm := g.startTerm
  phase := g.phase
  request := (g.seen calls).bind fun seen => rpc.asArgs seen.1
  reply := (g.seen calls).bind fun seen => seen.2.bind rpc.asReply

end Caller

def Wired.view {n : Nat} (w : Wired n) : Cluster n where
  servers := w.net.rcvrs
  electionLoops := w.electionLoops
  heartBeatLoops := w.heartBeatLoops
  votes := (w.callers .vote).map (Caller.goroutine (askForVoteRpc n) w.net.calls)
  beats := (w.callers .beat).map (Caller.goroutine (sendHeartBeatRpc n) w.net.calls)

end Tda596Labs.Raft
