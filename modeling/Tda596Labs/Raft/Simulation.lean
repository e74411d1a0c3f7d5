import Tda596Labs.Lib.Pool
import Tda596Labs.Raft.Wired
import Mathlib.Data.List.Nodup
import Mathlib.Data.List.Perm.Basic

/-! # Raft over the network is a cluster

The peers of `Wired` and the network together go through a run of `Cluster`.  What has to be known for it is
that every call belongs to one goroutine, was made with the method and the arguments of that goroutine, and is
handled at the peer that the goroutine asks.
-/

namespace Tda596Labs.Raft

open Tda596Labs.Transition

variable {n : Nat} {Args Reply : Type}

/-! ## The steps of a goroutine in the cluster -/

namespace Cluster

variable {c : Cluster n} {kind : RpcKind} {k : Nat}

def goroutines (c : Cluster n) : (kind : RpcKind) → List (Goroutine n (kind.Args n) kind.Reply)
  | .vote => c.votes
  | .beat => c.beats

def setGoroutine (c : Cluster n) : (kind : RpcKind) → Nat → Goroutine n (kind.Args n) kind.Reply → Cluster n
  | .vote => c.setVote
  | .beat => c.setBeat

theorem step_send {g : Goroutine n (kind.Args n) kind.Reply} (found : (c.goroutines kind)[k]? = some g)
    (ready : g.phase = .ready) :
    ∃ e, c.step e = some (c.setGoroutine kind k (g.send ((kind.rpc n).request (c.servers g.server)))) := by
  cases kind with
  | vote =>
    change AskForVote n at g
    have found : c.votes[k]? = some g := found
    exact ⟨.ask k, by simp only [step, voteEvent, found, Option.bind_some, ready, if_true]; rfl⟩
  | beat =>
    change SendHeartBeat n at g
    have found : c.beats[k]? = some g := found
    exact ⟨.beat k, by simp only [step, beatEvent, found, Option.bind_some, ready, if_true]; rfl⟩

theorem step_handle {g : Goroutine n (kind.Args n) kind.Reply} (found : (c.goroutines kind)[k]? = some g)
    {args : kind.Args n} (asks : g.request = some args) (unanswered : g.reply = none) :
    ∃ e, c.step e = some ((c.setServer g.peer ((kind.rpc n).handle (c.servers g.peer) args).1).setGoroutine kind k
      (g.answer ((kind.rpc n).handle (c.servers g.peer) args).2)) := by
  cases kind with
  | vote =>
    change AskForVote n at g
    have found : c.votes[k]? = some g := found
    exact ⟨.handleVote k, by simp only [step, voteEvent, found, Option.bind_some, asks, unanswered]; rfl⟩
  | beat =>
    change SendHeartBeat n at g
    have found : c.beats[k]? = some g := found
    exact ⟨.handleBeat k, by simp only [step, beatEvent, found, Option.bind_some, asks, unanswered]; rfl⟩

theorem step_callFails {g : Goroutine n (kind.Args n) kind.Reply} (found : (c.goroutines kind)[k]? = some g)
    (calling : g.phase = .calling) : ∃ e, c.step e = some (c.setGoroutine kind k (g.enter .retrying)) := by
  cases kind with
  | vote =>
    change AskForVote n at g
    have found : c.votes[k]? = some g := found
    exact ⟨.voteCallFails k, by simp only [step, voteEvent, found, Option.bind_some, calling, if_true]; rfl⟩
  | beat =>
    change SendHeartBeat n at g
    have found : c.beats[k]? = some g := found
    exact ⟨.beatCallFails k, by simp only [step, beatEvent, found, Option.bind_some, calling, if_true]; rfl⟩

theorem step_retry {g : Goroutine n (kind.Args n) kind.Reply} (found : (c.goroutines kind)[k]? = some g)
    (retrying : g.phase = .retrying) :
    ∃ e, c.step e = some (c.setGoroutine kind k
      (g.enter (if (kind.rpc n).gone (c.servers g.server) then .returned else .retrying))) := by
  cases kind with
  | vote =>
    change AskForVote n at g
    have found : c.votes[k]? = some g := found
    exact ⟨.voteRetry k, by simp only [step, voteEvent, found, Option.bind_some, retrying, if_true]; rfl⟩
  | beat =>
    change SendHeartBeat n at g
    have found : c.beats[k]? = some g := found
    refine ⟨.beatRetry k, ?_⟩
    simp only [step, beatEvent, found, Option.bind_some, retrying, if_true, RpcKind.rpc, sendHeartBeatRpc,
      decide_eq_true_eq]
    rfl

theorem step_reply {g : Goroutine n (kind.Args n) kind.Reply} (found : (c.goroutines kind)[k]? = some g)
    (calling : g.phase = .calling) {reply : kind.Reply} (answered : g.reply = some reply) :
    ∃ e, c.step e = some ((c.setServer g.server ((kind.rpc n).take (c.servers g.server) reply)).setGoroutine kind k
      (g.enter .returned)) := by
  cases kind with
  | vote =>
    change AskForVote n at g
    have found : c.votes[k]? = some g := found
    exact ⟨.voteReply k, by simp only [step, voteEvent, found, Option.bind_some, calling, answered]; rfl⟩
  | beat =>
    change SendHeartBeat n at g
    have found : c.beats[k]? = some g := found
    exact ⟨.beatReply k, by simp only [step, beatEvent, found, Option.bind_some, calling, answered]; rfl⟩

end Cluster

/-! ## What a goroutine sees of its call -/

namespace Caller

variable {rpc : Rpc n Args Reply} {calls calls' : List (RaftCall n)} {call call' : RaftCall n} {g : Caller n} {c : Nat}

theorem seen_found (made : g.call = some c) (found : calls[c]? = some call) :
    g.seen calls = some (call.args, call.handler.reply) := by
  simp [seen, made, found]

/-- Nobody sees more of a call than its arguments and its answer. -/
theorem seen_set_of_same (found : calls[c]? = some call) (args : call'.args = call.args)
    (reply : call'.handler.reply = call.handler.reply) (g : Caller n) :
    g.seen (calls.set c call') = g.seen calls := by
  unfold seen
  cases made : g.call with
  | none => rfl
  | some d =>
    by_cases same : d = c
    · subst same
      simp [found, Pool.found_set_self found, args, reply]
    · simp [List.getElem?_set_ne (Ne.symm same)]

theorem seen_set_of_ne (apart : g.call ≠ some c) (call' : RaftCall n) :
    g.seen (calls.set c call') = g.seen calls := by
  unfold seen
  cases made : g.call with
  | none => rfl
  | some d =>
    have other : c ≠ d := fun same => apart (same ▸ made)
    simp [List.getElem?_set_ne other]

theorem seen_append (inside : ∀ c, g.call = some c → c < calls.length) (more : List (RaftCall n)) :
    g.seen (calls ++ more) = g.seen calls := by
  unfold seen
  cases made : g.call with
  | none => rfl
  | some c => simp [List.getElem?_append_left (inside c made)]

theorem goroutine_of_seen {args : Args} {reply : Option RaftReply} (seen : g.seen calls = some (rpc.args args, reply)) :
    g.goroutine rpc calls =
      ⟨g.server, g.peer, g.startTerm, g.phase, some args, reply.bind rpc.asReply⟩ := by
  simp only [goroutine, seen, Option.bind_some, rpc.asArgs_args]

theorem goroutine_congr (same : g.seen calls' = g.seen calls) : g.goroutine rpc calls' = g.goroutine rpc calls := by
  simp only [goroutine, same]

theorem goroutines_congr {callers : List (Caller n)} (same : ∀ g ∈ callers, g.seen calls' = g.seen calls) :
    callers.map (goroutine rpc calls') = callers.map (goroutine rpc calls) :=
  List.map_congr_left fun g listed => goroutine_congr (same g listed)

theorem goroutines_set {callers : List (Caller n)} {k : Nat}
    (others : ∀ i h, i ≠ k → callers[i]? = some h → h.seen calls' = h.seen calls) (g : Caller n) :
    (callers.set k g).map (goroutine rpc calls') =
      (callers.map (goroutine rpc calls)).set k (g.goroutine rpc calls') := by
  apply List.ext_getElem?
  intro i
  rw [List.getElem?_map, List.getElem?_set, List.getElem?_set, List.length_map, List.getElem?_map]
  by_cases same : k = i
  · simp only [same, if_true]
    split <;> rfl
  · simp only [same, if_false]
    cases found : callers[i]? with
    | none => rfl
    | some h => exact congrArg some (goroutine_congr (others i h (Ne.symm same) found))

end Caller

/-! ## The calls of Raft -/

/-- A goroutine has made its call through its own end, with the method and with arguments of its RPC. -/
structure Linked (rpc : Rpc n Args Reply) (calls : List (RaftCall n)) (g : Caller n) : Prop where
  unsent : g.phase = .ready → g.call = none
  made : ∀ c, g.call = some c → ∃ call, calls[c]? = some call ∧ call.endname = (g.server, g.peer) ∧
    call.svcMeth = rpc.svcMeth ∧ ∃ args, call.args = rpc.args args

/-- The calls are still there, as they were made. -/
def Kept (calls calls' : List (RaftCall n)) : Prop :=
  ∀ (c : Nat) (call : RaftCall n), calls[c]? = some call → ∃ call' : RaftCall n, calls'[c]? = some call' ∧
    call'.endname = call.endname ∧ call'.svcMeth = call.svcMeth ∧ call'.args = call.args

/-- A call that goes, and is handled, where its end leads. -/
structure Direct (call : RaftCall n) : Prop where
  fits : call.stage.Fits call.handler
  routed : ∀ route, call.stage = .routed route → route.server = call.endname.2
  running : ∀ server, call.handler = .running server → server = call.endname.2

/-- Every end leads to its peer, and every peer has the service `Raft`. -/
structure Cabled (net : RaftNetwork n) : Prop where
  services : ∀ i, net.services i = raftServices
  connected : ∀ endname name, net.connections endname = some name → name = endname.2
  installed : ∀ name server, net.servers name = some server → server = name
  calls : ∀ call ∈ net.calls, Direct call

section Calls

variable {rpc : Rpc n Args Reply} {calls calls' : List (RaftCall n)} {g : Caller n} {net net' : RaftNetwork n}

theorem Linked.inside (linked : Linked rpc calls g) {c : Nat} (made : g.call = some c) : c < calls.length := by
  obtain ⟨call, found, _⟩ := linked.made c made
  exact (List.getElem?_eq_some_iff.mp found).1

theorem Linked.kept (linked : Linked rpc calls g) (kept : Kept calls calls') : Linked rpc calls' g where
  unsent := linked.unsent
  made := by
    intro c made
    obtain ⟨call, found, endname, svcMeth, args, same⟩ := linked.made c made
    obtain ⟨call', found', endname', svcMeth', args'⟩ := kept c call found
    exact ⟨call', found', endname'.trans endname, svcMeth'.trans svcMeth, args, args'.trans same⟩

theorem Kept.refl (calls : List (RaftCall n)) : Kept calls calls :=
  fun _ call found => ⟨call, found, rfl, rfl, rfl⟩

theorem Kept.append (calls more : List (RaftCall n)) : Kept calls (calls ++ more) :=
  fun _ call found => ⟨call, Pool.found_append found more, rfl, rfl, rfl⟩

theorem Kept.set {c : Nat} {call call' : RaftCall n} (found : calls[c]? = some call)
    (same : call'.endname = call.endname ∧ call'.svcMeth = call.svcMeth ∧ call'.args = call.args) :
    Kept calls (calls.set c call') := by
  intro d other found'
  by_cases equal : d = c
  · subst equal
    obtain rfl : call = other := Option.some.inj (found.symm.trans found')
    exact ⟨call', Pool.found_set_self found _, same⟩
  · exact ⟨other, (List.getElem?_set_ne (Ne.symm equal)).trans found', rfl, rfl, rfl⟩

/-- A step of a call keeps what it was made with and what Raft sees of it. -/
theorem Cabled.progress (cabled : Cabled net) {e : RaftNetworkEvent n} {k : Nat} {call call' : RaftCall n}
    (direct : Direct call) (progress : Labrpc.Network.Progress net k call e call') :
    Direct call' ∧ (call'.endname = call.endname ∧ call'.svcMeth = call.svcMeth ∧ call'.args = call.args) ∧
      call'.handler.reply = call.handler.reply := by
  have fits := Labrpc.Progress.fits progress direct.fits
  cases progress with
  | @route route _ info =>
    -- the call learns here where it goes; the other stages only pass this on
    refine ⟨⟨fits, fun route' same => ?_, direct.running⟩, ⟨rfl, rfl, rfl⟩, rfl⟩
    cases same
    -- the end leads to its peer, and the peer's server is installed under its own name
    simp only [Labrpc.Network.readEndnameInfo, Option.ite_none_right_eq_some, Option.bind_eq_bind,
      Option.bind_eq_some_iff] at info
    obtain ⟨_, name, connected, server, installed, same⟩ := info
    cases same
    exact (cabled.installed name server installed).trans (cabled.connected _ name connected)
  | start stage =>
    -- the handler is started at the server of the route
    have idle : call.handler = .idle := by
      have before := direct.fits
      rw [stage] at before
      exact before
    refine ⟨⟨fits, fun _ same => (by cases same), fun server same => ?_⟩, ⟨rfl, rfl, rfl⟩, by rw [idle]; rfl⟩
    cases same
    exact direct.routed _ stage
  | _ => exact ⟨⟨fits, fun _ same => (by cases same), direct.running⟩, ⟨rfl, rfl, rfl⟩, rfl⟩

/-- What is done to the network from outside leaves its cabling and the peers alone. -/
theorem Cabled.control (cabled : Cabled net) {e : RaftNetworkEvent n} (ok : Wired.allowed e = true)
    (outside : e.site = none) (moved : net.control e = some net') : Cabled net' ∧ net'.rcvrs = net.rcvrs := by
  cases e with
  | connect endname servername =>
    cases moved
    refine ⟨⟨cabled.services, fun endname' name connected => ?_, cabled.installed, cabled.calls⟩, rfl⟩
    by_cases same : endname' = endname
    · subst same
      simp only [Function.update_self, Option.some.injEq] at connected
      exact connected.symm.trans (of_decide_eq_true ok).symm
    · simp only [Function.update_of_ne same] at connected
      exact cabled.connected endname' name connected
  | addServer servername server =>
    cases moved
    refine ⟨⟨cabled.services, cabled.connected, fun name server' installed => ?_, cabled.calls⟩, rfl⟩
    by_cases same : name = servername
    · subst same
      simp only [Function.update_self, Option.some.injEq] at installed
      exact installed.symm.trans (of_decide_eq_true ok).symm
    · simp only [Function.update_of_ne same] at installed
      exact cabled.installed name server' installed
  | deleteServer servername =>
    cases moved
    refine ⟨⟨cabled.services, cabled.connected, fun name server' installed => ?_, cabled.calls⟩, rfl⟩
    by_cases same : name = servername
    · subst same
      simp only [Function.update_self] at installed
      cases installed
    · simp only [Function.update_of_ne same] at installed
      exact cabled.installed name server' installed
  | enable | setReliable =>
    cases moved
    exact ⟨⟨cabled.services, cabled.connected, cabled.installed, cabled.calls⟩, rfl⟩
  | cleanup | loopEnds =>
    simp only [Labrpc.Network.control] at moved
    split at moved <;> cases moved <;>
      exact ⟨⟨cabled.services, cabled.connected, cabled.installed, cabled.calls⟩, rfl⟩
  -- not allowed, or not done from outside
  | makeEnd | addService | call => cases ok
  | _ => cases outside

end Calls

/-! ## Goroutines and calls -/

namespace Wired

variable {w t : Wired n} {kind kind' : RpcKind} {k k' : Nat} {g g' : Caller n} {net : RaftNetwork n}

/-- All goroutines, those of `askForVote` first. -/
def goroutines (w : Wired n) : List (Caller n) := w.callers .vote ++ w.callers .beat

def place (w : Wired n) : RpcKind → Nat → Nat
  | .vote, k => k
  | .beat, k => (w.callers .vote).length + k

theorem found_place (found : (w.callers kind)[k]? = some g) : w.goroutines[w.place kind k]? = some g := by
  cases kind with
  | vote => exact Pool.found_append found _
  | beat =>
    rw [goroutines, place, List.getElem?_append_right (Nat.le_add_right _ _), Nat.add_sub_cancel_left]
    exact found

theorem goroutines_setCaller (found : (w.callers kind)[k]? = some g) :
    (w.setCaller kind k net g').goroutines = w.goroutines.set (w.place kind k) g' := by
  have inside := (List.getElem?_eq_some_iff.mp found).1
  cases kind with
  | vote =>
    rw [goroutines, goroutines, place, List.set_append_left _ _ inside]
    rfl
  | beat =>
    rw [goroutines, goroutines, place, List.set_append_right _ _ (Nat.le_add_right _ _), Nat.add_sub_cancel_left]
    rfl

theorem place_inj (found : (w.callers kind)[k]? = some g) (found' : (w.callers kind')[k']? = some g')
    (same : w.place kind k = w.place kind' k') : kind = kind' ∧ k = k' := by
  have inside := (List.getElem?_eq_some_iff.mp found).1
  have inside' := (List.getElem?_eq_some_iff.mp found').1
  cases kind <;> cases kind' <;> simp only [place] at same
  · exact ⟨rfl, same⟩
  · omega
  · omega
  · exact ⟨rfl, by omega⟩

/-- Every call has one goroutine, which has made it as its RPC does. -/
structure Tied (w : Wired n) : Prop where
  net : Cabled w.net
  linked : ∀ kind, ∀ g ∈ w.callers kind, Linked (kind.rpc n) w.net.calls g
  owners : (w.goroutines.filterMap Caller.call).Perm (List.range w.net.calls.length)

theorem Tied.exists_owner (tied : Tied w) {c : Nat} (made : c < w.net.calls.length) :
    ∃ (kind : RpcKind) (k : Nat) (g : Caller n), (w.callers kind)[k]? = some g ∧ g.call = some c := by
  have owned := tied.owners.mem_iff.mpr (List.mem_range.mpr made)
  obtain ⟨g, listed, calls⟩ := List.mem_filterMap.mp owned
  obtain asks | beats := List.mem_append.mp listed
  · obtain ⟨k, found⟩ := List.mem_iff_getElem?.mp asks
    exact ⟨.vote, k, g, found, calls⟩
  · obtain ⟨k, found⟩ := List.mem_iff_getElem?.mp beats
    exact ⟨.beat, k, g, found, calls⟩

theorem Tied.owner_unique (tied : Tied w) (found : (w.callers kind)[k]? = some g)
    (found' : (w.callers kind')[k']? = some g') {c : Nat} (calls : g.call = some c) (calls' : g'.call = some c) :
    kind = kind' ∧ k = k' := by
  have distinct : (w.goroutines.filterMap Caller.call).Nodup := tied.owners.nodup_iff.mpr List.nodup_range
  exact place_inj found found' (Pool.unique_key distinct (found_place found) (found_place found') calls calls')

/-! ## What the cluster sees -/

theorem view_goroutines (w : Wired n) (kind : RpcKind) :
    w.view.goroutines kind = (w.callers kind).map (Caller.goroutine (kind.rpc n) w.net.calls) := by
  cases kind <;> rfl

theorem found_view (found : (w.callers kind)[k]? = some g) :
    (w.view.goroutines kind)[k]? = some (g.goroutine (kind.rpc n) w.net.calls) := by
  rw [view_goroutines, List.getElem?_map, found]
  rfl

/-- Only what Raft sees of the network is in the view. -/
theorem view_net (rcvrs : net.rcvrs = w.net.rcvrs)
    (seen : ∀ g : Caller n, g.seen net.calls = g.seen w.net.calls) : { w with net := net }.view = w.view := by
  simp only [view, rcvrs, Caller.goroutines_congr fun g (_ : g ∈ w.callers .vote) => seen g,
    Caller.goroutines_congr fun g (_ : g ∈ w.callers .beat) => seen g]

theorem view_setCaller
    (others : ∀ kind' i h, ¬ (kind' = kind ∧ i = k) → (w.callers kind')[i]? = some h →
      h.seen net.calls = h.seen w.net.calls) :
    (w.setCaller kind k net g).view =
      { w.view with servers := net.rcvrs }.setGoroutine kind k (g.goroutine (kind.rpc n) net.calls) := by
  -- the goroutines of the other kind see what they saw
  have elsewhere : ∀ kind', kind' ≠ kind → ∀ h ∈ w.callers kind', h.seen net.calls = h.seen w.net.calls := by
    intro kind' different h listed
    obtain ⟨i, found⟩ := List.mem_iff_getElem?.mp listed
    exact others kind' i h (fun same => different same.1) found
  have here : ((w.callers kind).set k g).map (Caller.goroutine (kind.rpc n) net.calls) =
      ((w.callers kind).map (Caller.goroutine (kind.rpc n) w.net.calls)).set k (g.goroutine (kind.rpc n) net.calls) :=
    Caller.goroutines_set (fun i h different => others kind i h fun same => different same.2) g
  cases kind with
  | vote =>
    have beats : (w.callers .beat).map (Caller.goroutine (sendHeartBeatRpc n) net.calls) = _ :=
      Caller.goroutines_congr (elsewhere .beat (by simp))
    simp only [view, setCaller, Function.update_self, ne_eq, reduceCtorEq, not_false_eq_true, Function.update_of_ne,
      beats]
    exact congrArg (fun votes => Cluster.mk net.rcvrs w.electionLoops w.heartBeatLoops votes _) here
  | beat =>
    have votes : (w.callers .vote).map (Caller.goroutine (askForVoteRpc n) net.calls) = _ :=
      Caller.goroutines_congr (elsewhere .vote (by simp))
    simp only [view, setCaller, Function.update_self, ne_eq, reduceCtorEq, not_false_eq_true, Function.update_of_ne,
      votes]
    exact congrArg (fun beats => Cluster.mk net.rcvrs w.electionLoops w.heartBeatLoops _ beats) here

/-! ## Steps -/

/-- What ties the goroutines to the calls holds again, and the cluster makes a step or none. -/
def Follows (w t : Wired n) : Prop := Tied t ∧ (t.view = w.view ∨ ∃ e, w.view.step e = some t.view)

theorem Tied.setCaller (tied : Tied w) (found : (w.callers kind)[k]? = some g) (cabled : Cabled net)
    (kept : Kept w.net.calls net.calls) (linked : Linked (kind.rpc n) net.calls g')
    (owners : ((w.goroutines.set (w.place kind k) g').filterMap Caller.call).Perm (List.range net.calls.length)) :
    Tied (w.setCaller kind k net g') := by
  refine ⟨cabled, fun kind' => ?_, ?_⟩
  · have others : ∀ h ∈ w.callers kind', Linked (kind'.rpc n) net.calls h := fun h listed =>
      (tied.linked kind' h listed).kept kept
    by_cases same : kind' = kind
    · subst same
      simp only [Wired.setCaller, Function.update_self]
      exact Pool.forall_set others linked
    · simp only [Wired.setCaller, Function.update_of_ne same]
      exact others
  · rw [goroutines_setCaller found]
    exact owners

/-- A goroutine moves that has made its call. -/
theorem Tied.moves (tied : Tied w) (found : (w.callers kind)[k]? = some g) (cabled : Cabled net)
    (calls : net.calls = w.net.calls) (unsent : g'.phase ≠ .ready)
    (same : g'.server = g.server ∧ g'.peer = g.peer ∧ g'.call = g.call)
    (stepped : ∃ e, w.view.step e = some
      ({ w.view with servers := net.rcvrs }.setGoroutine kind k (g'.goroutine (kind.rpc n) w.net.calls))) :
    Follows w (w.setCaller kind k net g') := by
  have linked := tied.linked kind g (Pool.mem_of_found found)
  constructor
  · refine tied.setCaller found cabled (calls ▸ .refl _) ⟨fun ready => absurd ready unsent, ?_⟩ ?_
    · rw [same.1, same.2.1, same.2.2, calls]
      exact linked.made
    · rw [Pool.filterMap_set_of_eq (found_place found) same.2.2, calls]
      exact tied.owners
  · right
    rw [view_setCaller fun _ _ _ _ _ => by rw [calls], calls]
    exact stepped

theorem Tied.begins (tied : Tied w) (found : (w.callers kind)[k]? = some g)
    (moved : begin_ (kind.rpc n) w.net g = some (net, g')) : Follows w (w.setCaller kind k net g') := by
  have linked := tied.linked kind g (Pool.mem_of_found found)
  simp only [begin_, Option.ite_none_right_eq_some, Option.ite_none_left_eq_some, Option.map_eq_some_iff,
    Labrpc.Network.step, Labrpc.Event.site, Labrpc.Network.control] at moved
  obtain ⟨ready, net', ⟨_, _, called⟩, moved⟩ := moved
  cases called
  cases moved
  have fresh : g.seen w.net.calls = none := by simp [Caller.seen, linked.unsent ready]
  constructor
  -- the new call gets the next number, which no other goroutine has
  · refine tied.setCaller found ⟨tied.net.services, tied.net.connected, tied.net.installed, ?_⟩ (.append _ _) ?_ ?_
    · refine List.forall_mem_append.mpr ⟨tied.net.calls, fun call new => ?_⟩
      obtain rfl := List.mem_singleton.mp new
      exact ⟨rfl, fun _ same => (by cases same), fun _ same => (by cases same)⟩
    · refine ⟨fun again => (by cases again), fun c made => ?_⟩
      cases made
      exact ⟨_, List.getElem?_concat_length, rfl, rfl, _, rfl⟩
    · have numbers := Pool.filterMap_set_perm (found_place found) (linked.unsent ready) (f := Caller.call)
        (b := { g with phase := .calling, call := some w.net.calls.length }) rfl
      rw [List.length_append, List.length_singleton, List.range_succ]
      exact numbers.trans ((tied.owners.cons _).trans (List.perm_append_singleton _ _).symm)
  · right
    obtain ⟨e, stepped⟩ := Cluster.step_send (found_view found) ready
    refine ⟨e, stepped.trans (congrArg some ?_)⟩
    rw [view_setCaller fun kind' i h _ found' =>
      Caller.seen_append (fun c => (tied.linked kind' h (Pool.mem_of_found found')).inside) _]
    -- the goroutine has its request, and no answer yet
    have asked : ∀ call : RaftCall n, { g with phase := .calling, call := some w.net.calls.length }.seen
        (w.net.calls ++ [call]) = some (call.args, call.handler.reply) := fun call =>
      Caller.seen_found rfl List.getElem?_concat_length
    simp only [Caller.goroutine, fresh, asked, Option.bind_some, Rpc.asArgs_args]
    rfl

theorem Tied.returns (tied : Tied w) (found : (w.callers kind)[k]? = some g)
    (moved : end_ (kind.rpc n) w.net g = some (net, g')) : Follows w (w.setCaller kind k net g') := by
  simp only [end_, Option.ite_none_right_eq_some] at moved
  obtain ⟨calling, moved⟩ := moved
  split at moved
  · cases moved
    -- a lost call fails in the cluster, also if its handler has run
    exact tied.moves found tied.net rfl (by simp) ⟨rfl, rfl, rfl⟩ (Cluster.step_callFails (found_view found) calling)
  · next reply returned =>
    obtain ⟨taken, replies, moved⟩ := Option.map_eq_some_iff.mp moved
    cases moved
    obtain ⟨c, made, call, found', stage⟩ : ∃ c, g.call = some c ∧ ∃ call, w.net.calls[c]? = some call ∧
        call.stage = .returned (some reply) := by
      simpa [Option.bind_eq_some_iff, Option.map_eq_some_iff] using returned
    -- what the call has returned is what its handler has answered
    have answered : (g.goroutine (kind.rpc n) w.net.calls).reply = some taken := by
      have fits := (tied.net.calls call (List.mem_of_getElem? found')).fits
      rw [stage] at fits
      obtain ⟨server, finished⟩ := fits
      simp only [Caller.goroutine, Caller.seen_found made found', finished, Labrpc.Handler.reply, Option.bind_some,
        replies]
    have cabled := tied.net
    exact tied.moves found ⟨cabled.services, cabled.connected, cabled.installed, cabled.calls⟩ rfl (by simp)
      ⟨rfl, rfl, rfl⟩ (Cluster.step_reply (found_view found) calling answered)
  · cases moved

theorem Tied.retries (tied : Tied w) (found : (w.callers kind)[k]? = some g)
    (moved : retry (kind.rpc n) w.net g = some (net, g')) : Follows w (w.setCaller kind k net g') := by
  simp only [retry, Option.ite_none_right_eq_some] at moved
  obtain ⟨retrying, moved⟩ := moved
  cases moved
  exact tied.moves found tied.net rfl (by dsimp only; split <;> simp) ⟨rfl, rfl, rfl⟩
    (Cluster.step_retry (found_view found) retrying)

theorem setCaller_found (found : (w.callers kind)[k]? = some g) (net : RaftNetwork n) :
    w.setCaller kind k net g = { w with net := net } := by
  rw [Wired.setCaller, Pool.set_found found, Function.update_eq_self]

theorem Tied.withNet (tied : Tied w) (cabled : Cabled net) (kept : Kept w.net.calls net.calls)
    (length : net.calls.length = w.net.calls.length) : Tied { w with net := net } where
  net := cabled
  linked kind g listed := (tied.linked kind g listed).kept kept
  owners := by
    rw [length]
    exact tied.owners

/-- The handler of a call runs: the peer that the goroutine asks handles its request. -/
theorem Tied.execute (tied : Tied w) {c : Nat} {call : RaftCall n} {server : Fin n}
    (found : w.net.calls[c]? = some call) (running : call.handler = .running server) :
    Follows w { w with net := w.net.execute c call server } := by
  have direct := tied.net.calls call (List.mem_of_getElem? found)
  -- whose call it is, what it asks, and that it is handled at the peer it asks
  obtain ⟨kind, k, g, owner, made⟩ := tied.exists_owner (List.getElem?_eq_some_iff.mp found).1
  obtain ⟨call', found', endname, svcMeth, args, asked⟩ :=
    (tied.linked kind g (Pool.mem_of_found owner)).made c made
  obtain rfl : call = call' := Option.some.inj (found.symm.trans found')
  obtain rfl : server = g.peer := by rw [direct.running server running, endname]
  obtain ⟨reply, replies, dispatched⟩ := (kind.rpc n).handled (w.net.rcvrs g.peer) args
  have handled : Labrpc.dispatch (w.net.services g.peer) call.svcMeth (w.net.rcvrs g.peer) call.args =
      some (((kind.rpc n).handle (w.net.rcvrs g.peer) args).1, reply) := by
    rw [tied.net.services, svcMeth, asked]
    exact dispatched
  rw [Labrpc.Network.execute_handled handled]
  constructor
  · refine tied.withNet ⟨tied.net.services, tied.net.connected, tied.net.installed, ?_⟩
      (.set found ⟨rfl, rfl, rfl⟩) List.length_set
    refine Pool.forall_set tied.net.calls ⟨?_, direct.routed, fun _ same => (by cases same)⟩
    have fits := direct.fits
    rw [running] at fits
    exact (fits.finished reply).1
  · right
    have before : g.seen w.net.calls = some ((kind.rpc n).args args, none) := by
      rw [Caller.seen_found made found, running, asked]
      rfl
    have asks := Caller.goroutine_of_seen before
    obtain ⟨e, stepped⟩ := Cluster.step_handle (found_view owner)
      (congrArg Goroutine.request asks) (congrArg Goroutine.reply asks)
    refine ⟨e, ?_⟩
    rw [stepped, ← setCaller_found owner, view_setCaller]
    · -- the goroutine now sees the answer
      have after : g.seen (w.net.calls.set c { call with handler := .finished g.peer reply }) =
          some ((kind.rpc n).args args, some reply) := by
        rw [Caller.seen_found made (Pool.found_set_self found _), ← asked]
        rfl
      rw [Caller.goroutine_of_seen after, asks, Option.bind_some, replies]
      rfl
    · -- and nobody else sees anything
      intro kind' i h different found''
      exact Caller.seen_set_of_ne (fun made' => different (tied.owner_unique found'' owner made' made)) _

theorem Tied.network (tied : Tied w) {e : RaftNetworkEvent n} (ok : allowed e = true)
    (moved : w.net.step e = some net) : Follows w { w with net := net } := by
  cases Labrpc.Network.step_effect moved with
  -- only a handler that runs is a step of the cluster
  | control outside moved calls =>
    obtain ⟨cabled, rcvrs⟩ := tied.net.control ok outside moved
    have kept : Kept w.net.calls net.calls := calls ▸ .refl _
    exact ⟨tied.withNet cabled kept (congrArg List.length calls), .inl (view_net rcvrs fun g => by rw [calls])⟩
  | call => cases ok
  | progress found progress =>
    obtain ⟨direct, made, reply⟩ := tied.net.progress (tied.net.calls _ (List.mem_of_getElem? found)) progress
    refine ⟨tied.withNet ⟨tied.net.services, tied.net.connected, tied.net.installed, ?_⟩
      (.set found made) List.length_set, .inl ?_⟩
    · exact Pool.forall_set tied.net.calls direct
    · exact view_net rfl (Caller.seen_set_of_same found made.2.2 reply)
  | idles => exact ⟨tied, .inl rfl⟩
  | execute found running => exact tied.execute found running

/-! ### Steps without the network -/

theorem Tied.setServer (tied : Tied w) (i : Fin n) (rf : Server n) : Tied (w.setServer i rf) :=
  ⟨⟨tied.net.services, tied.net.connected, tied.net.installed, tied.net.calls⟩, tied.linked, tied.owners⟩

theorem Tied.loops (tied : Tied w) (electionLoops : Fin n → Loop Int) (heartBeatLoops : Fin n → Loop Unit) :
    Tied { w with electionLoops := electionLoops, heartBeatLoops := heartBeatLoops } :=
  ⟨tied.net, tied.linked, tied.owners⟩

theorem Tied.goAll (tied : Tied w) (kind : RpcKind) (i : Fin n) : Tied (w.goAll kind i) := by
  refine ⟨tied.net, fun kind' => ?_, ?_⟩
  · by_cases same : kind' = kind
    · subst same
      simp only [Wired.goAll, Function.update_self]
      refine List.forall_mem_append.mpr ⟨tied.linked kind', fun g new => ?_⟩
      obtain ⟨peer, _, rfl⟩ := List.mem_map.mp new
      exact ⟨fun _ => rfl, fun c made => (by cases made)⟩
    · simp only [Wired.goAll, Function.update_of_ne same]
      exact tied.linked kind'
  · -- a goroutine that has not called has no number
    have numbers : (w.goAll kind i).goroutines.filterMap Caller.call = w.goroutines.filterMap Caller.call := by
      cases kind <;> simp [goroutines, Wired.goAll, List.filterMap_append, List.filterMap_map]
    rw [numbers]
    exact tied.owners

theorem view_goAll (w : Wired n) (i : Fin n) :
    (w.goAll .vote i).view = w.view.askAllPeersForVote i ∧
      (w.goAll .beat i).view = w.view.sendHeartBeatToAllPeers i := by
  constructor
  · simp only [view, Wired.goAll, Function.update_self, List.map_append, List.map_map]
    rfl
  · simp only [view, Wired.goAll, Function.update_self, List.map_append, List.map_map]
    rfl

theorem Tied.resetTimer (tied : Tied w) {i : Fin n} (moved : w.resetTimer i = some t) :
    Tied t ∧ w.view.resetTimer i = some t.view := by
  cases loop : w.electionLoops i with
  | head =>
    simp only [Wired.resetTimer, loop] at moved
    simp only [Cluster.resetTimer, show w.view.electionLoops i = .head from loop]
    split at moved <;> cases moved
    · next dead => exact ⟨tied.loops _ w.heartBeatLoops, if_pos dead⟩
    · next alive => exact ⟨(tied.setServer i _).loops _ w.heartBeatLoops, if_neg alive⟩
  | _ => simp [Wired.resetTimer, loop] at moved

theorem Tied.checkTimer (tied : Tied w) {i : Fin n} (moved : w.checkTimer i = some t) :
    Tied t ∧ w.view.checkTimer i = some t.view := by
  cases loop : w.electionLoops i with
  | sleeping currTerm =>
    simp only [Wired.checkTimer, loop] at moved
    simp only [Cluster.checkTimer, show w.view.electionLoops i = .sleeping currTerm from loop]
    split at moved <;> cases moved
    · next timedOut =>
      refine ⟨((tied.loops _ w.heartBeatLoops).setServer i _).goAll .vote i, ?_⟩
      rw [(view_goAll _ i).1]
      exact if_pos timedOut
    · next quiet => exact ⟨tied.loops _ w.heartBeatLoops, if_neg quiet⟩
  | _ => simp [Wired.checkTimer, loop] at moved

theorem Tied.sleepHeartBeats (tied : Tied w) {i : Fin n} (moved : w.sleepHeartBeats i = some t) :
    Tied t ∧ w.view.sleepHeartBeats i = some t.view := by
  cases loop : w.heartBeatLoops i with
  | head =>
    simp only [Wired.sleepHeartBeats, loop] at moved
    simp only [Cluster.sleepHeartBeats, show w.view.heartBeatLoops i = .head from loop]
    cases moved
    exact ⟨tied.loops w.electionLoops _, rfl⟩
  | _ => simp [Wired.sleepHeartBeats, loop] at moved

theorem Tied.sendHeartBeats (tied : Tied w) {i : Fin n} (moved : w.sendHeartBeats i = some t) :
    Tied t ∧ w.view.sendHeartBeats i = some t.view := by
  cases loop : w.heartBeatLoops i with
  | sleeping =>
    simp only [Wired.sendHeartBeats, loop] at moved
    simp only [Cluster.sendHeartBeats, show w.view.heartBeatLoops i = .sleeping () from loop]
    split at moved <;> cases moved
    · next leads =>
      refine ⟨(tied.loops w.electionLoops _).goAll .beat i, ?_⟩
      rw [(view_goAll _ i).2]
      exact if_pos leads
    · next follows => exact ⟨tied.loops w.electionLoops _, if_neg follows⟩
  | _ => simp [Wired.sendHeartBeats, loop] at moved

/-! ## Runs -/

theorem tied_init (n : Nat) : Tied (init n) where
  net := ⟨fun _ => rfl, fun _ _ same => Option.some.inj same.symm, fun _ _ same => Option.some.inj same.symm,
    fun _ listed => (by cases listed)⟩
  linked _ _ listed := (by cases listed)
  owners := .refl _

theorem callerEvent_follows {act : RaftNetwork n → Caller n → Option (RaftNetwork n × Caller n)}
    (acts : ∀ {g net g'}, (w.callers kind)[k]? = some g → act w.net g = some (net, g') →
      Follows w (w.setCaller kind k net g'))
    (moved : w.callerEvent kind k act = some t) : Follows w t := by
  obtain ⟨g, found, acted⟩ := Option.bind_eq_some_iff.mp moved
  obtain ⟨after, stepped, rfl⟩ := Option.map_eq_some_iff.mp acted
  exact acts found stepped

theorem Tied.step (tied : Tied w) {e : Event n} (moved : w.step e = some t) : Follows w t := by
  replace moved := (Option.ite_none_left_eq_some.mp moved).2
  cases e with
  | resetTimer i => exact (tied.resetTimer moved).imp_right fun stepped => .inr ⟨.resetTimer i, stepped⟩
  | checkTimer i => exact (tied.checkTimer moved).imp_right fun stepped => .inr ⟨.checkTimer i, stepped⟩
  | sleepHeartBeats i =>
    exact (tied.sleepHeartBeats moved).imp_right fun stepped => .inr ⟨.sleepHeartBeats i, stepped⟩
  | sendHeartBeats i => exact (tied.sendHeartBeats moved).imp_right fun stepped => .inr ⟨.sendHeartBeats i, stepped⟩
  | kill i =>
    cases moved
    exact ⟨tied.setServer i _, .inr ⟨.kill i, rfl⟩⟩
  | begins kind k => exact callerEvent_follows (fun found => tied.begins found) moved
  | returns kind k => exact callerEvent_follows (fun found => tied.returns found) moved
  | retries kind k => exact callerEvent_follows (fun found => tied.retries found) moved
  | network e =>
    obtain ⟨ok, moved⟩ := Option.ite_none_right_eq_some.mp moved
    obtain ⟨net, stepped, rfl⟩ := Option.map_eq_some_iff.mp moved
    exact tied.network ok stepped

/-- However the network and its tests interfere, the peers and their goroutines go through a run of the
cluster. -/
theorem clusterRun_of_wired {taken : List (Taken (Wired n) (Event n))} {final : Wired n}
    (run : Run step (init n) taken final) : ∃ taken', Cluster.ClusterRun n taken' final.view := by
  have part : ∃ taken', Cluster.ClusterRun n taken' final.view ∧ AllMeet (fun _ _ => True) taken' :=
    (run.part view (tied_init n) fun _ _ _ tied moved => (tied.step moved).imp_right fun follows =>
      follows.imp_right fun stepped => stepped.imp fun _ stepped => ⟨trivial, stepped⟩).2
  exact part.imp fun _ cluster => cluster.1

/-- The end of a peer to another one is enabled, and its first request for a vote goes through the network. -/
def electedOverNetwork (i peer : Fin n) : List (Event n) :=
  [.network (.enable (i, peer) true), .resetTimer i, .checkTimer i, .begins .vote 0] ++
    [Labrpc.Event.accept 0, .route 0, .start 0, .execute 0, .receive 0, .check 0, .pass 0, .deliver 0].map .network ++
    [.returns .vote 0]

example : ((outcome step (init 2) (electedOverNetwork 0 1)).rf 0).serverState = .leader := by decide +kernel

end Wired

end Tda596Labs.Raft
