import Tda596Labs.Lib.Pool
import Tda596Labs.Raft.Campaign

/-! # A leader that is heard stays the leader

Terms rise only when an election timer expires.  As long as none does, a leader of the highest term that has
voted for itself is not deposed, whatever requests and answers are still under way: no request is of a newer
term, its own vote is taken, and its heartbeats are not refused.  What could depose it without any timeout is a
refusal from before it was elected, since the term of a refusal is taken over unseen.
-/

namespace Tda596Labs.Raft

open Tda596Labs.Transition

namespace Cluster

variable {n : Nat}

/-! ## What a step can do -/

/-- A goroutine makes one call: it sends, the call is handled, it goes on without an answer, or takes it. -/
inductive Turn {Args Reply : Type} (c d : Cluster n) (request : Server n → Args)
    (handle : Server n → Args → Server n × Reply) (take : Server n → Reply → Server n)
    (g h : Goroutine n Args Reply) : Prop where
  | send (ready : g.phase = .ready) (sent : h = g.send (request (c.servers g.server)))
      (servers : d.servers = c.servers)
  | answer {args : Args} (asks : g.request = some args) (unanswered : g.reply = none)
      (answered : h = g.answer (handle (c.servers g.peer) args).2)
      (servers : d.servers = Function.update c.servers g.peer (handle (c.servers g.peer) args).1)
  | enter {phase : Phase} (away : phase ≠ .ready ∧ phase ≠ .calling) (entered : h = g.enter phase)
      (servers : d.servers = c.servers)
  | take {reply : Reply} (waits : g.phase = .calling) (answered : g.reply = some reply)
      (ends : h = g.enter .returned)
      (servers : d.servers = Function.update c.servers g.server (take (c.servers g.server) reply))

/-- The step function read backwards. -/
inductive Change (c d : Cluster n) : Event n → Prop where
  | server {e : Event n} (servers : ∀ j, SameBallot (c.servers j) (d.servers j)) (votes : d.votes = c.votes)
      (beats : d.beats = c.beats) : Change c d e
  | election {j : Fin n} {currTerm : Int} (sleeping : c.electionLoops j = .sleeping currTerm)
      (timedOut : (c.servers j).electionTimedOut currTerm = true)
      (servers : d.servers = Function.update c.servers j (c.servers j).startElection)
      (votes : d.votes = c.votes ++
        ((List.finRange n).filter (· ≠ j)).map (Goroutine.start j ((c.servers j).currentTerm + 1)))
      (beats : d.beats = c.beats) : Change c d (.checkTimer j)
  | heartBeats {e : Event n} {j : Fin n} (servers : d.servers = c.servers) (votes : d.votes = c.votes)
      (beats : d.beats = c.beats ++ c.goAll j) : Change c d e
  | vote {e : Event n} {k : Nat} {g h : AskForVote n} (found : c.votes[k]? = some g)
      (turn : Turn c d Server.voteRequest Server.requestVote Server.countVote g h)
      (votes : d.votes = c.votes.set k h) (beats : d.beats = c.beats) : Change c d e
  | beat {e : Event n} {k : Nat} {g h : SendHeartBeat n} (found : c.beats[k]? = some g)
      (turn : Turn c d Server.heartBeat Server.appendEntries Server.heartBeatAnswered g h)
      (votes : d.votes = c.votes) (beats : d.beats = c.beats.set k h) : Change c d e

theorem step_change {c d : Cluster n} {e : Event n} (moved : c.step e = some d) : Change c d e := by
  cases e with
  | resetTimer i =>
    simp only [step, resetTimer] at moved
    split at moved
    · split at moved <;> cases moved
      · exact .server (sameBallot_of_servers_eq rfl) rfl rfl
      · exact .server (sameBallot_update rfl ⟨rfl, rfl, rfl, rfl, rfl⟩) rfl rfl
    · cases moved
  | checkTimer i =>
    simp only [step, checkTimer] at moved
    split at moved
    · next currTerm sleeping =>
      split at moved
      · next timedOut =>
        cases moved
        refine .election sleeping timedOut rfl ?_ rfl
        simp only [askAllPeersForVote, goAll_setServer]
        rfl
      · cases moved
        exact .server (sameBallot_of_servers_eq rfl) rfl rfl
    · cases moved
  | sleepHeartBeats i =>
    simp only [step, sleepHeartBeats] at moved
    split at moved <;> cases moved
    exact .server (sameBallot_of_servers_eq rfl) rfl rfl
  | sendHeartBeats i =>
    simp only [step, sendHeartBeats] at moved
    split at moved
    · split at moved <;> cases moved
      · exact .heartBeats rfl rfl rfl
      · exact .server (sameBallot_of_servers_eq rfl) rfl rfl
    · cases moved
  | kill i =>
    cases moved
    exact .server (sameBallot_update rfl ⟨rfl, rfl, rfl, rfl, rfl⟩) rfl rfl
  | ask k =>
    simp only [step, voteEvent, Option.bind_eq_some_iff, Option.ite_none_right_eq_some] at moved
    obtain ⟨g, found, ready, moved⟩ := moved
    cases moved
    exact .vote found (.send ready rfl rfl) rfl rfl
  | voteCallFails k =>
    simp only [step, voteEvent, Option.bind_eq_some_iff, Option.ite_none_right_eq_some] at moved
    obtain ⟨g, found, _, moved⟩ := moved
    cases moved
    exact .vote found (.enter (by simp) rfl rfl) rfl rfl
  | voteRetry k =>
    simp only [step, voteEvent, Option.bind_eq_some_iff, Option.ite_none_right_eq_some] at moved
    obtain ⟨g, found, _, moved⟩ := moved
    cases moved
    exact .vote found (.enter (by split <;> simp) rfl rfl) rfl rfl
  | handleVote k =>
    simp only [step, voteEvent, Option.bind_eq_some_iff] at moved
    obtain ⟨g, found, moved⟩ := moved
    split at moved
    · next asks unanswered =>
      cases moved
      exact .vote found (.answer asks unanswered rfl rfl) rfl rfl
    · cases moved
  | voteReply k =>
    simp only [step, voteEvent, Option.bind_eq_some_iff] at moved
    obtain ⟨g, found, moved⟩ := moved
    split at moved
    · next waits answered =>
      cases moved
      exact .vote found (.take waits answered rfl rfl) rfl rfl
    · cases moved
  | beat k =>
    simp only [step, beatEvent, Option.bind_eq_some_iff, Option.ite_none_right_eq_some] at moved
    obtain ⟨g, found, ready, moved⟩ := moved
    cases moved
    exact .beat found (.send ready rfl rfl) rfl rfl
  | beatCallFails k =>
    simp only [step, beatEvent, Option.bind_eq_some_iff, Option.ite_none_right_eq_some] at moved
    obtain ⟨g, found, _, moved⟩ := moved
    cases moved
    exact .beat found (.enter (by simp) rfl rfl) rfl rfl
  | beatRetry k =>
    simp only [step, beatEvent, Option.bind_eq_some_iff, Option.ite_none_right_eq_some] at moved
    obtain ⟨g, found, _, moved⟩ := moved
    cases moved
    exact .beat found (.enter (by split <;> simp) rfl rfl) rfl rfl
  | handleBeat k =>
    simp only [step, beatEvent, Option.bind_eq_some_iff] at moved
    obtain ⟨g, found, moved⟩ := moved
    split at moved
    · next asks unanswered =>
      cases moved
      exact .beat found (.answer asks unanswered rfl rfl) rfl rfl
    · cases moved
  | beatReply k =>
    simp only [step, beatEvent, Option.bind_eq_some_iff] at moved
    obtain ⟨g, found, moved⟩ := moved
    split at moved
    · next waits answered =>
      cases moved
      exact .beat found (.take waits answered rfl rfl) rfl rfl
    · cases moved

/-! ## Goroutines -/

/-- What holds of the goroutines in every run: a peer asks the others for votes, in its own name, and a
heartbeat that has not been sent has no request and no answer. -/
structure Formed (c : Cluster n) : Prop where
  me : ∀ j, (c.servers j).me = j
  peer : ∀ g ∈ c.votes, g.peer ≠ g.server
  candidate : ∀ g ∈ c.votes, ∀ args ∈ g.request, args.candidateId = g.server
  unsent : ∀ g ∈ c.beats, g.phase = .ready → g.request = none ∧ g.reply = none

section Formed

variable {c d : Cluster n} {e : Event n} {Args Reply : Type} {request : Server n → Args}
  {handle : Server n → Args → Server n × Reply} {take : Server n → Reply → Server n}
  {g h : Goroutine n Args Reply}

theorem Turn.unsent (turn : Turn c d request handle take g h)
    (unsent : g.phase = .ready → g.request = none ∧ g.reply = none) :
    h.phase = .ready → h.request = none ∧ h.reply = none := by
  intro ready
  cases turn with
  | send _ sent => simp [sent, Goroutine.send] at ready
  | answer asks _ answered =>
    rw [answered] at ready
    rw [(unsent ready).1] at asks
    cases asks
  | enter away entered =>
    rw [entered] at ready
    exact absurd ready away.1
  | take _ _ ends => simp [ends, Goroutine.enter] at ready

theorem Turn.asks (turn : Turn c d request handle take g h) :
    h.server = g.server ∧ h.peer = g.peer ∧
      (h.request = g.request ∨ h.request = some (request (c.servers g.server))) := by
  cases turn with
  | send _ sent => exact sent ▸ ⟨rfl, rfl, .inr rfl⟩
  | answer _ _ answered => exact answered ▸ ⟨rfl, rfl, .inl rfl⟩
  | enter _ entered => exact entered ▸ ⟨rfl, rfl, .inl rfl⟩
  | take _ _ ends => exact ends ▸ ⟨rfl, rfl, .inl rfl⟩

/-- A section of code that keeps the names of the peers keeps them in a turn. -/
theorem Turn.me (turn : Turn c d request handle take g h)
    (handles : ∀ rf args, (handle rf args).1.me = rf.me) (takes : ∀ rf reply, (take rf reply).me = rf.me)
    (j : Fin n) : (d.servers j).me = (c.servers j).me := by
  have updated : ∀ {k : Fin n} {rf : Server n}, rf.me = (c.servers k).me →
      (Function.update c.servers k rf j).me = (c.servers j).me := by
    intro k rf same
    by_cases equal : j = k
    · subst equal
      rw [Function.update_self, same]
    · rw [Function.update_of_ne equal]
  cases turn with
  | send _ _ servers | enter _ _ servers => rw [servers]
  | answer _ _ _ servers => rw [servers, updated (handles _ _)]
  | take _ _ _ servers => rw [servers, updated (takes _ _)]

theorem mem_goAll {j : Fin n} (listed : g ∈ c.goAll j) :
    g.server = j ∧ g.phase = .ready ∧ g.request = none ∧ g.reply = none := by
  obtain ⟨peer, _, rfl⟩ := List.mem_map.mp listed
  exact ⟨rfl, rfl, rfl, rfl⟩

theorem formed_init : Formed (init n) where
  me _ := rfl
  peer _ listed := by cases listed
  candidate _ listed := by cases listed
  unsent _ listed := by cases listed

theorem Formed.step (formed : Formed c) (moved : c.step e = some d) : Formed d := by
  cases step_change moved with
  | server servers votes beats =>
    exact ⟨fun j => (servers j).me.trans (formed.me j), votes ▸ formed.peer, votes ▸ formed.candidate,
      beats ▸ formed.unsent⟩
  | @election j _ _ _ servers votes beats =>
    refine ⟨fun k => ?_, ?_, ?_, beats ▸ formed.unsent⟩
    · rw [servers]
      by_cases equal : k = j
      · subst equal
        rw [Function.update_self]
        exact formed.me k
      · rw [Function.update_of_ne equal]
        exact formed.me k
    · rw [votes]
      refine List.forall_mem_append.mpr ⟨formed.peer, fun g listed => ?_⟩
      obtain ⟨peer, others, rfl⟩ := List.mem_map.mp listed
      have apart : peer ≠ j := by simpa using (List.mem_filter.mp others).2
      exact apart
    · rw [votes]
      refine List.forall_mem_append.mpr ⟨formed.candidate, fun g listed args asks => ?_⟩
      obtain ⟨peer, others, rfl⟩ := List.mem_map.mp listed
      cases asks
  | heartBeats servers votes beats =>
    refine ⟨servers ▸ formed.me, votes ▸ formed.peer, votes ▸ formed.candidate, ?_⟩
    rw [beats]
    exact List.forall_mem_append.mpr ⟨formed.unsent, fun g listed _ => (mem_goAll listed).2.2⟩
  | @vote _ _ g h found turn votes beats =>
    have listed := List.mem_of_getElem? found
    obtain ⟨server, peer, same | fresh⟩ := turn.asks
    all_goals
      refine ⟨fun j => (turn.me Server.requestVote_me (fun rf reply => (rf.countVote_effect reply).1) j).trans
        (formed.me j), ?_, ?_, beats ▸ formed.unsent⟩
    · exact votes ▸ Pool.forall_set formed.peer (by rw [server, peer]; exact formed.peer g listed)
    · exact votes ▸ Pool.forall_set formed.candidate (by rw [server, same]; exact formed.candidate g listed)
    · exact votes ▸ Pool.forall_set formed.peer (by rw [server, peer]; exact formed.peer g listed)
    · refine votes ▸ Pool.forall_set formed.candidate fun args asks => ?_
      rw [fresh, Option.mem_some_iff] at asks
      rw [← asks, server]
      exact formed.me g.server
  | @beat _ _ g h found turn votes beats =>
    refine ⟨fun j => (turn.me (fun rf args => (rf.appendEntries_effect args).1)
      (fun rf reply => (rf.heartBeatAnswered_effect reply).1) j).trans (formed.me j), votes ▸ formed.peer,
      votes ▸ formed.candidate, ?_⟩
    exact beats ▸ Pool.forall_set formed.unsent (turn.unsent (formed.unsent g (List.mem_of_getElem? found)))

end Formed

/-! ## The peers under a leader -/

/-- Peer `i` leads in the highest term and has its own vote. -/
structure Rules (i : Fin n) (term : Int) (c : Cluster n) : Prop where
  leader : (c.servers i).serverState = .leader
  currentTerm : (c.servers i).currentTerm = term
  votedFor : (c.servers i).votedFor = some i
  terms : ∀ j, (c.servers j).currentTerm ≤ term

/-- What keeps `rf` leading. -/
structure Remains (rf rf' : Server n) : Prop where
  serverState : rf'.serverState = rf.serverState
  currentTerm : rf'.currentTerm = rf.currentTerm
  votedFor : rf'.votedFor = rf.votedFor

section Rules

variable {c d : Cluster n} {i j : Fin n} {term : Int} {rf : Server n}

theorem Rules.same (rules : Rules i term c) (same : ∀ j, Remains (c.servers j) (d.servers j)) : Rules i term d where
  leader := (same i).serverState.trans rules.leader
  currentTerm := (same i).currentTerm.trans rules.currentTerm
  votedFor := (same i).votedFor.trans rules.votedFor
  terms j := (same j).currentTerm.trans_le (rules.terms j)

theorem Rules.update (rules : Rules i term c) (servers : d.servers = Function.update c.servers j rf)
    (le : rf.currentTerm ≤ term) (remains : j = i → Remains (c.servers j) rf) : Rules i term d := by
  have terms : ∀ k, (d.servers k).currentTerm ≤ term := by
    intro k
    rw [servers]
    by_cases equal : k = j
    · rw [equal, Function.update_self]
      exact le
    · rw [Function.update_of_ne equal]
      exact rules.terms k
  by_cases equal : j = i
  · subst equal
    have here : d.servers j = rf := by rw [servers, Function.update_self]
    have kept := remains rfl
    exact ⟨by rw [here, kept.serverState, rules.leader], by rw [here, kept.currentTerm, rules.currentTerm],
      by rw [here, kept.votedFor, rules.votedFor], terms⟩
  · have elsewhere : d.servers i = c.servers i := by rw [servers, Function.update_of_ne (Ne.symm equal)]
    exact ⟨by rw [elsewhere, rules.leader], by rw [elsewhere, rules.currentTerm],
      by rw [elsewhere, rules.votedFor], terms⟩

/-- No request of another candidate moves the leader: the term is not newer and the vote is taken. -/
theorem Rules.requestVote (rules : Rules i term c) {args : RequestVoteArgs n} (le : args.candidateTerm ≤ term)
    (apart : args.candidateId ≠ j)
    (servers : d.servers = Function.update c.servers j ((c.servers j).requestVote args).1) : Rules i term d := by
  cases verdict : ((c.servers j).requestVote args).2.voteGrandted with
  | true =>
    obtain ⟨takes, _, _, _, same⟩ := Server.requestVote_granted verdict
    refine rules.update servers (by omega) fun equal => ?_
    -- the leader is in the term of the request, so it would have to have voted for the candidate
    subst equal
    have isTerm := rules.currentTerm
    have inTerm : (c.servers j).currentTerm = args.candidateTerm := by omega
    exact absurd ((same inTerm).2 j rules.votedFor).symm apart
  | false =>
    obtain same | ⟨newer, takes, _⟩ := Server.requestVote_refused verdict
    · exact rules.update servers (by rw [same]; exact rules.terms j) fun _ => by rw [same]; exact ⟨rfl, rfl, rfl⟩
    · refine rules.update servers (by omega) fun equal => ?_
      subst equal
      have isTerm := rules.currentTerm
      omega

theorem appendEntries_term (rf : Server n) (args : AppendEntriesArgs n) :
    (rf.appendEntries args).1.currentTerm = max rf.currentTerm args.leaderTerm := by
  unfold Server.appendEntries Server.stepDown
  split
  · next older => exact (max_eq_left older.le).symm
  · next notOlder =>
    dsimp only
    split
    · next newer => split <;> exact (max_eq_right newer.le).symm
    · next notNewer => exact (max_eq_left (not_lt.mp notNewer)).symm

/-- A heartbeat moves a peer to its own term at most, and not the leader. -/
theorem Rules.appendEntries (rules : Rules i term c) {args : AppendEntriesArgs n} (le : args.leaderTerm ≤ term)
    (servers : d.servers = Function.update c.servers j ((c.servers j).appendEntries args).1) : Rules i term d := by
  have inTerm := appendEntries_term (c.servers j) args
  refine rules.update servers (by rw [inTerm]; exact max_le (rules.terms j) le) fun equal => ?_
  subst equal
  have isTerm := rules.currentTerm
  obtain ⟨_, votedFor, _, ⟨same, state⟩ | ⟨raised, _⟩⟩ := (c.servers j).appendEntries_effect args
  · exact ⟨state, same, votedFor⟩
  · rw [inTerm, isTerm, max_eq_left le] at raised
    exact absurd raised (lt_irrefl term)

theorem Rules.countVote (rules : Rules i term c) {reply : RequestVoteReply}
    (servers : d.servers = Function.update c.servers j ((c.servers j).countVote reply)) : Rules i term d := by
  obtain ⟨_, inTerm, votedFor, _, state⟩ := (c.servers j).countVote_effect reply
  refine rules.update servers (by rw [inTerm]; exact rules.terms j) fun equal => ?_
  subst equal
  exact ⟨state.resolve_right fun wins => wins.2.1 rules.leader, inTerm, votedFor⟩

theorem Rules.heartBeatAnswered (rules : Rules i term c) {reply : AppendEntriesReply}
    (le : reply.success = false → reply.followersTerm ≤ term) (accepted : j = i → reply.success = true)
    (servers : d.servers = Function.update c.servers j ((c.servers j).heartBeatAnswered reply)) :
    Rules i term d := by
  obtain ⟨_, _, _, same | ⟨refused, inTerm, _⟩⟩ := (c.servers j).heartBeatAnswered_effect reply
  · exact rules.update servers (by rw [same]; exact rules.terms j) fun _ => by rw [same]; exact ⟨rfl, rfl, rfl⟩
  · refine rules.update servers (by rw [inTerm]; exact le refused) fun equal => ?_
    rw [accepted equal] at refused
    cases refused

end Rules

/-! ## What is under way -/

/-- A heartbeat that cannot depose leader `i`: its term and that of its refusal are not newer, and if `i`
still waits for its answer, it is of the present term as long as nobody has answered, and not refused. -/
structure Loyal (i : Fin n) (term : Int) (g : SendHeartBeat n) : Prop where
  request : ∀ args ∈ g.request, args.leaderTerm ≤ term
  refusal : ∀ reply ∈ g.reply, reply.success = false → reply.followersTerm ≤ term
  own : g.server = i → g.phase = .calling → g.reply = none →
    ∀ args ∈ g.request, args.leaderTerm = term
  accepted : g.server = i → g.phase = .calling → ∀ reply ∈ g.reply, reply.success = true

/-- Nothing that is under way can depose `i`. -/
structure Reigns (i : Fin n) (term : Int) (c : Cluster n) : Prop extends Rules i term c where
  votes : ∀ g ∈ c.votes, ∀ args ∈ g.request, args.candidateTerm ≤ term
  beats : ∀ g ∈ c.beats, Loyal i term g

/-- No election timer expires. -/
def timersHold (c : Cluster n) : Event n → Bool
  | .checkTimer j =>
    match c.electionLoops j with
    | .sleeping currTerm => !(c.servers j).electionTimedOut currTerm
    | _ => true
  | _ => true

section Reigns

variable {c d : Cluster n} {i : Fin n} {term : Int} {e : Event n}

theorem loyal_of_unsent {g : SendHeartBeat n} (request : g.request = none) (reply : g.reply = none) :
    Loyal i term g where
  request _ asks := by rw [request] at asks; cases asks
  refusal _ answered := by rw [reply] at answered; cases answered
  own _ _ _ _ asks := by rw [request] at asks; cases asks
  accepted _ _ _ answered := by rw [reply] at answered; cases answered

/-- A heartbeat of the leader's term is accepted by everybody. -/
theorem appendEntries_reply (rf : Server n) (args : AppendEntriesArgs n) :
    ((rf.appendEntries args).2.success = false → (rf.appendEntries args).2.followersTerm = rf.currentTerm) ∧
      (rf.currentTerm ≤ args.leaderTerm → (rf.appendEntries args).2.success = true) := by
  unfold Server.appendEntries
  split
  · next older => exact ⟨fun _ => rfl, fun notOlder => absurd older (not_lt.mpr notOlder)⟩
  · exact ⟨by simp, fun _ => rfl⟩

theorem Loyal.turn {g h : SendHeartBeat n} (loyal : Loyal i term g) (rules : Rules i term c)
    (unsent : g.phase = .ready → g.request = none ∧ g.reply = none)
    (turn : Turn c d Server.heartBeat Server.appendEntries Server.heartBeatAnswered g h) : Loyal i term h := by
  cases turn with
  | send ready sent =>
    have silent : h.reply = none := by rw [sent]; exact (unsent ready).2
    have asks : h.request = some (c.servers g.server).heartBeat := by rw [sent]; rfl
    have server : h.server = g.server := by rw [sent]; rfl
    refine ⟨fun args asked => ?_, fun reply answered => ?_, fun own _ _ args asked => ?_, fun _ _ reply answered => ?_⟩
    · rw [asks, Option.mem_some_iff] at asked
      exact asked ▸ rules.terms g.server
    · rw [silent] at answered
      cases answered
    · rw [asks, Option.mem_some_iff] at asked
      rw [server] at own
      exact asked ▸ own ▸ rules.currentTerm
    · rw [silent] at answered
      cases answered
  | @answer args asks unanswered answered =>
    have verdict := appendEntries_reply (c.servers g.peer) args
    rw [answered]
    refine ⟨loyal.request, fun reply replies refused => ?_, fun _ _ silent => ?_, fun own calling reply replies => ?_⟩
    · cases replies
      rw [verdict.1 refused]
      exact rules.terms g.peer
    · cases silent
    · cases replies
      have isTerm := loyal.own own calling unanswered args asks
      exact verdict.2 (isTerm ▸ rules.terms g.peer)
  | enter away entered =>
    rw [entered]
    exact ⟨loyal.request, loyal.refusal, fun _ calling => absurd calling away.2,
      fun _ calling => absurd calling away.2⟩
  | take _ _ ends =>
    rw [ends]
    refine ⟨loyal.request, loyal.refusal, fun _ calling => ?_, fun _ calling => ?_⟩ <;> cases calling

theorem Reigns.vote (reigns : Reigns i term c) (formed : Formed c) {k : Nat} {g h : AskForVote n}
    (found : c.votes[k]? = some g) (turn : Turn c d Server.voteRequest Server.requestVote Server.countVote g h)
    (votes : d.votes = c.votes.set k h) (beats : d.beats = c.beats) : Reigns i term d := by
  have listed := List.mem_of_getElem? found
  have rules : Rules i term d := by
    cases turn with
    | send _ _ servers | enter _ _ servers =>
      exact reigns.toRules.same fun j => by rw [servers]; exact ⟨rfl, rfl, rfl⟩
    | @answer args asks _ _ servers =>
      have other : args.candidateId ≠ g.peer := by
        rw [formed.candidate g listed args asks]
        exact (formed.peer g listed).symm
      exact reigns.toRules.requestVote (reigns.votes g listed args asks) other servers
    | take _ _ _ servers => exact reigns.toRules.countVote servers
  refine ⟨rules, ?_, beats ▸ reigns.beats⟩
  refine votes ▸ Pool.forall_set reigns.votes fun args asks => ?_
  obtain ⟨_, _, same | fresh⟩ := turn.asks
  · exact reigns.votes g listed args (same ▸ asks)
  · rw [fresh, Option.mem_some_iff] at asks
    exact asks ▸ reigns.terms g.server

theorem Reigns.beat (reigns : Reigns i term c) (formed : Formed c) {k : Nat} {g h : SendHeartBeat n}
    (found : c.beats[k]? = some g)
    (turn : Turn c d Server.heartBeat Server.appendEntries Server.heartBeatAnswered g h)
    (votes : d.votes = c.votes) (beats : d.beats = c.beats.set k h) : Reigns i term d := by
  have listed := List.mem_of_getElem? found
  have loyal := reigns.beats g listed
  have rules : Rules i term d := by
    cases turn with
    | send _ _ servers | enter _ _ servers =>
      exact reigns.toRules.same fun j => by rw [servers]; exact ⟨rfl, rfl, rfl⟩
    | answer asks _ _ servers => exact reigns.toRules.appendEntries (loyal.request _ asks) servers
    | take waits answered _ servers =>
      exact reigns.toRules.heartBeatAnswered (loyal.refusal _ answered)
        (fun own => loyal.accepted own waits _ answered) servers
  exact ⟨rules, votes ▸ reigns.votes,
    beats ▸ Pool.forall_set reigns.beats (loyal.turn reigns.toRules (formed.unsent g listed) turn)⟩

theorem Reigns.step (reigns : Reigns i term c) (formed : Formed c) (holds : timersHold c e = true)
    (moved : c.step e = some d) : Reigns i term d := by
  cases step_change moved with
  | server servers votes beats =>
    exact ⟨reigns.toRules.same fun j => ⟨(servers j).serverState, (servers j).currentTerm, (servers j).votedFor⟩,
      votes ▸ reigns.votes, beats ▸ reigns.beats⟩
  | election sleeping timedOut =>
    simp [timersHold, sleeping, timedOut] at holds
  | heartBeats servers votes beats =>
    refine ⟨reigns.toRules.same fun j => by rw [servers]; exact ⟨rfl, rfl, rfl⟩, votes ▸ reigns.votes, ?_⟩
    rw [beats]
    refine List.forall_mem_append.mpr ⟨reigns.beats, fun g listed => ?_⟩
    obtain ⟨_, _, request, reply⟩ := mem_goAll listed
    exact loyal_of_unsent request reply
  | vote found turn votes beats => exact reigns.vote formed found turn votes beats
  | beat found turn votes beats => exact reigns.beat formed found turn votes beats

theorem reigns_kept (inv : Formed c ∧ Reigns i term c) (holds : timersHold c e = true) (moved : c.step e = some d) :
    Formed d ∧ Reigns i term d :=
  ⟨inv.1.step moved, inv.2.step inv.1 holds moved⟩

theorem formed_of_run {taken : List (Taken (Cluster n) (Event n))} (run : ClusterRun n taken c) : Formed c := by
  have all : AllMeet (fun _ _ => True) taken := fun _ _ => trivial
  exact run.invariant all formed_init fun _ _ _ formed _ moved => formed.step moved

/-- From every reachable state in which a peer reigns, every run without a timeout keeps it the leader of its
term, leaves nobody in a newer term, and brings it no refusal of a heartbeat. -/
theorem leader_stays {before after : List (Taken (Cluster n) (Event n))} (start : ClusterRun n before c)
    (reigns : Reigns i term c) (run : Run step c after d)
    (hold : AllMeet (fun c e => timersHold c e = true) after) : Reigns i term d := by
  have inv := run.invariant hold (And.intro (formed_of_run start) reigns) fun _ _ _ => reigns_kept
  exact inv.2

/-- A leader sends its heartbeats; a follower hears the first while its timer runs, and the answer comes back. -/
def heartBeatsHeard (leader follower : Fin n) : List (Event n) :=
  [.resetTimer follower, .sleepHeartBeats leader, .sendHeartBeats leader, .beat 0, .handleBeat 0, .checkTimer follower,
    .beatReply 0]

theorem leader_stays_when_heard :
    Reigns 0 1 (outcome step (outcome step (init 3) (firstLeader 0)) (heartBeatsHeard 0 1)) ∧
      ((outcome step (outcome step (init 3) (firstLeader 0)) (heartBeatsHeard 0 1)).servers 1).currentTerm = 1 := by
  have reigns : Reigns 0 1 (outcome step (init 3) (firstLeader 0)) :=
    ⟨⟨by decide, by decide, by decide, by decide⟩, by decide, fun g listed => by cases listed⟩
  have hold : AllMeet (fun c e => timersHold c e = true)
      (trace step (outcome step (init 3) (firstLeader 0)) (heartBeatsHeard 0 1)) := by decide
  exact ⟨leader_stays (run_trace step (init 3) (firstLeader 0)) reigns (run_trace step _ (heartBeatsHeard 0 1)) hold,
    by decide⟩

end Reigns

end Cluster

end Tda596Labs.Raft
