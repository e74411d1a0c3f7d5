import Tda596Labs.Raft.Votes

/-! # Election safety

In every run in which goroutines act in the term they belong to, two servers never lead the same term.
Without that condition they can: votes of an old election are counted in a new term.
-/

namespace Tda596Labs.Raft

open Tda596Labs.Transition

namespace Cluster

variable {n : Nat} {c d : Cluster n}

/-! ## The step lemmas -/

theorem VoteInv.ask (inv : VoteInv c) {k : Nat} {g : AskForVote n} (found : c.votes[k]? = some g)
    (ready : g.phase = .ready) (acts : ActsInItsTerm c (.ask k)) (servers : d.servers = c.servers)
    (votes : d.votes = c.votes.set k (g.send (c.servers g.server).voteRequest)) : VoteInv d := by
  have member := Pool.mem_of_found found
  obtain ⟨unsent, unanswered⟩ := inv.ready g member ready
  have noVote : ∀ term, (g.send (c.servers g.server).voteRequest).grantedIn term = g.grantedIn term := by
    intro term
    simp [Goroutine.grantedIn, Goroutine.send, unsent, unanswered]
  have same : SameTask g (g.send (c.servers g.server).voteRequest) :=
    ⟨rfl, rfl, rfl, fun term granted => by rw [noVote, granted], by simp [Goroutine.send], _, rfl⟩
  refine inv.goroutine found same votes servers
    (Goroutine.countedFor_of_unanswered unanswered) noVote ?_
  intro args sent
  obtain rfl : (c.servers g.server).voteRequest = args := Option.some.inj sent
  refine ⟨inv.me g.server, ?_⟩
  -- the request carries the term the goroutine finds, not the one it was started in
  obtain sameTerm | leads := acts g found
  · exact .inl sameTerm
  · exact .inr (inv.leader _ leads)

theorem VoteInv.phase (inv : VoteInv c) {k : Nat} {g : AskForVote n} {phase : Phase}
    (found : c.votes[k]? = some g) (started : g.phase ≠ .ready) (unreturned : g.phase ≠ .returned) (next : phase ≠ .ready)
    (servers : d.servers = c.servers) (votes : d.votes = c.votes.set k (g.enter phase)) :
    VoteInv d := by
  have member := Pool.mem_of_found found
  have same : SameTask g (g.enter phase) :=
    ⟨rfl, rfl, rfl, fun _ => id, next, inv.sent g member started⟩
  exact inv.goroutine found same votes servers (Goroutine.countedFor_of_unreturned unreturned)
    (fun _ => rfl) (inv.request g member)

/-- A peer that has voted in a term grants nobody else its vote of that term. -/
theorem VoteInv.granted_unique (inv : VoteInv c) {voter candidate : Fin n} {args : RequestVoteArgs n}
    (granted : ((c.servers voter).requestVote args).2.voteGrandted = true)
    (voted : c.Voted voter args.candidateTerm candidate) : candidate = args.candidateId := by
  obtain ⟨_, _, _, notOlder, sameTerm⟩ := Server.requestVote_granted granted
  obtain ⟨le, vote⟩ := inv.backed _ _ _ voted
  -- the vote bounds the term from below and the grant from above
  have equal : args.candidateTerm = (c.servers voter).currentTerm := by omega
  exact (sameTerm equal.symm).2 _ (vote equal)

/-- Handling a request keeps every vote the peer has already given backed. -/
theorem VoteInv.backed_requestVote (inv : VoteInv c) {voter candidate : Fin n} {term : Int}
    {args : RequestVoteArgs n} (voted : c.Voted voter term candidate) :
    term ≤ ((c.servers voter).requestVote args).1.currentTerm ∧
      (term = ((c.servers voter).requestVote args).1.currentTerm →
        ((c.servers voter).requestVote args).1.votedFor = some candidate) := by
  have grows := Server.requestVote_term_le (c.servers voter) args
  obtain ⟨le, vote⟩ := inv.backed _ _ _ voted
  refine ⟨by omega, fun equal => ?_⟩
  cases verdict : ((c.servers voter).requestVote args).2.voteGrandted with
  | true =>
    obtain ⟨newTerm, newVote, _, _, _⟩ := Server.requestVote_granted verdict
    rw [equal, newTerm] at voted
    rw [newVote, inv.granted_unique verdict voted]
  | false =>
    obtain unchanged | ⟨newer, newTerm, _⟩ := Server.requestVote_refused verdict
    · rw [unchanged] at equal ⊢
      exact vote equal
    · omega

theorem VoteInv.handleVote (inv : VoteInv c) {k : Nat} {g : AskForVote n} {args : RequestVoteArgs n}
    (found : c.votes[k]? = some g) (request : g.request = some args) (unanswered : g.reply = none)
    (servers : d.servers = Function.update c.servers g.peer ((c.servers g.peer).requestVote args).1)
    (votes : d.votes = c.votes.set k (g.answer ((c.servers g.peer).requestVote args).2)) :
    VoteInv d := by
  have member := Pool.mem_of_found found
  have candidate := (inv.request g member args request).1
  have started : g.phase ≠ .ready := by
    intro ready
    have unsent := (inv.ready g member ready).1
    rw [request] at unsent
    cases unsent
  have same : SameTask g (g.answer ((c.servers g.peer).requestVote args).2) := by
    refine ⟨rfl, rfl, rfl, fun term granted => ?_, started, args, request⟩
    simp [Goroutine.grantedIn, request, unanswered] at granted
  -- a vote of the new state is an old one, or the one that this step grants
  have voted : ∀ {voter term a}, d.Voted voter term a → c.Voted voter term a ∨
      (voter = g.peer ∧ term = args.candidateTerm ∧ a = args.candidateId ∧
        ((c.servers g.peer).requestVote args).2.voteGrandted = true) := by
    intro voter term a new
    obtain old | ⟨server, peer, granted⟩ := voted_of_set found same votes new
    · exact .inl old
    · obtain ⟨args', reply, request', answered, grants, rfl⟩ := Goroutine.grantedIn_iff.mp granted
      obtain rfl : args = args' := Option.some.inj (request.symm.trans request')
      obtain rfl := Option.some.inj answered
      exact .inr ⟨peer, rfl, server.trans candidate.symm, grants⟩
  have uncounted := Goroutine.countedFor_of_unanswered unanswered
  refine inv.update found same votes uncounted servers (Server.requestVote_me _ _)
    (inv.request g member) ?others ?backed ?unique ?counted ?leader
  case others =>
    intro voter term a other new
    obtain old | ⟨peer, _⟩ := voted new
    · exact old
    · exact absurd peer other
  case backed =>
    intro term a new
    obtain old | ⟨_, rfl, rfl, granted⟩ := voted new
    · exact inv.backed_requestVote old
    · obtain ⟨newTerm, newVote, _, _, _⟩ := Server.requestVote_granted granted
      exact ⟨newTerm.ge, fun _ => newVote⟩
  case unique =>
    intro term a b first second
    obtain oldFirst | ⟨_, rfl, rfl, granted⟩ := voted first
    · obtain oldSecond | ⟨_, rfl, rfl, granted⟩ := voted second
      · exact inv.unique _ _ _ _ oldFirst oldSecond
      · exact inv.granted_unique granted oldFirst
    · obtain oldSecond | ⟨_, _, rfl, _⟩ := voted second
      · exact (inv.granted_unique granted oldSecond).symm
      · rfl
  case counted =>
    intro startedIn
    obtain newer | sameTerm := lt_or_eq_of_le (Server.requestVote_term_le (c.servers g.peer) args)
    -- a peer that has just adopted a term has no election of its own in it
    · exact absurd (started_of_set found same votes startedIn) (inv.no_later_election newer)
    · exact inv.counted_set found same votes uncounted sameTerm.symm
        (Server.requestVote_receivedVotes sameTerm.symm) startedIn
  case leader =>
    intro leads
    cases verdict : ((c.servers g.peer).requestVote args).2.voteGrandted with
    | true => simp [(Server.requestVote_granted verdict).2.2.1] at leads
    | false =>
      obtain unchanged | ⟨_, _, notLeader⟩ := Server.requestVote_refused verdict
      · rw [unchanged] at leads ⊢
        exact (inv.leader _ leads).mono (keepsVotes_set found same votes)
      · exact absurd leads notLeader

/-- Counting a granted vote raises the server's count and the number of counted votes alike, unless the
server is elected already. -/
theorem VoteInv.counted_countVote (inv : VoteInv c) {k : Nat} {g : AskForVote n}
    {reply : RequestVoteReply} (found : c.votes[k]? = some g) (waiting : g.phase = .calling)
    (answered : g.reply = some reply) (acts : ActsInItsTerm c (.voteReply k))
    (votes : d.votes = c.votes.set k (g.enter .returned)) (keeps : KeepsVotes c d)
    (granted : reply.voteGrandted = true) :
    d.Elected g.server (c.servers g.server).currentTerm ∨
      (g.startTerm = (c.servers g.server).currentTerm ∧ (c.servers g.server).receivedVotes + 1 ≤
        1 + d.votes.countP (·.countedFor g.server (c.servers g.server).currentTerm)) := by
  have member := Pool.mem_of_found found
  obtain ⟨args, request⟩ := inv.sent g member (by simp [waiting])
  obtain sameTerm | leads := acts g found args request reply answered granted
  · obtain own | elected := (inv.request g member args request).2
    · have start : g.startTerm = (c.servers g.server).currentTerm := by omega
      obtain elected | covered := inv.counted g.server ⟨g, member, rfl, start⟩
      · exact .inl (elected.mono keeps)
      · refine .inr ⟨start, ?_⟩
        have isCounted : (g.enter .returned).countedFor g.server (c.servers g.server).currentTerm = true :=
          Goroutine.countedFor_iff.mpr ⟨rfl, start, rfl,
            Goroutine.grantedIn_iff.mpr ⟨args, reply, request, answered, granted, sameTerm.symm⟩⟩
        rw [votes, Pool.countP_set_new found
          (Goroutine.countedFor_of_unreturned (by simp [waiting]) _ _) isCounted]
        omega
    -- the request was made by a leader of its term, in a goroutine of an older one
    · exact .inl (sameTerm ▸ elected.mono keeps)
  · exact .inl ((inv.leader _ leads).mono keeps)

theorem VoteInv.voteReply (inv : VoteInv c) {k : Nat} {g : AskForVote n} {reply : RequestVoteReply}
    (found : c.votes[k]? = some g) (waiting : g.phase = .calling) (answered : g.reply = some reply)
    (acts : ActsInItsTerm c (.voteReply k))
    (servers : d.servers = Function.update c.servers g.server ((c.servers g.server).countVote reply))
    (votes : d.votes = c.votes.set k (g.enter .returned)) : VoteInv d := by
  have member := Pool.mem_of_found found
  have same : SameTask g (g.enter .returned) :=
    ⟨rfl, rfl, rfl, fun _ => id, by simp [Goroutine.enter], inv.sent g member (by simp [waiting])⟩
  have uncounted := Goroutine.countedFor_of_unreturned (g := g) (by simp [waiting])
  have keeps := keepsVotes_set found same votes
  have voted : ∀ {voter term a}, d.Voted voter term a → c.Voted voter term a := by
    intro voter term a new
    obtain old | ⟨rfl, rfl, granted⟩ := voted_of_set found same votes new
    · exact old
    · exact .inl ⟨g, member, rfl, rfl, granted⟩
  have grantedCase := inv.counted_countVote found waiting answered acts votes keeps
  obtain ⟨me, term, vote, count, state⟩ := (c.servers g.server).countVote_effect reply
  refine inv.update found same votes uncounted servers me (inv.request g member)
    ?others ?backed ?unique ?counted ?leader
  case others => exact fun _ _ _ _ new => voted new
  case backed =>
    rw [term, vote]
    exact fun _ _ new => inv.backed _ _ _ (voted new)
  case unique => exact fun _ _ _ first second => inv.unique _ _ _ _ (voted first) (voted second)
  case counted =>
    intro started
    cases granted : reply.voteGrandted with
    | true =>
      rw [term, count, if_pos granted]
      exact (grantedCase granted).imp_right And.right
    | false =>
      refine inv.counted_set found same votes uncounted term ?_ started
      simp [count, granted]
  case leader =>
    intro leads
    rw [term]
    obtain unchanged | ⟨granted, _, majority⟩ := state
    · exact (inv.leader _ (unchanged ▸ leads)).mono keeps
    · obtain elected | ⟨start, covered⟩ := grantedCase granted
      · exact elected
      -- the majority that the server has counted is a majority of voters
      · refine (inv.toPoolInv.set found same votes).elected_of_counted
          ⟨g.enter .returned, ?_, rfl, start⟩ (by omega)
        rw [votes]
        exact Pool.mem_set_self found _

theorem mem_started {i : Fin n} {term : Int} {h : AskForVote n}
    (member : h ∈ ((List.finRange n).filter (· ≠ i)).map (Goroutine.start i term)) :
    ∃ peer, peer ≠ i ∧ h = Goroutine.start i term peer := by
  obtain ⟨peer, inside, rfl⟩ := List.mem_map.mp member
  exact ⟨peer, by simpa using inside, rfl⟩

/-! ### An election begins -/

section Election

variable {i : Fin n} (votes : d.votes = c.votes ++
  ((List.finRange n).filter (· ≠ i)).map (Goroutine.start i ((c.servers i).currentTerm + 1)))
include votes

theorem keepsVotes_election : KeepsVotes c d := by
  intro voter term candidate voted
  simp only [Voted, votes, List.mem_append]
  refine voted.imp ?_ (And.imp_right ?_)
  · rintro ⟨g, member, rest⟩
    exact ⟨g, .inl member, rest⟩
  · rintro ⟨g, member, rest⟩
    exact ⟨g, .inl member, rest⟩

/-- The only new vote is the candidate's own. -/
theorem voted_of_election {voter a : Fin n} {term : Int} (new : d.Voted voter term a) :
    c.Voted voter term a ∨ (voter = i ∧ a = i ∧ term = (c.servers i).currentTerm + 1) := by
  simp only [Voted, votes, List.mem_append] at new
  obtain ⟨g, member | member, server, peer, granted⟩ | ⟨self, g, member | member, server, start⟩ := new
  · exact .inl (.inl ⟨g, member, server, peer, granted⟩)
  · obtain ⟨_, _, rfl⟩ := mem_started member
    simp [Goroutine.start, Goroutine.grantedIn] at granted
  · exact .inl (.inr ⟨self, g, member, server, start⟩)
  · obtain ⟨_, _, rfl⟩ := mem_started member
    exact .inr ⟨self.trans server.symm, server.symm, start.symm⟩

theorem PoolInv.election (pool : PoolInv c)
    (later : ∀ a, ¬ c.Voted i ((c.servers i).currentTerm + 1) a) : PoolInv d := by
  refine ⟨?_, ?_, ?_, ?_⟩
  · intro g member ready
    rw [votes, List.mem_append] at member
    obtain old | new := member
    · exact pool.ready g old ready
    · obtain ⟨_, _, rfl⟩ := mem_started new
      exact ⟨rfl, rfl⟩
  · intro g member started
    rw [votes, List.mem_append] at member
    obtain old | new := member
    · exact pool.sent g old started
    · obtain ⟨_, _, rfl⟩ := mem_started new
      exact absurd rfl started
  · intro g member
    rw [votes, List.mem_append] at member
    obtain old | new := member
    · exact pool.peer g old
    · obtain ⟨_, other, rfl⟩ := mem_started new
      exact other
  · rw [votes, List.map_append, List.nodup_append]
    refine ⟨pool.distinct, ?_, ?_⟩
    · rw [List.map_map]
      apply List.Nodup.map
      · intro first second equal
        simpa [Goroutine.start] using equal
      · exact (List.nodup_finRange n).filter _
    · intro key old key' new equal
      subst equal
      obtain ⟨g, inside, rfl⟩ := List.mem_map.mp old
      obtain ⟨h, fresh, same⟩ := List.mem_map.mp new
      obtain ⟨_, _, rfl⟩ := mem_started fresh
      simp only [Goroutine.start, Prod.mk.injEq] at same
      have self := voted_self inside
      rw [← same.1, ← same.2.1] at self
      exact later _ self

theorem VoteInv.election (inv : VoteInv c)
    (servers : d.servers = Function.update c.servers i (c.servers i).startElection) : VoteInv d := by
  have ownState : d.servers i = (c.servers i).startElection := by rw [servers, Function.update_self]
  have otherState : ∀ {j}, j ≠ i → d.servers j = c.servers j := by
    intro j other
    rw [servers, Function.update_of_ne other]
  have keeps := keepsVotes_election votes
  -- nobody has voted in the term that begins, since a vote never runs ahead of its voter's term
  have later : ∀ {a}, ¬ c.Voted i ((c.servers i).currentTerm + 1) a := by
    intro a old
    have bound := (inv.backed _ _ _ old).1
    omega
  refine { toPoolInv := inv.toPoolInv.election votes fun _ => later,
           me := inv.me_update servers rfl, request := ?_, backed := ?_, unique := ?_, counted := ?_,
           leader := ?_ }
  · intro g member args request
    rw [votes, List.mem_append] at member
    obtain old | new := member
    · exact inv.request_mono keeps old request
    · obtain ⟨_, _, rfl⟩ := mem_started new
      cases request
  · intro voter term a new
    obtain old | ⟨rfl, rfl, rfl⟩ := voted_of_election votes new
    · by_cases equal : voter = i
      · subst equal
        have bound := (inv.backed _ _ _ old).1
        rw [ownState]
        simp only [Server.startElection]
        exact ⟨by omega, fun same => by omega⟩
      · rw [otherState equal]
        exact inv.backed _ _ _ old
    · rw [ownState]
      exact ⟨le_rfl, fun _ => congrArg some (inv.me _)⟩
  · intro voter term a b first second
    obtain oldFirst | ⟨rfl, rfl, rfl⟩ := voted_of_election votes first
    · obtain oldSecond | ⟨rfl, rfl, rfl⟩ := voted_of_election votes second
      · exact inv.unique _ _ _ _ oldFirst oldSecond
      · exact absurd oldFirst later
    · obtain oldSecond | ⟨_, rfl, _⟩ := voted_of_election votes second
      · exact absurd oldSecond later
      · rfl
  · intro j started
    by_cases equal : j = i
    · subst equal
      rw [ownState]
      simp only [Server.startElection]
      exact .inr (by omega)
    · rw [otherState equal] at started ⊢
      have startedBefore : ∃ g ∈ c.votes, g.server = j ∧ g.startTerm = (c.servers j).currentTerm := by
        obtain ⟨g, member, server, start⟩ := started
        rw [votes, List.mem_append] at member
        obtain old | new := member
        · exact ⟨g, old, server, start⟩
        · obtain ⟨_, _, rfl⟩ := mem_started new
          exact absurd server.symm equal
      obtain elected | covered := inv.counted j startedBefore
      · exact .inl (elected.mono keeps)
      · rw [votes, List.countP_append]
        exact .inr (by omega)
  · intro j leads
    by_cases equal : j = i
    · subst equal
      rw [ownState] at leads
      cases leads
    · rw [otherState equal] at leads ⊢
      exact (inv.leader j leads).mono keeps

end Election

theorem VoteInv.step (inv : VoteInv c) {e : Event n} (acts : ActsInItsTerm c e)
    (moved : c.step e = some d) : VoteInv d := by
  cases step_effect moved with
  | quiet servers votes =>
    refine inv.retreat votes fun i => ?_
    exact ⟨(servers i).me, .inl ⟨(servers i).currentTerm, (servers i).votedFor,
      (servers i).receivedVotes, fun leads => (servers i).serverState ▸ leads⟩⟩
  | election servers votes => exact inv.election votes servers
  | ask found ready servers votes => exact inv.ask found ready acts servers votes
  | phase found started unreturned next servers votes =>
    exact inv.phase found started unreturned next servers votes
  | handleVote found request unanswered servers votes =>
    exact inv.handleVote found request unanswered servers votes
  | voteReply found waiting answered servers votes =>
    exact inv.voteReply found waiting answered acts servers votes
  | @handleBeat _ g args servers votes =>
    refine inv.retreat votes (retreats_update servers ?_)
    obtain ⟨me, vote, count, ⟨term, state⟩ | ⟨newer, notLeader⟩⟩ :=
      (c.servers g.peer).appendEntries_effect args
    · exact ⟨me, .inl ⟨term, vote, count, fun leads => state ▸ leads⟩⟩
    · exact ⟨me, .inr ⟨newer, notLeader⟩⟩
  | @beatReply _ g reply found answered servers votes =>
    refine inv.retreat votes (retreats_update servers ?_)
    obtain ⟨me, vote, count, same | ⟨refused, term, notLeader⟩⟩ :=
      (c.servers g.server).heartBeatAnswered_effect reply
    · rw [same]
      exact Retreats.refl _
    -- only here the peer may drop to follower within its term, or copy a term that is not its own
    · have fresh := acts g found reply answered refused
      obtain newer | equal := fresh.lt_or_eq
      · exact ⟨me, .inr ⟨term ▸ newer, notLeader⟩⟩
      · exact ⟨me, .inl ⟨term.trans equal.symm, vote, count, fun leads => absurd leads notLeader⟩⟩

/-! ## Runs -/

/-- No two servers lead the same term. -/
def ElectionSafe (c : Cluster n) : Prop :=
  ∀ i j, (c.servers i).serverState = .leader → (c.servers j).serverState = .leader →
    (c.servers i).currentTerm = (c.servers j).currentTerm → i = j

theorem voteInv_of_run {taken : List (Taken (Cluster n) (Event n))} (run : ClusterRun n taken c)
    (acts : AllMeet ActsInItsTerm taken) : VoteInv c :=
  run.invariant acts voteInv_init fun _ _ _ inv meets moved => inv.step meets moved

/-- Election safety, for every run in which goroutines act in the term they belong to. -/
theorem election_safety {taken : List (Taken (Cluster n) (Event n))} {final : Cluster n}
    (run : ClusterRun n taken final) (acts : AllMeet ActsInItsTerm taken) : ElectionSafe final := by
  have inv := voteInv_of_run run acts
  intro i j leadsI leadsJ sameTerm
  have electedJ := inv.leader j leadsJ
  rw [← sameTerm] at electedJ
  exact inv.elected_unique (inv.leader i leadsI) electedJ

/-- A candidate starts term 1 and gets the vote of the peer it asks first, but has started term 2 when the
reply arrives. -/
def staleVote (candidate : Fin n) : List (Event n) :=
  [.resetTimer candidate, .checkTimer candidate, .ask 0, .handleVote 0, .resetTimer candidate,
    .checkTimer candidate, .voteReply 0]

/-- A candidate starts terms 1 and 2 and asks with goroutine `k`. -/
def secondCandidate (candidate : Fin n) (k : Nat) : List (Event n) :=
  [.resetTimer candidate, .checkTimer candidate, .resetTimer candidate, .checkTimer candidate, .ask k, .handleVote k,
    .voteReply k]

/-- Three peers.  Peer 0 leads term 2 with a vote of term 1, and peer 2 starts term 2 as well and gets the vote of
peer 1. -/
theorem two_leaders_after_stale_vote :
    ∃ taken final, ClusterRun 3 taken final ∧ ¬ ElectionSafe final := by
  refine ⟨_, _, run_trace step (init 3) (staleVote 0 ++ secondCandidate 2 7), ?_⟩
  intro safe
  have equal := safe 0 2 (by decide) (by decide) (by decide)
  exact absurd equal (by decide)

/-- The first vote counted in its own term: one peer of three leads term 1, and another one term 2 later. -/
def timelyVotes (first second : Fin n) : List (Event n) :=
  [.resetTimer first, .checkTimer first, .ask 0, .handleVote 0, .voteReply 0] ++ secondCandidate second 5

theorem election_safe_with_timely_votes :
    ((outcome step (init 3) (timelyVotes 0 2)).servers 0).serverState = .leader ∧
      ((outcome step (init 3) (timelyVotes 0 2)).servers 2).serverState = .leader ∧
      ElectionSafe (outcome step (init 3) (timelyVotes 0 2)) :=
  ⟨by decide, by decide, election_safety (run_trace step (init 3) (timelyVotes 0 2)) (by decide)⟩

end Cluster

end Tda596Labs.Raft
