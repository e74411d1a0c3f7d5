import Tda596Labs.Lib.Pool
import Tda596Labs.Raft.Terms
import Mathlib.Data.Finset.Card
import Mathlib.Data.Fintype.Card

/-! # Votes and majorities

The votes of a run are all in the pool of `askForVote` goroutines: a goroutine whose request was
granted is a vote of its peer, and starting goroutines is the vote a candidate gives itself.
`VoteInv` ties these votes to the states of the peers; it holds along every run in which goroutines
act in the term they belong to (`ActsInItsTerm`).
-/

namespace Tda596Labs.Raft

open Tda596Labs.Transition

variable {n : Nat}

/-- The peer of this goroutine granted its vote in term `term`. -/
def Goroutine.grantedIn (g : AskForVote n) (term : Int) : Bool :=
  match g.request, g.reply with
  | some args, some reply => reply.voteGrandted && args.candidateTerm = term
  | _, _ => false

/-- The goroutine belongs to `candidate`'s election of `term` and its vote has been counted. -/
def Goroutine.countedFor (g : AskForVote n) (candidate : Fin n) (term : Int) : Bool :=
  g.server = candidate && g.startTerm = term && g.phase = .returned && g.grantedIn term

theorem Goroutine.grantedIn_iff {g : AskForVote n} {term : Int} :
    g.grantedIn term = true ↔ ∃ args reply, g.request = some args ∧ g.reply = some reply ∧
      reply.voteGrandted = true ∧ args.candidateTerm = term := by
  cases request : g.request with
  | none => simp [grantedIn, request]
  | some args =>
    cases answered : g.reply with
    | none => simp [grantedIn, request, answered]
    | some reply => simp [grantedIn, request, answered]

theorem Goroutine.countedFor_iff {g : AskForVote n} {candidate : Fin n} {term : Int} :
    g.countedFor candidate term = true ↔ g.server = candidate ∧ g.startTerm = term ∧
      g.phase = .returned ∧ g.grantedIn term = true := by
  simp [countedFor, and_assoc]

theorem Goroutine.countedFor_of_unreturned {g : AskForVote n} (unreturned : g.phase ≠ .returned)
    (i : Fin n) (term : Int) : g.countedFor i term = false := by
  simp [countedFor, unreturned]

theorem Goroutine.countedFor_of_unanswered {g : AskForVote n} (unanswered : g.reply = none)
    (i : Fin n) (term : Int) : g.countedFor i term = false := by
  simp [countedFor, grantedIn, unanswered]

namespace Cluster

/-- `voter` gave its vote of `term` to `candidate`. -/
def Voted (c : Cluster n) (voter : Fin n) (term : Int) (candidate : Fin n) : Prop :=
  (∃ g ∈ c.votes, g.server = candidate ∧ g.peer = voter ∧ g.grantedIn term = true) ∨
    (voter = candidate ∧ ∃ g ∈ c.votes, g.server = candidate ∧ g.startTerm = term)

/-- More than half of the peers voted for `candidate` in `term`. -/
def Elected (c : Cluster n) (candidate : Fin n) (term : Int) : Prop :=
  ∃ voters : Finset (Fin n), n / 2 < voters.card ∧ ∀ v ∈ voters, c.Voted v term candidate

/-- Goroutines act in the term they belong to: one that asks for a vote still finds the term it was
started in, one that counts a vote still finds the term the vote was given in (a server that already
leads may do either), and no refused heartbeat is stale. -/
def ActsInItsTerm (c : Cluster n) : Event n → Prop
  | .ask k => ∀ g ∈ c.votes[k]?,
      (c.servers g.server).currentTerm = g.startTerm ∨ (c.servers g.server).serverState = .leader
  | .voteReply k => ∀ g ∈ c.votes[k]?, ∀ args ∈ g.request, ∀ reply ∈ g.reply,
      reply.voteGrandted = true →
      (c.servers g.server).currentTerm = args.candidateTerm ∨
        (c.servers g.server).serverState = .leader
  | e => FreshRefusal c e

instance (c : Cluster n) (e : Event n) : Decidable (ActsInItsTerm c e) :=
  match e with
  | .ask k => inferInstanceAs (Decidable (∀ g ∈ c.votes[k]?, _ ∨ _))
  | .voteReply k => inferInstanceAs (Decidable (∀ g ∈ c.votes[k]?, ∀ args ∈ g.request,
      ∀ reply ∈ g.reply, reply.voteGrandted = true → _ ∨ _))
  | .resetTimer i => inferInstanceAs (Decidable (FreshRefusal c (.resetTimer i)))
  | .checkTimer i => inferInstanceAs (Decidable (FreshRefusal c (.checkTimer i)))
  | .sleepHeartBeats i => inferInstanceAs (Decidable (FreshRefusal c (.sleepHeartBeats i)))
  | .sendHeartBeats i => inferInstanceAs (Decidable (FreshRefusal c (.sendHeartBeats i)))
  | .kill i => inferInstanceAs (Decidable (FreshRefusal c (.kill i)))
  | .handleVote k => inferInstanceAs (Decidable (FreshRefusal c (.handleVote k)))
  | .voteCallFails k => inferInstanceAs (Decidable (FreshRefusal c (.voteCallFails k)))
  | .voteRetry k => inferInstanceAs (Decidable (FreshRefusal c (.voteRetry k)))
  | .beat k => inferInstanceAs (Decidable (FreshRefusal c (.beat k)))
  | .handleBeat k => inferInstanceAs (Decidable (FreshRefusal c (.handleBeat k)))
  | .beatCallFails k => inferInstanceAs (Decidable (FreshRefusal c (.beatCallFails k)))
  | .beatRetry k => inferInstanceAs (Decidable (FreshRefusal c (.beatRetry k)))
  | .beatReply k => inferInstanceAs (Decidable (FreshRefusal c (.beatReply k)))

/-- The shape of the pool: an election starts one goroutine for every other peer. -/
structure PoolInv (c : Cluster n) : Prop where
  ready : ∀ g ∈ c.votes, g.phase = .ready → g.request = none ∧ g.reply = none
  sent : ∀ g ∈ c.votes, g.phase ≠ .ready → ∃ args, g.request = some args
  peer : ∀ g ∈ c.votes, g.peer ≠ g.server
  distinct : (c.votes.map fun g => (g.server, g.startTerm, g.peer)).Nodup

/-- A peer's state backs the votes it gave, its count of votes is covered by votes that were given,
and a leader was elected. -/
structure VoteInv (c : Cluster n) : Prop extends PoolInv c where
  me : ∀ i, (c.servers i).me = i
  request : ∀ g ∈ c.votes, ∀ args, g.request = some args → args.candidateId = g.server ∧
    (args.candidateTerm = g.startTerm ∨ c.Elected g.server args.candidateTerm)
  backed : ∀ voter term candidate, c.Voted voter term candidate →
    term ≤ (c.servers voter).currentTerm ∧
      (term = (c.servers voter).currentTerm → (c.servers voter).votedFor = some candidate)
  unique : ∀ voter term a b, c.Voted voter term a → c.Voted voter term b → a = b
  counted : ∀ i, (∃ g ∈ c.votes, g.server = i ∧ g.startTerm = (c.servers i).currentTerm) →
    c.Elected i (c.servers i).currentTerm ∨
      (c.servers i).receivedVotes ≤ 1 + c.votes.countP (·.countedFor i (c.servers i).currentTerm)
  leader : ∀ i, (c.servers i).serverState = .leader → c.Elected i (c.servers i).currentTerm

theorem voteInv_init : VoteInv (init n) where
  me := fun _ => rfl
  ready := by simp [init]
  sent := by simp [init]
  peer := by simp [init]
  distinct := by simp [init]
  request := by simp [init]
  backed := by simp [init, Voted]
  unique := by simp [init, Voted]
  counted := by simp [init]
  leader := by simp [init]

/-! ## Votes are never taken back -/

/-- `d` has all the votes of `c`. -/
def KeepsVotes (c d : Cluster n) : Prop :=
  ∀ voter term candidate, c.Voted voter term candidate → d.Voted voter term candidate

theorem Elected.mono {c d : Cluster n} (keeps : KeepsVotes c d) {i : Fin n} {term : Int}
    (elected : c.Elected i term) : d.Elected i term := by
  obtain ⟨voters, majority, voted⟩ := elected
  exact ⟨voters, majority, fun v member => keeps _ _ _ (voted v member)⟩

/-- A request that was well made stays so. -/
theorem VoteInv.request_mono {c d : Cluster n} (inv : VoteInv c) (keeps : KeepsVotes c d)
    {g : AskForVote n} (member : g ∈ c.votes) {args : RequestVoteArgs n} (sent : g.request = some args) :
    args.candidateId = g.server ∧
      (args.candidateTerm = g.startTerm ∨ d.Elected g.server args.candidateTerm) := by
  obtain ⟨candidate, term⟩ := inv.request g member args sent
  exact ⟨candidate, term.imp_right (Elected.mono keeps)⟩

theorem VoteInv.me_update {c d : Cluster n} (inv : VoteInv c) {i : Fin n} {rf : Server n}
    (servers : d.servers = Function.update c.servers i rf) (me : rf.me = (c.servers i).me) (j : Fin n) :
    (d.servers j).me = j := by
  rw [servers]
  by_cases equal : j = i
  · subst equal
    rw [Function.update_self, me]
    exact inv.me j
  · rw [Function.update_of_ne equal]
    exact inv.me j

theorem voted_congr {c d : Cluster n} (votes : d.votes = c.votes) {voter candidate : Fin n}
    {term : Int} : d.Voted voter term candidate ↔ c.Voted voter term candidate := by
  simp only [Voted, votes]

/-- Two candidates that were both elected in a term share a voter, so they are the same. -/
theorem VoteInv.elected_unique {c : Cluster n} (inv : VoteInv c) {i j : Fin n} {term : Int}
    (first : c.Elected i term) (second : c.Elected j term) : i = j := by
  obtain ⟨votersI, majorityI, votedI⟩ := first
  obtain ⟨votersJ, majorityJ, votedJ⟩ := second
  -- two majorities of the same peers meet
  have overlap : (votersI ∩ votersJ).Nonempty := by
    apply Finset.inter_nonempty_of_card_lt_card_add_card (Finset.subset_univ _) (Finset.subset_univ _)
    rw [Finset.card_univ, Fintype.card_fin]
    omega
  obtain ⟨v, member⟩ := overlap
  rw [Finset.mem_inter] at member
  exact inv.unique v term i j (votedI v member.1) (votedJ v member.2)

/-- A candidate and the peers whose votes it has counted are different voters. -/
theorem PoolInv.elected_of_counted {c : Cluster n} (inv : PoolInv c) {i : Fin n} {term : Int}
    (started : ∃ g ∈ c.votes, g.server = i ∧ g.startTerm = term)
    (majority : n / 2 < 1 + c.votes.countP (·.countedFor i term)) : c.Elected i term := by
  have own : c.Voted i term i := .inr ⟨rfl, started⟩
  let peers := (c.votes.filter (·.countedFor i term)).map (·.peer)
  have isVoter : ∀ v ∈ peers, v ≠ i ∧ c.Voted v term i := by
    intro v member
    obtain ⟨g, inside, rfl⟩ := List.mem_map.mp member
    obtain ⟨inPool, counted⟩ := List.mem_filter.mp inside
    obtain ⟨server, _, _, granted⟩ := Goroutine.countedFor_iff.mp counted
    exact ⟨server ▸ inv.peer g inPool, .inl ⟨g, inPool, server, rfl, granted⟩⟩
  -- within one election a peer has one goroutine, so no peer is counted twice
  have nodup : peers.Nodup := by
    have keys := inv.distinct.sublist (List.filter_sublist.map _ : List.Sublist
      ((c.votes.filter (·.countedFor i term)).map fun g => (g.server, g.startTerm, g.peer)) _)
    refine List.Nodup.of_map (fun v => (i, term, v)) ?_
    have same : peers.map (fun v => (i, term, v)) =
        (c.votes.filter (·.countedFor i term)).map fun g => (g.server, g.startTerm, g.peer) := by
      rw [List.map_map]
      apply List.map_congr_left
      intro g inside
      obtain ⟨server, start, _, _⟩ := Goroutine.countedFor_iff.mp (List.mem_filter.mp inside).2
      simp [server, start]
    rw [same]
    exact keys
  refine ⟨(i :: peers).toFinset, ?_, ?_⟩
  · rw [List.toFinset_card_of_nodup]
    · rw [List.countP_eq_length_filter] at majority
      simpa [peers, Nat.add_comm] using majority
    · exact List.nodup_cons.mpr ⟨fun member => (isVoter i member).1 rfl, nodup⟩
  · intro v member
    rw [List.mem_toFinset, List.mem_cons] at member
    cases member with
    | inl equal => exact equal ▸ own
    | inr member => exact (isVoter v member).2

/-! ## Preservation -/

/-- A candidate votes for itself. -/
theorem voted_self {c : Cluster n} {g : AskForVote n} (member : g ∈ c.votes) :
    c.Voted g.server g.startTerm g.server :=
  .inr ⟨rfl, g, member, rfl, rfl⟩

/-- How one peer may change while the pool stays as it is. -/
def Retreats (rf rf' : Server n) : Prop :=
  rf'.me = rf.me ∧
    ((rf'.currentTerm = rf.currentTerm ∧ rf'.votedFor = rf.votedFor ∧
        rf'.receivedVotes = rf.receivedVotes ∧ (rf'.serverState = .leader → rf.serverState = .leader)) ∨
      (rf.currentTerm < rf'.currentTerm ∧ rf'.serverState ≠ .leader))

theorem Retreats.refl (rf : Server n) : Retreats rf rf :=
  ⟨rfl, .inl ⟨rfl, rfl, rfl, id⟩⟩

theorem retreats_update {c d : Cluster n} {i : Fin n} {rf : Server n}
    (servers : d.servers = Function.update c.servers i rf) (retreats : Retreats (c.servers i) rf)
    (j : Fin n) : Retreats (c.servers j) (d.servers j) := by
  rw [servers]
  by_cases equal : j = i
  · subst equal
    rwa [Function.update_self]
  · rw [Function.update_of_ne equal]
    exact Retreats.refl _

/-- A candidate whose term has grown past its elections has no goroutine of the new term. -/
theorem VoteInv.no_later_election {c : Cluster n} (inv : VoteInv c) {i : Fin n} {term : Int}
    (later : (c.servers i).currentTerm < term) :
    ¬ ∃ g ∈ c.votes, g.server = i ∧ g.startTerm = term := by
  rintro ⟨g, member, server, start⟩
  have backed := (inv.backed _ _ _ (voted_self member)).1
  rw [server, start] at backed
  omega

theorem VoteInv.retreat {c d : Cluster n} (inv : VoteInv c) (votes : d.votes = c.votes)
    (servers : ∀ i, Retreats (c.servers i) (d.servers i)) : VoteInv d := by
  have keeps : KeepsVotes c d := fun _ _ _ voted => (voted_congr votes).mpr voted
  refine { ready := votes ▸ inv.ready, sent := votes ▸ inv.sent, peer := votes ▸ inv.peer, distinct := votes ▸ inv.distinct,
           me := fun i => (servers i).1.trans (inv.me i), request := ?_, backed := ?_, unique := ?_,
           counted := ?_, leader := ?_ }
  · intro g member args request
    rw [votes] at member
    exact inv.request_mono keeps member request
  · intro voter term candidate voted
    obtain ⟨le, same⟩ := inv.backed _ _ _ ((voted_congr votes).mp voted)
    obtain ⟨_, ⟨termEq, voteEq, _, _⟩ | ⟨newer, _⟩⟩ := servers voter
    · rw [termEq, voteEq]
      exact ⟨le, same⟩
    · exact ⟨by omega, fun equal => by omega⟩
  · intro voter term a b first second
    exact inv.unique voter term a b ((voted_congr votes).mp first) ((voted_congr votes).mp second)
  · intro i started
    rw [votes] at started ⊢
    obtain ⟨_, ⟨termEq, _, countEq, _⟩ | ⟨newer, _⟩⟩ := servers i
    · rw [termEq] at started ⊢
      rw [countEq]
      exact (inv.counted i started).imp_left (Elected.mono keeps)
    -- a peer that has moved to a newer term has no votes of its own to cover there
    · exact absurd started (inv.no_later_election newer)
  · intro i leads
    obtain ⟨_, ⟨termEq, _, _, leader⟩ | ⟨_, notLeader⟩⟩ := servers i
    · rw [termEq]
      exact (inv.leader i (leader leads)).mono keeps
    · exact absurd leads notLeader

/-! ### Steps of one goroutine -/

section OneGoroutine

variable {c d : Cluster n} {k : Nat} {g g' : AskForVote n}

/-- A step of a goroutine keeps what the `go` statement fixed and a reply it already has. -/
structure SameTask (g g' : AskForVote n) : Prop where
  server : g'.server = g.server
  peer : g'.peer = g.peer
  startTerm : g'.startTerm = g.startTerm
  granted : ∀ term, g.grantedIn term = true → g'.grantedIn term = true
  started : g'.phase ≠ .ready
  sent : ∃ args, g'.request = some args

theorem PoolInv.set (inv : PoolInv c) (found : c.votes[k]? = some g) (same : SameTask g g')
    (votes : d.votes = c.votes.set k g') : PoolInv d := by
  have member := Pool.mem_of_found found
  refine ⟨?_, ?_, ?_, ?_⟩
  · rw [votes]
    exact Pool.forall_set inv.ready fun ready => absurd ready same.started
  · rw [votes]
    exact Pool.forall_set inv.sent fun _ => same.sent
  · rw [votes]
    refine Pool.forall_set inv.peer ?_
    rw [same.peer, same.server]
    exact inv.peer g member
  · rw [votes, Pool.map_set_of_eq found]
    · exact inv.distinct
    · simp only [same.server, same.startTerm, same.peer]

theorem keepsVotes_set (found : c.votes[k]? = some g) (same : SameTask g g')
    (votes : d.votes = c.votes.set k g') : KeepsVotes c d := by
  intro voter term candidate voted
  simp only [Voted, votes]
  refine voted.imp (Pool.exists_set found ?_) (And.imp_right (Pool.exists_set found ?_))
  · rw [same.server, same.peer]
    exact fun ⟨server, peer, granted⟩ => ⟨server, peer, same.granted term granted⟩
  · rw [same.server, same.startTerm]
    exact id

theorem started_of_set (found : c.votes[k]? = some g) (same : SameTask g g')
    (votes : d.votes = c.votes.set k g') {i : Fin n} {term : Int}
    (started : ∃ h ∈ d.votes, h.server = i ∧ h.startTerm = term) :
    ∃ h ∈ c.votes, h.server = i ∧ h.startTerm = term := by
  rw [votes] at started
  obtain old | new := Pool.exists_of_exists_set started
  · exact old
  · rw [same.server, same.startTerm] at new
    exact ⟨g, Pool.mem_of_found found, new⟩

/-- The only vote a goroutine's step can add is the one its own peer granted. -/
theorem voted_of_set (found : c.votes[k]? = some g) (same : SameTask g g')
    (votes : d.votes = c.votes.set k g') {voter candidate : Fin n} {term : Int}
    (voted : d.Voted voter term candidate) :
    c.Voted voter term candidate ∨
      (candidate = g.server ∧ voter = g.peer ∧ g'.grantedIn term = true) := by
  obtain granted | ⟨self, started⟩ := voted
  · rw [votes] at granted
    obtain old | ⟨server, peer, granted⟩ := Pool.exists_of_exists_set granted
    · exact .inl (.inl old)
    · exact .inr ⟨server.symm.trans same.server, peer.symm.trans same.peer, granted⟩
  · exact .inl (.inr ⟨self, started_of_set found same votes started⟩)

/-- The count of a peer that keeps its term and its count stays covered. -/
theorem VoteInv.counted_set (inv : VoteInv c) (found : c.votes[k]? = some g) (same : SameTask g g')
    (votes : d.votes = c.votes.set k g') (uncounted : ∀ i term, g.countedFor i term = false) {i : Fin n}
    {rf : Server n} (termEq : rf.currentTerm = (c.servers i).currentTerm)
    (countEq : rf.receivedVotes = (c.servers i).receivedVotes)
    (started : ∃ h ∈ d.votes, h.server = i ∧ h.startTerm = rf.currentTerm) :
    d.Elected i rf.currentTerm ∨
      rf.receivedVotes ≤ 1 + d.votes.countP (·.countedFor i rf.currentTerm) := by
  rw [termEq] at started ⊢
  obtain elected | covered := inv.counted i (started_of_set found same votes started)
  · exact .inl (elected.mono (keepsVotes_set found same votes))
  · have grows : c.votes.countP (·.countedFor i (c.servers i).currentTerm) ≤
        (c.votes.set k g').countP (·.countedFor i (c.servers i).currentTerm) :=
      Pool.countP_le_set found fun counted => by simp [uncounted] at counted
    rw [votes, countEq]
    exact .inr (by omega)

theorem VoteInv.request_set (inv : VoteInv c) (found : c.votes[k]? = some g) (same : SameTask g g')
    (votes : d.votes = c.votes.set k g')
    (request : ∀ args, g'.request = some args → args.candidateId = g.server ∧
      (args.candidateTerm = g.startTerm ∨ c.Elected g.server args.candidateTerm)) :
    ∀ h ∈ d.votes, ∀ args, h.request = some args → args.candidateId = h.server ∧
      (args.candidateTerm = h.startTerm ∨ d.Elected h.server args.candidateTerm) := by
  have keeps := keepsVotes_set found same votes
  rw [votes]
  refine Pool.forall_set (fun h member args sent => inv.request_mono keeps member sent) ?_
  intro args sent
  obtain ⟨candidate, term⟩ := request args sent
  rw [same.server, same.startTerm]
  exact ⟨candidate, term.imp_right (Elected.mono keeps)⟩

/-- A step of one goroutine and of one peer `i` keeps the invariant if it keeps it for the goroutine
and for `i`: all other peers still have the votes and the state they had. -/
theorem VoteInv.update (inv : VoteInv c) (found : c.votes[k]? = some g) (same : SameTask g g')
    (votes : d.votes = c.votes.set k g') (uncounted : ∀ i term, g.countedFor i term = false)
    {i : Fin n} {rf : Server n} (servers : d.servers = Function.update c.servers i rf)
    (me : rf.me = (c.servers i).me)
    (request : ∀ args, g'.request = some args → args.candidateId = g.server ∧
      (args.candidateTerm = g.startTerm ∨ c.Elected g.server args.candidateTerm))
    (others : ∀ voter term candidate, voter ≠ i → d.Voted voter term candidate →
      c.Voted voter term candidate)
    (backed : ∀ term candidate, d.Voted i term candidate →
      term ≤ rf.currentTerm ∧ (term = rf.currentTerm → rf.votedFor = some candidate))
    (unique : ∀ term a b, d.Voted i term a → d.Voted i term b → a = b)
    (counted : (∃ h ∈ d.votes, h.server = i ∧ h.startTerm = rf.currentTerm) →
      d.Elected i rf.currentTerm ∨
        rf.receivedVotes ≤ 1 + d.votes.countP (·.countedFor i rf.currentTerm))
    (leader : rf.serverState = .leader → d.Elected i rf.currentTerm) : VoteInv d := by
  have keeps := keepsVotes_set found same votes
  have ownState : d.servers i = rf := by rw [servers, Function.update_self]
  have otherState : ∀ {j}, j ≠ i → d.servers j = c.servers j := by
    intro j other
    rw [servers, Function.update_of_ne other]
  refine { toPoolInv := inv.toPoolInv.set found same votes, me := inv.me_update servers me,
           request := inv.request_set found same votes request,
           backed := ?_, unique := ?_, counted := ?_, leader := ?_ }
  · intro voter term candidate voted
    by_cases equal : voter = i
    · subst equal
      rw [ownState]
      exact backed term candidate voted
    · rw [otherState equal]
      exact inv.backed _ _ _ (others _ _ _ equal voted)
  · intro voter term a b first second
    by_cases equal : voter = i
    · subst equal
      exact unique term a b first second
    · exact inv.unique voter term a b (others _ _ _ equal first) (others _ _ _ equal second)
  · intro j started
    by_cases equal : j = i
    · subst equal
      rw [ownState] at started ⊢
      exact counted started
    · rw [otherState equal] at started ⊢
      exact inv.counted_set found same votes uncounted rfl rfl started
  · intro j leads
    by_cases equal : j = i
    · subst equal
      rw [ownState] at leads ⊢
      exact leader leads
    · rw [otherState equal] at leads ⊢
      exact (inv.leader j leads).mono keeps

/-- Steps of a goroutine that leave every peer alone and add no vote. -/
theorem VoteInv.goroutine (inv : VoteInv c) (found : c.votes[k]? = some g) (same : SameTask g g')
    (votes : d.votes = c.votes.set k g') (servers : d.servers = c.servers)
    (uncounted : ∀ i term, g.countedFor i term = false) (noVote : ∀ term, g'.grantedIn term = g.grantedIn term)
    (request : ∀ args, g'.request = some args → args.candidateId = g.server ∧
      (args.candidateTerm = g.startTerm ∨ c.Elected g.server args.candidateTerm)) : VoteInv d := by
  have voted : ∀ {voter term candidate}, d.Voted voter term candidate → c.Voted voter term candidate := by
    intro voter term candidate new
    obtain old | ⟨rfl, rfl, granted⟩ := voted_of_set found same votes new
    · exact old
    · rw [noVote] at granted
      exact .inl ⟨g, Pool.mem_of_found found, rfl, rfl, granted⟩
  -- no peer changes, so any peer may stand for the one that `update` singles out
  refine inv.update found same votes uncounted
    (servers.trans (Function.update_eq_self g.server c.servers).symm) rfl request ?_ ?_ ?_ ?_ ?_
  · exact fun _ _ _ _ new => voted new
  · exact fun _ _ new => inv.backed _ _ _ (voted new)
  · exact fun _ _ _ first second => inv.unique _ _ _ _ (voted first) (voted second)
  · exact inv.counted_set found same votes uncounted rfl rfl
  · exact fun leads => (inv.leader _ leads).mono (keepsVotes_set found same votes)

end OneGoroutine

end Cluster

end Tda596Labs.Raft
