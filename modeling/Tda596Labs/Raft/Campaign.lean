import Tda596Labs.Lib.Pool
import Tda596Labs.Raft.Cluster
import Mathlib.Data.Set.Finite.Lattice
import Mathlib.Order.Bounds.Basic

/-! # A leader can always be elected

Whatever has happened before, a peer that is alive, does not lead and reaches a majority can be elected: its
timer expires until its term is above all others, and then every peer that it asks votes for it.  A refusal
never raises the term of the candidate, so that this may take several elections.  A peer that is alone never
leads: `askForVote` alone looks at the count of votes, and there is nobody to ask.
-/

namespace Tda596Labs.Raft

open Tda596Labs.Transition

namespace Cluster

variable {n : Nat}

/-! ## What no step changes -/

/-- What is as `Make` sets it stays so, and a killed peer stays killed. -/
structure Fixed (rf rf' : Server n) : Prop where
  me : rf'.me = rf.me
  commitIndex : rf'.commitIndex = rf.commitIndex
  nextIndex : rf'.nextIndex = rf.nextIndex
  dead : rf.dead = true → rf'.dead = true

theorem Fixed.refl (rf : Server n) : Fixed rf rf := ⟨rfl, rfl, rfl, id⟩

theorem requestVote_fixed (rf : Server n) (args : RequestVoteArgs n) : Fixed rf (rf.requestVote args).1 := by
  unfold Server.requestVote Server.adoptCandidateTerm Server.stepDown
  split
  · exact .refl rf
  · dsimp only
    split <;> split <;> (try split) <;> exact ⟨rfl, rfl, rfl, id⟩

theorem appendEntries_fixed (rf : Server n) (args : AppendEntriesArgs n) : Fixed rf (rf.appendEntries args).1 := by
  unfold Server.appendEntries Server.stepDown
  split
  · exact .refl rf
  · dsimp only
    split <;> (try split) <;> exact ⟨rfl, rfl, rfl, id⟩

theorem countVote_fixed (rf : Server n) (reply : RequestVoteReply) : Fixed rf (rf.countVote reply) := by
  unfold Server.countVote
  split
  · dsimp only
    split <;> exact ⟨rfl, rfl, rfl, id⟩
  · exact .refl rf

theorem heartBeatAnswered_fixed (rf : Server n) (reply : AppendEntriesReply) :
    Fixed rf (rf.heartBeatAnswered reply) := by
  unfold Server.heartBeatAnswered Server.stepDown
  split
  · exact .refl rf
  · dsimp only
    split <;> exact ⟨rfl, rfl, rfl, id⟩

theorem fixed_update {c : Cluster n} {i : Fin n} {rf : Server n} (fixed : Fixed (c.servers i) rf) (j : Fin n) :
    Fixed (c.servers j) (Function.update c.servers i rf j) := by
  by_cases here : j = i
  · subst here
    rwa [Function.update_self]
  · rw [Function.update_of_ne here]
    exact .refl _

/-- The election loop of a peer ends only when the peer is killed. -/
def LoopKept (c d : Cluster n) : Prop :=
  ∀ i, d.electionLoops i = .exited → c.electionLoops i = .exited ∨ (d.servers i).dead = true

theorem loopKept_of_eq {c d : Cluster n} (same : d.electionLoops = c.electionLoops) : LoopKept c d :=
  fun i exited => .inl (by rwa [same] at exited)

theorem loopKept_of_update {c d : Cluster n} {i : Fin n} {loop : Loop Int}
    (loops : d.electionLoops = Function.update c.electionLoops i loop)
    (killed : loop = .exited → (d.servers i).dead = true) : LoopKept c d := by
  intro j exited
  rw [loops] at exited
  by_cases here : j = i
  · subst here
    rw [Function.update_self] at exited
    exact .inr (killed exited)
  · rw [Function.update_of_ne here] at exited
    exact .inl exited

theorem step_fixed {c d : Cluster n} {e : Event n} (moved : c.step e = some d) :
    (∀ i, Fixed (c.servers i) (d.servers i)) ∧ LoopKept c d := by
  have same : ∀ i, Fixed (c.servers i) (c.servers i) := fun i => .refl _
  cases e with
  | resetTimer i =>
    simp only [step, resetTimer] at moved
    split at moved
    · split at moved
      · next killed =>
        cases moved
        exact ⟨same, loopKept_of_update rfl fun _ => killed⟩
      · cases moved
        exact ⟨fixed_update ⟨rfl, rfl, rfl, id⟩, loopKept_of_update rfl (by simp)⟩
    · cases moved
  | checkTimer i =>
    simp only [step, checkTimer] at moved
    split at moved
    · split at moved
      · cases moved
        exact ⟨fixed_update ⟨rfl, rfl, rfl, id⟩, loopKept_of_update rfl (by simp)⟩
      · cases moved
        exact ⟨same, loopKept_of_update rfl (by simp)⟩
    · cases moved
  | sleepHeartBeats i =>
    simp only [step, sleepHeartBeats] at moved
    split at moved <;> cases moved
    exact ⟨same, loopKept_of_eq rfl⟩
  | sendHeartBeats i =>
    simp only [step, sendHeartBeats] at moved
    split at moved
    · split at moved <;> cases moved <;> exact ⟨same, loopKept_of_eq rfl⟩
    · cases moved
  | kill i =>
    cases moved
    exact ⟨fixed_update ⟨rfl, rfl, rfl, fun _ => rfl⟩, loopKept_of_eq rfl⟩
  | ask k | voteCallFails k | voteRetry k =>
    simp only [step, voteEvent, Option.bind_eq_some_iff, Option.ite_none_right_eq_some] at moved
    obtain ⟨g, _, _, moved⟩ := moved
    cases moved
    exact ⟨same, loopKept_of_eq rfl⟩
  | beat k | beatCallFails k | beatRetry k =>
    simp only [step, beatEvent, Option.bind_eq_some_iff, Option.ite_none_right_eq_some] at moved
    obtain ⟨g, _, _, moved⟩ := moved
    cases moved
    exact ⟨same, loopKept_of_eq rfl⟩
  | handleVote k =>
    simp only [step, voteEvent, Option.bind_eq_some_iff] at moved
    obtain ⟨g, _, moved⟩ := moved
    split at moved <;> cases moved
    exact ⟨fixed_update (requestVote_fixed _ _), loopKept_of_eq rfl⟩
  | voteReply k =>
    simp only [step, voteEvent, Option.bind_eq_some_iff] at moved
    obtain ⟨g, _, moved⟩ := moved
    split at moved <;> cases moved
    exact ⟨fixed_update (countVote_fixed _ _), loopKept_of_eq rfl⟩
  | handleBeat k =>
    simp only [step, beatEvent, Option.bind_eq_some_iff] at moved
    obtain ⟨g, _, moved⟩ := moved
    split at moved <;> cases moved
    exact ⟨fixed_update (appendEntries_fixed _ _), loopKept_of_eq rfl⟩
  | beatReply k =>
    simp only [step, beatEvent, Option.bind_eq_some_iff] at moved
    obtain ⟨g, _, moved⟩ := moved
    split at moved <;> cases moved
    exact ⟨fixed_update (heartBeatAnswered_fixed _ _), loopKept_of_eq rfl⟩

/-- What holds in every run. -/
structure Usual (c : Cluster n) : Prop where
  me : ∀ i, (c.servers i).me = i
  commitIndex : ∀ i, (c.servers i).commitIndex = 0
  nextIndex : ∀ i j, (c.servers i).nextIndex j = 0
  loops : ∀ i, c.electionLoops i = .exited → (c.servers i).dead = true

theorem usual_init : Usual (init n) := ⟨fun _ => rfl, fun _ => rfl, fun _ _ => rfl, nofun⟩

theorem Usual.step {c d : Cluster n} {e : Event n} (usual : Usual c) (moved : c.step e = some d) : Usual d := by
  obtain ⟨fixed, kept⟩ := step_fixed moved
  refine ⟨fun i => (fixed i).me.trans (usual.me i), fun i => (fixed i).commitIndex.trans (usual.commitIndex i),
    fun i j => ?_, fun i exited => ?_⟩
  · rw [(fixed i).nextIndex, usual.nextIndex]
  · exact (kept i exited).elim (fun before => (fixed i).dead (usual.loops i before)) id

theorem Usual.run {c d : Cluster n} {taken : List (Taken (Cluster n) (Event n))} (usual : Usual c)
    (run : Run Cluster.step c taken d) : Usual d := by
  have all : AllMeet (fun _ _ => True) taken := fun _ _ => trivial
  exact run.invariant all usual fun _ _ _ usual _ moved => usual.step moved

/-! ## Timers -/

/-- Events of the timer of peer `i`, and of its calls to the voters. -/
def Campaigns (i : Fin n) (voters : List (Fin n)) (c : Cluster n) : Event n → Prop
  | .resetTimer j | .checkTimer j => j = i
  | .ask k | .handleVote k | .voteReply k => ∃ g, c.votes[k]? = some g ∧ g.server = i ∧ g.peer ∈ voters
  | _ => False

/-- Peer `i` is alive and does not lead, and its timer is about to be set. -/
structure Ready (i : Fin n) (c : Cluster n) : Prop where
  usual : Usual c
  live : (c.servers i).dead = false
  notLeader : (c.servers i).serverState ≠ .leader
  head : c.electionLoops i = .head

/-- Only peer `i` has changed. -/
def OthersKept (i : Fin n) (c d : Cluster n) : Prop := ∀ j, j ≠ i → d.servers j = c.servers j

section Timers

variable {i : Fin n} {c d : Cluster n} (voters : List (Fin n))

theorem step_checkTimer {currTerm : Int} (sleeping : c.electionLoops i = .sleeping currTerm)
    (quiet : (c.servers i).electionTimedOut currTerm = false) :
    c.step (.checkTimer i) = some { c with electionLoops := Function.update c.electionLoops i .head } := by
  simp [step, checkTimer, sleeping, quiet]

/-- The cluster in which peer `i` has just begun an election. -/
def elected (c : Cluster n) (i : Fin n) : Cluster n :=
  { c with
    servers := Function.update c.servers i (c.servers i).startElection
    electionLoops := Function.update c.electionLoops i .head
    votes := c.votes ++
      ((List.finRange n).filter (· ≠ i)).map (Goroutine.start i ((c.servers i).currentTerm + 1)) }

theorem step_checkTimer_elected {currTerm : Int} (sleeping : c.electionLoops i = .sleeping currTerm)
    (timedOut : (c.servers i).electionTimedOut currTerm = true) :
    c.step (.checkTimer i) = some (c.elected i) := by
  simp only [step, checkTimer, sleeping, timedOut, if_true, askAllPeersForVote, goAll_setServer]
  rfl

theorem elected_ready (usual : Usual (c.elected i)) (live : (c.servers i).dead = false) :
    Ready i (c.elected i) where
  usual := usual
  live := by simpa [elected, Server.startElection] using live
  notLeader := by simp [elected, Server.startElection]
  head := by simp [elected]

/-- The loop of a peer that is alive comes back to its head. -/
theorem exists_ready (usual : Usual c) (live : (c.servers i).dead = false)
    (notLeader : (c.servers i).serverState ≠ .leader) :
    ∃ d, Reaches step (Campaigns i voters) c d ∧ Ready i d ∧ OthersKept i c d := by
  cases loop : c.electionLoops i with
  | head => exact ⟨c, .refl c, ⟨usual, live, notLeader, loop⟩, fun _ _ => rfl⟩
  | exited =>
    rw [usual.loops i loop] at live
    cases live
  | sleeping currTerm =>
    cases timedOut : (c.servers i).electionTimedOut currTerm with
    | true =>
      have moved := step_checkTimer_elected loop timedOut
      exact ⟨_, .cons moved rfl (.refl _), elected_ready (usual.step moved) live,
        fun j other => Function.update_of_ne other _ _⟩
    | false =>
      have moved := step_checkTimer loop timedOut
      exact ⟨_, .cons moved rfl (.refl _), ⟨usual.step moved, live, notLeader, Function.update_self ..⟩,
        fun _ _ => rfl⟩

/-- The timer is set and expires. -/
theorem Ready.election (ready : Ready i c) :
    ∃ d, Reaches step (Campaigns i voters) c d ∧ Ready i d ∧ OthersKept i c d ∧
      (d.servers i).currentTerm = (c.servers i).currentTerm + 1 ∧ (d.servers i).receivedVotes = 1 ∧
      ∀ j, j ≠ i → (Goroutine.start i (d.servers i).currentTerm j : AskForVote n) ∈ d.votes := by
  let slept : Cluster n := { c.setServer i (c.servers i).resetElectionTimer with
    electionLoops := Function.update c.electionLoops i (.sleeping (c.servers i).currentTerm) }
  have reset : c.step (.resetTimer i) = some slept := by
    simp [step, resetTimer, ready.head, ready.live, slept]
  have here : slept.servers i = (c.servers i).resetElectionTimer := by simp [slept, setServer]
  have timedOut : (slept.servers i).electionTimedOut (c.servers i).currentTerm = true := by
    rw [here]
    simp [Server.electionTimedOut, Server.resetElectionTimer, ready.notLeader]
  have expires := step_checkTimer_elected (Function.update_self ..) timedOut
  have live : (slept.servers i).dead = false := by rw [here]; exact ready.live
  refine ⟨_, .cons reset rfl (.cons expires rfl (.refl _)),
    elected_ready ((ready.usual.step reset).step expires) live, fun j other => ?_, ?_, ?_, fun j other => ?_⟩
  · simp [elected, slept, setServer, other]
  · simp [elected, Server.startElection, here, Server.resetElectionTimer]
  · simp [elected, Server.startElection]
  · refine List.mem_append_right _ (List.mem_map.mpr ⟨j, by simpa using other, ?_⟩)
    simp [elected, Server.startElection]

/-- The timer expires until the term is above a bound. -/
theorem Ready.elections (ready : Ready i c) (bound : Int) :
    ∃ d, Reaches step (Campaigns i voters) c d ∧ Ready i d ∧ OthersKept i c d ∧
      bound < (d.servers i).currentTerm ∧ (d.servers i).receivedVotes = 1 ∧
      ∀ j, j ≠ i → (Goroutine.start i (d.servers i).currentTerm j : AskForVote n) ∈ d.votes := by
  induction gap : (bound - (c.servers i).currentTerm).toNat using Nat.strongRecOn generalizing c with
  | _ m ih =>
    obtain ⟨d, reaches, readyD, others, term, votes, asks⟩ := ready.election voters
    by_cases above : bound < (d.servers i).currentTerm
    · exact ⟨d, reaches, readyD, others, above, votes, asks⟩
    · obtain ⟨e, later, readyE, others', rest⟩ := ih _ (by omega) readyD rfl
      exact ⟨e, reaches.trans later, readyE, fun j other => (others' j other).trans (others j other), rest⟩

end Timers

/-! ## Votes -/

/-- Peer `i` has asked for votes in its term, and the voters have not been reached yet. -/
structure Canvasses (i : Fin n) (voters : List (Fin n)) (term : Int) (counted : Nat) (c : Cluster n) : Prop where
  usual : Usual c
  currentTerm : (c.servers i).currentTerm = term
  receivedVotes : (c.servers i).receivedVotes = counted
  below : ∀ j ∈ voters, (c.servers j).currentTerm < term
  asks : ∀ j ∈ voters, (Goroutine.start i term j : AskForVote n) ∈ c.votes

/-- Peer `j` has voted for peer `i` in this term. -/
def VotedFor (c : Cluster n) (j i : Fin n) (term : Int) : Prop :=
  (c.servers j).votedFor = some i ∧ (c.servers j).currentTerm = term

section Votes

variable {i j : Fin n} {c d : Cluster n} {voters all : List (Fin n)} {term : Int} {counted : Nat}

/-- A peer of an older term grants the vote. -/
theorem requestVote_of_newer {rf : Server n} {args : RequestVoteArgs n} (newer : rf.currentTerm < args.candidateTerm)
    (upToDate : rf.nextIndex args.candidateId - 1 ≤ args.lastLogIndex) :
    (rf.requestVote args).2.voteGrandted = true := by
  obtain ⟨_, unvoted, _⟩ := Server.adoptCandidateTerm_new newer
  have index : (rf.adoptCandidateTerm args).nextIndex = rf.nextIndex := by
    unfold Server.adoptCandidateTerm Server.stepDown
    rw [if_pos newer]
    dsimp only
    split <;> rfl
  have notOlder : ¬ args.candidateTerm < rf.currentTerm := by omega
  simp [Server.requestVote, notOlder, unvoted, index, upToDate]

theorem countVote_leads {rf : Server n} {reply : RequestVoteReply} (granted : reply.voteGrandted = true)
    (majority : n / 2 < rf.receivedVotes + 1) : (rf.countVote reply).serverState = .leader := by
  unfold Server.countVote
  rw [if_pos granted]
  dsimp only
  split
  · rfl
  · next not =>
    by_contra other
    exact not ⟨majority, other⟩

/-- One voter is asked, votes, and its answer is counted. -/
theorem Canvasses.vote (canvasses : Canvasses i (j :: voters) term counted c) (other : j ≠ i)
    (distinct : j ∉ voters) (apart : i ∉ voters) (listed : j ∈ all) :
    ∃ d, Reaches step (Campaigns i all) c d ∧ Canvasses i voters term (counted + 1) d ∧ VotedFor d j i term ∧
      (n / 2 < counted + 1 → (d.servers i).serverState = .leader) ∧
      ∀ x, x ≠ i → x ≠ j → d.servers x = c.servers x := by
  obtain ⟨usual, currentTerm, receivedVotes, below, asks⟩ := canvasses
  obtain ⟨k, found⟩ := List.getElem?_of_mem (asks j List.mem_cons_self)
  have inRange := (List.getElem?_eq_some_iff.mp found).1
  let args := (c.servers i).voteRequest
  have candidate : args.candidateId = i ∧ args.candidateTerm = term := ⟨usual.me i, currentTerm⟩
  have newer : (c.servers j).currentTerm < args.candidateTerm := by
    rw [candidate.2]
    exact below j List.mem_cons_self
  have granted : ((c.servers j).requestVote args).2.voteGrandted = true := by
    refine requestVote_of_newer newer ?_
    rw [usual.nextIndex]
    exact (by decide : (0 : Int) - 1 ≤ 0).trans (usual.commitIndex i).ge
  obtain ⟨votedTerm, voted, _⟩ := Server.requestVote_granted granted
  let g : AskForVote n := Goroutine.start i term j
  let asked : Cluster n := c.setVote k (g.send args)
  let answered : Cluster n := (asked.setServer j ((c.servers j).requestVote args).1).setVote k
    ((g.send args).answer ((c.servers j).requestVote args).2)
  let final : Cluster n := (answered.setServer i ((c.servers i).countVote ((c.servers j).requestVote args).2)).setVote k
    (((g.send args).answer ((c.servers j).requestVote args).2).enter .returned)
  have ask : c.step (.ask k) = some asked := by
    simp [step, voteEvent, found, Goroutine.start, asked, g, args]
  have handle : asked.step (.handleVote k) = some answered := by
    simp [step, voteEvent, asked, setVote, inRange, Goroutine.send, Goroutine.start, answered, g, setServer]
  have reply : answered.step (.voteReply k) = some final := by
    simp [step, voteEvent, answered, asked, setVote, setServer, inRange, Goroutine.send, Goroutine.start,
      Goroutine.answer, final, g, Function.update_of_ne other.symm]
  have mine : final.servers i = (c.servers i).countVote ((c.servers j).requestVote args).2 := by
    simp [final, setVote, setServer]
  have theirs : final.servers j = ((c.servers j).requestVote args).1 := by
    simp [final, answered, setVote, setServer, Function.update_of_ne other]
  have kept : ∀ x, x ≠ i → x ≠ j → final.servers x = c.servers x := fun x notI notJ => by
    simp [final, answered, asked, setVote, setServer, Function.update_of_ne notI, Function.update_of_ne notJ]
  have votes : final.votes = c.votes.set k
      (((g.send args).answer ((c.servers j).requestVote args).2).enter .returned) := by
    simp [final, answered, asked, setVote, setServer]
  obtain ⟨_, sameTerm, _, received, _⟩ := Server.countVote_effect (c.servers i) ((c.servers j).requestVote args).2
  have inVoters : ∀ x ∈ voters, x ≠ i ∧ x ≠ j := fun x inside =>
    ⟨ne_of_mem_of_not_mem inside apart, ne_of_mem_of_not_mem inside distinct⟩
  have foundAsked := Pool.found_set_self found (g.send args)
  have foundAnswered := Pool.found_set_self foundAsked ((g.send args).answer ((c.servers j).requestVote args).2)
  refine ⟨final, .cons ask ⟨g, found, rfl, listed⟩ (.cons handle ⟨_, foundAsked, rfl, listed⟩
    (.cons reply ⟨_, foundAnswered, rfl, listed⟩ (.refl _))), ⟨((usual.step ask).step handle).step reply, ?_, ?_,
    fun x inside => ?_, fun x inside => ?_⟩, ?_, ?_, kept⟩
  · rw [mine, sameTerm, currentTerm]
  · rw [mine, received, if_pos granted, receivedVotes]
  · rw [kept x (inVoters x inside).1 (inVoters x inside).2]
    exact below x (List.mem_cons_of_mem _ inside)
  · rw [votes]
    refine (Pool.mem_set_or_eq found _ (asks x (List.mem_cons_of_mem _ inside))).resolve_right fun same => ?_
    exact (inVoters x inside).2 (congrArg Goroutine.peer same)
  · rw [VotedFor, theirs, voted, votedTerm, candidate.1, candidate.2]
    exact ⟨rfl, rfl⟩
  · intro majority
    rw [mine]
    exact countVote_leads granted (receivedVotes ▸ majority)

/-- All voters are asked, one after the other. -/
theorem Canvasses.votes (canvasses : Canvasses i voters term counted c) (apart : i ∉ voters)
    (distinct : voters.Nodup) (listed : ∀ j ∈ voters, j ∈ all) (majority : n / 2 < counted + voters.length)
    (already : voters = [] → (c.servers i).serverState = .leader) :
    ∃ d, Reaches step (Campaigns i all) c d ∧ (d.servers i).serverState = .leader ∧
      (d.servers i).currentTerm = term ∧ (∀ j ∈ voters, VotedFor d j i term) ∧
      ∀ x, x ≠ i → x ∉ voters → d.servers x = c.servers x := by
  induction voters generalizing c counted with
  | nil => exact ⟨c, .refl c, already rfl, canvasses.currentTerm, nofun, fun _ _ _ => rfl⟩
  | cons j voters ih =>
    obtain ⟨notJ, apart⟩ := List.ne_and_not_mem_of_not_mem_cons apart
    obtain ⟨fresh, distinct⟩ := List.nodup_cons.mp distinct
    obtain ⟨inAll, listed⟩ := List.forall_mem_cons.mp listed
    rw [List.length_cons] at majority
    obtain ⟨d, reaches, canvassesD, votedJ, leads, kept⟩ := canvasses.vote notJ.symm fresh apart inAll
    have last : voters = [] → (d.servers i).serverState = .leader := by
      rintro rfl
      exact leads majority
    obtain ⟨e, later, leads', term, voted, kept'⟩ := ih canvassesD apart distinct listed (by omega) last
    refine ⟨e, reaches.trans later, leads', term, List.forall_mem_cons.mpr ⟨?_, voted⟩, fun x notI outside => ?_⟩
    · rwa [VotedFor, kept' j notJ.symm fresh]
    · obtain ⟨notX, outside⟩ := List.ne_and_not_mem_of_not_mem_cons outside
      rw [kept' x notI outside, kept x notI notX]

/-- From every state that a run reaches, a peer that is alive and does not lead can become the leader of a term
above all others, by its own timer and the votes of any majority: no other peer has to do anything, and it does
not matter what is still under way from before. -/
theorem electable (two : 2 ≤ n) {taken : List (Taken (Cluster n) (Event n))} (run : ClusterRun n taken c)
    (live : (c.servers i).dead = false) (notLeader : (c.servers i).serverState ≠ .leader)
    (apart : i ∉ voters) (distinct : voters.Nodup) (majority : n / 2 < voters.length + 1) :
    ∃ d, Reaches step (Campaigns i voters) c d ∧ (d.servers i).serverState = .leader ∧
      (∀ j, (c.servers j).currentTerm < (d.servers i).currentTerm) ∧
      (∀ j ∈ voters, VotedFor d j i (d.servers i).currentTerm) ∧
      ∀ j, j ≠ i → j ∉ voters → d.servers j = c.servers j := by
  obtain ⟨ready, toReady, isReady, kept⟩ := exists_ready voters (usual_init.run run) live notLeader
  obtain ⟨bound, isBound⟩ := (Set.finite_range fun j => (c.servers j).currentTerm).bddAbove
  obtain ⟨begun, toBegun, begunReady, kept', above, received, asks⟩ := isReady.elections voters bound
  have below : ∀ j, (c.servers j).currentTerm < (begun.servers i).currentTerm :=
    fun j => lt_of_le_of_lt (isBound ⟨j, rfl⟩) above
  have canvasses : Canvasses i voters (begun.servers i).currentTerm 1 begun := by
    refine ⟨begunReady.usual, rfl, received, fun j inside => ?_, fun j inside => ?_⟩
    · have other := ne_of_mem_of_not_mem inside apart
      rw [kept' j other, kept j other]
      exact below j
    · exact asks j (ne_of_mem_of_not_mem inside apart)
  have nonempty : voters = [] → (begun.servers i).serverState = .leader := by
    rintro rfl
    rw [List.length_nil] at majority
    omega
  obtain ⟨d, toD, leads, term, voted, kept''⟩ := canvasses.votes apart distinct (fun _ inside => inside)
    (by omega) nonempty
  refine ⟨d, (toReady.trans toBegun).trans toD, leads, fun j => ?_, fun j inside => ?_, fun j notI outside => ?_⟩
  · rw [term]
    exact below j
  · rw [term]
    exact voted j inside
  · rw [kept'' j notI outside, kept' j notI, kept j notI]

end Votes

/-- One of three peers is elected in term 1. -/
def firstLeader (i : Fin n) : List (Event n) :=
  [.resetTimer i, .checkTimer i, .ask 0, .handleVote 0, .voteReply 0]

/-- When peer 0 leads, peer 2 can still be elected, with the vote of peer 1. -/
theorem electable_after_firstLeader :
    ((outcome step (init 3) (firstLeader 0)).servers 0).serverState = .leader ∧
      ∃ d, Reaches step (Campaigns 2 [1]) (outcome step (init 3) (firstLeader 0)) d ∧
        (d.servers 2).serverState = .leader ∧ VotedFor d 1 2 (d.servers 2).currentTerm ∧
        (d.servers 0).serverState = .leader := by
  have leads : ((outcome step (init 3) (firstLeader 0)).servers 0).serverState = .leader := by decide
  have apart : (2 : Fin 3) ∉ [(1 : Fin 3)] := by decide
  obtain ⟨d, reaches, wins, _, voted, kept⟩ := electable (by decide) (run_trace step (init 3) (firstLeader 0))
    (by decide) (by decide) apart (by decide) (by decide)
  refine ⟨leads, d, reaches, wins, voted 1 List.mem_cons_self, ?_⟩
  rw [kept 0 (by decide) (by decide), leads]

/-! ## A peer without others -/

/-- Nobody is asked and nobody leads. -/
structure Lone (c : Cluster 1) : Prop where
  votes : c.votes = []
  notLeader : ∀ i, (c.servers i).serverState ≠ .leader

theorem Lone.update {c d : Cluster 1} (lone : Lone c) {i : Fin 1} {rf : Server 1}
    (servers : d.servers = Function.update c.servers i rf) (votes : d.votes = c.votes)
    (notLeader : rf.serverState ≠ .leader) : Lone d := by
  refine ⟨votes.trans lone.votes, fun j => ?_⟩
  rw [servers, Subsingleton.elim j i, Function.update_self]
  exact notLeader

theorem Lone.step {c d : Cluster 1} {e : Event 1} (lone : Lone c) (moved : c.step e = some d) : Lone d := by
  have none_ : ∀ {k : Nat} {g : AskForVote 1}, c.votes[k]? = some g → False := fun found => by
    simp [lone.votes] at found
  cases step_effect moved with
  | quiet servers votes =>
    exact ⟨votes.trans lone.votes, fun i => by rw [(servers i).serverState]; exact lone.notLeader i⟩
  | @election i servers votes =>
    refine lone.update servers ?_ (by simp [Server.startElection])
    have nobody : (List.finRange 1).filter (· ≠ i) = [] :=
      List.filter_eq_nil_iff.mpr fun j _ => by simp [Subsingleton.elim j i]
    rw [votes, nobody, List.map_nil, List.append_nil]
  | ask found | phase found | handleVote found | voteReply found => exact (none_ found).elim
  | @handleBeat _ g args servers votes =>
    refine lone.update servers votes ?_
    obtain ⟨_, _, _, ⟨_, same⟩ | ⟨_, notLeader⟩⟩ := Server.appendEntries_effect (c.servers g.peer) args
    · rw [same]
      exact lone.notLeader _
    · exact notLeader
  | @beatReply _ g reply _ _ servers votes =>
    refine lone.update servers votes ?_
    obtain ⟨_, _, _, same | ⟨_, _, notLeader⟩⟩ := Server.heartBeatAnswered_effect (c.servers g.server) reply
    · rw [same]
      exact lone.notLeader _
    · exact notLeader

/-- A cluster of one peer has no leader in any run, however often its timer expires: the majority is counted
only when an answer comes. -/
theorem lone_peer_never_leads {c : Cluster 1} {taken : List (Taken (Cluster 1) (Event 1))}
    (run : ClusterRun 1 taken c) (i : Fin 1) : (c.servers i).serverState ≠ .leader := by
  have all : AllMeet (fun _ _ => True) taken := fun _ _ => trivial
  have start : Lone (init 1) := ⟨rfl, fun _ => by simp [init]⟩
  exact (run.invariant all start fun _ _ _ lone _ moved => lone.step moved).notLeader i

/-- The timer of the only peer expires twice. -/
theorem lone_candidate :
    ((outcome step (init 1) [.resetTimer 0, .checkTimer 0, .resetTimer 0, .checkTimer 0]).servers 0).currentTerm = 2 ∧
      ((outcome step (init 1) [.resetTimer 0, .checkTimer 0, .resetTimer 0, .checkTimer 0]).servers 0).serverState ≠
        .leader :=
  ⟨by decide, lone_peer_never_leads (run_trace step (init 1) _) 0⟩

end Cluster

end Tda596Labs.Raft
