import Tda596Labs.Raft.Cluster

/-! # When terms go back

`currentTerm` is written in five places.  Four of them can only raise it.  The fifth, the end of
`sendHeartBeatToPeer`, copies the term of a refused heartbeat without looking at its own, so a refusal
that arrives after the peer has moved on takes the term back.
-/

namespace Tda596Labs.Raft

open Tda596Labs.Transition

namespace Cluster

variable {n : Nat}

/-- A refused heartbeat is answered before its sender has passed the term of the refusal. -/
def FreshRefusal (c : Cluster n) : Event n → Prop
  | .beatReply k => ∀ g ∈ c.beats[k]?, ∀ reply ∈ g.reply,
      reply.success = false → (c.servers g.server).currentTerm ≤ reply.followersTerm
  | _ => True

instance (c : Cluster n) (e : Event n) : Decidable (FreshRefusal c e) :=
  match e with
  | .beatReply k => inferInstanceAs (Decidable (∀ g ∈ c.beats[k]?, ∀ reply ∈ g.reply,
      reply.success = false → (c.servers g.server).currentTerm ≤ reply.followersTerm))
  | .resetTimer _ | .checkTimer _ | .sleepHeartBeats _ | .sendHeartBeats _ | .kill _ | .ask _
  | .handleVote _ | .voteCallFails _ | .voteRetry _ | .voteReply _ | .beat _ | .handleBeat _
  | .beatCallFails _ | .beatRetry _ => .isTrue trivial

/-- No peer's term is smaller in the second state than in the first. -/
def TermsGrow (c d : Cluster n) : Prop :=
  ∀ i, (c.servers i).currentTerm ≤ (d.servers i).currentTerm

theorem freshRefusal_of_ne {c : Cluster n} {e : Event n} (other : ∀ k, e ≠ .beatReply k) :
    FreshRefusal c e := by
  cases e with
  | beatReply k => exact absurd rfl (other k)
  | _ => trivial

theorem termsGrow_update_iff {c d : Cluster n} {i : Fin n} {rf : Server n}
    (servers : d.servers = Function.update c.servers i rf) :
    TermsGrow c d ↔ (c.servers i).currentTerm ≤ rf.currentTerm := by
  constructor
  · intro grows
    have own := grows i
    rwa [servers, Function.update_self] at own
  · intro grows j
    rw [servers]
    by_cases equal : j = i
    · subst equal
      rwa [Function.update_self]
    · rw [Function.update_of_ne equal]

/-- Copying the term of an answer keeps the order exactly when the answer is no stale refusal. -/
theorem heartBeatAnswered_term_le_iff (rf : Server n) (reply : AppendEntriesReply) :
    rf.currentTerm ≤ (rf.heartBeatAnswered reply).currentTerm ↔
      (reply.success = false → rf.currentTerm ≤ reply.followersTerm) := by
  cases refused : reply.success with
  | true => simp [Server.heartBeatAnswered, refused]
  | false =>
    simp only [Server.heartBeatAnswered, refused, Server.stepDown, Bool.false_eq_true, if_false]
    split <;> simp

/-- The only step that can take a term back is the processing of a refused heartbeat, and it does so
exactly when the refusal is stale. -/
theorem step_termsGrow_iff {c d : Cluster n} {e : Event n} (moved : c.step e = some d) :
    TermsGrow c d ↔ FreshRefusal c e := by
  cases step_effect moved with
  | quiet servers _ other =>
    exact iff_of_true (fun i => (servers i).currentTerm.ge) (freshRefusal_of_ne other)
  | election servers =>
    refine iff_of_true ((termsGrow_update_iff servers).mpr ?_) trivial
    simp only [Server.startElection]
    omega
  | ask _ _ servers => exact iff_of_true (fun i => by rw [servers]) trivial
  | phase _ _ _ _ servers _ other =>
    exact iff_of_true (fun i => by rw [servers]) (freshRefusal_of_ne other)
  | handleVote _ _ _ servers =>
    exact iff_of_true ((termsGrow_update_iff servers).mpr (Server.requestVote_term_le _ _)) trivial
  | voteReply _ _ _ servers =>
    refine iff_of_true ((termsGrow_update_iff servers).mpr ?_) trivial
    exact (Server.countVote_effect _ _).2.1.ge
  | handleBeat servers =>
    refine iff_of_true ((termsGrow_update_iff servers).mpr ?_) trivial
    obtain ⟨_, _, _, ⟨same, _⟩ | ⟨newer, _⟩⟩ := Server.appendEntries_effect _ _
    · exact same.ge
    · exact newer.le
  | @beatReply _ g reply found answered servers _ =>
    rw [termsGrow_update_iff servers, heartBeatAnswered_term_le_iff]
    constructor
    -- the event determines the goroutine, and the goroutine its reply
    · intro fresh g' found' reply' answered' refused
      obtain rfl : g = g' := Option.some.inj (found.symm.trans found')
      obtain rfl : reply = reply' := Option.some.inj (answered.symm.trans answered')
      exact fresh refused
    · intro fresh
      exact fresh g found reply answered

/-- Along a run no term ever goes back if and only if every refused heartbeat of the run is processed
before its sender has passed the refusal's term. -/
theorem currentTerm_never_falls_iff {taken : List (Taken (Cluster n) (Event n))} {final : Cluster n}
    (run : ClusterRun n taken final) :
    (∀ τ ∈ taken, TermsGrow τ.before τ.after) ↔ AllMeet FreshRefusal taken := by
  constructor
  · intro grows τ member
    exact (step_termsGrow_iff (run.taken_step member).1).mp (grows τ member)
  · intro fresh τ member
    exact (step_termsGrow_iff (run.taken_step member).1).mpr (fresh τ member)

/-- Two peers.  Peer 0 leads term 1 and sends a heartbeat, peer 1 moves to term 2 and refuses it, peer
0 votes in term 2 and starts term 3, and only then the refusal arrives. -/
def staleRefusal : List (Event 2) :=
  [.resetTimer 0, .checkTimer 0, .ask 0, .handleVote 0, .voteReply 0, .sleepHeartBeats 0,
    .sendHeartBeats 0, .beat 0, .resetTimer 1, .checkTimer 1, .handleBeat 0, .ask 1, .handleVote 1,
    .resetTimer 0, .checkTimer 0, .beatReply 0]

theorem currentTerm_falls_on_stale_refusal :
    ∃ taken final, ClusterRun 2 taken final ∧ ¬ ∀ τ ∈ taken, TermsGrow τ.before τ.after := by
  refine ⟨_, _, run_trace step (init 2) staleRefusal, ?_⟩
  unfold TermsGrow
  decide

/-- The same refusal, processed while peer 0 is still in the term of the refusal. -/
def freshRefusal : List (Event 2) :=
  [.resetTimer 0, .checkTimer 0, .ask 0, .handleVote 0, .voteReply 0, .sleepHeartBeats 0,
    .sendHeartBeats 0, .beat 0, .resetTimer 1, .checkTimer 1, .handleBeat 0, .ask 1, .handleVote 1,
    .beatReply 0]

theorem currentTerm_kept_on_fresh_refusal :
    (trace step (init 2) freshRefusal).length = 14 ∧
      AllMeet FreshRefusal (trace step (init 2) freshRefusal) := by
  refine ⟨by decide, (currentTerm_never_falls_iff (run_trace step (init 2) freshRefusal)).mp ?_⟩
  unfold TermsGrow
  decide

end Cluster

end Tda596Labs.Raft
