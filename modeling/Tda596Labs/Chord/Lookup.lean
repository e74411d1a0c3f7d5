import Mathlib.Data.Finset.Dedup
import Tda596Labs.Lib.Lap
import Tda596Labs.Chord.WholeCalls

/-! # Lookups and joins in a stable ring

Both the lookup `resolveIdentifier` and the chain of `Join` requests ask node after node until one of
them knows the owner of the key.  In a stable ring the nodes asked form a walk: a node that is less
than half a circle past the key passes along to its successor, any other node to its last finger,
which lies beyond the key.  So the walk does not come closer to the key.  It ends up turning on one
arc of the ring, from `foot` to `peak`, and everything depends on whether a node of that arc knows the
owner.
-/

namespace Tda596Labs.Chord

open Tda596Labs.Circle Transition

/-! ## The code -/

section Code

variable (sha1 : String → Nat)

/-- `CallFindSuccessor`; a missing node is a failed RPC. -/
def callFindSuccessor (nodes : NodeAddress → Option Chord) (chord : Chord) (identifier : Nat)
    (queryNodeAddress : NodeAddress) : Option Response :=
  if queryNodeAddress = chord.node.nodeAddress then
    some { Response.zero with nodeAddress := chord.node.nodeAddress, isSuccessor := true }
  else (nodes queryNodeAddress).map fun target => findSuccessor sha1 target identifier

/-- The loop of `resolveIdentifier` with the number of iterations that are left. -/
def resolveLoop (nodes : NodeAddress → Option Chord) (chord : Chord) (identifier : Nat) :
    Nat → NodeAddress → NodeAddress
  | 0, _ => "X"
  | left + 1, queryNodeAddress =>
    if queryNodeAddress = chord.node.nodeAddress then chord.node.nodeAddress
    else
      match callFindSuccessor sha1 nodes chord identifier queryNodeAddress with
      | none => "X"
      | some response =>
        if response.isSuccessor then response.nodeAddress
        else resolveLoop nodes chord identifier left response.nodeAddress

def resolveIdentifier (nodes : NodeAddress → Option Chord) (chord : Chord) (identifier : Nat) :
    NodeAddress :=
  match find sha1 chord identifier .zero with
  | (.passAlong, response) =>
    if response.nodeAddress = chord.node.nodeAddress then chord.node.nodeAddress
    else resolveLoop sha1 nodes chord identifier 32 response.nodeAddress
  | (_, response) => response.nodeAddress

/-- The requests that `CallJoin` sends one after another, at most `fuel` of them: the last reply and
the network after it.  A failed RPC ends the joining process. -/
def callJoin (request : Request) :
    Nat → (NodeAddress → Option Chord) → NodeAddress →
      Option (Response × (NodeAddress → Option Chord))
  | 0, _, _ => none
  | fuel + 1, nodes, nodeAddress =>
    match nodes nodeAddress with
    | none => none
    | some chord =>
      let (changed, response) := join sha1 chord request
      let nodes := Function.update nodes nodeAddress (some changed)
      if response.isSuccessor then some (response, nodes)
      else callJoin request fuel nodes response.nodeAddress

end Code

/-! ## The calls in the network -/

section Network

variable {sha1 : String → Nat} {me target : NodeAddress} {nodes after : NodeAddress → Option Chord} {chord : Chord}
  {identifier k : Nat} {goroutine : Goroutine} {s : System}

/-- What `resolveIdentifier` returns from the point it has reached. -/
def Resolving.result (sha1 : String → Nat) (nodes : NodeAddress → Option Chord) (chord : Chord) (identifier : Nat) :
    Resolving → NodeAddress
  | .found address => address
  | .ask query left => resolveLoop sha1 nodes chord identifier (left + 1) query

theorem resolveFirst_result (sha1 : String → Nat) (nodes : NodeAddress → Option Chord) (chord : Chord)
    (identifier : Nat) :
    (resolveFirst sha1 chord identifier).result sha1 nodes chord identifier =
      resolveIdentifier sha1 nodes chord identifier := by
  unfold resolveFirst resolveIdentifier
  generalize find sha1 chord identifier .zero = answer
  obtain ⟨code, response⟩ := answer
  cases code with
  | passAlong =>
    dsimp only
    split <;> rfl
  | soloNode | mySucc | iAmSucc => rfl

/-- One iteration with an answer, and the test at the head of the next. -/
theorem ask_result_of_answer {query : NodeAddress} {asked : Chord} (other : query ≠ chord.node.nodeAddress)
    (answers : nodes query = some asked) (left : Nat) :
    (Resolving.ask query left).result sha1 nodes chord identifier =
      (resolveNext chord.node.nodeAddress left (findSuccessor sha1 asked identifier)).result sha1 nodes chord
        identifier := by
  rw [Resolving.result, resolveLoop, if_neg other, callFindSuccessor, if_neg other, answers, Option.map_some]
  unfold resolveNext
  dsimp only
  split
  · rfl
  · cases left with
    | zero => rfl
    | succ left =>
      dsimp only
      split
      · next back => rw [back, resolveLoop, if_pos rfl, Resolving.result]
      · rfl

theorem resolveNext_fewer {query : NodeAddress} {left rest : Nat} {response : Response}
    (asks : resolveNext me left response = .ask query rest) : rest < left := by
  unfold resolveNext at asks
  split at asks
  · cases asks
  · split at asks
    · cases asks
    · split at asks
      · cases asks
      · cases asks
        exact Nat.lt_succ_self rest

theorem ask_result_of_failure {query : NodeAddress} (other : query ≠ chord.node.nodeAddress)
    (lost : nodes query = none) (left : Nat) :
    (Resolving.ask query left).result sha1 nodes chord identifier = "X" := by
  simp [Resolving.result, resolveLoop, other, callFindSuccessor, lost]

/-- A goroutine of node `me` that looks an identifier up, at the points `go`. -/
structure Walks (sha1 : String → Nat) (me : NodeAddress) (identifier : Nat) (go : Resolving → Phase) : Prop where
  awaits : ∀ query left, (go (.ask query left)).awaits = some query
  served : ∀ chord query left, serve sha1 .good me chord (go (.ask query left)) =
    some (chord, go (resolveNext me left (findSuccessor sha1 chord identifier)))
  failed : ∀ query left, (go (.ask query left)).failed = some (go (.found "X"))

theorem walks_storeResolved (request : StoreFileRequest) (back : Return) :
    Walks sha1 me request.fileIdentifier (storeResolved request back) :=
  ⟨fun _ _ => rfl, fun _ _ _ => rfl, fun _ _ => rfl⟩

theorem walks_lookupResolved (request : RetreiveFileRequest) :
    Walks sha1 me request.fileIdentifier (lookupResolved request) :=
  ⟨fun _ _ => rfl, fun _ _ _ => rfl, fun _ _ => rfl⟩

namespace System

/-- With nothing in between, a lookup in the network comes to the address that `resolveIdentifier` returns. -/
theorem Plays.resolves {go : Resolving → Phase} {resolving : Resolving} (walks : Walks sha1 me identifier go)
    (plays : s.Plays me k goroutine (go resolving) nodes) (found : nodes me = some chord)
    (other : ∀ query left, resolving = .ask query left → query ≠ me) :
    ∃ t, Reaches (step sha1) (fun s e => s.turn k = some e) s t ∧
      t.Plays me k goroutine (go (.found (resolving.result sha1 nodes chord identifier))) nodes := by
  have named : chord.node.nodeAddress = me := plays.addressed me chord (plays.nodes ▸ found)
  cases resolving with
  | found address => exact ⟨s, .refl s, plays⟩
  | ask query left =>
    induction left using Nat.strong_induction_on generalizing s query with
    | _ left ih =>
      have elsewhere : query ≠ chord.node.nodeAddress := named ▸ other query left rfl
      cases answers : nodes query with
      | none =>
        rw [ask_result_of_failure elsewhere answers]
        have fails : advance sha1 me (go (.ask query left)) nodes = some (go (.found "X"), nodes) := by
          simp [advance, walks.awaits, answers, walks.failed]
        obtain ⟨e, t, turn, moved, played⟩ := plays.advances fails
        exact ⟨t, .cons moved turn (.refl t), played⟩
      | some asked =>
        rw [ask_result_of_answer elsewhere answers, named]
        have kept : Function.update nodes query (some asked) = nodes :=
          Function.update_eq_self_iff.mpr answers.symm
        have goes : advance sha1 me (go (.ask query left)) nodes =
            some (go (resolveNext me left (findSuccessor sha1 asked identifier)), nodes) := by
          simp [advance, walks.awaits, answers, walks.served, kept]
        obtain ⟨e, t, turn, moved, played⟩ := plays.advances goes
        cases next : resolveNext me left (findSuccessor sha1 asked identifier) with
        | found address => exact ⟨t, .cons moved turn (.refl t), next ▸ played⟩
        | ask onward rest =>
          rw [next] at played
          have onwards : ∀ query left, Resolving.ask onward rest = .ask query left → query ≠ me := by
            rintro _ _ ⟨⟩
            exact resolveNext_ask next
          obtain ⟨u, reaches, arrived⟩ := ih rest (resolveNext_fewer next) onward played onwards
          exact ⟨u, .cons moved turn reaches, arrived⟩

/-- `CallStoreFile` sends the file to the address that `resolveIdentifier` returns. -/
theorem Plays.resolves_store {request : StoreFileRequest} {back : Return}
    (plays : s.Plays me k goroutine (.resolve request back) nodes) (found : nodes me = some chord) :
    ∃ t, Reaches (step sha1) (fun s e => s.turn k = some e) s t ∧ t.Plays me k goroutine
      (.storeCall request back (resolveIdentifier sha1 nodes chord request.fileIdentifier)) nodes := by
  have named : chord.node.nodeAddress = me := plays.addressed me chord (plays.nodes ▸ found)
  have kept : Function.update nodes me (some chord) = nodes := Function.update_eq_self_iff.mpr found.symm
  have begins : advance sha1 me (.resolve request back) nodes =
      some (storeResolved request back (resolveFirst sha1 chord request.fileIdentifier), nodes) := by
    simp [advance, Phase.awaits, Phase.site, found, proceed, kept]
  obtain ⟨e, t, turn, moved, played⟩ := plays.advances begins
  obtain ⟨u, reaches, arrived⟩ := played.resolves (walks_storeResolved request back) found fun query left asks =>
    named ▸ resolveFirst_ask asks
  rw [resolveFirst_result] at arrived
  exact ⟨u, .cons moved turn reaches, arrived⟩

/-- The command `Lookup` asks the address that `resolveIdentifier` returns. -/
theorem lookup_resolves {name : String} (unlocked : ∀ a, s.owner a = none) (addressed : s.Addressed)
    (idle : ¬ s.busy me .main) (found : s.nodes me = some chord) (joined : chord.node.joinPending = false) :
    ∃ t u, step sha1 s (.lookup me name) = some t ∧
      Reaches (step sha1) (fun s' e => s'.turn s.tasks.length = some e) t u ∧
      u.Plays me s.tasks.length .main (.lookupCall ⟨hashString sha1 name, name⟩
        (resolveIdentifier sha1 s.nodes chord (hashString sha1 name))) s.nodes := by
  obtain ⟨t, moved, plays⟩ := plays_of_starts (.lookup me name) unlocked addressed idle found joined
  have kept : Function.update s.nodes me (some chord) = s.nodes := Function.update_eq_self_iff.mpr found.symm
  rw [commandLookup, kept] at plays
  have walks : Walks sha1 me (hashString sha1 name) (lookupResolved ⟨hashString sha1 name, name⟩) :=
    walks_lookupResolved ⟨hashString sha1 name, name⟩
  obtain ⟨u, reaches, arrived⟩ := plays.resolves walks found fun query left asks =>
    addressed me chord found ▸ resolveFirst_ask asks
  rw [resolveFirst_result] at arrived
  exact ⟨t, u, moved, reaches, arrived⟩

theorem join_request (chord : Chord) (request : Request) : (join sha1 chord request).1.request = chord.request := by
  unfold join
  split <;> rfl

/-- The chain of `CallJoin` is a run of the network, at the end of which the joiner is about to notify the node that
the last reply names. -/
theorem callJoin_run {fuel : Nat} {response : Response} (unlocked : ∀ a, s.owner a = none)
    (task : s.tasks[k]? = some ⟨me, goroutine, .join target⟩) (found : s.nodes me = some chord)
    (ran : callJoin sha1 chord.request fuel s.nodes target = some (response, after)) :
    ∃ taken t, Run (step sha1) s taken t ∧ t.nodes = after ∧
      (∀ τ ∈ taken, isAnsweredCall k s.tasks.length τ.event) ∧
      ⟨me, .spawned, .notify response.nodeAddress⟩ ∈ t.tasks := by
  induction fuel generalizing s k goroutine target chord with
  | zero => cases ran
  | succ fuel ih =>
    rw [callJoin] at ran
    cases foundTarget : s.nodes target with
    | none =>
      rw [foundTarget] at ran
      cases ran
    | some asked =>
      cases served : join sha1 asked chord.request with
      | mk changed answer =>
        simp only [foundTarget, served] at ran
        obtain ⟨called, foundAgain, same⟩ :
            ∃ called, Function.update s.nodes target (some changed) me = some called ∧
              called.request = chord.request := by
          by_cases itself : me = target
          · subst itself
            obtain rfl := Option.some.inj (found.symm.trans foundTarget)
            have kept : (join sha1 chord chord.request).1.request = chord.request := join_request chord chord.request
            rw [served] at kept
            exact ⟨changed, Function.update_self .., kept⟩
          · exact ⟨chord, (Function.update_of_ne itself ..).trans found, rfl⟩
        have handled : serve sha1 .good me asked (.joinCall chord.request target) =
            some (changed, .joinReply answer) := by
          simp only [serve, served]
        have goesOn : proceed sha1 .good called (.joinReply answer) = some (called, .finished,
            [if answer.isSuccessor then .notify answer.nodeAddress else .join answer.nodeAddress]) := by
          cases isLast : answer.isSuccessor <;> simp [proceed, isLast]
        obtain ⟨taken, t, run, _, own, owner, nodes, tasks⟩ := call_run unlocked task found rfl rfl foundTarget
          handled foundAgain goesOn ⟨⟨rfl, rfl⟩, ⟨rfl, rfl⟩, rfl, rfl⟩
        rw [Function.update_eq_self_iff.mpr foundAgain.symm] at nodes
        split at ran
        · next isLast =>
          cases ran
          exact ⟨taken, t, run, nodes, own, by simp [tasks, isLast]⟩
        · next passed =>
          have longer : s.tasks.length ≤ t.tasks.length := by simp [tasks]
          have next : t.tasks[s.tasks.length]? = some ⟨me, .spawned, .join answer.nodeAddress⟩ := by
            simp [tasks, passed]
          rw [← same, ← nodes] at ran
          obtain ⟨taken', t', run', nodes', all', last⟩ := ih (owner ▸ unlocked) next (nodes ▸ foundAgain) ran
          exact ⟨taken ++ taken', t', run.append run', nodes',
            isAnsweredCall_append own all' (Nat.le_refl _) longer, last⟩

end System

end Network

/-! ## The arc on which a walk turns -/

section Arc

variable {sha1 : String → Nat}

/-- The first node half a circle past the key. -/
def peak (ring : Ring sha1) (key : Nat) : NodeAddress :=
  ring.successor (jumpIdentifier key keySize)

/-- The last finger of `peak`. -/
def foot (ring : Ring sha1) (key : Nat) : NodeAddress :=
  ring.successor (jumpIdentifier (hashString sha1 (peak ring key)) keySize)

/-- The nodes on the clockwise arc from `foot` to `peak`. -/
def turn (ring : Ring sha1) (key : Nat) : List NodeAddress :=
  ring.members.filter fun x =>
    cw hashMod (hashString sha1 (foot ring key)) (hashString sha1 x) ≤
      cw hashMod (hashString sha1 (foot ring key)) (hashString sha1 (peak ring key))

/-- A node knows the target if it is the target or has it in its successor list. -/
def Aware (nodes : NodeAddress → Option Chord) (target x : NodeAddress) : Prop :=
  target = x ∨ ∃ chord, nodes x = some chord ∧ target ∈ chord.node.successors.toList

variable {ring : Ring sha1} {nodes : NodeAddress → Option Chord} {key : Nat} {x : NodeAddress}

theorem hop_mem (ring : Ring sha1) (key : Nat) (x : NodeAddress) : hop ring key x ∈ ring.members := by
  unfold hop
  split
  · exact ring.successor_mem
  · exact ring.next_mem

theorem isLowest_successor {p : Nat} (hkey : key < hashMod) (hp : p < hashMod)
    (member : x ∈ ring.members) (beyond : cw hashMod key p ≤ past sha1 key x) :
    Lap.IsLowest ring.members.toFinset (past sha1 key) (cw hashMod key p) (ring.successor p) where
  mem := List.mem_toFinset.mpr ring.successor_mem
  reaches := (ring.successor_of_le hkey hp member beyond).1
  least := fun _ inside past => (ring.successor_of_le hkey hp (List.mem_toFinset.mp inside) past).2

theorem past_successor_jump (hkey : key < hashMod) (member : x ∈ ring.members)
    (high : halfway ≤ past sha1 key x) :
    Lap.IsLowest ring.members.toFinset (past sha1 key) (past sha1 key x - halfway)
      (ring.successor (jumpIdentifier (hashString sha1 x) keySize)) := by
  have bound := past_lt sha1 hkey x
  have double := hashMod_eq
  have jump : cw hashMod key (jumpIdentifier (hashString sha1 x) keySize)
      = past sha1 key x - halfway := by
    rw [past_jump hkey (Nat.le_refl _)]
    change (if past sha1 key x + halfway < hashMod then past sha1 key x + halfway
      else past sha1 key x + halfway - hashMod) = _
    split_ifs <;> omega
  have lowest := isLowest_successor hkey (jumpIdentifier_lt (hashString sha1 x) keySize) member
    (by omega)
  rw [jump] at lowest
  exact lowest

theorem hops (ring : Ring sha1) (hkey : key < hashMod) :
    Lap.Hops ring.members.toFinset (past sha1 key) halfway (hop ring key) where
  inj := fun x hx y hy same =>
    ring.cw_position_inj hkey (List.mem_toFinset.mp hx) (List.mem_toFinset.mp hy) same
  below := fun x _ => hashMod_eq ▸ past_lt sha1 hkey x
  hop_mem := fun x _ => List.mem_toFinset.mpr (hop_mem ring key x)
  low := by
    intro x hx low z hz farther
    rw [hop, if_neg (by omega)]
    exact ring.next_of_lt hkey (List.mem_toFinset.mp hx) (List.mem_toFinset.mp hz) farther
  high := by
    intro x hx high
    rw [hop, if_pos high]
    exact past_successor_jump hkey (List.mem_toFinset.mp hx) high

theorem cw_jump_key (hkey : key < hashMod) : cw hashMod key (jumpIdentifier key keySize) = halfway := by
  have positive := halfway_pos
  have double := hashMod_eq
  have moved := cw_add_mod hkey hkey (d := halfway) (by omega)
  rw [cw_self, Nat.zero_add, if_pos (by omega)] at moved
  exact moved

/-- With a node in the far half, `peak` is the first one there. -/
theorem peak_isLowest (hkey : key < hashMod) (member : x ∈ ring.members)
    (high : halfway ≤ past sha1 key x) :
    Lap.IsLowest ring.members.toFinset (past sha1 key) halfway (peak ring key) := by
  have jump := cw_jump_key hkey
  have lowest := isLowest_successor hkey (jumpIdentifier_lt key keySize) member (by omega)
  rw [jump] at lowest
  exact lowest

/-- Without one, `peak` is the owner of the key. -/
theorem peak_eq_successor (hkey : key < hashMod)
    (low : ∀ z ∈ ring.members, past sha1 key z < halfway) : peak ring key = ring.successor key := by
  refine ring.successor_of_lt hkey (jumpIdentifier_lt key keySize) fun z inside => ?_
  rw [cw_jump_key hkey]
  exact low z inside

theorem peak_mem_turn (ring : Ring sha1) (key : Nat) : peak ring key ∈ turn ring key := by
  simp [turn, peak]

theorem turn_toFinset (hkey : key < hashMod)
    (isPeak : Lap.IsLowest ring.members.toFinset (past sha1 key) halfway (peak ring key))
    (isFoot : Lap.IsLowest ring.members.toFinset (past sha1 key)
      (past sha1 key (peak ring key) - halfway) (foot ring key)) :
    (turn ring key).toFinset =
      Lap.lap ring.members.toFinset (past sha1 key) (foot ring key) (peak ring key) := by
  have order := Lap.foot_le_peak isPeak isFoot
  ext x
  have boundX := past_lt sha1 hkey x
  have boundPeak := past_lt sha1 hkey (peak ring key)
  simp only [turn, Lap.lap, List.mem_toFinset, List.mem_filter, Finset.mem_filter, decide_eq_true_eq]
  refine and_congr_right fun _ => ?_
  rw [← cw_cw (hashString_lt (foot ring key)) (hashString_lt x) hkey,
    ← cw_cw (hashString_lt (foot ring key)) (hashString_lt (peak ring key)) hkey]
  change cw hashMod (past sha1 key _) (past sha1 key _) ≤ cw hashMod (past sha1 key _) (past sha1 key _) ↔ _
  simp only [cw_eq (past sha1 key (foot ring key))]
  split_ifs <;> omega

theorem turn_nodup (ring : Ring sha1) (key : Nat) : (turn ring key).Nodup :=
  (List.Nodup.of_map _ ring.distinct).filter _

end Arc

/-! ## Lookups -/

section Lookup

variable {sha1 : String → Nat} {ring : Ring sha1} {nodes : NodeAddress → Option Chord} {key : Nat}
  {x : NodeAddress} {chord : Chord}

theorem aware_iff (found : nodes x = some chord) :
    Aware nodes (ring.successor key) x ↔
      ring.successor key = x ∨ ring.successor key ∈ chord.node.successors.toList := by
  simp [Aware, found]

/-- `find` answers exactly at the nodes that know the owner. -/
theorem find_spec (stable : Stable ring nodes) (member : x ∈ ring.members)
    (found : nodes x = some chord) (hkey : key < hashMod) (response : Response) :
    (Aware nodes (ring.successor key) x → ∃ code, code ≠ RetCode.passAlong ∧
      find sha1 chord key response =
        (code, ⟨true, ring.successor key, hashString sha1 (ring.successor key)⟩)) ∧
    (¬ Aware nodes (ring.successor key) x → ∃ identifier, find sha1 chord key response =
      (.passAlong, { response with identifier := identifier, nodeAddress := hop ring key x })) := by
  obtain ⟨other, sameNode, stableNode⟩ := stable.stableNode x member
  obtain rfl : other = chord := Option.some.inj (sameNode.symm.trans found)
  rw [aware_iff found, not_or]
  exact ⟨find_of_knows stable.noX stableNode.links hkey member response,
    fun unaware => find_of_unaware stable.noX stableNode hkey member response unaware.1 unaware.2⟩

/-- So does `FindSuccessor`. -/
theorem findSuccessor_spec (noX : "X" ∉ ring.members) (stable : StableNode ring x chord)
    (member : x ∈ ring.members) (found : nodes x = some chord) (hkey : key < hashMod) :
    (Aware nodes (ring.successor key) x → findSuccessor sha1 chord key =
      ⟨true, ring.successor key, hashString sha1 (ring.successor key)⟩) ∧
    (¬ Aware nodes (ring.successor key) x → ∃ identifier,
      findSuccessor sha1 chord key = ⟨false, hop ring key x, identifier⟩) := by
  rw [aware_iff found, not_or]
  constructor
  · intro knows
    obtain ⟨code, answers, result⟩ := find_of_knows noX stable.links hkey member .zero knows
    rw [findSuccessor, result]
    cases code with
    | passAlong => exact absurd rfl answers
    | soloNode | mySucc | iAmSucc => rfl
  · intro ⟨other, unlisted⟩
    obtain ⟨identifier, result⟩ := find_of_unaware noX stable hkey member .zero other unlisted
    have notX : hop ring key x ≠ "X" := ne_of_mem_of_not_mem (hop_mem ring key x) noX
    refine ⟨identifier, ?_⟩
    simp [findSuccessor, result, notX]

/-- The walk starting at `x` comes to `me` within `n` hops, over nodes that do not know the owner. -/
def ComesTo (ring : Ring sha1) (nodes : NodeAddress → Option Chord) (key : Nat) (me x : NodeAddress)
    (n : Nat) : Prop :=
  ∃ j < n, (hop ring key)^[j] x = me ∧
    ∀ i < j, ¬ Aware nodes (ring.successor key) ((hop ring key)^[i] x)

theorem comesTo_succ_iff {me : NodeAddress} {n : Nat} (other : x ≠ me) :
    ComesTo ring nodes key me x (n + 1) ↔
      ¬ Aware nodes (ring.successor key) x ∧ ComesTo ring nodes key me (hop ring key x) n := by
  constructor
  · rintro ⟨j, within, arrives, unaware⟩
    cases j with
    | zero => exact absurd arrives other
    | succ j =>
      exact ⟨unaware 0 (Nat.succ_pos j), j, by omega, arrives, fun i earlier =>
        unaware (i + 1) (by omega)⟩
  · rintro ⟨first, j, within, arrives, unaware⟩
    refine ⟨j + 1, by omega, arrives, fun i earlier => ?_⟩
    cases i with
    | zero => exact first
    | succ i => exact unaware i (by omega)

/-- The loop answers with the node itself if the walk comes back to it; otherwise it answers with the
owner, or gives up. -/
theorem resolveLoop_spec (stable : Stable ring nodes) {me : NodeAddress} (address : chord.node.nodeAddress = me)
    (hkey : key < hashMod) (left : Nat) (member : x ∈ ring.members) :
    (ComesTo ring nodes key me x left → resolveLoop sha1 nodes chord key left x = me) ∧
    (¬ ComesTo ring nodes key me x left →
      resolveLoop sha1 nodes chord key left x = ring.successor key ∨
        resolveLoop sha1 nodes chord key left x = "X") := by
  induction left generalizing x with
  | zero =>
    refine ⟨?_, fun _ => .inr rfl⟩
    rintro ⟨j, within, _⟩
    exact absurd within (Nat.not_lt_zero j)
  | succ left ih =>
    by_cases mine : x = me
    · have arrived : ComesTo ring nodes key me x (left + 1) :=
        ⟨0, Nat.succ_pos left, mine, fun i earlier => absurd earlier (Nat.not_lt_zero i)⟩
      simp [resolveLoop, address, mine, mine ▸ arrived]
    · obtain ⟨target, found, stableNode⟩ := stable.stableNode x member
      have replies := findSuccessor_spec stable.noX stableNode member found hkey
      rw [comesTo_succ_iff mine]
      by_cases aware : Aware nodes (ring.successor key) x
      · simp [resolveLoop, callFindSuccessor, address, mine, found, aware, replies.1 aware]
      · obtain ⟨identifier, reply⟩ := replies.2 aware
        simpa [resolveLoop, callFindSuccessor, address, mine, found, aware, reply]
          using ih (hop_mem ring key x)

/-- The farthest node past the key has the owner as its successor. -/
theorem aware_of_farthest (stable : Stable ring nodes) (hkey : key < hashMod)
    (member : x ∈ ring.members)
    (farthest : ∀ z ∈ ring.members, past sha1 key z ≤ past sha1 key x) :
    Aware nodes (ring.successor key) x := by
  obtain ⟨chord, found, stableNode⟩ := stable.stableNode x member
  obtain ⟨extra, listed⟩ := stableNode.successors
  refine .inr ⟨chord, found, ?_⟩
  rw [listed, ← ring.next_of_farthest hkey member farthest]
  exact List.mem_cons_self ..

/-- With all nodes in the near half, every walk meets a node that knows the owner. -/
theorem meets_aware_of_low (stable : Stable ring nodes) (hkey : key < hashMod)
    (low : ∀ z ∈ ring.members, past sha1 key z < halfway) (member : x ∈ ring.members) :
    ∃ n, Aware nodes (ring.successor key) ((hop ring key)^[n] x) := by
  obtain ⟨top, topMember, highest⟩ := Finset.exists_max_image ring.members.toFinset (past sha1 key)
    ⟨x, List.mem_toFinset.mpr member⟩
  obtain ⟨n, arrives⟩ := (hops ring hkey).climbs_to_top
    (fun z inside => low z (List.mem_toFinset.mp inside)) topMember highest
    (List.mem_toFinset.mpr member)
  refine ⟨n, arrives ▸ aware_of_farthest stable hkey (List.mem_toFinset.mp topMember) ?_⟩
  exact fun z inside => highest z (List.mem_toFinset.mpr inside)

/-- A lookup for the key turns at `m`: it comes back to `m` before it meets a node that knows the owner. -/
structure Stuck (ring : Ring sha1) (nodes : NodeAddress → Option Chord) (key : Nat) (m : NodeAddress) :
    Prop where
  onTurn : m ∈ turn ring key
  unaware : ∀ x ∈ turn ring key, ¬ Aware nodes (ring.successor key) x
  short : (turn ring key).length ≤ 32

theorem returns_iff_comesTo {n : Nat} :
    (∃ i, 0 < i ∧ i ≤ n ∧ (hop ring key)^[i] x = x ∧
      ∀ j < i, ¬ Aware nodes (ring.successor key) ((hop ring key)^[j] x)) ↔
      ¬ Aware nodes (ring.successor key) x ∧ ComesTo ring nodes key x (hop ring key x) n := by
  constructor
  · rintro ⟨i, positive, within, back, unaware⟩
    obtain ⟨j, rfl⟩ := Nat.exists_eq_succ_of_ne_zero (Nat.pos_iff_ne_zero.mp positive)
    exact ⟨unaware 0 positive, j, within, back, fun i earlier => unaware (i + 1) (by omega)⟩
  · rintro ⟨first, j, within, back, unaware⟩
    refine ⟨j + 1, Nat.succ_pos j, within, back, fun i earlier => ?_⟩
    cases i with
    | zero => exact first
    | succ i => exact unaware i (by omega)

theorem stuck_iff (stable : Stable ring nodes) (hkey : key < hashMod) (member : x ∈ ring.members) :
    Stuck ring nodes key x ↔
      ¬ Aware nodes (ring.successor key) x ∧ ComesTo ring nodes key x (hop ring key x) 32 := by
  have inSet := List.mem_toFinset.mpr member
  rw [← returns_iff_comesTo]
  by_cases low : ∀ z ∈ ring.members, past sha1 key z < halfway
  · -- The arc contains the owner, and no walk comes back without meeting a node that knows it.
    constructor
    · intro stuck
      exact absurd (.inl (peak_eq_successor hkey low).symm)
        (stuck.unaware _ (peak_mem_turn ring key))
    · rintro ⟨i, positive, _, back, unaware⟩
      obtain ⟨n, aware⟩ := meets_aware_of_low stable hkey low member
      have periodic : Function.IsPeriodicPt (hop ring key) i x := back
      rw [← periodic.iterate_mod_apply n] at aware
      exact absurd aware (unaware _ (Nat.mod_lt n positive))
  · push Not at low
    obtain ⟨z, zMember, high⟩ := low
    have isPeak := peak_isLowest hkey zMember high
    have isFoot := past_successor_jump hkey (List.mem_toFinset.mp isPeak.mem) isPeak.reaches
    rw [Lap.returns_unknowing_iff (hops ring hkey) isPeak isFoot inSet]
    change _ ↔ x ∈ Lap.lap _ _ (foot ring key) _ ∧ (∀ w ∈ Lap.lap _ _ (foot ring key) _, _) ∧
      (Lap.lap _ _ (foot ring key) _).card ≤ 32
    rw [← turn_toFinset hkey isPeak isFoot, List.toFinset_card_of_nodup (turn_nodup ring key)]
    simp only [List.mem_toFinset]
    exact ⟨fun stuck => ⟨stuck.onTurn, stuck.unaware, stuck.short⟩, fun ⟨a, b, c⟩ => ⟨a, b, c⟩⟩

theorem resolveIdentifier_spec (stable : Stable ring nodes) (member : x ∈ ring.members)
    (found : nodes x = some chord) (hkey : key < hashMod) :
    (Stuck ring nodes key x → resolveIdentifier sha1 nodes chord key = x) ∧
    (¬ Stuck ring nodes key x → resolveIdentifier sha1 nodes chord key = ring.successor key ∨
      resolveIdentifier sha1 nodes chord key = "X") := by
  obtain ⟨other, sameNode, stableNode⟩ := stable.stableNode x member
  obtain rfl : other = chord := Option.some.inj (sameNode.symm.trans found)
  rw [stuck_iff stable hkey member]
  by_cases aware : Aware nodes (ring.successor key) x
  · obtain ⟨code, answers, result⟩ := (find_spec stable member found hkey .zero).1 aware
    have direct : resolveIdentifier sha1 nodes other key = ring.successor key := by
      rw [resolveIdentifier, result]
      cases code with
      | passAlong => exact absurd rfl answers
      | soloNode | mySucc | iAmSucc => rfl
    exact ⟨fun stuck => absurd aware stuck.1, fun _ => .inl direct⟩
  · obtain ⟨identifier, result⟩ := (find_spec stable member found hkey .zero).2 aware
    -- The test before the loop is the first test of the loop.
    have loops : resolveIdentifier sha1 nodes other key
        = resolveLoop sha1 nodes other key 32 (hop ring key x) := by
      simp only [resolveIdentifier, result]
      split
      · next mine => simp [resolveLoop, mine]
      · rfl
    rw [loops]
    have spec := resolveLoop_spec stable stableNode.nodeAddress hkey 32 (hop_mem ring key x)
    exact ⟨fun stuck => spec.1 stuck.2, fun free => spec.2 fun comes => free ⟨aware, comes⟩⟩

/-- A lookup in a stable ring ends at the owner of the key or gives up exactly if it is not stuck, and
two lookups that are not stuck do not end at different nodes. -/
theorem resolveIdentifier_sound_iff (stable : Stable ring nodes) (hkey : key < hashMod) :
    (∀ m ∈ ring.members, ∀ chord, nodes m = some chord →
      ((resolveIdentifier sha1 nodes chord key = ring.successor key ∨
        resolveIdentifier sha1 nodes chord key = "X") ↔ ¬ Stuck ring nodes key m)) ∧
    (∀ m ∈ ring.members, ∀ n ∈ ring.members, ∀ chord other, nodes m = some chord →
      nodes n = some other → ¬ Stuck ring nodes key m → ¬ Stuck ring nodes key n →
        resolveIdentifier sha1 nodes chord key = resolveIdentifier sha1 nodes other key ∨
          resolveIdentifier sha1 nodes chord key = "X" ∨
          resolveIdentifier sha1 nodes other key = "X") := by
  constructor
  · intro m member chord found
    have spec := resolveIdentifier_spec stable member found hkey
    refine ⟨fun sound stuck => ?_, spec.2⟩
    rw [spec.1 stuck] at sound
    rcases sound with owner | unknown
    · exact stuck.unaware m stuck.onTurn (.inl owner.symm)
    · exact stable.noX (unknown ▸ member)
  · intro m mMember n nMember chord other mFound nFound mFree nFree
    rcases (resolveIdentifier_spec stable mMember mFound hkey).2 mFree with mOwner | mGaveUp
    · rcases (resolveIdentifier_spec stable nMember nFound hkey).2 nFree with nOwner | nGaveUp
      · exact .inl (mOwner.trans nOwner.symm)
      · exact .inr (.inr nGaveUp)
    · exact .inr (.inl mGaveUp)

end Lookup

def fourNodes : Ring knownSha1 where
  members := ["localhost:1235", "localhost:1236", "localhost:1237", "localhost:1238"]
  nonempty := by decide
  bounded := fun address _ => hashString_lt address
  distinct := by decide +kernel

/-- From `localhost:1236` a lookup of `a.txt` is not stuck. -/
theorem resolveIdentifier_sound_at_1236 :
    resolveIdentifier knownSha1 (settled fourNodes 1) (settledChord fourNodes 1 "localhost:1236")
        (hashString knownSha1 "a.txt") = fourNodes.successor (hashString knownSha1 "a.txt") ∨
      resolveIdentifier knownSha1 (settled fourNodes 1) (settledChord fourNodes 1 "localhost:1236")
        (hashString knownSha1 "a.txt") = "X" := by
  have stable := settled_stable fourNodes 1 (by decide)
  refine ((resolveIdentifier_sound_iff stable (hashString_lt "a.txt")).1 "localhost:1236" (by decide)
    (settledChord fourNodes 1 "localhost:1236") rfl).mpr fun stuck => ?_
  have offTurn : "localhost:1236" ∉ turn fourNodes (hashString knownSha1 "a.txt") := by decide +kernel
  exact offTurn stuck.onTurn

/-- Four nodes with two successors each: `localhost:1238` takes itself for the owner of `a.txt`, which
is `localhost:1237`. -/
theorem resolveIdentifier_answers_itself :
    ¬ ∀ (sha1 : String → Nat) (ring : Ring sha1) (nodes : NodeAddress → Option Chord) (key : Nat),
      Stable ring nodes → key < hashMod → ∀ m ∈ ring.members, ∀ chord, nodes m = some chord →
        (resolveIdentifier sha1 nodes chord key = ring.successor key ∨
          resolveIdentifier sha1 nodes chord key = "X") := by
  intro always
  have sound := always knownSha1 fourNodes (settled fourNodes 1) (hashString knownSha1 "a.txt")
    (settled_stable fourNodes 1 (by decide)) (hashString_lt "a.txt") "localhost:1238" (by decide)
    (settledChord fourNodes 1 "localhost:1238") rfl
  revert sound
  decide +kernel

/-! ## Joins -/

section Join

variable {sha1 : String → Nat} {ring : Ring sha1} {nodes : NodeAddress → Option Chord}
  {x : NodeAddress} {chord : Chord} {request : Request}

theorem join_of_aware (stable : Stable ring nodes) (member : x ∈ ring.members)
    (found : nodes x = some chord) (hkey : request.identifier < hashMod)
    (aware : Aware nodes (ring.successor request.identifier) x) :
    (join sha1 chord request).2.isSuccessor = true := by
  obtain ⟨code, answers, result⟩ := (find_spec stable member found hkey .zero).1 aware
  rw [join, result]
  cases code with
  | passAlong => exact absurd rfl answers
  | soloNode | mySucc | iAmSucc => rfl

theorem join_of_unaware (stable : Stable ring nodes) (member : x ∈ ring.members)
    (found : nodes x = some chord) (hkey : request.identifier < hashMod)
    (unaware : ¬ Aware nodes (ring.successor request.identifier) x) :
    ∃ identifier, join sha1 chord request =
      (chord, ⟨false, hop ring request.identifier x, identifier⟩) := by
  obtain ⟨identifier, result⟩ := (find_spec stable member found hkey .zero).2 unaware
  exact ⟨identifier, by rw [join, result]⟩

/-- A request that is passed along changes nothing, so the chain goes on in the same network. -/
theorem callJoin_of_unaware (stable : Stable ring nodes) (member : x ∈ ring.members)
    (hkey : request.identifier < hashMod)
    (unaware : ¬ Aware nodes (ring.successor request.identifier) x) (fuel : Nat) :
    callJoin sha1 request (fuel + 1) nodes x =
      callJoin sha1 request fuel nodes (hop ring request.identifier x) := by
  obtain ⟨chord, found, _⟩ := stable.stableNode x member
  obtain ⟨identifier, reply⟩ := join_of_unaware stable member found hkey unaware
  have unchanged : Function.update nodes x (some chord) = nodes := by
    rw [← found, Function.update_eq_self]
  rw [callJoin, found]
  simp [reply, unchanged]

theorem callJoin_of_aware (stable : Stable ring nodes) (member : x ∈ ring.members)
    (hkey : request.identifier < hashMod)
    (aware : Aware nodes (ring.successor request.identifier) x) (fuel : Nat) :
    ∃ last, callJoin sha1 request (fuel + 1) nodes x = some last ∧ last.1.isSuccessor = true := by
  obtain ⟨chord, found, _⟩ := stable.stableNode x member
  have accepted := join_of_aware stable member found hkey aware
  refine ⟨((join sha1 chord request).2,
    Function.update nodes x (some (join sha1 chord request).1)), ?_, accepted⟩
  simp [callJoin, found, accepted]

/-- The chain of requests ends exactly if the walk meets a node that knows the owner. -/
theorem callJoin_ends_iff_meets (stable : Stable ring nodes) (hkey : request.identifier < hashMod)
    (member : x ∈ ring.members) :
    (∃ fuel last, callJoin sha1 request fuel nodes x = some last ∧ last.1.isSuccessor = true) ↔
      ∃ n, Aware nodes (ring.successor request.identifier) ((hop ring request.identifier)^[n] x) := by
  constructor
  · rintro ⟨fuel, last, ends, _⟩
    -- On the fuel: the first request either is accepted or is passed along.
    induction fuel generalizing x with
    | zero => cases ends
    | succ fuel ih =>
      by_cases aware : Aware nodes (ring.successor request.identifier) x
      · exact ⟨0, aware⟩
      · rw [callJoin_of_unaware stable member hkey aware] at ends
        obtain ⟨n, meets⟩ := ih (hop_mem ring request.identifier x) ends
        exact ⟨n + 1, meets⟩
  · rintro ⟨n, meets⟩
    induction n generalizing x with
    | zero => exact ⟨1, callJoin_of_aware stable member hkey meets 0⟩
    | succ n ih =>
      by_cases aware : Aware nodes (ring.successor request.identifier) x
      · exact ⟨1, callJoin_of_aware stable member hkey aware 0⟩
      · obtain ⟨fuel, last, ends⟩ := ih (hop_mem ring request.identifier x) meets
        exact ⟨fuel + 1, last, by rw [callJoin_of_unaware stable member hkey aware]; exact ends⟩

/-- Joining through `entry` ends, and with an acceptance, exactly if a node knows the owner of the
joiner's identifier among `entry`, the nodes on the way up from `entry` to `peak`, and those of the arc
on which a walk turns. -/
theorem callJoin_ends_iff {entry : NodeAddress} (stable : Stable ring nodes)
    (hkey : request.identifier < hashMod) (member : entry ∈ ring.members) :
    (∃ fuel last, callJoin sha1 request fuel nodes entry = some last ∧ last.1.isSuccessor = true) ↔
      ∃ x ∈ ring.members, Aware nodes (ring.successor request.identifier) x ∧
        (x = entry ∨ x ∈ turn ring request.identifier ∨
          (past sha1 request.identifier entry ≤ past sha1 request.identifier x ∧
            past sha1 request.identifier x ≤
              past sha1 request.identifier (peak ring request.identifier))) := by
  rw [callJoin_ends_iff_meets stable hkey member]
  by_cases low : ∀ z ∈ ring.members, past sha1 request.identifier z < halfway
  · refine iff_of_true (meets_aware_of_low stable hkey low member) ?_
    exact ⟨peak ring request.identifier, ring.successor_mem,
      .inl (peak_eq_successor hkey low).symm, .inr (.inl (peak_mem_turn ring request.identifier))⟩
  · push Not at low
    obtain ⟨z, zMember, high⟩ := low
    have isPeak := peak_isLowest hkey zMember high
    have isFoot := past_successor_jump hkey (List.mem_toFinset.mp isPeak.mem) isPeak.reaches
    rw [Lap.meets_knowing_iff (hops ring hkey) isPeak isFoot (List.mem_toFinset.mpr member)]
    change (∃ w ∈ _, _ ∧ (_ ∨ w ∈ Lap.lap _ _ (foot ring request.identifier) _ ∨ _)) ↔ _
    simp only [← turn_toFinset hkey isPeak isFoot, List.mem_toFinset]

end Join

/-- The request of a node at `localhost:1241`. -/
def joiner : Request := ⟨"localhost:1241", hashString knownSha1 "localhost:1241"⟩

/-- Joining through `localhost:1236` ends: its successor owns the identifier of the joiner. -/
theorem callJoin_ends_at_1236 : ∃ fuel last,
    callJoin knownSha1 joiner fuel (settled fourNodes 1) "localhost:1236" = some last ∧
      last.1.isSuccessor = true := by
  have stable := settled_stable fourNodes 1 (by decide)
  refine (callJoin_ends_iff stable (hashString_lt "localhost:1241") (by decide)).mpr ?_
  refine ⟨"localhost:1236", by decide, .inr ⟨_, rfl, ?_⟩, .inl rfl⟩
  decide +kernel

/-- Joining through `localhost:1238` never ends: it sends the joiner back to itself. -/
theorem callJoin_runs_on :
    ¬ ∀ (sha1 : String → Nat) (ring : Ring sha1) (nodes : NodeAddress → Option Chord)
      (request : Request), Stable ring nodes → request.identifier = hashString sha1 request.nodeAddress →
        (∀ x ∈ ring.members, hashString sha1 x ≠ request.identifier) → ∀ entry ∈ ring.members,
          ∃ fuel last, callJoin sha1 request fuel nodes entry = some last ∧
            last.1.isSuccessor = true := by
  intro always
  have stable := settled_stable fourNodes 1 (by decide)
  have ends := always knownSha1 fourNodes (settled fourNodes 1) joiner stable rfl (by decide +kernel)
    "localhost:1238" (by decide)
  rw [callJoin_ends_iff_meets stable (hashString_lt "localhost:1241") (by decide)] at ends
  obtain ⟨n, meets⟩ := ends
  have fixed : hop fourNodes joiner.identifier "localhost:1238" = "localhost:1238" := by decide +kernel
  have unlisted : fourNodes.successor joiner.identifier ≠ "localhost:1238" ∧
      fourNodes.successor joiner.identifier ∉
        (settledChord fourNodes 1 "localhost:1238").node.successors.toList := by
    decide +kernel
  rw [Function.iterate_fixed fixed] at meets
  rcases meets with owner | ⟨chord, found, listed⟩
  · exact unlisted.1 owner
  · exact unlisted.2 (Option.some.inj found ▸ listed)

end Tda596Labs.Chord
