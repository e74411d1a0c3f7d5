import Tda596Labs.Chord.WholeCalls
import Tda596Labs.Chord.Lookup

/-! # Fixing the fingers of a new node

`FixFingers` goes through the entries `0, …, keySize - 1` of a table that ends with entry `keySize`, so the
last finger of a new node stays what it was, the node itself.  Of the others, those that its successor can
resolve become right at the first visit.  A successor that cannot passes the question along to its own last
finger; where all nodes are in the first half circle after the new node, that is the new node, which takes
this for the answer.
-/

namespace Tda596Labs.Chord

open Tda596Labs.Circle

section Loop

variable {sha1 : String → Nat} {nodes : NodeAddress → Option Chord} {me query : NodeAddress}
  {chord target : Chord} {index identifier : Nat}

/-! ## The loop of resolveFinger -/

theorem goOn_fingerCall (found : nodes me = some chord) (asked : nodes query = some target) (left : Nat) :
    goOn sha1 me (2 * left + 2) (.fingerCall index identifier query left) nodes =
      match resolvedFinger chord index (findSuccessor sha1 target identifier), left with
      | (changed, some onward), left + 1 =>
        goOn sha1 me (2 * left + 2) (.fingerCall index identifier onward left)
          (Function.update nodes me (some changed))
      | (changed, _), _ => some (Function.update nodes me (some changed)) := by
  have unmoved : Function.update nodes query (some target) = nodes :=
    Function.update_eq_self_iff.mpr asked.symm
  have asks : goOn sha1 me (2 * left + 2) (.fingerCall index identifier query left) nodes =
      goOn sha1 me (2 * left + 1)
        (.fingerReply index identifier (findSuccessor sha1 target identifier) left) nodes := by
    simp [goOn, advance, Phase.awaits, asked, serve, unmoved]
  rw [asks, goOn]
  · simp only [advance, Phase.awaits, Phase.site, found, Option.bind_some, proceed]
    generalize resolvedFinger chord index (findSuccessor sha1 target identifier) = result
    obtain ⟨changed, onward⟩ := result
    cases onward <;> cases left <;> rfl
  · intro finished
    cases finished

/-- The answer is the successor. -/
theorem goOn_of_answer (found : nodes me = some chord) (asked : nodes query = some target) {owner : NodeAddress}
    {position : Nat} (answer : findSuccessor sha1 target identifier = ⟨true, owner, position⟩) (left : Nat) :
    goOn sha1 me (2 * left + 2) (.fingerCall index identifier query left) nodes =
      some (Function.update nodes me (some (chord.setFinger index owner))) := by
  simp [goOn_fingerCall found asked, answer, resolvedFinger]

/-- The question comes back to the node itself. -/
theorem goOn_of_return (found : nodes me = some chord) (named : chord.node.nodeAddress = me)
    (asked : nodes query = some target) {position : Nat}
    (answer : findSuccessor sha1 target identifier = ⟨false, me, position⟩) (left : Nat) :
    goOn sha1 me (2 * left + 2) (.fingerCall index identifier query left) nodes =
      some (Function.update nodes me (some (chord.setFinger index me))) := by
  simp [goOn_fingerCall found asked, answer, resolvedFinger, named]

/-- The question is passed along to another node. -/
theorem goOn_of_onward (found : nodes me = some chord) (named : chord.node.nodeAddress = me)
    (asked : nodes query = some target) {onward : NodeAddress} {position : Nat}
    (answer : findSuccessor sha1 target identifier = ⟨false, onward, position⟩) (other : onward ≠ me)
    (left : Nat) :
    goOn sha1 me (2 * left + 2) (.fingerCall index identifier query left) nodes =
      match left with
      | 0 => some nodes
      | left + 1 => goOn sha1 me (2 * left + 2) (.fingerCall index identifier onward left) nodes := by
  have kept : Function.update nodes me (some chord) = nodes := Function.update_eq_self_iff.mpr found.symm
  have passes : resolvedFinger chord index ⟨false, onward, position⟩ = (chord, some onward) := by
    simp [resolvedFinger, named, other]
  rw [goOn_fingerCall found asked, answer, passes]
  cases left with
  | zero => simp only [kept]
  | succ left => simp only [kept]

end Loop

/-! ## A new node in a stable ring -/

section Newcomer

variable {sha1 : String → Nat} {ring : Ring sha1} {m : NodeAddress} {nodes : NodeAddress → Option Chord}
  {chord : Chord}

/-- All nodes but `m` are as the ring prescribes. -/
structure Newcomer (ring : Ring sha1) (m : NodeAddress) (nodes : NodeAddress → Option Chord) : Prop where
  two : 2 ≤ ring.members.length
  noX : "X" ∉ ring.members
  member : m ∈ ring.members
  others : ∀ a ∈ ring.members, a ≠ m → ∃ chord, nodes a = some chord ∧ StableNode ring a chord

theorem Newcomer.next_ne (newcomer : Newcomer ring m nodes) : ring.next m ≠ m :=
  ring.next_ne newcomer.two newcomer.member

theorem Newcomer.update (newcomer : Newcomer ring m nodes) (chord : Chord) :
    Newcomer ring m (Function.update nodes m (some chord)) where
  two := newcomer.two
  noX := newcomer.noX
  member := newcomer.member
  others a inside other := by
    obtain ⟨chord', found, stable⟩ := newcomer.others a inside other
    exact ⟨chord', (Function.update_of_ne other _ _).trans found, stable⟩

theorem aware_update (nodes : NodeAddress → Option Chord) (chord : Chord) (target : NodeAddress)
    {x : NodeAddress} (other : x ≠ m) :
    Aware (Function.update nodes m (some chord)) target x ↔ Aware nodes target x := by
  rw [Aware, Aware, Function.update_of_ne other]

/-- The identifier of entry `n` of the finger table. -/
def entryId (sha1 : String → Nat) (m : NodeAddress) (n : Nat) : Nat :=
  if n = 0 then hashString sha1 m else jumpIdentifier (hashString sha1 m) n

theorem entryId_lt (sha1 : String → Nat) (m : NodeAddress) (n : Nat) : entryId sha1 m n < hashMod := by
  unfold entryId
  split
  · exact hashString_lt m
  · exact jumpIdentifier_lt _ _

theorem Newcomer.asks (newcomer : Newcomer ring m nodes) {query : NodeAddress} (inside : query ∈ ring.members)
    (other : query ≠ m) {key : Nat} (hkey : key < hashMod) :
    ∃ target, nodes query = some target ∧
      (Aware nodes (ring.successor key) query → findSuccessor sha1 target key =
        ⟨true, ring.successor key, hashString sha1 (ring.successor key)⟩) ∧
      (¬ Aware nodes (ring.successor key) query → ∃ position,
        findSuccessor sha1 target key = ⟨false, hop ring key query, position⟩) := by
  obtain ⟨target, asked, stable⟩ := newcomer.others query inside other
  exact ⟨target, asked, findSuccessor_spec newcomer.noX stable inside asked hkey⟩

/-- What the loop has done with the finger: what the node asked first answers is taken, and otherwise the
finger is left as it was, or at its owner, or at the node itself. -/
inductive Looped (ring : Ring sha1) (m : NodeAddress) (nodes : NodeAddress → Option Chord) (chord : Chord)
    (index key : Nat) (query : NodeAddress) : Chord → Prop where
  | answered (aware : Aware nodes (ring.successor key) query) :
      Looped ring m nodes chord index key query (chord.setFinger index (ring.successor key))
  | returned (unaware : ¬ Aware nodes (ring.successor key) query) (back : hop ring key query = m) :
      Looped ring m nodes chord index key query (chord.setFinger index m)
  | kept (unaware : ¬ Aware nodes (ring.successor key) query) (away : hop ring key query ≠ m) :
      Looped ring m nodes chord index key query chord
  | late (unaware : ¬ Aware nodes (ring.successor key) query) (away : hop ring key query ≠ m)
      {address : NodeAddress} (value : address = ring.successor key ∨ address = m) :
      Looped ring m nodes chord index key query (chord.setFinger index address)

theorem Looped.onward {index key : Nat} {query : NodeAddress} {changed : Chord}
    (looped : Looped ring m nodes chord index key (hop ring key query) changed)
    (unaware : ¬ Aware nodes (ring.successor key) query) (away : hop ring key query ≠ m) :
    Looped ring m nodes chord index key query changed := by
  cases looped with
  | answered => exact .late unaware away (.inl rfl)
  | returned => exact .late unaware away (.inr rfl)
  | kept => exact .kept unaware away
  | late _ _ value => exact .late unaware away value

/-- One turn: the loop ends with an answer, or the question goes on to another node while turns are left. -/
theorem Newcomer.turn (newcomer : Newcomer ring m nodes) (found : nodes m = some chord)
    (named : chord.node.nodeAddress = m) {key : Nat} (hkey : key < hashMod) (index left : Nat)
    {query : NodeAddress} (inside : query ∈ ring.members) (other : query ≠ m) :
    (∃ changed, goOn sha1 m (2 * left + 2) (.fingerCall index key query left) nodes =
        some (Function.update nodes m (some changed)) ∧
      Looped ring m nodes chord index key query changed) ∨
    (¬ Aware nodes (ring.successor key) query ∧ hop ring key query ≠ m ∧
      goOn sha1 m (2 * left + 2) (.fingerCall index key query left) nodes =
        match left with
        | 0 => some nodes
        | left + 1 => goOn sha1 m (2 * left + 2) (.fingerCall index key (hop ring key query) left) nodes) := by
  obtain ⟨target, asked, knows, passes⟩ := newcomer.asks inside other hkey
  by_cases aware : Aware nodes (ring.successor key) query
  · exact .inl ⟨_, goOn_of_answer found asked (knows aware) left, .answered aware⟩
  · obtain ⟨position, answer⟩ := passes aware
    by_cases back : hop ring key query = m
    · exact .inl ⟨_, goOn_of_return found named asked (back ▸ answer) left, .returned aware back⟩
    · exact .inr ⟨aware, back, goOn_of_onward found named asked answer back left⟩

/-- The loop ends. -/
theorem Newcomer.loop (newcomer : Newcomer ring m nodes) (found : nodes m = some chord)
    (named : chord.node.nodeAddress = m) {key : Nat} (hkey : key < hashMod) (index left : Nat)
    {query : NodeAddress} (inside : query ∈ ring.members) (other : query ≠ m) :
    ∃ changed, goOn sha1 m (2 * left + 2) (.fingerCall index key query left) nodes =
        some (Function.update nodes m (some changed)) ∧
      Looped ring m nodes chord index key query changed := by
  induction left generalizing query with
  | zero =>
    obtain ended | ⟨unaware, away, ends⟩ := newcomer.turn found named hkey index 0 inside other
    · exact ended
    · refine ⟨chord, ends.trans ?_, .kept unaware away⟩
      rw [Function.update_eq_self_iff.mpr found.symm]
  | succ left ih =>
    obtain ended | ⟨unaware, away, goesOn⟩ := newcomer.turn found named hkey index (left + 1) inside other
    · exact ended
    · obtain ⟨changed, ends, looped⟩ := ih (hop_mem ring key query) away
      exact ⟨changed, goesOn.trans ends, looped.onward unaware away⟩

/-! ## One call -/

/-- The fingers of the new node: each is at its owner or still at the node itself, the last one is still
at the node. -/
structure Resolves (ring : Ring sha1) (m : NodeAddress) (chord : Chord) : Prop extends Links ring m chord where
  entries : ∀ n ≤ keySize, (chord.node.fingerTable n).identifier = entryId sha1 m n
  held : ∀ n ≤ keySize, (chord.node.fingerTable n).nodeAddress = ring.successor (entryId sha1 m n) ∨
    (chord.node.fingerTable n).nodeAddress = m
  last : (chord.node.fingerTable keySize).nodeAddress = m

/-- A node with the fingers of `initClient`. -/
theorem resolves_of_initClient {extra : Nat} (links : Links ring m chord)
    (fresh : chord.node.fingerTable = (initClient (hashString sha1 m) m extra).node.fingerTable) :
    Resolves ring m chord where
  toLinks := links
  entries n _ := by rw [fresh]; rfl
  held n _ := by rw [fresh]; exact .inr rfl
  last := by rw [fresh]; rfl

theorem Resolves.setFinger (resolves : Resolves ring m chord) {index : Nat} (inTable : index < keySize)
    {address : NodeAddress} (value : address = ring.successor (entryId sha1 m index) ∨ address = m) :
    Resolves ring m (chord.setFinger index address) where
  nodeAddress := resolves.nodeAddress
  identifier := resolves.identifier
  predecessor := resolves.predecessor
  successors := resolves.successors
  entries n upper := by
    by_cases here : n = index
    · subst here
      simpa [Chord.setFinger] using resolves.entries n upper
    · simpa [Chord.setFinger, here] using resolves.entries n upper
  held n upper := by
    by_cases here : n = index
    · subst here
      simpa [Chord.setFinger] using value
    · simpa [Chord.setFinger, here] using resolves.held n upper
  last := by
    have other : keySize ≠ index := by omega
    simpa [Chord.setFinger, other] using resolves.last

/-- The entry that the next call is about. -/
def nextEntry (chord : Chord) : Nat := (chord.node.nextFinger + 1) % keySize

theorem nextEntry_lt (chord : Chord) : nextEntry chord < keySize := Nat.mod_lt _ (by decide)

/-- What a call has done when it asks its first question. -/
structure Begun (ring : Ring sha1) (m : NodeAddress) (chord pointed : Chord) (ask : NodeAddress) : Prop where
  resolves : Resolves ring m pointed
  nextFinger : pointed.node.nextFinger = nextEntry chord
  others : ∀ n, n ≠ nextEntry chord → pointed.node.fingerTable n = chord.node.fingerTable n
  /-- A finger at its owner asks the owner; one at the node itself asks the successor. -/
  asks : (ask = ring.successor (entryId sha1 m (nextEntry chord)) ∧ ask ≠ m ∧
      ((chord.node.fingerTable (nextEntry chord)).nodeAddress = ask ∨ ask = ring.next m)) ∨
    (ask = ring.next m ∧ (chord.node.fingerTable (nextEntry chord)).nodeAddress = m)

/-- The call has turned to the next entry. -/
def turned (chord : Chord) : Chord := { chord with node := { chord.node with nextFinger := nextEntry chord } }

/-- An entry before the successor has been set to it. -/
def pointed (sha1 : String → Nat) (chord : Chord) : Chord :=
  if chord.node.successors.first ≠ "X" ∧ between chord.node.identifier
      (chord.node.fingerTable (nextEntry chord)).identifier (hashString sha1 chord.node.successors.first) true then
    (turned chord).setFinger (nextEntry chord) chord.node.successors.first
  else turned chord

theorem fixFingers_eq (sha1 : String → Nat) (chord : Chord) :
    fixFingers sha1 chord =
      let held := ((pointed sha1 chord).node.fingerTable (nextEntry chord)).nodeAddress
      resolveFinger (pointed sha1 chord)
        (if chord.node.successors.first ≠ "X" ∧ held = chord.node.nodeAddress then
          chord.node.successors.first else held) (nextEntry chord) := rfl

theorem resolveFinger_of_other {ask : NodeAddress} (known : ask ≠ "X") (other : ask ≠ chord.node.nodeAddress)
    (index : Nat) : resolveFinger chord ask index = (chord, some ask) := by
  simp [resolveFinger, known, other]

theorem callFixFingers_of_fixFingers {changed : Chord} {ask : NodeAddress} {index : Nat}
    (fixed : fixFingers sha1 chord = (changed, some ask)) (nextFinger : changed.node.nextFinger = index) :
    callFixFingers sha1 chord =
      (changed, .fingerCall index (changed.node.fingerTable index).identifier ask 31) := by
  subst nextFinger
  rw [callFixFingers, fixed]

theorem Resolves.turned (resolves : Resolves ring m chord) : Resolves ring m (turned chord) where
  nodeAddress := resolves.nodeAddress
  identifier := resolves.identifier
  predecessor := resolves.predecessor
  successors := resolves.successors
  entries := resolves.entries
  held := resolves.held
  last := resolves.last

theorem Resolves.begins (newcomer : Newcomer ring m nodes) (resolves : Resolves ring m chord) :
    ∃ changed ask, Begun ring m chord changed ask ∧ callFixFingers sha1 chord =
      (changed, .fingerCall (nextEntry chord) (entryId sha1 m (nextEntry chord)) ask 31) := by
  have company := newcomer.next_ne
  have inTable := nextEntry_lt chord
  have entry := resolves.entries _ (Nat.le_of_lt inTable)
  have notX : ∀ a ∈ ring.members, a ≠ "X" := fun _ inside => ne_of_mem_of_not_mem inside newcomer.noX
  have test := between_next_iff (entryId_lt sha1 m (nextEntry chord)) newcomer.member company
  by_cases near : ring.successor (entryId sha1 m (nextEntry chord)) = ring.next m
  · -- the finger is set to the successor, and the successor is asked
    have points : pointed sha1 chord = (Chord.turned chord).setFinger (nextEntry chord) (ring.next m) := by
      rw [pointed, resolves.first, resolves.identifier, entry, if_pos ⟨notX _ ring.next_mem, test.mpr near⟩]
    have fixed : fixFingers sha1 chord =
        ((Chord.turned chord).setFinger (nextEntry chord) (ring.next m), some (ring.next m)) := by
      rw [fixFingers_eq, points]
      simp only [Chord.setFinger, Function.update_self, resolves.nodeAddress, company, and_false, if_false]
      exact resolveFinger_of_other (notX _ ring.next_mem) (resolves.nodeAddress.symm ▸ company) _
    refine ⟨_, ring.next m, ⟨resolves.turned.setFinger inTable (.inl near.symm), rfl, ?_,
      .inl ⟨near.symm, company, .inr rfl⟩⟩, ?_⟩
    · intro n other
      simp [Chord.setFinger, Chord.turned, other]
    · rw [callFixFingers_of_fixFingers fixed rfl]
      simp [Chord.setFinger, Chord.turned, entry]
  · have points : pointed sha1 chord = Chord.turned chord := by
      rw [pointed, resolves.first, resolves.identifier, entry, if_neg fun both => near (test.mp both.2)]
    have begun : ∀ ask ∈ ring.members, ask ≠ m →
        (if (chord.node.fingerTable (nextEntry chord)).nodeAddress = m then ring.next m
          else (chord.node.fingerTable (nextEntry chord)).nodeAddress) = ask →
        callFixFingers sha1 chord = (Chord.turned chord,
          .fingerCall (nextEntry chord) (entryId sha1 m (nextEntry chord)) ask 31) := by
      intro ask inside other asks
      have fixed : fixFingers sha1 chord = (Chord.turned chord, some ask) := by
        rw [fixFingers_eq, points]
        simp only [Chord.turned, resolves.nodeAddress, resolves.first, notX _ ring.next_mem, ne_eq,
          not_false_eq_true, true_and, asks]
        exact resolveFinger_of_other (notX ask inside) (resolves.nodeAddress.symm ▸ other) _
      rw [callFixFingers_of_fixFingers fixed rfl]
      exact congrArg (fun identifier => (Chord.turned chord, Phase.fingerCall _ identifier ask 31)) entry
    by_cases still : (chord.node.fingerTable (nextEntry chord)).nodeAddress = m
    · exact ⟨_, ring.next m, ⟨resolves.turned, rfl, fun _ _ => rfl, .inr ⟨rfl, still⟩⟩,
        begun _ ring.next_mem company (if_pos still)⟩
    · have owner := (resolves.held _ (Nat.le_of_lt inTable)).resolve_right still
      have other : ring.successor (entryId sha1 m (nextEntry chord)) ≠ m := owner ▸ still
      exact ⟨_, ring.successor (entryId sha1 m (nextEntry chord)),
        ⟨resolves.turned, rfl, fun _ _ => rfl, .inl ⟨rfl, other, .inl owner⟩⟩,
        begun _ ring.successor_mem other ((if_neg still).trans owner)⟩

theorem Begun.asks_other (newcomer : Newcomer ring m nodes) {begun : Chord} {ask : NodeAddress}
    (state : Begun ring m chord begun ask) : ask ∈ ring.members ∧ ask ≠ m := by
  obtain ⟨rfl, other, _⟩ | ⟨rfl, _⟩ := state.asks
  · exact ⟨ring.successor_mem, other⟩
  · exact ⟨ring.next_mem, newcomer.next_ne⟩

/-- A call ends, with what the loop does after the first steps. -/
theorem Resolves.call (newcomer : Newcomer ring m nodes) (found : nodes m = some chord)
    (resolves : Resolves ring m chord) :
    ∃ begun ask changed, Begun ring m chord begun ask ∧
      fixFingersOnce sha1 m nodes = some (Function.update nodes m (some changed)) ∧
      Looped ring m (Function.update nodes m (some begun)) begun (nextEntry chord)
        (entryId sha1 m (nextEntry chord)) ask changed := by
  obtain ⟨begun, ask, state, begins⟩ := resolves.begins newcomer
  obtain ⟨inside, other⟩ := state.asks_other newcomer
  obtain ⟨changed, ends, looped⟩ := (newcomer.update begun).loop (Function.update_self ..)
    state.resolves.nodeAddress (entryId_lt sha1 m _) (nextEntry chord) 31 inside other
  refine ⟨begun, ask, changed, state, ?_, looped⟩
  rw [fixFingersOnce, wholeCall, found, Option.bind_some, begins]
  simpa using ends

/-- The loop moves the one finger to its owner or to the node itself, if at all. -/
theorem Looped.resolves {begun changed : Chord} {index : Nat} {query : NodeAddress} (inTable : index < keySize)
    (looped : Looped ring m nodes begun index (entryId sha1 m index) query changed)
    (resolves : Resolves ring m begun) :
    Resolves ring m changed ∧ changed.node.nextFinger = begun.node.nextFinger ∧
      ∀ n, n ≠ index → changed.node.fingerTable n = begun.node.fingerTable n := by
  have set : ∀ address, (address = ring.successor (entryId sha1 m index) ∨ address = m) →
      Resolves ring m (begun.setFinger index address) ∧
        (begun.setFinger index address).node.nextFinger = begun.node.nextFinger ∧
        ∀ n, n ≠ index → (begun.setFinger index address).node.fingerTable n = begun.node.fingerTable n :=
    fun address value => ⟨resolves.setFinger inTable value, rfl, fun n other => by
      simp [Chord.setFinger, other]⟩
  cases looped with
  | answered => exact set _ (.inl rfl)
  | returned => exact set _ (.inr rfl)
  | kept => exact ⟨resolves, rfl, fun _ _ => rfl⟩
  | late _ _ value => exact set _ value

/-- What every call keeps holds after calls in a row. -/
theorem fixFingersTimes_invariant {P : Nat → Chord → Prop} (found : nodes m = some chord) (start : P 0 chord)
    (call : ∀ k middle, P k middle → ∃ changed,
      fixFingersOnce sha1 m (Function.update nodes m (some middle)) =
        some (Function.update nodes m (some changed)) ∧ P (k + 1) changed) (k : Nat) :
    ∃ changed, fixFingersTimes sha1 m k nodes = some (Function.update nodes m (some changed)) ∧
      P k changed := by
  induction k with
  | zero =>
    refine ⟨chord, ?_, start⟩
    rw [fixFingersTimes, Function.update_eq_self_iff.mpr found.symm]
  | succ k ih =>
    obtain ⟨middle, ran, before⟩ := ih
    obtain ⟨changed, called, after⟩ := call k middle before
    exact ⟨changed, by rw [fixFingersTimes, ran, Option.bind_some, called], after⟩

/-- Calls in a row end, and the last finger stays at the node itself. -/
theorem Resolves.calls (newcomer : Newcomer ring m nodes) (found : nodes m = some chord)
    (resolves : Resolves ring m chord) (k : Nat) :
    ∃ changed, fixFingersTimes sha1 m k nodes = some (Function.update nodes m (some changed)) ∧
      Resolves ring m changed := by
  refine fixFingersTimes_invariant (P := fun _ => Resolves ring m) found resolves (fun _ middle resolves => ?_) k
  obtain ⟨begun, ask, changed, state, called, looped⟩ :=
    resolves.call (newcomer.update middle) (Function.update_self ..)
  rw [Function.update_idem] at called
  exact ⟨changed, called, (looped.resolves (nextEntry_lt middle) state.resolves).1⟩

/-! ## Where the last finger is right -/

theorem successor_self (member : m ∈ ring.members) : ring.successor (hashString sha1 m) = m := by
  refine (ring.eq_successor (hashString_lt m) member fun z _ => ?_).symm
  simp

/-- The last finger is right at the node itself: all other nodes are in the first half circle. -/
theorem near_of_last (last : ring.successor (jumpIdentifier (hashString sha1 m) keySize) = m) {z : NodeAddress}
    (inside : z ∈ ring.members) : past sha1 (hashString sha1 m) z < halfway := by
  by_contra far
  have hkey : hashString sha1 m < hashMod := hashString_lt m
  have jump := cw_jump_key hkey
  have reaches := (ring.successor_of_le hkey (jumpIdentifier_lt (hashString sha1 m) keySize) inside
    (by rw [jump]; exact Nat.le_of_not_lt far)).1
  have positive := halfway_pos
  rw [jump, last, cw_self] at reaches
  omega

/-- The successor is short of the half circle, so its own last finger is the node. -/
theorem lastFinger_next (newcomer : Newcomer ring m nodes)
    (last : ring.successor (jumpIdentifier (hashString sha1 m) keySize) = m) :
    ring.successor (jumpIdentifier (hashString sha1 (ring.next m)) keySize) = m := by
  have hkey : hashString sha1 m < hashMod := hashString_lt m
  have short := near_of_last last (ring.next_mem (x := m))
  have jump : cw hashMod (hashString sha1 m) (jumpIdentifier (hashString sha1 (ring.next m)) keySize) =
      past sha1 (hashString sha1 m) (ring.next m) + halfway := by
    have double := hashMod_eq
    rw [past_jump hkey (Nat.le_refl _)]
    exact if_pos (by change _ + halfway < _; omega)
  rw [ring.successor_of_lt hkey (jumpIdentifier_lt _ _) fun z inside => ?_, successor_self newcomer.member]
  have shortZ : cw hashMod (hashString sha1 m) (hashString sha1 z) < halfway := near_of_last last inside
  rw [jump]
  omega

/-- What is met after the start again, from a point in the first half circle, is half a circle away. -/
theorem halfway_le_of_passed {length distance : Nat} (positive : 0 < length) (near : length ≤ halfway)
    (bound : distance < hashMod)
    (passed : ¬ cw hashMod length distance ≤ cw hashMod length 0) : halfway ≤ cw hashMod length distance := by
  have double := hashMod_eq
  simp only [cw_eq] at passed ⊢
  split at passed <;> split at passed <;> split <;> omega

/-- Then a successor that does not know the owner of an entry passes the question back to the node. -/
theorem hop_back (newcomer : Newcomer ring m nodes)
    (last : ring.successor (jumpIdentifier (hashString sha1 m) keySize) = m) {n : Nat} (positive : 1 ≤ n)
    (upper : n < keySize) (other : ring.successor (entryId sha1 m n) ≠ ring.next m) :
    hop ring (entryId sha1 m n) (ring.next m) = m := by
  have hkey : hashString sha1 m < hashMod := hashString_lt m
  have hentry := entryId_lt sha1 m n
  have isEntry : entryId sha1 m n = jumpIdentifier (hashString sha1 m) n := if_neg (by omega)
  have double := hashMod_eq
  have bound := two_pow_le_halfway (Nat.le_of_lt upper)
  -- distances from the node, and from the entry
  have jump : cw hashMod (hashString sha1 m) (entryId sha1 m n) = 2 ^ (n - 1) := by
    have start : past sha1 (hashString sha1 m) m = 0 := cw_self
    rw [isEntry, past_jump hkey (Nat.le_of_lt upper), start, Nat.zero_add]
    exact if_pos (by have := halfway_pos; omega)
  have fromEntry : ∀ x, past sha1 (entryId sha1 m n) x =
      cw hashMod (2 ^ (n - 1)) (past sha1 (hashString sha1 m) x) := by
    intro x
    rw [← jump]
    exact (cw_cw hentry (hashString_lt x) hkey).symm
  have notCloser : ¬ past sha1 (entryId sha1 m n) (ring.next m) ≤ past sha1 (entryId sha1 m n) m := by
    rw [← between_hash_iff hentry, between_next_iff hentry newcomer.member newcomer.next_ne]
    exact other
  have start : past sha1 (hashString sha1 m) m = 0 := cw_self
  rw [fromEntry, fromEntry, start] at notCloser
  have high : halfway ≤ past sha1 (entryId sha1 m n) (ring.next m) := by
    rw [fromEntry]
    exact halfway_le_of_passed (Nat.two_pow_pos _) bound (past_lt sha1 hkey _) notCloser
  rw [hop, if_pos high, lastFinger_next newcomer last]

/-- What a visit of entry `n` sets its finger to. -/
def Visited (ring : Ring sha1) (nodes : NodeAddress → Option Chord) (m : NodeAddress) (n : Nat)
    (address : NodeAddress) : Prop :=
  (Aware nodes (ring.successor (entryId sha1 m n)) (ring.next m) ∧
    address = ring.successor (entryId sha1 m n)) ∨
  (¬ Aware nodes (ring.successor (entryId sha1 m n)) (ring.next m) ∧ address = m)

/-- A call visits its entry. -/
theorem Looped.visited (newcomer : Newcomer ring m nodes)
    (last : ring.successor (jumpIdentifier (hashString sha1 m) keySize) = m) {begun changed : Chord}
    {ask : NodeAddress} (state : Begun ring m chord begun ask)
    (looped : Looped ring m (Function.update nodes m (some begun)) begun (nextEntry chord)
      (entryId sha1 m (nextEntry chord)) ask changed) (positive : 1 ≤ nextEntry chord)
    (before : Visited ring nodes m (nextEntry chord) (chord.node.fingerTable (nextEntry chord)).nodeAddress ∨
      (chord.node.fingerTable (nextEntry chord)).nodeAddress = m) :
    Visited ring nodes m (nextEntry chord) (changed.node.fingerTable (nextEntry chord)).nodeAddress := by
  obtain ⟨rfl, other, holds⟩ | ⟨rfl, still⟩ := state.asks
  · -- the owner is asked, and knows
    have knows : Aware nodes (ring.successor (entryId sha1 m (nextEntry chord))) (ring.next m) := by
      obtain held | isNext := holds
      · obtain ⟨aware, _⟩ | ⟨_, atM⟩ := before.resolve_right (held ▸ other)
        · exact aware
        · exact absurd (held.symm.trans atM) other
      · exact .inl isNext
    cases looped with
    | answered => exact .inl ⟨knows, by simp [Chord.setFinger]⟩
    | returned unaware | kept unaware | late unaware => exact absurd (.inl rfl) unaware
  · have same := aware_update nodes begun (ring.successor (entryId sha1 m (nextEntry chord))) newcomer.next_ne
    have back : ¬ Aware nodes (ring.successor (entryId sha1 m (nextEntry chord))) (ring.next m) →
        hop ring (entryId sha1 m (nextEntry chord)) (ring.next m) = m := fun unaware =>
      hop_back newcomer last positive (nextEntry_lt chord) fun isNext => unaware (.inl isNext)
    cases looped with
    | answered aware => exact .inl ⟨same.mp aware, by simp [Chord.setFinger]⟩
    | returned unaware _ => exact .inr ⟨fun aware => unaware (same.mpr aware), by simp [Chord.setFinger]⟩
    | kept unaware away | late unaware away =>
      exact absurd (back fun aware => unaware (same.mpr aware)) away

/-- After `k` calls an entry has been visited, or its turn has not come. -/
structure Visits (ring : Ring sha1) (nodes : NodeAddress → Option Chord) (m : NodeAddress) (start k : Nat)
    (chord : Chord) : Prop where
  resolves : Resolves ring m chord
  nextFinger : chord.node.nextFinger % keySize = (start + k) % keySize
  entries : ∀ n, 1 ≤ n → n < keySize → Visited ring nodes m n (chord.node.fingerTable n).nodeAddress ∨
    ((chord.node.fingerTable n).nodeAddress = m ∧ ∀ j < k, (start + j + 1) % keySize ≠ n)

theorem Visits.nextEntry {start k : Nat} (visits : Visits ring nodes m start k chord) :
    nextEntry chord = (start + k + 1) % keySize := by
  have place := visits.nextFinger
  unfold Chord.nextEntry
  rw [Nat.add_mod, place, ← Nat.add_mod]

theorem Visits.calls (newcomer : Newcomer ring m nodes) (found : nodes m = some chord)
    (last : ring.successor (jumpIdentifier (hashString sha1 m) keySize) = m)
    (start : Visits ring nodes m chord.node.nextFinger 0 chord) (k : Nat) :
    ∃ changed, fixFingersTimes sha1 m k nodes = some (Function.update nodes m (some changed)) ∧
      Visits ring nodes m chord.node.nextFinger k changed := by
  refine fixFingersTimes_invariant found start (fun k middle visits => ?_) k
  have place := visits.nextEntry
  obtain ⟨begun, ask, changed, state, called, looped⟩ :=
    visits.resolves.call (newcomer.update middle) (Function.update_self ..)
  rw [Function.update_idem] at called looped
  obtain ⟨resolves, turned, others⟩ := looped.resolves (nextEntry_lt middle) state.resolves
  refine ⟨changed, called, resolves, ?_, fun n positive upper => ?_⟩
  · rw [turned, state.nextFinger, place, Nat.mod_mod]
    rfl
  · by_cases here : n = Chord.nextEntry middle
    · subst here
      refine .inl (looped.visited newcomer last state positive ?_)
      exact (visits.entries _ positive upper).imp_right And.left
    · -- another entry: its finger has not moved, and its turn has not come
      rw [others n here, state.others n here]
      refine (visits.entries n positive upper).imp_right fun ⟨atM, before⟩ => ⟨atM, fun j earlier => ?_⟩
      obtain rfl | earlier := Nat.lt_succ_iff_lt_or_eq.mp earlier |>.symm
      · exact fun same => here (same.symm.trans place.symm)
      · exact before j earlier

/-- After as many calls as there are entries in the cycle, all of them have been visited. -/
theorem Visits.all {start k : Nat} (visits : Visits ring nodes m start k chord) (enough : keySize ≤ k) {n : Nat}
    (positive : 1 ≤ n) (upper : n < keySize) :
    Visited ring nodes m n (chord.node.fingerTable n).nodeAddress := by
  obtain visited | ⟨_, never⟩ := visits.entries n positive upper
  · exact visited
  · have turn : ∃ j < keySize, (start + j + 1) % keySize = n := by
      refine ⟨(n + keySize - (start + 1) % keySize) % keySize, Nat.mod_lt _ (by decide), ?_⟩
      unfold keySize at *
      omega
    obtain ⟨j, within, isTurn⟩ := turn
    exact absurd isTurn (never j (by omega))

/-- The finger table is as it should be. -/
def FingersRight (ring : Ring sha1) (chord : Chord) : Prop :=
  ∀ n, 1 ≤ n → n ≤ keySize → (chord.node.fingerTable n).nodeAddress =
    ring.successor (chord.node.fingerTable n).identifier

theorem Resolves.right_iff (resolves : Resolves ring m chord) :
    FingersRight ring chord ↔ ∀ n, 1 ≤ n → n ≤ keySize → (chord.node.fingerTable n).nodeAddress =
      ring.successor (jumpIdentifier (hashString sha1 m) n) := by
  refine forall_congr' fun n => forall_congr' fun positive => forall_congr' fun upper => ?_
  rw [resolves.entries n upper, entryId, if_neg (by omega)]

theorem visited_iff {n : Nat} (positive : 1 ≤ n) {address : NodeAddress}
    (visited : Visited ring nodes m n address) :
    address = ring.successor (jumpIdentifier (hashString sha1 m) n) ↔
      (ring.successor (jumpIdentifier (hashString sha1 m) n) = m ∨
        Aware nodes (ring.successor (jumpIdentifier (hashString sha1 m) n)) (ring.next m)) := by
  rw [Visited, entryId, if_neg (by omega)] at visited
  obtain ⟨aware, rfl⟩ | ⟨unaware, rfl⟩ := visited
  · simp [aware]
  · simp [unaware, eq_comm]

/-- The last finger is never touched. -/
theorem Resolves.last_of_right (newcomer : Newcomer ring m nodes) (found : nodes m = some chord)
    (resolves : Resolves ring m chord) {k : Nat} {after : NodeAddress → Option Chord} {changed : Chord}
    (ran : fixFingersTimes sha1 m k nodes = some after) (found' : after m = some changed)
    (right : FingersRight ring changed) :
    ring.successor (jumpIdentifier (hashString sha1 m) keySize) = m := by
  obtain ⟨same, ran', resolves⟩ := resolves.calls newcomer found k
  obtain rfl := Option.some.inj (ran'.symm.trans ran)
  obtain rfl : same = changed := by simpa using found'
  rw [← resolves.right_iff.mp right keySize (by decide) (Nat.le_refl _), resolves.last]

/-- `FixFingers` at a new node makes all its fingers right for good if and only if its last finger is to be
the node itself, and every other finger is, too, or is known to its successor. -/
theorem fingers_converge_iff (newcomer : Newcomer ring m nodes) (found : nodes m = some chord)
    (links : Links ring m chord) (extra : Nat)
    (fresh : chord.node.fingerTable = (initClient (hashString sha1 m) m extra).node.fingerTable) :
    (∃ k, ∀ k', k ≤ k' → ∃ after changed, fixFingersTimes sha1 m k' nodes = some after ∧
      after m = some changed ∧ FingersRight ring changed) ↔
    (ring.successor (jumpIdentifier (hashString sha1 m) keySize) = m ∧
      ∀ n, 1 ≤ n → n < keySize → ring.successor (jumpIdentifier (hashString sha1 m) n) = m ∨
        Aware nodes (ring.successor (jumpIdentifier (hashString sha1 m) n)) (ring.next m)) := by
  have resolves := resolves_of_initClient links fresh
  have start : Visits ring nodes m chord.node.nextFinger 0 chord := by
    refine ⟨resolves, rfl, fun n _ _ => .inr ⟨?_, nofun⟩⟩
    rw [fresh]
    rfl
  constructor
  · rintro ⟨k, right⟩
    have last : ring.successor (jumpIdentifier (hashString sha1 m) keySize) = m := by
      obtain ⟨_, _, ran, found', isRight⟩ := right k (Nat.le_refl k)
      exact resolves.last_of_right newcomer found ran found' isRight
    refine ⟨last, fun n positive upper => ?_⟩
    obtain ⟨changed, ran, visits⟩ := start.calls newcomer found last (k + keySize)
    obtain ⟨_, same, ran', found', isRight⟩ := right (k + keySize) (Nat.le_add_right ..)
    obtain rfl := Option.some.inj (ran.symm.trans ran')
    obtain rfl : changed = same := by simpa using found'
    exact (visited_iff positive (visits.all (Nat.le_add_left ..) positive upper)).mp
      (visits.resolves.right_iff.mp isRight n positive (Nat.le_of_lt upper))
  · rintro ⟨last, known⟩
    refine ⟨keySize, fun k enough => ?_⟩
    obtain ⟨changed, ran, visits⟩ := start.calls newcomer found last k
    refine ⟨_, changed, ran, Function.update_self .., visits.resolves.right_iff.mpr ?_⟩
    intro n positive upper
    obtain rfl | upper := Nat.eq_or_lt_of_le upper
    · rw [visits.resolves.last, last]
    · exact (visited_iff positive (visits.all enough positive upper)).mpr (known n positive upper)

end Newcomer

/-- A node of the ring of two with the right neighbours and the fingers it started with. -/
def newNode (address : NodeAddress) : Chord :=
  let chord := settledChord twoPorts 0 address
  { chord with node := { chord.node with
      fingerTable := (initClient (hashString knownSha1 address) address 0).node.fingerTable } }

def withNewNode (address : NodeAddress) : NodeAddress → Option Chord :=
  Function.update (settled twoPorts 0) address (some (newNode address))

theorem newNode_links (address : NodeAddress) : Links twoPorts address (newNode address) :=
  ⟨rfl, rfl, rfl, ⟨0, rfl⟩⟩

theorem newNode_newcomer {address : NodeAddress} (member : address ∈ twoPorts.members) :
    Newcomer twoPorts address (withNewNode address) where
  two := by decide
  noX := by decide
  member := member
  others a inside other := by
    obtain ⟨chord, found, stable⟩ := (settled_stable twoPorts 0 (by decide)).stableNode a inside
    exact ⟨chord, (Function.update_of_ne other _ _).trans found, stable⟩

/-- `localhost:1235` is in the first half circle after `localhost:1234`. -/
theorem fingers_converge_at_1234 :
    ∃ k, ∀ k', k ≤ k' → ∃ after changed,
      fixFingersTimes knownSha1 "localhost:1234" k' (withNewNode "localhost:1234") = some after ∧
        after "localhost:1234" = some changed ∧ FingersRight twoPorts changed := by
  refine (fingers_converge_iff (newNode_newcomer (by decide)) (Function.update_self ..)
    (newNode_links "localhost:1234") 0 rfl).mpr ⟨by decide +kernel, fun n _ _ => ?_⟩
  have next : twoPorts.next "localhost:1234" = "localhost:1235" := by decide +kernel
  have two : ∀ a ∈ twoPorts.members, a = "localhost:1234" ∨ a = "localhost:1235" := by decide
  rw [next]
  exact (two _ twoPorts.successor_mem).imp_right .inl

/-- `localhost:1234` is not in the first half circle after `localhost:1235`, whose last finger stays wrong. -/
theorem last_finger_never_fixed :
    ¬ ∀ (sha1 : String → Nat) (ring : Ring sha1) (m : NodeAddress) (nodes : NodeAddress → Option Chord)
      (chord : Chord) (extra : Nat), Newcomer ring m nodes → nodes m = some chord → Links ring m chord →
      chord.node.fingerTable = (initClient (hashString sha1 m) m extra).node.fingerTable →
      ∃ k, ∀ k', k ≤ k' → ∃ after changed, fixFingersTimes sha1 m k' nodes = some after ∧
        after m = some changed ∧ FingersRight ring changed := by
  intro always
  have newcomer := newNode_newcomer (by decide : "localhost:1235" ∈ twoPorts.members)
  have found : withNewNode "localhost:1235" "localhost:1235" = some (newNode "localhost:1235") :=
    Function.update_self ..
  have links := newNode_links "localhost:1235"
  have resolves : Resolves twoPorts "localhost:1235" (newNode "localhost:1235") :=
    ⟨links, fun _ _ => rfl, fun _ _ => .inr rfl, rfl⟩
  obtain ⟨k, right⟩ := always knownSha1 twoPorts "localhost:1235" _ _ 0 newcomer found links rfl
  obtain ⟨after, changed, ran, found', isRight⟩ := right k (Nat.le_refl k)
  have last := resolves.last_of_right newcomer found ran found' isRight
  revert last
  decide +kernel

end Tda596Labs.Chord
