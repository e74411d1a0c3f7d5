import Tda596Labs.Chord.CheckPred
import Tda596Labs.Chord.DeadSuccessor
import Tda596Labs.Chord.Stability

/-! # A ring with gaps

When some nodes of a settled ring have stopped, every list of successors still leads to the next node that is
running, over entries of nodes that have stopped.  However the ticks of the nodes that are left interleave,
this stays so (`Recovering.step`): no tick drops a running successor, since `CallStabilize` reads and writes
the list in one tick and a node has one ticker; and a `Notify` is only ever sent to a node that has stopped,
where it is lost.
-/

namespace Tda596Labs.Chord

open Transition

section Node

variable {sha1 : String → Nat} (rest : Ring sha1)

/-- The list leads to the next node that is left, over at most `n` entries of nodes that have stopped. -/
def Leads (a : NodeAddress) (n : Nat) (list : List NodeAddress) : Prop :=
  ∃ gone later, list = gone ++ rest.next a :: later ∧ gone.length ≤ n ∧
    ∀ b ∈ gone, b ≠ "X" ∧ b ∉ rest.members

/-- The pointers of node `a` lead round the ring that is left, or are known to have stopped. -/
structure Mending (a : NodeAddress) (chord : Chord) : Prop where
  nodeAddress : chord.node.nodeAddress = a
  leads : ∃ n, Leads rest a n chord.node.successors.toList
  predecessor : chord.node.predecessor ∈ rest.members → chord.node.predecessor = rest.previous a

/-- `CallStabilize` is under way. -/
def Phase.stabilizes : Phase → Bool
  | .stabilizeCall _ _ | .stabilizeFailed | .stabilizeReply _ => true
  | _ => false

/-- The last step of the tick that checks the predecessor. -/
def Phase.forgets : Phase → Bool
  | .checked false | .takeOver [] => true
  | _ => false

/-- The points that goroutines of node `a` reach when its first successor is `first`. -/
def Phase.Mends (a first : NodeAddress) : Phase → Prop
  | .stabilizeCall request succ => request.nodeAddress = a ∧ succ = first
  | .stabilizeFailed => first ∉ rest.members
  | .stabilizeReply response =>
    first ∈ rest.members ∧ (response.youGood = false → response.newPredAddress ∉ rest.members)
  | .notify target | .notifyCall _ target => target ∉ rest.members
  | .notifyReply _ _ | .join _ | .joinCall _ _ | .joinReply _ => False
  | _ => True

/-- What a step does to the neighbours of node `a`. -/
structure Relinks (a : NodeAddress) (mayForget : Prop) (before after : Chord) : Prop where
  nodeAddress : after.node.nodeAddress = before.node.nodeAddress
  leads : ∀ n, Leads rest a n before.node.successors.toList → Leads rest a n after.node.successors.toList
  predecessor : after.node.predecessor = before.node.predecessor ∨
    (before.node.predecessor = "X" ∧ after.node.predecessor = rest.previous a) ∨
    (after.node.predecessor = "X" ∧ mayForget)

variable {rest} {a first : NodeAddress} {others : List NodeAddress} {n : Nat} {chord changed : Chord}
  {phase next : Phase} {mayForget : Prop}

/-! ## Lists that lead to the next node -/

theorem Leads.mono {m : Nat} {list : List NodeAddress} (leads : Leads rest a n list) (more : n ≤ m) :
    Leads rest a m list := by
  obtain ⟨gone, later, split, few, stopped⟩ := leads
  exact ⟨gone, later, split, few.trans more, stopped⟩

theorem leads_of_first (isNext : first = rest.next a) : Leads rest a n (first :: others) :=
  ⟨[], others, by rw [isNext]; rfl, Nat.zero_le n, fun b listed => by cases listed⟩

theorem Leads.cases (leads : Leads rest a n (first :: others)) :
    first = rest.next a ∨ ∃ m, n = m + 1 ∧ first ≠ "X" ∧ first ∉ rest.members ∧ Leads rest a m others := by
  obtain ⟨gone, later, split, few, stopped⟩ := leads
  cases gone with
  | nil => exact .inl (List.cons.inj split).1
  | cons b gone =>
    obtain ⟨rfl, rfl⟩ := List.cons.inj split
    obtain ⟨here, stopped⟩ := List.forall_mem_cons.mp stopped
    rw [List.length_cons] at few
    exact .inr ⟨n - 1, by omega, here.1, here.2, gone, later, rfl, by omega, stopped⟩

theorem Leads.first_ne_X (leads : Leads rest a n (first :: others)) (noX : "X" ∉ rest.members) :
    first ≠ "X" := by
  rcases leads.cases with isNext | ⟨m, _, notX, _⟩
  · rw [isNext]
    exact ne_of_mem_of_not_mem rest.next_mem noX
  · exact notX

theorem Leads.eq_next (leads : Leads rest a n (first :: others)) (running : first ∈ rest.members) :
    first = rest.next a := by
  rcases leads.cases with isNext | ⟨m, _, _, stopped, _⟩
  · exact isNext
  · exact absurd running stopped

theorem Leads.first_eq_next (leads : Leads rest a 0 (first :: others)) : first = rest.next a := by
  rcases leads.cases with isNext | ⟨m, impossible, _⟩
  · exact isNext
  · cases impossible

/-- A successor that has stopped is dropped, and the list still leads to the next node, over fewer. -/
theorem Leads.dropHead (leads : Leads rest a n (first :: others)) (stopped : first ∉ rest.members) :
    ∃ m, n = m + 1 ∧ Leads rest a m (dropHead (first :: others)) := by
  rcases leads.cases with isNext | ⟨m, rfl, _, _, gone, later, rfl, few, allGone⟩
  · exact absurd (isNext ▸ rest.next_mem) stopped
  · have other : rest.next a ≠ first := ne_of_mem_of_not_mem rest.next_mem stopped
    have split : without first (gone ++ rest.next a :: later) =
        without first gone ++ rest.next a :: without first later := by
      simp [without, other]
    rw [Chord.dropHead, split, List.append_assoc, List.cons_append]
    exact ⟨m, rfl, without first gone, _, rfl, (length_without_le first gone).trans few,
      fun b listed => allGone b (List.mem_filter.mp listed).1⟩

/-! ## One node -/

theorem KeepsLinks.relinks (keeps : KeepsLinks chord changed) : Relinks rest a mayForget chord changed where
  nodeAddress := keeps.nodeAddress
  leads n leads := by rwa [keeps.successors]
  predecessor := .inl keeps.predecessor

theorem Relinks.mono {alsoForget : Prop} (relinks : Relinks rest a mayForget chord changed)
    (weaker : mayForget → alsoForget) : Relinks rest a alsoForget chord changed :=
  ⟨relinks.nodeAddress, relinks.leads, relinks.predecessor.imp_right (Or.imp_right (And.imp_right weaker))⟩

theorem Mending.of_relinks (mending : Mending rest a chord) (relinks : Relinks rest a mayForget chord changed)
    (noX : "X" ∉ rest.members) : Mending rest a changed where
  nodeAddress := relinks.nodeAddress.trans mending.nodeAddress
  leads := by
    obtain ⟨n, leads⟩ := mending.leads
    exact ⟨n, relinks.leads n leads⟩
  predecessor inside := by
    rcases relinks.predecessor with same | ⟨_, learned⟩ | ⟨isX, _⟩
    · rw [same] at inside ⊢
      exact mending.predecessor inside
    · exact learned
    · exact absurd (isX ▸ inside) noX

theorem Mending.first_eq_next (mending : Mending rest a chord)
    (running : chord.node.successors.first ∈ rest.members) :
    chord.node.successors.first = rest.next a := by
  obtain ⟨n, leads⟩ := mending.leads
  exact leads.eq_next running

/-- Only `CallStabilize` depends on the first successor. -/
theorem Phase.Mends.of_not_stabilizes {second : NodeAddress} (mends : phase.Mends rest a first)
    (other : phase.stabilizes = false) : phase.Mends rest a second := by
  cases phase with
  | stabilizeCall | stabilizeFailed | stabilizeReply => cases other
  | _ => exact mends

theorem handedOff_mends (progress : HandOff) : (handedOff progress).stabilizes = false ∧
    (handedOff progress).Mends rest a first := by
  cases progress <;> exact ⟨rfl, trivial⟩

theorem storeResolved_mends (request : StoreFileRequest) (back : Return) (resolving : Resolving) :
    (storeResolved request back resolving).Mends rest a first := by
  cases resolving <;> trivial

theorem storeResolved_stabilizes (request : StoreFileRequest) (back : Return) (resolving : Resolving) :
    (storeResolved request back resolving).stabilizes = false := by
  cases resolving <;> rfl

theorem lookupResolved_mends (request : RetreiveFileRequest) (resolving : Resolving) :
    (lookupResolved request resolving).Mends rest a first := by
  cases resolving <;> trivial

theorem lookupResolved_stabilizes (request : RetreiveFileRequest) (resolving : Resolving) :
    (lookupResolved request resolving).stabilizes = false := by
  cases resolving <;> rfl

/-- `clearDeadSucc` keeps to the way to the next node when the first successor has stopped. -/
theorem clearDeadSucc_relinks (stopped : chord.node.successors.first ∉ rest.members) :
    Relinks rest a mayForget chord chord.clearDeadSucc where
  nodeAddress := (clearDeadSucc_keeps chord).nodeAddress
  leads n leads := by
    rw [clearDeadSucc_toList]
    obtain ⟨m, rfl, shorter⟩ := leads.dropHead stopped
    exact shorter.mono (Nat.le_succ m)
  predecessor := .inl (clearDeadSucc_predecessor chord)

theorem verifySuccs_relinks {list : List NodeAddress} (running : chord.node.successors.first ∈ rest.members)
    (verifies : chord.verifySuccs list = some changed) : Relinks rest a mayForget chord changed := by
  obtain ⟨keeps, predecessor, first⟩ := verifySuccs_keeps verifies
  refine ⟨keeps.nodeAddress, fun n leads => leads_of_first ?_, .inl predecessor⟩
  exact first.trans (leads.eq_next running)

theorem Proceeds.mends {disk : Disk} {spawned : List Phase}
    (proceeds : Proceeds sha1 disk chord phase changed next spawned)
    (mends : phase.Mends rest a chord.node.successors.first) :
    Relinks rest (phase.site a) (phase.forgets = true) chord changed ∧
      (phase.stabilizes = false → changed.node.successors = chord.node.successors) ∧
      ∀ p ∈ next :: spawned, p.stabilizes = false ∧ p.Mends rest a chord.node.successors.first := by
  have only : ∀ {p : Phase}, (p.stabilizes = false ∧ p.Mends rest a chord.node.successors.first) →
      ∀ q ∈ [p], q.stabilizes = false ∧ q.Mends rest a chord.node.successors.first :=
    fun fine q listed => List.mem_singleton.mp listed ▸ fine
  have kept : chord.node = changed.node → Relinks rest (phase.site a) (phase.forgets = true) chord changed ∧
      (phase.stabilizes = false → changed.node.successors = chord.node.successors) :=
    fun same => ⟨(KeepsLinks.of_node same.symm).relinks, fun _ => by rw [same]⟩
  have ringKept : KeepsRing chord changed → Relinks rest (phase.site a) (phase.forgets = true) chord changed ∧
      (phase.stabilizes = false → changed.node.successors = chord.node.successors) :=
    fun keeps => ⟨keeps.keepsLinks.relinks, fun _ => keeps.successors⟩
  cases proceeds with
  | drops => exact ⟨clearDeadSucc_relinks mends, nofun, only ⟨rfl, trivial⟩⟩
  | verified _ verifies => exact ⟨verifySuccs_relinks mends.1 verifies, nofun, only ⟨rfl, trivial⟩⟩
  | replaced bad =>
    refine ⟨(kept rfl).1, nofun, List.forall_mem_cons.mpr ⟨⟨rfl, trivial⟩, only ⟨rfl, mends.2 bad⟩⟩⟩
  | incoherent => exact ⟨(kept rfl).1, nofun, only ⟨rfl, trivial⟩⟩
  | notify => exact ⟨(kept rfl).1, (kept rfl).2, only ⟨rfl, mends⟩⟩
  | unfingered index =>
    have keeps := ringKept (setFinger_keeps chord index _)
    exact ⟨keeps.1, keeps.2, only ⟨rfl, trivial⟩⟩
  | fingered onward =>
    have keeps := ringKept (resolvedFinger_keeps chord _ _)
    refine ⟨keeps.1, keeps.2, only ?_⟩
    obtain rfl | ⟨query, rest, rfl⟩ := onward <;> exact ⟨rfl, trivial⟩
  | handsOff =>
    have keeps := kept (reassignToPred_spec sha1 disk chord).node.symm
    exact ⟨keeps.1, keeps.2, only (handedOff_mends _)⟩
  | handsOn rest keepFiles =>
    have keeps := kept (handOff_spec sha1 disk chord rest keepFiles).node.symm
    exact ⟨keeps.1, keeps.2, only (handedOff_mends _)⟩
  | resolves => exact ⟨(kept rfl).1, (kept rfl).2, only ⟨storeResolved_stabilizes _ _ _, storeResolved_mends _ _ _⟩⟩
  | forgets => exact ⟨⟨rfl, fun _ leads => leads, .inr (.inr ⟨rfl, rfl⟩)⟩, fun _ => rfl, only ⟨rfl, trivial⟩⟩
  | takenOver => exact ⟨⟨rfl, fun _ leads => leads, .inr (.inr ⟨rfl, rfl⟩)⟩, fun _ => rfl, only ⟨rfl, trivial⟩⟩
  | moves onward =>
    have keeps := kept (takeOverEntry_spec sha1 disk chord _).1.symm
    refine ⟨keeps.1, keeps.2, only ?_⟩
    obtain rfl | ⟨request, succ, rfl, _⟩ := onward <;> exact ⟨rfl, trivial⟩
  | rereads | begins | commandDone | uncopied | copies | returns | answered =>
    exact ⟨(kept rfl).1, (kept rfl).2, only ⟨rfl, trivial⟩⟩
  | _ => exact mends.elim

/-- The next node takes the asking node for its predecessor if it has none; if it has another one, that one has
stopped. -/
theorem stabilized_mends {request : Request} {target : NodeAddress} (member : a ∈ rest.members)
    (isNext : target = rest.next a) (mending : Mending rest target chord) (named : request.nodeAddress = a) :
    Relinks rest target False chord (stabilized chord request).1 ∧
      ((stabilized chord request).2.youGood = false →
        (stabilized chord request).2.newPredAddress ∉ rest.members) := by
  have previous : rest.previous target = a := by rw [isNext, rest.previous_next member]
  unfold stabilized
  split
  · next unknown =>
    exact ⟨⟨rfl, fun _ leads => leads, .inr (.inl ⟨unknown, by rw [previous, ← named]; rfl⟩)⟩, nofun⟩
  · split
    · exact ⟨(KeepsLinks.of_node rfl).relinks, nofun⟩
    · next other =>
      refine ⟨(KeepsLinks.of_node rfl).relinks, fun _ inside => other ?_⟩
      rw [mending.predecessor inside, previous, named]

theorem Serves.mends {disk : Disk} {target : NodeAddress}
    (serves : Serves sha1 disk a chord phase changed next) (asks : phase.awaits = some target)
    (running : target ∈ rest.members) (member : a ∈ rest.members) (mending : Mending rest target chord)
    (mends : phase.Mends rest a first) (leads : first ∈ rest.members → first = rest.next a) :
    Relinks rest target False chord changed ∧ changed.node.successors = chord.node.successors ∧
      next.Mends rest a first ∧ (next.stabilizes = true → phase.stabilizes = true) := by
  have kept : chord.node = changed.node → Relinks rest target False chord changed ∧
      changed.node.successors = chord.node.successors :=
    fun same => ⟨(KeepsLinks.of_node same.symm).relinks, by rw [same]⟩
  cases serves with
  | notify request asked =>
    obtain rfl := Option.some.inj asks
    exact absurd running mends
  | join => exact mends.elim
  | stabilize request succ =>
    obtain ⟨named, rfl⟩ := mends
    obtain rfl := Option.some.inj asks
    obtain ⟨relinks, bad⟩ := stabilized_mends member (leads running) mending named
    exact ⟨relinks, (stabilized_keeps chord request).2, ⟨running, bad⟩, fun _ => rfl⟩
  | finger | check | lookup => exact ⟨(kept rfl).1, (kept rfl).2, trivial, nofun⟩
  | resolve =>
    exact ⟨(kept rfl).1, (kept rfl).2, storeResolved_mends _ _ _,
      fun stabilizes => by simp [storeResolved_stabilizes] at stabilizes⟩
  | lookupFind =>
    exact ⟨(kept rfl).1, (kept rfl).2, lookupResolved_mends _ _,
      fun stabilizes => by simp [lookupResolved_stabilizes] at stabilizes⟩
  | stores | unstored | duplicates | takesOver =>
    have keeps := kept (storeFile_node disk chord _).symm
    exact ⟨keeps.1, keeps.2, trivial, nofun⟩

/-- A request that may fail: a `Stabilize` only where the first successor has stopped. -/
theorem Phase.failed_mends (gives : phase.failed = some next) (mends : phase.Mends rest a first)
    (stopped : phase.failed = some .stabilizeFailed → first ∉ rest.members) :
    next.Mends rest a first ∧ (next.stabilizes = true → phase.stabilizes = true) := by
  cases phase with
  | stabilizeCall | stabilizeReply =>
    cases gives
    exact ⟨stopped rfl, fun _ => rfl⟩
  | _ => cases gives <;> exact ⟨trivial, nofun⟩

theorem Phase.site_of_stabilizes (stabilizes : phase.stabilizes = true) : phase.site a = a := by
  cases phase with
  | duplicate | storeReturn => cases stabilizes
  | _ => rfl

theorem Phase.site_of_forgets (forgets : phase.forgets = true) : phase.site a = a := by
  cases phase with
  | duplicate | storeReturn => cases forgets
  | _ => rfl

end Node

namespace System

section Network

variable {sha1 : String → Nat} (rest : Ring sha1)

/-- No process starts or stops, and a `Stabilize` or `CheckPred` fails only where the node asked has
stopped. -/
def Abides (s : System) : Event → Prop
  | .create _ _ | .enter _ _ _ | .crash _ => False
  | .fail k => ∀ task ∈ s.tasks[k]?,
    (task.phase.failed = some .stabilizeFailed ∨ task.phase.failed = some (.checked false)) →
      ∃ target ∈ task.phase.awaits, s.nodes target = none
  | _ => True

/-- The nodes of `rest` are those that are running, and all that goes on is to repair their ring. -/
structure Recovering (s : System) : Prop where
  disciplined : Disciplined s
  running : ∀ a, (s.nodes a).isSome ↔ a ∈ rest.members
  mending : ∀ a chord, s.nodes a = some chord → Mending rest a chord
  ticker : ∀ task ∈ s.tasks, task.phase.stabilizes = true → task.goroutine = .ticker
  tasks : ∀ task ∈ s.tasks, ∀ chord, s.nodes task.node = some chord →
    task.phase.Mends rest task.node chord.node.successors.first

/-- A goroutine of node `a` is at such a point. -/
def Reached (s : System) (a : NodeAddress) (point : Phase → Prop) : Prop :=
  ∃ task ∈ s.tasks, task.node = a ∧ point task.phase

/-- What the next step may do to the neighbours of the nodes. -/
def AllRelink (s t : System) : Prop :=
  ∀ b before after, s.nodes b = some before → t.nodes b = some after →
    Relinks rest b (s.Reached b fun phase => phase.forgets = true) before after

end Network

section Network

variable {sha1 : String → Nat} {rest : Ring sha1} {s t : System} {e : Event} {a b : NodeAddress}
  {chord changed : Chord} {phase : Phase}

/-! ## Steps -/

theorem Recovering.node_of_unfinished (inv : Recovering rest s) {task : Task} (listed : task ∈ s.tasks)
    (unfinished : task.phase ≠ .finished) : ∃ chord, s.nodes task.node = some chord := by
  rw [← Option.isSome_iff_exists, Option.isSome_iff_ne_none]
  exact fun stopped => unfinished (inv.disciplined.gone task listed stopped)

/-- While one goroutine is in `CallStabilize` at a node, no other is. -/
theorem Recovering.single (inv : Recovering rest s) {i k : Nat} {task task' : Task}
    (member : s.tasks[k]? = some task) (member' : s.tasks[i]? = some task') (same : task'.node = task.node)
    (first : task.phase.stabilizes = true) (second : task'.phase.stabilizes = true) : i = k := by
  have ticks : ∀ {j : Nat} {other : Task}, s.tasks[j]? = some other → other.phase.stabilizes = true →
      Ticks s.tasks other.node j := by
    intro j other found stabilizes
    refine ⟨other, found, rfl, inv.ticker other (List.mem_of_getElem? found) stabilizes, fun finished => ?_⟩
    rw [finished] at stabilizes
    cases stabilizes
  exact inv.disciplined.single task.node i k (same ▸ ticks member' second) (ticks member first)

/-- The first successor of a node that has changed at most in other respects. -/
theorem Recovering.mends_of_kept (inv : Recovering rest s) (found : s.nodes b = some chord) {task : Task}
    (listed : task ∈ s.tasks) {chord' : Chord}
    (same : task.node = b → changed.node.successors = chord.node.successors)
    (found' : Function.update s.nodes b (some changed) task.node = some chord') :
    task.phase.Mends rest task.node chord'.node.successors.first := by
  by_cases here : task.node = b
  · rw [here, Function.update_self] at found'
    rw [← Option.some.inj found', same here]
    exact inv.tasks task listed chord (here ▸ found)
  · rw [Function.update_of_ne here] at found'
    exact inv.tasks task listed chord' found'

/-- A step at node `b`. -/
theorem Recovering.update (inv : Recovering rest s) (noX : "X" ∉ rest.members) (found : s.nodes b = some chord)
    (relinks : Relinks rest b (s.Reached b fun phase => phase.forgets = true) chord changed)
    (nodes : t.nodes = Function.update s.nodes b (some changed)) (disciplined : Disciplined t)
    (ticker : ∀ task ∈ t.tasks, task.phase.stabilizes = true → task.goroutine = .ticker)
    (tasks : ∀ task ∈ t.tasks, ∀ chord', t.nodes task.node = some chord' →
      task.phase.Mends rest task.node chord'.node.successors.first) :
    Recovering rest t ∧ AllRelink rest s t := by
  have others : ∀ a, a ≠ b → t.nodes a = s.nodes a := fun a other => by rw [nodes, Function.update_of_ne other]
  have here : t.nodes b = some changed := by rw [nodes, Function.update_self]
  refine ⟨⟨disciplined, fun a => ?_, fun a chord' found' => ?_, ticker, tasks⟩, fun a before after old new => ?_⟩
  · rw [← inv.running a, nodes, isSome_update found]
  · by_cases equal : a = b
    · subst equal
      obtain rfl := Option.some.inj (here.symm.trans found')
      exact (inv.mending a chord found).of_relinks relinks noX
    · exact inv.mending a chord' ((others a equal).symm.trans found')
  · by_cases equal : a = b
    · subst equal
      obtain rfl := Option.some.inj (here.symm.trans new)
      obtain rfl := Option.some.inj (found.symm.trans old)
      exact relinks
    · obtain rfl := Option.some.inj (old.symm.trans ((others a equal).symm.trans new))
      exact (KeepsLinks.of_node rfl).relinks

theorem Begins.mends (begins : Begins sha1 a chord e changed phase) (noX : "X" ∉ rest.members)
    (mending : Mending rest a chord) :
    KeepsLinks chord changed ∧ phase.Mends rest a chord.node.successors.first := by
  cases begins with
  | searches unknown =>
    obtain ⟨n, leads⟩ := mending.leads
    exact absurd unknown (leads.first_ne_X noX)
  | stabilizes => exact ⟨.of_node rfl, mending.nodeAddress, rfl⟩
  | fixed | fixes => exact ⟨(fixFingers_keeps sha1 chord).keepsLinks, trivial⟩
  | looksUp => exact ⟨.of_node rfl, lookupResolved_mends _ _⟩
  | alone | unpreceded | selfPreceded | checks | stores => exact ⟨.of_node rfl, trivial⟩

theorem Starts.stabilizer {goroutine : Goroutine} {first : Chord → Chord × Phase}
    (starts : Starts sha1 e a goroutine first) (begins : Begins sha1 a chord e changed phase)
    (stabilizes : phase.stabilizes = true) : goroutine = .ticker := by
  cases begins with
  | stores => cases stabilizes
  | looksUp =>
    rw [lookupResolved_stabilizes] at stabilizes
    cases stabilizes
  | _ => cases starts; rfl

theorem Recovering.started (inv : Recovering rest s) (noX : "X" ∉ rest.members) {goroutine : Goroutine}
    {first : Chord → Chord × Phase} (starts : Starts sha1 e a goroutine first) (found : s.nodes a = some chord)
    (ran : first chord = (changed, phase)) (nodes : t.nodes = Function.update s.nodes a (some changed))
    (tasks : t.tasks = s.tasks ++ [⟨a, goroutine, phase⟩]) (disciplined : Disciplined t) :
    Recovering rest t ∧ AllRelink rest s t := by
  obtain ⟨keeps, mends⟩ := (starts.begins ran).mends noX (inv.mending a chord found)
  refine inv.update noX found keeps.relinks nodes disciplined (fun task listed stabilizes => ?_)
    fun task listed chord' found' => ?_
  · rw [tasks] at listed
    obtain old | new := List.mem_append.mp listed
    · exact inv.ticker task old stabilizes
    · obtain rfl := List.mem_singleton.mp new
      exact starts.stabilizer (starts.begins ran) stabilizes
  · rw [nodes] at found'
    rw [tasks] at listed
    obtain old | new := List.mem_append.mp listed
    · exact inv.mends_of_kept found old (fun _ => keeps.successors) found'
    · obtain rfl := List.mem_singleton.mp new
      rw [Function.update_self] at found'
      rwa [← Option.some.inj found', keeps.successors]

theorem Recovering.resumed (inv : Recovering rest s) (noX : "X" ∉ rest.members) {k : Nat} {disk : Disk}
    {task : Task} {spawned : List Phase} (member : s.tasks[k]? = some task)
    (found : s.nodes (task.phase.site task.node) = some chord)
    (proceeds : Proceeds sha1 disk chord task.phase changed phase spawned)
    (nodes : t.nodes = Function.update s.nodes (task.phase.site task.node) (some changed))
    (tasks : t.tasks = s.tasks.set k { task with phase := phase } ++
      spawned.map fun phase => ⟨task.node, .spawned, phase⟩) (disciplined : Disciplined t) :
    Recovering rest t ∧ AllRelink rest s t := by
  have listed := Pool.mem_of_found member
  obtain ⟨own, isOwn⟩ := inv.node_of_unfinished listed proceeds.unfinished
  have mends : task.phase.Mends rest task.node chord.node.successors.first := by
    cases stabilizes : task.phase.stabilizes with
    | true =>
      rw [Phase.site_of_stabilizes stabilizes] at found
      exact inv.tasks task listed chord found
    | false => exact (inv.tasks task listed own isOwn).of_not_stabilizes stabilizes
  obtain ⟨relinks, kept, new⟩ := proceeds.mends mends
  have forgets : task.phase.forgets = true →
      s.Reached (task.phase.site task.node) fun phase => phase.forgets = true :=
    fun forgets => ⟨task, listed, (Phase.site_of_forgets forgets).symm, forgets⟩
  refine inv.update noX found (relinks.mono forgets) nodes disciplined (fun task' inside stabilizes => ?_)
    fun task' inside chord' found' => ?_
  · rw [tasks] at inside
    obtain old | ⟨_, isNew⟩ := mem_resumed inside
    · exact inv.ticker task' old stabilizes
    · rw [(new _ isNew).1] at stabilizes
      cases stabilizes
  · rw [nodes] at found'
    rw [tasks] at inside
    have started : task'.node = task.node ∧ task'.phase ∈ phase :: spawned →
        task'.phase.Mends rest task'.node chord'.node.successors.first := fun isNew => by
      rw [isNew.1]
      exact (new _ isNew.2).2.of_not_stabilizes (new _ isNew.2).1
    obtain old | isNew := List.mem_append.mp inside
    · obtain ⟨i, here⟩ := List.getElem?_of_mem old
      obtain ⟨_, rfl⟩ | ⟨other, before⟩ := Pool.found_of_set here
      · exact started ⟨rfl, List.mem_cons_self⟩
      · -- another goroutine: where it depends on the successors, these have not changed
        cases stabilizes : task'.phase.stabilizes with
        | false =>
          have alive : (s.nodes task'.node).isSome := by
            rw [← isSome_update found, found']
            rfl
          obtain ⟨theirs, isTheirs⟩ := Option.isSome_iff_exists.mp alive
          exact (inv.tasks task' (Pool.mem_of_found before) theirs isTheirs).of_not_stabilizes stabilizes
        | true =>
          refine inv.mends_of_kept found (Pool.mem_of_found before) (fun atSite => kept ?_) found'
          by_contra both
          rw [Bool.not_eq_false] at both
          rw [Phase.site_of_stabilizes both] at atSite
          exact other (inv.single member before atSite both stabilizes)
    · obtain ⟨p, isSpawned, rfl⟩ := List.mem_map.mp isNew
      exact started ⟨rfl, List.mem_cons_of_mem _ isSpawned⟩

theorem Recovering.handled (inv : Recovering rest s) (noX : "X" ∉ rest.members) {k : Nat} {disk : Disk}
    {task : Task} {target : NodeAddress} (member : s.tasks[k]? = some task)
    (asks : task.phase.awaits = some target) (found : s.nodes target = some chord)
    (serves : Serves sha1 disk task.node chord task.phase changed phase)
    (nodes : t.nodes = Function.update s.nodes target (some changed))
    (tasks : t.tasks = s.tasks.set k { task with phase := phase }) (disciplined : Disciplined t) :
    Recovering rest t ∧ AllRelink rest s t := by
  have listed := Pool.mem_of_found member
  have unfinished : task.phase ≠ .finished := fun finished => by simp [finished, Phase.awaits] at asks
  obtain ⟨own, isOwn⟩ := inv.node_of_unfinished listed unfinished
  obtain ⟨relinks, kept, mends, stabilizing⟩ := serves.mends asks
    ((inv.running target).mp (Option.isSome_of_eq_some found))
    ((inv.running task.node).mp (Option.isSome_of_eq_some isOwn)) (inv.mending target chord found)
    (inv.tasks task listed own isOwn) (inv.mending task.node own isOwn).first_eq_next
  refine inv.update noX found (relinks.mono False.elim) nodes disciplined (fun task' inside stabilizes => ?_)
    fun task' inside chord' found' => ?_
  · rw [tasks] at inside
    obtain old | rfl := List.mem_or_eq_of_mem_set inside
    · exact inv.ticker task' old stabilizes
    · exact inv.ticker task listed (stabilizing stabilizes)
  · rw [nodes] at found'
    rw [tasks] at inside
    obtain old | rfl := List.mem_or_eq_of_mem_set inside
    · exact inv.mends_of_kept found old (fun _ => kept) found'
    · by_cases here : task.node = target
      · rw [here, Function.update_self] at found'
        rw [here, found] at isOwn
        rwa [← Option.some.inj found', kept, Option.some.inj isOwn]
      · rw [Function.update_of_ne here, isOwn] at found'
        rwa [← Option.some.inj found']

theorem Recovering.failed (inv : Recovering rest s) {k : Nat} {task : Task} (abides : Abides s (.fail k))
    (member : s.tasks[k]? = some task) (gives : task.phase.failed = some phase) (nodes : t.nodes = s.nodes)
    (tasks : t.tasks = s.tasks.set k { task with phase := phase }) (disciplined : Disciplined t) :
    Recovering rest t ∧ AllRelink rest s t := by
  have listed := Pool.mem_of_found member
  have unfinished : task.phase ≠ .finished := fun finished => by simp [finished, Phase.failed] at gives
  obtain ⟨own, isOwn⟩ := inv.node_of_unfinished listed unfinished
  have old := inv.tasks task listed own isOwn
  have stopped : task.phase.failed = some .stabilizeFailed → own.node.successors.first ∉ rest.members := by
    intro fails
    obtain ⟨target, asks, lost⟩ := abides task member (.inl fails)
    have asked : own.node.successors.first = target := by
      cases phase : task.phase with
      | stabilizeCall request succ =>
        rw [phase] at old asks
        exact old.2.symm.trans (Option.some.inj asks)
      | stabilizeReply =>
        rw [phase] at asks
        cases asks
      | _ =>
        rw [phase] at fails
        cases fails
    rw [asked, ← inv.running target, lost]
    simp
  obtain ⟨mends, stabilizing⟩ := Phase.failed_mends gives old stopped
  refine ⟨⟨disciplined, by rw [nodes]; exact inv.running, by rw [nodes]; exact inv.mending,
    fun task' inside stabilizes => ?_, fun task' inside chord' found' => ?_⟩, fun b before after found found' => ?_⟩
  · rw [tasks] at inside
    obtain kept | rfl := List.mem_or_eq_of_mem_set inside
    · exact inv.ticker task' kept stabilizes
    · exact inv.ticker task listed (stabilizing stabilizes)
  · rw [nodes] at found'
    rw [tasks] at inside
    obtain kept | rfl := List.mem_or_eq_of_mem_set inside
    · exact inv.tasks task' kept chord' found'
    · rwa [← Option.some.inj (isOwn.symm.trans found')]
  · rw [nodes, found] at found'
    rw [← Option.some.inj found']
    exact (KeepsLinks.of_node rfl).relinks

/-- Every step keeps to the repair. -/
theorem Recovering.step (inv : Recovering rest s) (noX : "X" ∉ rest.members) (abides : Abides s e)
    (moved : step sha1 s e = some t) : Recovering rest t ∧ AllRelink rest s t := by
  have disciplined := inv.disciplined.step moved
  cases step_effect moved with
  | launch boots => cases boots <;> exact abides.elim
  | start starts found _ _ _ ran => exact inv.started noX starts found ran rfl rfl disciplined
  | resume member found _ proceeds => exact inv.resumed noX member found proceeds rfl rfl disciplined
  | handle member asks found _ serves => exact inv.handled noX member asks found serves rfl rfl disciplined
  | fail member gives => exact inv.failed abides member gives rfl rfl disciplined
  | crash => exact abides.elim

end Network

end System

end Tda596Labs.Chord
