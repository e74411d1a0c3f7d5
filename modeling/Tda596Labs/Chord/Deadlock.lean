import Mathlib.Logic.Relation
import Tda596Labs.Chord.System
import Tda596Labs.Chord.Ring

/-! # Waiting with the lock

Two pieces of code keep `chordSync` while they wait for another node whose handler needs its own
`chordSync`: the lookup made by the command `Lookup`, and the copies sent by `reassignDuplicatedToMe`.
A ring of nodes that wait for each other in this way never moves again.  All other requests are made
with the lock released, and no node asks itself, so there is no such ring as long as only one node at
a time is in one of these two places.
-/

namespace Tda596Labs.Chord

namespace System

/-- Node `a` holds its `chordSync` while it waits for a reply of node `b` whose handler needs that of
`b`. -/
def WaitsFor (s : System) (a b : NodeAddress) : Prop :=
  ∃ k task, s.owner a = some k ∧ s.tasks[k]? = some task ∧ task.phase.awaits = some b ∧
    task.phase.handlerLocks = true

/-- Nodes wait for each other in a circle. -/
def Deadlocked (s : System) : Prop := ∃ a, Relation.TransGen (WaitsFor s) a a

/-- The event makes a node keep its lock for more than one step: a `Lookup`, or a tick that takes over
replicated files. -/
def keepsLock (s : System) : Event → Bool
  | .lookup _ _ => true
  | e => s.takesOver e

/-- A node begins to keep its lock only while no node does. -/
def OneAtATime (s : System) (e : Event) : Prop :=
  s.keepsLock e = true → ∀ task ∈ s.tasks, task.phase.ownsLock = false

instance (s : System) (e : Event) : Decidable (OneAtATime s e) :=
  inferInstanceAs (Decidable (_ → ∀ task ∈ s.tasks, _))

end System

/-! ## Where a goroutine owns the lock -/

/-- A goroutine that owns the lock does not ask its own node. -/
def AsksOther (me : NodeAddress) (phase : Phase) : Prop :=
  phase.ownsLock = true → ∀ b, phase.awaits = some b → phase.handlerLocks = true → b ≠ me

section

variable {sha1 : String → Nat} {disk : Disk} {chord changed : Chord} {phase next : Phase}

theorem asksOther_of_free {me : NodeAddress} (free : phase.ownsLock = false) : AsksOther me phase :=
  fun owns => absurd owns (by simp [free])

theorem storeResolved_free (request : StoreFileRequest) (back : Return) (resolving : Resolving) :
    (storeResolved request back resolving).ownsLock = false := by
  cases resolving <;> rfl

theorem handedOff_free (progress : HandOff) : (handedOff progress).ownsLock = false := by
  cases progress <;> rfl

theorem lookupResolved_ownsLock (request : RetreiveFileRequest) (resolving : Resolving) :
    (lookupResolved request resolving).ownsLock = true := by
  cases resolving <;> rfl

theorem callDuplication_ne {succ : NodeAddress} (sends : callDuplication chord = some succ) :
    succ ≠ chord.node.nodeAddress := by
  unfold callDuplication at sends
  split at sends
  · cases sends
  · split at sends
    · cases sends
    · next other => exact Option.some.inj sends ▸ other

theorem resolveFirst_ask {identifier left : Nat} {query : NodeAddress}
    (asks : resolveFirst sha1 chord identifier = .ask query left) : query ≠ chord.node.nodeAddress := by
  unfold resolveFirst at asks
  split at asks
  · split at asks
    · cases asks
    · next other => cases asks; exact other
  · cases asks

theorem resolveNext_ask {me query : NodeAddress} {left rest : Nat} {response : Response}
    (asks : resolveNext me left response = .ask query rest) : query ≠ me := by
  unfold resolveNext at asks
  split at asks
  · cases asks
  · split at asks
    · cases asks
    · split at asks
      · cases asks
      · next other => cases asks; exact other

theorem lookupResolved_asksOther {me : NodeAddress} {resolving : Resolving}
    (request : RetreiveFileRequest)
    (other : ∀ query left, resolving = .ask query left → query ≠ me) :
    AsksOther me (lookupResolved request resolving) := by
  intro _ b waits locks
  cases resolving with
  | found dest => cases locks
  | ask query left =>
    cases waits
    exact other _ _ rfl

/-- A step of a goroutine gives it the lock only if it had it, or begins a take-over. -/
theorem Proceeds.locks {spawned : List Phase}
    (proceeds : Proceeds sha1 disk chord phase changed next spawned) :
    (next.ownsLock = true → phase.ownsLock = true ∨
      (phase = .checked false ∧ chord.replicatedFiles ≠ [])) ∧
    AsksOther chord.node.nodeAddress next ∧ (∀ p ∈ spawned, p.ownsLock = false) := by
  have free : next.ownsLock = false → (∀ p ∈ spawned, p.ownsLock = false) →
      (next.ownsLock = true → phase.ownsLock = true ∨
        (phase = .checked false ∧ chord.replicatedFiles ≠ [])) ∧
      AsksOther chord.node.nodeAddress next ∧ (∀ p ∈ spawned, p.ownsLock = false) :=
    fun free freeSpawned => ⟨fun owns => absurd owns (by simp [free]), asksOther_of_free free, freeSpawned⟩
  cases proceeds with
  | begins some_ => exact ⟨fun _ => .inr ⟨rfl, some_⟩, fun _ _ waits => (nomatch waits), by simp⟩
  | moves onward =>
    rcases onward with rfl | ⟨request, succ, rfl, sends⟩
    · exact ⟨fun _ => .inl rfl, fun _ _ waits => (nomatch waits), by simp⟩
    · -- The copy goes to the successor, which `CallDuplication` has compared with the own address.
      refine ⟨fun _ => .inl rfl, fun _ b waits _ => ?_, by simp⟩
      cases waits
      exact (takeOverEntry_spec sha1 disk chord _).1 ▸ callDuplication_ne sends
  | handsOff | handsOn => exact free (handedOff_free _) (by simp)
  | resolves => exact free (storeResolved_free _ _ _) (by simp)
  | fingered onward =>
    rcases onward with rfl | ⟨query, rest, rfl⟩ <;> exact free rfl (by simp)
  | _ => exact free rfl (by simp [Phase.ownsLock])

theorem Serves.locks {me : NodeAddress} (serves : Serves sha1 disk me chord phase changed next) :
    next.ownsLock = phase.ownsLock ∧ AsksOther me next := by
  cases serves with
  | lookupFind request =>
    exact ⟨lookupResolved_ownsLock _ _,
      lookupResolved_asksOther request fun query rest asks => resolveNext_ask asks⟩
  | resolve => exact ⟨storeResolved_free _ _ _, asksOther_of_free (storeResolved_free _ _ _)⟩
  | takesOver | lookup => exact ⟨rfl, fun _ _ waits => (nomatch waits)⟩
  | _ => exact ⟨rfl, asksOther_of_free rfl⟩

theorem failed_locks {me : NodeAddress} (gives : phase.failed = some next) :
    next.ownsLock = phase.ownsLock ∧ AsksOther me next := by
  cases phase with
  | takeOverCall entries request succ | lookupCall request dest =>
    cases gives
    exact ⟨rfl, fun _ _ waits => (nomatch waits)⟩
  | lookupFind request query left =>
    cases gives
    exact ⟨rfl, fun _ _ _ locks => (nomatch locks)⟩
  | _ => cases gives <;> exact ⟨rfl, asksOther_of_free rfl⟩

/-- A goroutine that owns a lock is in no handler. -/
theorem site_of_ownsLock (owns : phase.ownsLock = true) (node : NodeAddress) :
    phase.site node = node ∧ phase.underLock = true := by
  cases phase with
  | takeOver | takeOverCall | lookupFind | lookupCall | lookupDone => exact ⟨rfl, rfl⟩
  | _ => cases owns

theorem site_of_gains (gains : phase.ownsLock = true ∨
      (phase = .checked false ∧ chord.replicatedFiles ≠ [])) (node : NodeAddress) :
    phase.site node = node ∧ phase.underLock = true := by
  rcases gains with owns | ⟨rfl, _⟩
  · exact site_of_ownsLock owns node
  · exact ⟨rfl, rfl⟩

theorem cutOff_ownsLock (a : NodeAddress) (phase : Phase) : (phase.cutOff a).ownsLock = phase.ownsLock := by
  cases phase with
  | duplicate request back dest | duplicateCall request back dest succ | storeReturn back dest =>
    simp only [Phase.cutOff]
    split <;> rfl
  | _ => rfl

theorem handler_free {next : Phase} {dest : NodeAddress} (left : phase.handler = some (dest, next)) :
    next.ownsLock = false := by
  cases phase <;> cases left <;> rfl

theorem AsksOther.cutOff {me : NodeAddress} (other : AsksOther me phase) (a : NodeAddress) :
    AsksOther me (phase.cutOff a) := by
  cases phase with
  | duplicate | duplicateCall | storeReturn => exact asksOther_of_free (cutOff_ownsLock a _)
  | _ => exact other

end

namespace System

open Transition

theorem Begins.locks {sha1 : String → Nat} {e : Event} {a : NodeAddress} {chord changed : Chord}
    {phase : Phase} (begins : Begins sha1 a chord e changed phase) :
    (phase.ownsLock = true → ∃ name, e = .lookup a name) ∧ AsksOther chord.node.nodeAddress phase := by
  cases begins with
  | looksUp name =>
    exact ⟨fun _ => ⟨name, rfl⟩, lookupResolved_asksOther _ fun query left asks => resolveFirst_ask asks⟩
  | _ => exact ⟨nofun, asksOther_of_free rfl⟩

/-! ## The invariant -/

/-- Goroutine `k` is at node `a`, in a place where it owns the lock. -/
def Owns (tasks : List Task) (a : NodeAddress) (k : Nat) : Prop :=
  ∃ task, tasks[k]? = some task ∧ task.node = a ∧ task.phase.ownsLock = true

/-- Whoever owns a lock is at its node, nobody asks the own node with the lock, and only one lock is
owned. -/
structure LockInv (owner : NodeAddress → Option Nat) (tasks : List Task) : Prop where
  owned : ∀ a k, owner a = some k → Owns tasks a k
  asksOther : ∀ task ∈ tasks, AsksOther task.node task.phase
  single : ∀ a b, owner a ≠ none → owner b ≠ none → a = b

theorem Owns.append {tasks : List Task} {a : NodeAddress} {k : Nat} (owns : Owns tasks a k)
    (more : List Task) : Owns (tasks ++ more) a k := by
  obtain ⟨task, member, rest⟩ := owns
  exact ⟨task, Pool.found_append member more, rest⟩

/-- Another goroutine goes on, or this one without releasing its lock. -/
theorem Owns.set {tasks : List Task} {a : NodeAddress} {i k : Nat} {task : Task} {phase : Phase}
    (owns : Owns tasks a i) (member : tasks[k]? = some task)
    (keeps : k = i → task.phase.ownsLock = true → phase.ownsLock = true) :
    Owns (tasks.set k { task with phase := phase }) a i := by
  obtain ⟨old, oldMember, atNode, ownsOld⟩ := owns
  by_cases equal : k = i
  · subst equal
    obtain rfl := Option.some.inj (member.symm.trans oldMember)
    obtain ⟨inside, _⟩ := List.getElem?_eq_some_iff.mp member
    exact ⟨_, List.getElem?_set_self inside, atNode, keeps rfl ownsOld⟩
  · exact ⟨old, by rw [List.getElem?_set_ne equal]; exact oldMember, atNode, ownsOld⟩

namespace LockInv

variable {owner : NodeAddress → Option Nat} {tasks later : List Task} {a : NodeAddress} {k : Nat}

/-- Where nobody is in a place that owns a lock, no lock is owned. -/
theorem owner_none (inv : LockInv owner tasks)
    (nobody : ∀ task ∈ tasks, task.phase.ownsLock = false) (a : NodeAddress) : owner a = none := by
  cases holds : owner a with
  | none => rfl
  | some k =>
    obtain ⟨task, member, _, owns⟩ := inv.owned a k holds
    simp [nobody task (List.mem_of_getElem? member)] at owns

/-- While one lock is owned, no other is. -/
theorem owner_other (inv : LockInv owner tasks) (holds : owner a = some k) {b : NodeAddress}
    (other : b ≠ a) : owner b = none := by
  by_contra owned
  exact other (inv.single b a owned (by simp [holds]))

theorem keep (inv : LockInv owner tasks) (owned : ∀ a k, Owns tasks a k → Owns later a k)
    (asksOther : ∀ task ∈ later, AsksOther task.node task.phase) : LockInv owner later :=
  ⟨fun a k holds => owned a k (inv.owned a k holds), asksOther, inv.single⟩

theorem release (inv : LockInv owner tasks)
    (owned : ∀ b k, b ≠ a → Owns tasks b k → Owns later b k)
    (asksOther : ∀ task ∈ later, AsksOther task.node task.phase) :
    LockInv (Function.update owner a none) later := by
  have different : ∀ b, Function.update owner a none b ≠ none → b ≠ a ∧ owner b ≠ none := by
    intro b held
    have other : b ≠ a := fun equal => by simp [equal] at held
    exact ⟨other, by rwa [Function.update_of_ne other] at held⟩
  refine ⟨fun b k holds => ?_, asksOther, fun b c bHeld cHeld => ?_⟩
  · obtain ⟨other, _⟩ := different b (by simp [holds])
    rw [Function.update_of_ne other] at holds
    exact owned b k other (inv.owned b k holds)
  · exact inv.single b c (different b bHeld).2 (different c cHeld).2

theorem acquire (free : ∀ b, b ≠ a → owner b = none) (owns : Owns later a k)
    (asksOther : ∀ task ∈ later, AsksOther task.node task.phase) :
    LockInv (Function.update owner a (some k)) later := by
  have atA : ∀ b, Function.update owner a (some k) b ≠ none → b = a := by
    intro b held
    by_contra other
    exact held (by rw [Function.update_of_ne other]; exact free b other)
  refine ⟨fun b i holds => ?_, asksOther, fun b c bHeld cHeld => ?_⟩
  · obtain rfl := atA b (by simp [holds])
    rw [Function.update_self] at holds
    exact Option.some.inj holds ▸ owns
  · exact (atA b bHeld).trans (atA c cHeld).symm

end LockInv

section Step

variable {sha1 : String → Nat} {s t : System} {e : Event}

theorem not_deadlocked (inv : LockInv s.owner s.tasks) : ¬ Deadlocked s := by
  rintro ⟨a, circle⟩
  -- The first two nodes of the circle both own a lock, so they are one node that asks itself.
  obtain ⟨b, ⟨k, task, holds, member, waits, locks⟩, onward⟩ :=
    Relation.TransGen.head'_iff.mp circle
  obtain ⟨owner, sameMember, atNode, owns⟩ := inv.owned a k holds
  obtain rfl := Option.some.inj (sameMember.symm.trans member)
  have other := inv.asksOther owner (List.mem_of_getElem? member) owns b waits locks
  have bOwned : s.owner b ≠ none := by
    rcases Relation.ReflTransGen.cases_head_iff.mp onward with rfl | ⟨c, ⟨j, _, holdsToo, _⟩, _⟩
    · exact absurd atNode.symm other
    · simp [holdsToo]
  exact other (atNode ▸ (inv.single a b (by simp [holds]) bOwned).symm)

theorem LockInv.resumed (inv : LockInv s.owner s.tasks) (addressed : s.Addressed) {k : Nat} {disk : Disk}
    {task : Task} {chord changed : Chord} {phase : Phase} {spawned : List Phase}
    (meets : OneAtATime s (.resume k disk)) (member : s.tasks[k]? = some task)
    (found : s.nodes (task.phase.site task.node) = some chord)
    (may : s.mayRun k (task.phase.site task.node) task.phase)
    (proceeds : Proceeds sha1 disk chord task.phase changed phase spawned) :
    LockInv
      (if task.phase.underLock then
        Function.update s.owner (task.phase.site task.node) (if phase.ownsLock then some k else none)
      else s.owner)
      (s.tasks.set k { task with phase := phase } ++
        spawned.map fun phase => ⟨task.node, .spawned, phase⟩) := by
  obtain ⟨gains, other, freeSpawned⟩ := proceeds.locks
  have asks : AsksOther task.node phase := by
    intro owns
    have atNode : chord.node.nodeAddress = task.node := by
      rw [← (site_of_gains (gains owns) task.node).1]
      exact addressed _ chord found
    exact atNode ▸ other owns
  have asksOther : ∀ task' ∈ s.tasks.set k { task with phase := phase } ++
      spawned.map (fun phase => ⟨task.node, .spawned, phase⟩), AsksOther task'.node task'.phase := by
    intro task' inside
    rcases mem_resumed inside with old | ⟨sameNode, new⟩
    · exact inv.asksOther task' old
    · rw [sameNode]
      rcases List.mem_cons.mp new with same | isSpawned
      · exact same ▸ asks
      · exact asksOther_of_free (freeSpawned _ isSpawned)
  cases owns : phase.ownsLock with
  | true =>
    obtain ⟨atNode, locked⟩ := site_of_gains (gains owns) task.node
    obtain ⟨inside, _⟩ := List.getElem?_eq_some_iff.mp member
    simp only [locked, if_true]
    refine .acquire (fun b different => ?_)
      ⟨_, Pool.found_append (List.getElem?_set_self inside) _, atNode.symm, owns⟩ asksOther
    rcases gains owns with owned | ⟨checked, some_⟩
    · simp only [mayRun, owned, if_true] at may
      exact inv.owner_other may different
    · rw [atNode] at found
      have begins : s.takesOver (.resume k disk) = true :=
        takesOver_of_checked disk member checked found some_
      exact inv.owner_none (meets begins) b
  | false =>
    cases locked : task.phase.underLock with
    | true =>
      simp only [if_true, Bool.false_eq_true, if_false]
      refine inv.release (fun b i different ownsB => (ownsB.set member fun equal owned => ?_).append _)
        asksOther
      -- The goroutine that releases the lock owns none at another node.
      obtain ⟨old, oldMember, atB, _⟩ := ownsB
      obtain rfl := Option.some.inj (member.symm.trans (equal ▸ oldMember))
      exact absurd (atB.symm.trans (site_of_ownsLock owned task.node).1.symm) different
    | false =>
      simp only [Bool.false_eq_true, if_false]
      refine inv.keep (fun b i ownsB => (ownsB.set member fun _ owned => ?_).append _) asksOther
      exact absurd (site_of_ownsLock owned task.node).2 (by simp [locked])

theorem lockInv_step (inv : LockInv s.owner s.tasks) (addressed : s.Addressed) (meets : OneAtATime s e)
    (moved : step sha1 s e = some t) : LockInv t.owner t.tasks := by
  cases step_effect moved with
  | launch boots _ _ =>
    refine inv.keep (fun b i owns => owns.append _) fun task member => ?_
    rcases List.mem_append.mp member with old | new
    · exact inv.asksOther task old
    · cases boots with
      | create => cases new
      | enter =>
        obtain rfl := List.mem_singleton.mp new
        exact asksOther_of_free rfl
  | @start _ a goroutine first chord changed phase starts found _ free _ ran =>
    obtain ⟨begins, other⟩ := (starts.begins ran).locks
    rw [addressed a chord found] at other
    have asksOther : ∀ task ∈ s.tasks ++ [⟨a, goroutine, phase⟩], AsksOther task.node task.phase := by
      intro task member
      rcases List.mem_append.mp member with old | new
      · exact inv.asksOther task old
      · obtain rfl := List.mem_singleton.mp new
        exact other
    cases owns : phase.ownsLock with
    | false => exact inv.release (fun b i _ owns => owns.append _) asksOther
    | true =>
      -- Only a `Lookup` begins with a lock it keeps, and then no other node keeps one.
      obtain ⟨name, rfl⟩ := begins owns
      exact .acquire (fun b _ => inv.owner_none (meets rfl) b)
        ⟨_, List.getElem?_concat_length, rfl, owns⟩ asksOther
  | resume member found may proceeds => exact inv.resumed addressed meets member found may proceeds
  | handle member _ _ _ serves =>
    obtain ⟨same, other⟩ := serves.locks
    exact inv.keep (fun b i owns => owns.set member fun _ owned => same.trans owned)
      (Pool.forall_set inv.asksOther other)
  | fail member gives =>
    obtain ⟨same, other⟩ := failed_locks gives
    exact inv.keep (fun b i owns => owns.set member fun _ owned => same.trans owned)
      (Pool.forall_set inv.asksOther other)
  | crash a =>
    refine inv.release (fun b i different owns => ?_) fun task member => ?_
    · obtain ⟨old, oldMember, atNode, ownsOld⟩ := owns
      refine ⟨{ old with phase := old.phase.cutOff a }, ?_, atNode, (cutOff_ownsLock a _).trans ownsOld⟩
      simp [crash, afterCrash, oldMember, atNode, different]
    · obtain ⟨old, oldMember, rfl⟩ := List.mem_map.mp member
      generalize left : s.afterCrash a old = after
      cases left ▸ outlives s a old with
      | elsewhere => exact (inv.asksOther old oldMember).cutOff a
      | ended => exact asksOther_of_free rfl
      | handler _ isHandler => exact asksOther_of_free (handler_free isHandler)

structure Orderly (s : System) : Prop where
  locks : LockInv s.owner s.tasks
  addressed : s.Addressed

/-- In every run from a quiet network in which nodes keep their locks one at a time, no nodes wait for
each other in a circle. -/
theorem no_deadlock {start : System} {taken : List (Taken System Event)}
    (run : Run (step sha1) start taken s) (all : AllMeet OneAtATime taken) (quiet : start.tasks = [])
    (free : ∀ a, start.owner a = none) (addressed : start.Addressed) : ¬ Deadlocked s := by
  have initial : LockInv start.owner start.tasks := by
    refine ⟨fun a k holds => ?_, fun task member => ?_, fun a b held => absurd (free a) held⟩
    · rw [free a] at holds
      cases holds
    · rw [quiet] at member
      cases member
  have inv : Orderly s := run.invariant all ⟨initial, addressed⟩ fun s e t holds meets moved =>
    ⟨lockInv_step holds.locks holds.addressed meets moved, holds.addressed.step moved⟩
  exact not_deadlocked inv.locks

end Step

/-! ## Two lookups at once -/

instance (s : System) (a b : NodeAddress) : Decidable (WaitsFor s a b) :=
  match holds : s.owner a with
  | none => isFalse fun ⟨k, _, owns, _⟩ => by simp [holds] at owns
  | some k =>
    match member : s.tasks[k]? with
    | none => isFalse fun ⟨i, _, owns, inside, _⟩ => by
      obtain rfl := Option.some.inj (holds.symm.trans owns)
      simp [member] at inside
    | some task =>
      if waits : task.phase.awaits = some b ∧ task.phase.handlerLocks = true then
        isTrue ⟨k, task, holds, member, waits⟩
      else isFalse fun ⟨i, other, owns, inside, waits'⟩ => by
        obtain rfl := Option.some.inj (holds.symm.trans owns)
        obtain rfl := Option.some.inj (member.symm.trans inside)
        exact waits waits'

def portRing : Ring knownSha1 where
  members := ["localhost:1234", "localhost:1235", "localhost:1236", "localhost:1237"]
  nonempty := by decide
  bounded := fun address _ => hashString_lt address
  distinct := by decide +kernel

/-- A stable ring of four nodes with two successors each. -/
def fourPorts : System := ⟨settled portRing 1, fun _ => none, []⟩

theorem fourPorts_addressed : fourPorts.Addressed := by
  intro a chord found
  simp only [fourPorts, settled] at found
  split at found
  · exact Option.some.inj found ▸ rfl
  · cases found

/-- `localhost:1234` looks up `a.txt`, asking `localhost:1237`, which looks up `d.txt`, asking
`localhost:1234`: both wait for ever. -/
theorem deadlock_of_two_lookups :
    ¬ ∀ (sha1 : String → Nat) (ring : Ring sha1) (start s : System) (taken : List (Taken System Event)),
      Stable ring start.nodes → start.tasks = [] → (∀ a, start.owner a = none) → start.Addressed →
        Run (step sha1) start taken s → ¬ Deadlocked s := by
  intro never
  have run := run_trace (step knownSha1) fourPorts
    [.lookup "localhost:1234" "a.txt", .lookup "localhost:1237" "d.txt"]
  refine never knownSha1 portRing fourPorts _ _ (settled_stable portRing 1 (by decide)) rfl
    (fun _ => rfl) fourPorts_addressed run ⟨"localhost:1234", ?_⟩
  have out : WaitsFor (outcome (step knownSha1) fourPorts
      [.lookup "localhost:1234" "a.txt", .lookup "localhost:1237" "d.txt"])
      "localhost:1234" "localhost:1237" := by decide +kernel
  have back : WaitsFor (outcome (step knownSha1) fourPorts
      [.lookup "localhost:1234" "a.txt", .lookup "localhost:1237" "d.txt"])
      "localhost:1237" "localhost:1234" := by decide +kernel
  exact .tail (.single out) back

/-- The second lookup waits until the first is over. -/
theorem no_deadlock_of_lookups_in_turn :
    ¬ Deadlocked (outcome (step knownSha1) fourPorts
      [.lookup "localhost:1234" "a.txt", .handle 0 .good, .handle 0 .good, .resume 0 .good,
        .lookup "localhost:1237" "d.txt"]) :=
  no_deadlock (run_trace (step knownSha1) fourPorts
      [.lookup "localhost:1234" "a.txt", .handle 0 .good, .handle 0 .good, .resume 0 .good,
        .lookup "localhost:1237" "d.txt"])
    (by decide +kernel) rfl (fun _ => rfl) fourPorts_addressed

end System

end Tda596Labs.Chord
