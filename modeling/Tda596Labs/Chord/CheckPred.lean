import Tda596Labs.Chord.FileList

/-! # The predecessor that is forgotten

The tick that checks the predecessor releases the lock before the request and takes it again to forget the
predecessor, without a look at who that is by then.  A handler that runs in one of the two gaps may have
given the node another predecessor, which is forgotten in place of the one that failed.
-/

namespace Tda596Labs.Chord

open Transition

/-- The tick has chosen whom to ask, or has got no answer, and does not own the lock. -/
def Phase.doubts : Phase → Bool
  | .checkCall _ | .checked false => true
  | _ => false

/-- What is known of the predecessor `pred` of the node: it is the one that is asked, or it is unknown or
has failed before it is forgotten. -/
def Phase.Vouched (failed : NodeAddress → Prop) (pred : NodeAddress) : Phase → Prop
  | .checkCall asked => pred = asked
  | .checked false | .takeOver _ | .takeOverCall _ _ _ => pred = "X" ∨ failed pred
  | _ => True

section Steps

variable {sha1 : String → Nat} {disk : Disk} {chord changed : Chord} {phase next : Phase}
  {failed failed' : NodeAddress → Prop} {pred : NodeAddress}

theorem Phase.Vouched.mono (vouched : phase.Vouched failed pred) (weaker : ∀ a, failed a → failed' a) :
    phase.Vouched failed' pred := by
  cases phase with
  | checked alive =>
    cases alive with
    | true => trivial
    | false => exact vouched.imp_right (weaker pred)
  | takeOver | takeOverCall => exact vouched.imp_right (weaker pred)
  | _ => exact vouched

/-- Nothing is to be known of the predecessor. -/
def Phase.Indifferent (phase : Phase) : Prop := ∀ failed pred, phase.Vouched failed pred

theorem indifferent_of_checksPred (elsewhere : phase.checksPred = false) : phase.Indifferent := by
  intro failed pred
  cases phase with
  | checkCall | checked | takeOver | takeOverCall => cases elsewhere
  | _ => trivial

theorem indifferent_of_doubts (sure : phase.doubts = false) (unlocked : phase.ownsLock = false) :
    phase.Indifferent := by
  intro failed pred
  cases phase with
  | checkCall => cases sure
  | checked alive =>
    cases alive with
    | true => trivial
    | false => cases sure
  | takeOver | takeOverCall => cases unlocked
  | _ => trivial

theorem storeResolved_indifferent (request : StoreFileRequest) (back : Return) (resolving : Resolving) :
    (storeResolved request back resolving).Indifferent := by
  cases resolving <;> exact fun _ _ => trivial

theorem handedOff_indifferent (progress : HandOff) : (handedOff progress).Indifferent := by
  cases progress <;> exact fun _ _ => trivial

/-! ## Steps of one goroutine -/

theorem clearDeadSucc_predecessor (chord : Chord) :
    chord.clearDeadSucc.node.predecessor = chord.node.predecessor := by
  unfold clearDeadSucc
  dsimp only
  split
  · rfl
  · exact (replaceFingers_keeps _ _ _ _).predecessor

theorem findNewSucc_predecessor (chord : Chord) :
    chord.findNewSucc.node.predecessor = chord.node.predecessor := by
  unfold findNewSucc
  split
  · rfl
  · split
    · rfl
    · exact (fillFingers_keeps _ _ _).predecessor

/-- Only the end of the tick moves the predecessor. -/
theorem Proceeds.predecessor {spawned : List Phase}
    (proceeds : Proceeds sha1 disk chord phase changed next spawned) :
    changed.node.predecessor = chord.node.predecessor ∨
      (phase = .checked false ∨ phase = .takeOver []) := by
  cases proceeds with
  | forgets => exact .inr (.inl rfl)
  | takenOver => exact .inr (.inr rfl)
  | drops => exact .inl (clearDeadSucc_predecessor chord)
  | verified _ verifies => exact .inl (verifySuccs_keeps verifies).2.1
  | fingered => exact .inl (resolvedFinger_keeps chord _ _).predecessor
  | handsOff => exact .inl (by rw [(reassignToPred_spec sha1 disk chord).node])
  | handsOn rest keepFiles => exact .inl (by rw [(handOff_spec sha1 disk chord rest keepFiles).node])
  | moves => exact .inl (by rw [(takeOverEntry_spec sha1 disk chord _).1])
  | _ => exact .inl rfl

theorem vouched_of_tick (tick : phase = .checked false ∨ phase = .takeOver [])
    (vouched : phase.Vouched failed pred) : pred = "X" ∨ failed pred := by
  obtain rfl | rfl := tick
  · exact vouched
  · exact vouched

theorem site_of_tick (tick : phase = .checked false ∨ phase = .takeOver []) (me : NodeAddress) :
    phase.site me = me ∧ phase.checksPred = true := by
  obtain rfl | rfl := tick
  · exact ⟨rfl, rfl⟩
  · exact ⟨rfl, rfl⟩

theorem Proceeds.vouched {spawned : List Phase}
    (proceeds : Proceeds sha1 disk chord phase changed next spawned) :
    next.Indifferent ∨ (∀ node, phase.site node = node) ∧ (phase.Vouched failed chord.node.predecessor →
      next.Vouched failed changed.node.predecessor) := by
  cases proceeds with
  | rereads => exact .inr ⟨fun _ => rfl, fun _ => rfl⟩
  | begins => exact .inr ⟨fun _ => rfl, id⟩
  | moves onward =>
    rw [(takeOverEntry_spec sha1 disk chord _).1]
    obtain rfl | ⟨request, succ, rfl, _⟩ := onward
    · exact .inr ⟨fun _ => rfl, id⟩
    · exact .inr ⟨fun _ => rfl, id⟩
  | handsOff | handsOn => exact .inl (handedOff_indifferent _)
  | resolves => exact .inl (storeResolved_indifferent _ _ _)
  | fingered onward =>
    obtain rfl | ⟨query, rest, rfl⟩ := onward
    · exact .inl fun _ _ => trivial
    · exact .inl fun _ _ => trivial
  | _ => exact .inl fun _ _ => trivial

/-- A handler that moves the predecessor takes the lock. -/
theorem Serves.predecessor {me : NodeAddress} (serves : Serves sha1 disk me chord phase changed next) :
    changed.node.predecessor = chord.node.predecessor ∨
      (phase.handlerLocks = true ∧ serve sha1 disk me chord phase = some (changed, next)) := by
  cases serves with
  | notify | join | stabilize => exact .inr ⟨rfl, rfl⟩
  | stores | unstored | duplicates | takesOver => exact .inl (by rw [storeFile_node])
  | _ => exact .inl rfl

theorem Serves.vouched {me : NodeAddress} (serves : Serves sha1 disk me chord phase changed next) :
    next.Indifferent ∨ changed.node.predecessor = chord.node.predecessor ∧
      ∀ failed pred, phase.Vouched failed pred → next.Vouched failed pred := by
  cases serves with
  | takesOver => exact .inr ⟨by rw [storeFile_node], fun _ _ vouched => vouched⟩
  | resolve => exact .inl (storeResolved_indifferent _ _ _)
  | lookupFind => exact .inl (indifferent_of_checksPred (lookupResolved_checksPred _ _))
  | _ => exact .inl fun _ _ => trivial

/-- A request that fails: `CheckPred` has failed now. -/
theorem failed_vouched (gives : phase.failed = some next)
    (asked : ∀ address, phase = .checkCall address → failed address)
    (vouched : phase.Vouched failed pred) : next.Vouched failed pred := by
  cases phase with
  | checkCall address =>
    cases gives
    obtain rfl : pred = address := vouched
    exact .inr (asked pred rfl)
  | takeOverCall =>
    cases gives
    exact vouched
  | _ => cases gives <;> trivial

theorem cutOff_vouched (a : NodeAddress) (vouched : phase.Vouched failed pred) :
    (phase.cutOff a).Vouched failed pred := by
  cases phase with
  | duplicate | duplicateCall | storeReturn =>
    simp only [Phase.cutOff]
    split <;> trivial
  | _ => exact vouched

theorem handler_vouched {dest : NodeAddress} (left : phase.handler = some (dest, next)) :
    next.Vouched failed pred := by
  cases phase <;> cases left <;> trivial

end Steps

namespace System

/-- The request of goroutine `k` to the predecessor `asked` has failed. -/
def Failed (taken : List (Taken System Event)) (k : Nat) (asked : NodeAddress) : Prop :=
  ∃ τ ∈ taken, τ.event = .fail k ∧ τ.before.tasks[k]?.map Task.phase = some (.checkCall asked)

instance (taken : List (Taken System Event)) (k : Nat) (asked : NodeAddress) :
    Decidable (Failed taken k asked) :=
  inferInstanceAs (Decidable (∃ τ ∈ taken, _))

/-- The node that gets another predecessor from the handler that runs in this event. -/
def renews (sha1 : String → Nat) (s : System) : Event → Option NodeAddress
  | .handle k disk => do
    let task ← s.tasks[k]?
    let target ← task.phase.awaits
    let chord ← s.nodes target
    let (changed, _) ← serve sha1 disk task.node chord task.phase
    if changed.node.predecessor = chord.node.predecessor then none else some target
  | _ => none

/-- No handler gives another predecessor to a node whose tick has chosen whom to ask, or has got no
answer. -/
def settledPred (sha1 : String → Nat) (s : System) (e : Event) : Bool :=
  (renews sha1 s e).all fun a => s.tasks.all fun task => task.node ≠ a || !task.phase.doubts

section Run

variable {sha1 : String → Nat} {s t : System} {e : Event} {taken : List (Taken System Event)}

theorem Failed.later {k : Nat} {asked : NodeAddress} (failed : Failed taken k asked)
    (more : List (Taken System Event)) : Failed (taken ++ more) k asked := by
  obtain ⟨τ, inside, isFail, found⟩ := failed
  exact ⟨τ, List.mem_append_left _ inside, isFail, found⟩

theorem doubts_of_settledPred {k : Nat} {disk : Disk} {task other : Task} {target : NodeAddress}
    {chord changed : Chord} {next : Phase} (calm : settledPred sha1 s (.handle k disk) = true)
    (member : s.tasks[k]? = some task) (asks : task.phase.awaits = some target)
    (found : s.nodes target = some chord)
    (served : serve sha1 disk task.node chord task.phase = some (changed, next))
    (moves : changed.node.predecessor ≠ chord.node.predecessor) (inside : other ∈ s.tasks)
    (here : other.node = target) : other.phase.doubts = false := by
  have points : renews sha1 s (.handle k disk) = some target := by
    simp [renews, member, asks, found, served, moves]
  rw [settledPred, points, Option.all_some, List.all_eq_true] at calm
  simpa [here] using calm other inside

/-- What is known of the predecessors, with the steps made so far. -/
def AllVouched (taken : List (Taken System Event)) (s : System) : Prop :=
  ∀ (k : Nat) (task : Task) (chord : Chord), s.tasks[k]? = some task → s.nodes task.node = some chord →
    task.phase.Vouched (Failed taken k) chord.node.predecessor

/-- One node changes: a goroutine of that node finds the same predecessor or does not care. -/
theorem AllVouched.update (all : AllVouched taken s) {b : NodeAddress} {chord changed chord' : Chord}
    (found : s.nodes b = some chord) {k : Nat} {task : Task} (member : s.tasks[k]? = some task)
    (safe : task.node = b →
      changed.node.predecessor = chord.node.predecessor ∨ task.phase.Indifferent)
    (found' : Function.update s.nodes b (some changed) task.node = some chord')
    (more : List (Taken System Event)) :
    task.phase.Vouched (Failed (taken ++ more) k) chord'.node.predecessor := by
  by_cases here : task.node = b
  · rw [here, Function.update_self] at found'
    obtain rfl := Option.some.inj found'
    obtain same | indifferent := safe here
    · rw [same]
      exact (all k task chord member (here ▸ found)).mono fun a failed => failed.later more
    · exact indifferent _ _
  · rw [Function.update_of_ne here] at found'
    exact (all k task chord' member found').mono fun a failed => failed.later more

theorem Begins.predecessor {a : NodeAddress} {chord changed : Chord} {phase : Phase}
    (begins : Begins sha1 a chord e changed phase) :
    changed.node.predecessor = chord.node.predecessor := by
  cases begins with
  | searches => exact findNewSucc_predecessor chord
  | fixed | fixes => exact (fixFingers_keeps sha1 chord).predecessor
  | _ => rfl

/-- A tick that finds no predecessor asks nobody. -/
theorem Begins.vouched {a : NodeAddress} {chord changed : Chord} {phase : Phase}
    {failed : NodeAddress → Prop} (begins : Begins sha1 a chord e changed phase) :
    phase.Vouched failed chord.node.predecessor := by
  cases begins with
  | unpreceded unknown => exact .inl unknown
  | looksUp => exact indifferent_of_checksPred (lookupResolved_checksPred _ _) _ _
  | _ => trivial

/-- A goroutine goes on: no other goroutine of the node is in the tick that forgets the predecessor. -/
theorem AllVouched.resumed (all : AllVouched taken s) (inv : Disciplined s) {k : Nat} {disk : Disk}
    {task : Task} {owner : NodeAddress → Option Nat} {chord changed : Chord} {phase : Phase}
    {spawned : List Phase} (member : s.tasks[k]? = some task)
    (found : s.nodes (task.phase.site task.node) = some chord)
    (proceeds : Proceeds sha1 disk chord task.phase changed phase spawned)
    (more : List (Taken System Event)) :
    AllVouched (taken ++ more) ⟨Function.update s.nodes (task.phase.site task.node) (some changed), owner,
      s.tasks.set k { task with phase := phase } ++
        spawned.map fun phase => ⟨task.node, .spawned, phase⟩⟩ := by
  intro i other chord' member' found'
  obtain changed' | ⟨_, new⟩ := Pool.found_of_append member'
  · obtain ⟨rfl, rfl⟩ | ⟨apart, old⟩ := Pool.found_of_set changed'
    · obtain indifferent | ⟨home, carries⟩ := proceeds.vouched
      · exact indifferent _ _
      · rw [home] at found found'
        obtain rfl : changed = chord' := by simpa using found'
        exact (carries (all i task chord member found)).mono fun a failed => failed.later more
    · refine all.update found old (fun here => ?_) found' more
      obtain same | tick := proceeds.predecessor
      · exact .inl same
      · have home := site_of_tick tick task.node
        cases checks : other.phase.checksPred with
        | false => exact .inr (indifferent_of_checksPred checks)
        | true =>
          have mine : Ticks s.tasks task.node k :=
            ⟨task, member, rfl, inv.ticker task (Pool.mem_of_found member) home.2, proceeds.unfinished⟩
          have theirs : Ticks s.tasks task.node i := by
            refine ⟨other, old, here.trans home.1, inv.ticker other (Pool.mem_of_found old) checks, ?_⟩
            intro finished
            rw [finished] at checks
            cases checks
          exact absurd (inv.single _ i k theirs mine) apart
  · obtain ⟨p, isSpawned, rfl⟩ := List.mem_map.mp (List.mem_of_getElem? new)
    exact indifferent_of_checksPred (proceeds.checksPred.2 p isSpawned) _ _

/-- A request is handled: the lock is free, and the node does not doubt its predecessor if it gets another. -/
theorem AllVouched.handled (all : AllVouched taken s) (inv : Disciplined s) {k : Nat} {disk : Disk}
    {task : Task} {target : NodeAddress} {chord changed : Chord} {phase : Phase}
    (calm : settledPred sha1 s (.handle k disk) = true) (member : s.tasks[k]? = some task)
    (asks : task.phase.awaits = some target) (found : s.nodes target = some chord)
    (free : task.phase.handlerLocks = true → s.owner target = none)
    (serves : Serves sha1 disk task.node chord task.phase changed phase)
    (more : List (Taken System Event)) :
    AllVouched (taken ++ more) { s with
      nodes := Function.update s.nodes target (some changed)
      tasks := s.tasks.set k { task with phase := phase } } := by
  intro i other chord' member' found'
  obtain ⟨rfl, rfl⟩ | ⟨_, old⟩ := Pool.found_of_set member'
  · obtain indifferent | ⟨same, carries⟩ := serves.vouched
    · exact indifferent _ _
    · exact carries _ _ (all.update found member (fun _ => .inl same) found' more)
  · refine all.update found old (fun here => ?_) found' more
    by_cases same : changed.node.predecessor = chord.node.predecessor
    · exact .inl same
    · obtain ⟨locks, served⟩ := serves.predecessor.resolve_left same
      have sure := doubts_of_settledPred calm member asks found served same (Pool.mem_of_found old) here
      cases owned : other.phase.ownsLock with
      | false => exact .inr (indifferent_of_doubts sure owned)
      | true =>
        have held := inv.locked target i ⟨other, old, here, owned⟩
        rw [free locks] at held
        cases held

theorem AllVouched.step (all : AllVouched taken s) (inv : Disciplined s)
    (calm : settledPred sha1 s e = true) (moved : step sha1 s e = some t) :
    AllVouched (taken ++ [⟨s, e, t⟩]) t := by
  cases step_effect moved with
  | @launch _ a chord tasks boots _ fresh =>
    intro i other chord' member found'
    obtain old | ⟨_, new⟩ := Pool.found_of_append member
    · by_cases here : other.node = a
      · rw [inv.gone other (Pool.mem_of_found old) (here ▸ fresh)]
        trivial
      · have unmoved : s.nodes other.node = some chord' := (Function.update_of_ne here _ _).symm.trans found'
        exact (all i other chord' old unmoved).mono fun a failed => failed.later _
    · have elsewhere : ∀ task ∈ tasks, task.phase.checksPred = false := by
        cases boots <;> simp [Phase.checksPred, Phase.work]
      exact indifferent_of_checksPred (elsewhere other (List.mem_of_getElem? new)) _ _
  | @start _ a goroutine first chord changed phase starts found _ _ _ ran =>
    intro i other chord' member found'
    have begins := starts.begins ran
    obtain old | ⟨_, new⟩ := Pool.found_of_append member
    · exact all.update found old (fun _ => .inl begins.predecessor) found' _
    · obtain rfl := List.mem_singleton.mp (List.mem_of_getElem? new)
      obtain rfl : changed = chord' := by simpa using found'
      rw [begins.predecessor]
      exact begins.vouched
  | resume member found _ proceeds => exact all.resumed inv member found proceeds _
  | handle member asks found free serves => exact all.handled inv calm member asks found free serves _
  | @fail k task phase member gives =>
    intro i other chord' member' found'
    obtain ⟨rfl, rfl⟩ | ⟨_, old⟩ := Pool.found_of_set member'
    · refine failed_vouched gives (fun address asks => ?_)
        ((all i task chord' member found').mono fun a failed => failed.later _)
      exact ⟨_, List.mem_append_right _ (List.mem_singleton.mpr rfl), rfl, by simp [member, asks]⟩
    · exact (all i other chord' old found').mono fun a failed => failed.later _
  | crash a =>
    intro i other chord' member found'
    obtain ⟨old, member', left⟩ := found_crash member
    cases left with
    | elsewhere elsewhere =>
      have unmoved : s.nodes old.node = some chord' := (Function.update_of_ne elsewhere _ _).symm.trans found'
      exact cutOff_vouched a ((all i old chord' member' unmoved).mono fun a failed => failed.later _)
    | ended => trivial
    | handler _ isHandler => exact handler_vouched isHandler

theorem allVouched_of_run (run : Run (System.step sha1) init taken s)
    (calm : AllMeet (fun s e => settledPred sha1 s e = true) taken) :
    Disciplined s ∧ AllVouched taken s := by
  induction run with
  | nil => exact ⟨filesInv_init.disciplined, fun k task chord member => nomatch member⟩
  | snoc _ moved ih =>
    obtain ⟨inv, all⟩ := ih calm.earlier
    exact ⟨inv.step moved, all.step inv calm.last moved⟩

/-- In every run in which no handler gives another predecessor to a node that doubts the one it has, a
predecessor is forgotten only if the request of this tick to it has failed. -/
theorem forgotten_has_failed (run : Run (System.step sha1) init taken s)
    (calm : AllMeet (fun s e => settledPred sha1 s e = true) taken) {k : Nat} {disk : Disk}
    (moved : System.step sha1 s (.resume k disk) = some t) {a : NodeAddress} {chord changed : Chord}
    (found : s.nodes a = some chord) (known : chord.node.predecessor ≠ "X")
    (found' : t.nodes a = some changed) (forgotten : changed.node.predecessor = "X") :
    Failed taken k chord.node.predecessor := by
  obtain ⟨_, all⟩ := allVouched_of_run run calm
  cases step_effect moved with
  | @resume _ _ task chord₀ changed₀ phase spawned member found₀ _ proceeds =>
    dsimp only at found'
    by_cases here : a = task.phase.site task.node
    · rw [here] at found found'
      obtain rfl := Option.some.inj (found₀.symm.trans found)
      obtain rfl : changed₀ = changed := by simpa using found'
      obtain same | tick := proceeds.predecessor
      · rw [same] at forgotten
        exact absurd forgotten known
      · rw [(site_of_tick tick task.node).1] at found
        exact (vouched_of_tick tick (all k task chord₀ member found)).resolve_left known
    · rw [Function.update_of_ne here, found] at found'
      obtain rfl := Option.some.inj found'
      exact absurd forgotten known
  | launch boots => cases boots
  | start starts => cases starts

end Run

/-- `localhost:1235` joins `localhost:1237` and becomes its predecessor; then `localhost:1236` joins between
them, and is about to notify `localhost:1237`. -/
def aboutToNotify : List Event :=
  [.create "localhost:1237" 0, .enter "localhost:1235" 0 "localhost:1237", .resume 0 .good, .handle 0 .good,
    .resume 0 .good, .resume 1 .good, .handle 1 .good, .resume 1 .good,
    .enter "localhost:1236" 0 "localhost:1235", .resume 2 .good, .handle 2 .good, .resume 2 .good,
    .resume 3 .good]

/-- The predecessor of `localhost:1237`. -/
def predecessorAt1237 (s : System) : Option NodeAddress :=
  (s.nodes "localhost:1237").map fun chord => chord.node.predecessor

/-- `localhost:1235` stops, and `localhost:1237` asks it in vain. -/
def asksInVain : List Event :=
  [.checkPred "localhost:1237", .resume 4 .good, .crash "localhost:1235", .fail 4]

/-- Where nobody notifies in between, `localhost:1235` is forgotten. -/
theorem forgotten_after_failure :
    Failed (trace (step knownSha1) init (aboutToNotify ++ asksInVain)) 4 "localhost:1235" := by
  have run := run_trace (step knownSha1) init (aboutToNotify ++ asksInVain)
  have before : predecessorAt1237 (outcome (step knownSha1) init (aboutToNotify ++ asksInVain)) =
      some "localhost:1235" := by decide +kernel
  have forgets : (step knownSha1 (outcome (step knownSha1) init (aboutToNotify ++ asksInVain))
      (.resume 4 .good)).bind predecessorAt1237 = some "X" := by decide +kernel
  obtain ⟨chord, found, known⟩ := Option.map_eq_some_iff.mp before
  obtain ⟨t, moved, after⟩ := Option.bind_eq_some_iff.mp forgets
  obtain ⟨changed, found', forgotten⟩ := Option.map_eq_some_iff.mp after
  have failed := forgotten_has_failed run (by decide +kernel) moved found (by rw [known]; decide) found'
    forgotten
  rwa [known] at failed

/-- `localhost:1236` notifies after the request to `localhost:1235` has failed, and is forgotten. -/
theorem forgotten_unasked :
    ¬ ∀ (sha1 : String → Nat) (taken : List (Taken System Event)) (s t : System) (k : Nat) (disk : Disk)
      (a : NodeAddress) (chord changed : Chord), Run (step sha1) init taken s →
      step sha1 s (.resume k disk) = some t → s.nodes a = some chord → chord.node.predecessor ≠ "X" →
      t.nodes a = some changed → changed.node.predecessor = "X" →
      Failed taken k chord.node.predecessor := by
  intro always
  have run := run_trace (step knownSha1) init (aboutToNotify ++ asksInVain ++ [.handle 3 .good])
  have before : predecessorAt1237 (outcome (step knownSha1) init
      (aboutToNotify ++ asksInVain ++ [.handle 3 .good])) = some "localhost:1236" := by decide +kernel
  have forgets : (step knownSha1 (outcome (step knownSha1) init
      (aboutToNotify ++ asksInVain ++ [.handle 3 .good])) (.resume 4 .good)).bind predecessorAt1237 =
      some "X" := by decide +kernel
  obtain ⟨chord, found, known⟩ := Option.map_eq_some_iff.mp before
  obtain ⟨t, moved, after⟩ := Option.bind_eq_some_iff.mp forgets
  obtain ⟨changed, found', forgotten⟩ := Option.map_eq_some_iff.mp after
  have failed := always knownSha1 _ _ t 4 .good "localhost:1237" chord changed run moved found
    (by rw [known]; decide) found' forgotten
  rw [known] at failed
  revert failed
  decide +kernel

end System

end Tda596Labs.Chord
