import Tda596Labs.Chord.Mending
import Tda596Labs.Chord.Stabilization

/-! # The ring closes again

The nodes that are left repair the ring with their ticks alone, however these interleave: `CallStabilize` drops
the successors that do not answer, one in a tick, until the next running node stands first; the tick that checks
the predecessor forgets one that has stopped; and the next `Stabilize` fills the gap.  The last step has one
condition: a tick that checks the predecessor and begins while none is known ends by forgetting whoever has
come meanwhile.
-/

namespace Tda596Labs.Chord

open Transition

namespace System

section Network

variable {sha1 : String → Nat} {rest : Ring sha1} {s t : System} {e : Event} {a : NodeAddress}
  {changed : Chord}

/-! ## Progress

A tick that has begun is under way until it ends, and the next tick of the node does not begin before. -/

theorem idle_of_tick (moved : System.step sha1 s (.stabilize a) = some t) : ¬ s.busy a .ticker := by
  cases step_effect moved with
  | launch boots => cases boots
  | start starts _ _ _ idle _ =>
    cases starts
    exact idle

theorem not_reached_of_idle {point : Phase → Prop} (idle : ¬ s.busy a .ticker)
    (ticks : ∀ task ∈ s.tasks, point task.phase → task.goroutine = .ticker ∧ task.phase ≠ .finished) :
    ¬ s.Reached a point := by
  rintro ⟨task, listed, here, reached⟩
  exact idle ⟨task, listed, here, ticks task listed reached⟩

/-- What becomes of a goroutine of node `a` at such a point: it stays, or its next step brings the goal or
leads to such a point. -/
theorem Reached.step {point : Phase → Prop} {goal : Prop} (reached : s.Reached a point) (abides : Abides s e)
    (moved : System.step sha1 s e = some t)
    (goesOn : ∀ task ∈ s.tasks, task.node = a → point task.phase → ∀ disk chord changed next spawned,
      s.nodes (task.phase.site a) = some chord → Proceeds sha1 disk chord task.phase changed next spawned →
      t.nodes = Function.update s.nodes (task.phase.site a) (some changed) → goal ∨ point next)
    (answered : ∀ task ∈ s.tasks, task.node = a → point task.phase → ∀ disk target chord changed next,
      task.phase.awaits = some target → s.nodes target = some chord →
      Serves sha1 disk a chord task.phase changed next →
      t.nodes = Function.update s.nodes target (some changed) → goal ∨ point next)
    (unanswered : ∀ task ∈ s.tasks, task.node = a → point task.phase → ∀ next,
      ((task.phase.failed = some .stabilizeFailed ∨ task.phase.failed = some (.checked false)) →
        ∃ target ∈ task.phase.awaits, s.nodes target = none) →
      task.phase.failed = some next → goal ∨ point next) :
    goal ∨ t.Reached a point := by
  obtain ⟨task, listed, rfl, here⟩ := reached
  -- the goroutine itself has made the step
  have stepped : ∀ {k : Nat} {task' : Task} {next : Phase}, s.tasks[k]? = some task' →
      (task = task' → goal ∨ point next) →
      goal ∨ ∃ x ∈ s.tasks.set k { task' with phase := next }, x.node = task.node ∧ point x.phase := by
    intro k task' next member leads
    obtain kept | rfl := Pool.mem_set_or_eq member { task' with phase := next } listed
    · exact .inr ⟨task, kept, rfl, here⟩
    · exact (leads rfl).imp_right fun fine => ⟨_, Pool.mem_set_self member _, rfl, fine⟩
  cases step_effect moved with
  | launch boots => cases boots <;> exact abides.elim
  | start => exact .inr ⟨task, List.mem_append_left _ listed, rfl, here⟩
  | resume member found _ proceeds =>
    refine (stepped member ?_).imp_right fun ⟨x, inside, rest⟩ => ⟨x, List.mem_append_left _ inside, rest⟩
    rintro rfl
    exact goesOn task listed rfl here _ _ _ _ _ found proceeds rfl
  | handle member asks found _ serves =>
    refine stepped member ?_
    rintro rfl
    exact answered task listed rfl here _ _ _ _ _ asks found serves rfl
  | fail member gives =>
    refine stepped member ?_
    rintro rfl
    exact unanswered task listed rfl here _ (abides task member) gives
  | crash => exact abides.elim

theorem Recovering.before (inv : Recovering rest s) (inv' : Recovering rest t) (found : t.nodes a = some changed) :
    ∃ chord, s.nodes a = some chord := by
  rw [← Option.isSome_iff_exists, inv.running a, ← inv'.running a, found]
  rfl

/-- The successors of node `a` lead to the next node over at most `n` entries. -/
def NearTo (rest : Ring sha1) (a : NodeAddress) (n : Nat) (s : System) : Prop :=
  ∀ chord, s.nodes a = some chord → Leads rest a n chord.node.successors.toList

theorem NearTo.step {n : Nat} (near : NearTo rest a n s) (inv : Recovering rest s) (inv' : Recovering rest t)
    (relink : AllRelink rest s t) : NearTo rest a n t := by
  intro after found
  obtain ⟨before, old⟩ := inv.before inv' found
  exact (relink a before after old found).leads n (near before old)

end Network

end System

/-- A successor is asked, or is to be dropped. -/
def Phase.Drops : Phase → Prop
  | .stabilizeCall _ _ | .stabilizeFailed => True
  | _ => False

/-- The tick has found, or will find, that the predecessor has stopped. -/
def Phase.Suspects {sha1 : String → Nat} (rest : Ring sha1) : Phase → Prop
  | .checkCall predecessor => predecessor ∉ rest.members
  | .checked alive => alive = false
  | .checkRead | .takeOver _ | .takeOverCall _ _ _ => True
  | _ => False

/-- The tick will not forget the predecessor. -/
def Phase.Trusts {sha1 : String → Nat} (rest : Ring sha1) (predecessor : NodeAddress) : Phase → Prop
  | .checkRead => predecessor ∈ rest.members
  | .checkCall asked => asked ∈ rest.members
  | .checked alive => alive = true
  | .takeOver _ | .takeOverCall _ _ _ => False
  | _ => True

/-- The first successor is asked. -/
def Phase.Calls : Phase → Prop
  | .stabilizeCall _ _ => True
  | _ => False

section Trust

variable {sha1 : String → Nat} {rest : Ring sha1} {a : NodeAddress} {chord changed : Chord} {phase : Phase}

theorem Phase.Trusts.of_predecessor {pred pred' : NodeAddress} (trusts : phase.Trusts rest pred)
    (kept : pred ∈ rest.members → pred' ∈ rest.members) : phase.Trusts rest pred' := by
  cases phase with
  | checkRead => exact kept trusts
  | _ => exact trusts

theorem handedOff_trusts (progress : HandOff) {pred : NodeAddress} : (handedOff progress).Trusts rest pred := by
  cases progress <;> trivial

theorem storeResolved_trusts (request : StoreFileRequest) (back : Return) (resolving : Resolving)
    {pred : NodeAddress} : (storeResolved request back resolving).Trusts rest pred := by
  cases resolving <;> trivial

theorem lookupResolved_trusts (request : RetreiveFileRequest) (resolving : Resolving) {pred : NodeAddress} :
    (lookupResolved request resolving).Trusts rest pred := by
  cases resolving <;> trivial

theorem Proceeds.trusts {disk : Disk} {next : Phase} {spawned : List Phase} {pred : NodeAddress}
    (proceeds : Proceeds sha1 disk chord phase changed next spawned)
    (trusts : phase.Trusts rest chord.node.predecessor) : ∀ p ∈ next :: spawned, p.Trusts rest pred := by
  have only : ∀ {p : Phase}, p.Trusts rest pred → ∀ q ∈ [p], q.Trusts rest pred :=
    fun fine q listed => List.mem_singleton.mp listed ▸ fine
  cases proceeds with
  | rereads => exact only trusts
  | refused | joined | passedAlong | replaced => exact List.forall_mem_cons.mpr ⟨trivial, only trivial⟩
  | fingered onward => obtain rfl | ⟨query, left, rfl⟩ := onward <;> exact only trivial
  | handsOff | handsOn => exact only (handedOff_trusts _)
  | resolves => exact only (storeResolved_trusts _ _ _)
  | begins => cases trusts
  | moves => exact trusts.elim
  | _ => exact only trivial

theorem Serves.trusts {disk : Disk} {next : Phase} {pred : NodeAddress}
    (serves : Serves sha1 disk a chord phase changed next) (trusts : phase.Trusts rest pred) :
    next.Trusts rest pred := by
  cases serves with
  | check => rfl
  | resolve => exact storeResolved_trusts _ _ _
  | lookupFind => exact lookupResolved_trusts _ _
  | takesOver => exact trusts
  | _ => trivial

/-- Whatever the predecessor is at the node a handler works at. -/
theorem Phase.Trusts.at_site {own : Chord} (trusts : phase.Trusts rest own.node.predecessor)
    {nodes : NodeAddress → Option Chord} (isOwn : nodes a = some own)
    (found : nodes (phase.site a) = some chord) : phase.Trusts rest chord.node.predecessor := by
  cases phase with
  | duplicate | storeReturn => trivial
  | _ => exact Option.some.inj (isOwn.symm.trans found) ▸ trusts

theorem Phase.Trusts.failed {pred : NodeAddress} {next : Phase} (trusts : phase.Trusts rest pred)
    (gives : phase.failed = some next)
    (stopped : phase.failed = some (.checked false) → ∃ target ∈ phase.awaits, target ∉ rest.members) :
    next.Trusts rest pred := by
  cases phase with
  | checkCall asked =>
    obtain ⟨target, asks, lost⟩ := stopped rfl
    exact absurd (Option.some.inj asks ▸ trusts) lost
  | takeOverCall => exact trusts.elim
  | _ => cases gives <;> trivial

end Trust

namespace System

section Progress

variable {sha1 : String → Nat} {rest : Ring sha1} {s t : System} {e : Event} {a b : NodeAddress}
  {chord changed : Chord} {phase : Phase} {n : Nat}

theorem Recovering.stabilizing (inv : Recovering rest s) {task : Task} (listed : task ∈ s.tasks)
    (stabilizes : task.phase.stabilizes = true) : task.goroutine = .ticker ∧ task.phase ≠ .finished :=
  ⟨inv.ticker task listed stabilizes, fun finished => by rw [finished] at stabilizes; cases stabilizes⟩

theorem Recovering.checking (inv : Recovering rest s) {task : Task} (listed : task ∈ s.tasks)
    (checks : task.phase.checksPred = true) : task.goroutine = .ticker ∧ task.phase ≠ .finished :=
  ⟨inv.disciplined.ticker task listed checks, fun finished => by rw [finished] at checks; cases checks⟩

/-- One entry fewer is in the way, or the tick that will drop it is under way. -/
def Nearing (rest : Ring sha1) (a : NodeAddress) (n : Nat) (s : System) : Prop :=
  NearTo rest a n s ∨ (NearTo rest a (n + 1) s ∧ s.Reached a Phase.Drops)

theorem Nearing.step (nearing : Nearing rest a n s) (inv : Recovering rest s) (noX : "X" ∉ rest.members)
    (abides : Abides s e) (moved : System.step sha1 s e = some t) : Nearing rest a n t := by
  obtain ⟨inv', relink⟩ := inv.step noX abides moved
  obtain near | ⟨near, dropping⟩ := nearing
  · exact .inl (near.step inv inv' relink)
  refine (dropping.step abides moved ?_ ?_ ?_).imp_right fun still => ⟨near.step inv inv' relink, still⟩
  · rintro task listed rfl drops disk chord changed next spawned found proceeds nodes
    have mends := inv.tasks task listed
    generalize task.phase = phase at drops found proceeds nodes mends
    cases proceeds with
    | drops =>
      refine .inl fun after found' => ?_
      have new : t.nodes task.node = some chord.clearDeadSucc := by
        rw [nodes]
        exact Function.update_self ..
      obtain ⟨m, same, shorter⟩ := (near chord found).dropHead (mends chord found)
      rw [← Option.some.inj (new.symm.trans found'), clearDeadSucc_toList, Nat.succ.inj same]
      exact shorter
    | _ => exact drops.elim
  · rintro task listed rfl drops disk target chord changed next asks found serves nodes
    obtain ⟨own, isOwn⟩ := inv.node_of_unfinished listed fun finished => by
      rw [finished] at asks
      cases asks
    have mends := inv.tasks task listed own isOwn
    generalize task.phase = phase at drops asks mends serves
    cases serves with
    | stabilize request succ =>
      -- who answers is running, and is the next node
      obtain ⟨_, rfl⟩ := mends
      obtain rfl := Option.some.inj asks
      have running := (inv.running _).mp (Option.isSome_of_eq_some found)
      refine .inl (NearTo.step (fun chord' found' => ?_) inv inv' relink)
      obtain rfl := Option.some.inj (isOwn.symm.trans found')
      exact leads_of_first ((inv.mending _ own isOwn).first_eq_next running)
    | _ => exact drops.elim
  · rintro task listed rfl drops next _ gives
    generalize task.phase = phase at drops gives
    cases phase with
    | stabilizeCall =>
      cases gives
      exact .inr trivial
    | stabilizeFailed => cases gives
    | _ => exact drops.elim

theorem nearing_of_tick (inv : Recovering rest s) (noX : "X" ∉ rest.members) (near : NearTo rest a (n + 1) s)
    (abides : Abides s (.stabilize a)) (moved : System.step sha1 s (.stabilize a) = some t) :
    Nearing rest a n t := by
  obtain ⟨inv', relink⟩ := inv.step noX abides moved
  cases step_effect moved with
  | launch boots => cases boots
  | @start _ _ _ _ chord changed phase starts found _ _ _ ran =>
    have member := (inv.running _).mp (Option.isSome_of_eq_some found)
    have mending := inv.mending _ chord found
    cases starts.begins ran with
    | searches unknown => exact absurd unknown ((near chord found).first_ne_X noX)
    | alone itself =>
      rw [mending.nodeAddress] at itself
      refine .inl (NearTo.step (fun chord' found' => ?_) inv inv' relink)
      obtain rfl := Option.some.inj (found.symm.trans found')
      exact leads_of_first (mending.first_eq_next (itself ▸ member))
    | stabilizes => exact .inr ⟨near.step inv inv' relink, _, List.mem_append_right _ List.mem_cons_self, rfl, trivial⟩

theorem nearTo_of_idle (inv : Recovering rest s) (nearing : Nearing rest a n s)
    (moved : System.step sha1 s (.stabilize a) = some t) : NearTo rest a n s := by
  refine nearing.resolve_right fun ⟨_, dropping⟩ => ?_
  refine not_reached_of_idle (idle_of_tick moved) (fun task listed drops => inv.stabilizing listed ?_) dropping
  cases phase : task.phase with
  | stabilizeCall | stabilizeFailed => rfl
  | _ => rw [phase] at drops; exact drops.elim

/-! ### Predecessors -/

/-- The predecessor of node `a` is unknown or running. -/
def Fresh (rest : Ring sha1) (a : NodeAddress) (s : System) : Prop :=
  ∀ chord, s.nodes a = some chord → chord.node.predecessor = "X" ∨ chord.node.predecessor ∈ rest.members

theorem Fresh.step (fresh : Fresh rest a s) (inv : Recovering rest s) (inv' : Recovering rest t)
    (relink : AllRelink rest s t) : Fresh rest a t := by
  intro after found
  obtain ⟨before, old⟩ := inv.before inv' found
  rcases (relink a before after old found).predecessor with same | ⟨_, learned⟩ | ⟨isX, _⟩
  · rw [same]
    exact fresh before old
  · exact .inr (learned ▸ rest.previous_mem)
  · exact .inl isX

theorem fresh_of_forgotten (nodes : t.nodes = Function.update s.nodes a (some changed))
    (forgotten : changed.node.predecessor = "X") : Fresh rest a t := by
  intro after found
  rw [nodes, Function.update_self] at found
  exact .inl (Option.some.inj found ▸ forgotten)

/-- The predecessor has not stopped, or the tick that finds out is under way. -/
def Checking (rest : Ring sha1) (a : NodeAddress) (s : System) : Prop :=
  Fresh rest a s ∨ s.Reached a fun phase => phase.Suspects rest

theorem Checking.step (checking : Checking rest a s) (inv : Recovering rest s) (noX : "X" ∉ rest.members)
    (abides : Abides s e) (moved : System.step sha1 s e = some t) : Checking rest a t := by
  obtain ⟨inv', relink⟩ := inv.step noX abides moved
  obtain fresh | suspecting := checking
  · exact .inl (fresh.step inv inv' relink)
  refine suspecting.step abides moved ?_ ?_ ?_
  · rintro task listed rfl suspects disk chord changed next spawned found proceeds nodes
    generalize task.phase = phase at suspects found proceeds nodes
    cases proceeds with
    | rereads =>
      -- the predecessor is read once more
      by_cases running : chord.node.predecessor ∈ rest.members
      · refine .inl (Fresh.step (fun chord' found' => .inr ?_) inv inv' relink)
        rwa [← Option.some.inj (found.symm.trans found')]
      · exact .inr running
    | handsOff => cases suspects
    | forgets => exact .inl (fresh_of_forgotten nodes rfl)
    | takenOver => exact .inl (fresh_of_forgotten nodes rfl)
    | begins => exact .inr trivial
    | moves onward => obtain rfl | ⟨request, succ, rfl, _⟩ := onward <;> exact .inr trivial
    | _ => exact suspects.elim
  · rintro task listed rfl suspects disk target chord changed next asks found serves nodes
    generalize task.phase = phase at suspects asks serves
    cases serves with
    | check pred =>
      obtain rfl := Option.some.inj asks
      exact absurd ((inv.running _).mp (Option.isSome_of_eq_some found)) suspects
    | takesOver => exact .inr trivial
    | _ => exact suspects.elim
  · rintro task listed rfl suspects next _ gives
    generalize task.phase = phase at suspects gives
    cases phase with
    | checkCall =>
      cases gives
      exact .inr rfl
    | takeOverCall =>
      cases gives
      exact .inr trivial
    | checkRead | checked | takeOver => cases gives
    | _ => exact suspects.elim

theorem checking_of_tick (inv : Recovering rest s) (noX : "X" ∉ rest.members)
    (abides : Abides s (.checkPred a)) (moved : System.step sha1 s (.checkPred a) = some t) :
    Checking rest a t := by
  obtain ⟨inv', relink⟩ := inv.step noX abides moved
  cases step_effect moved with
  | launch boots => cases boots
  | @start _ _ _ _ chord changed phase starts found _ _ _ ran =>
    have here : ∀ chord', s.nodes _ = some chord' → chord = chord' :=
      fun chord' found' => Option.some.inj (found.symm.trans found')
    cases starts.begins ran with
    | unpreceded unknown =>
      refine .inl (Fresh.step (fun chord' found' => .inl ?_) inv inv' relink)
      rw [← here chord' found', unknown]
    | selfPreceded itself =>
      refine .inl (Fresh.step (fun chord' found' => .inr ?_) inv inv' relink)
      rw [← here chord' found', itself, (inv.mending _ chord found).nodeAddress, ← inv.running, found]
      rfl
    | checks => exact .inr ⟨_, List.mem_append_right _ List.mem_cons_self, rfl, trivial⟩

theorem fresh_of_idle (inv : Recovering rest s) (checking : Checking rest a s)
    (moved : System.step sha1 s (.stabilize a) = some t) : Fresh rest a s := by
  refine checking.resolve_right fun suspecting => ?_
  refine not_reached_of_idle (idle_of_tick moved) (fun task listed suspects => inv.checking listed ?_) suspecting
  cases phase : task.phase with
  | checkRead | checkCall | checked | takeOver | takeOverCall => rfl
  | _ => rw [phase] at suspects; exact suspects.elim

/-- No goroutine of node `a` will forget its predecessor. -/
def Trusting (rest : Ring sha1) (a : NodeAddress) (s : System) : Prop :=
  ∀ task ∈ s.tasks, task.node = a → ∀ chord, s.nodes a = some chord →
    task.phase.Trusts rest chord.node.predecessor

/-- The tick that checks the predecessor begins only at a node that knows one. -/
def Knows (s : System) : Event → Prop
  | .checkPred a => ∀ chord ∈ s.nodes a, chord.node.predecessor ≠ "X"
  | _ => True

theorem trusting_of_idle (inv : Recovering rest s) (moved : System.step sha1 s (.stabilize a) = some t) :
    Trusting rest a s := by
  intro task listed here chord _
  have idle : ¬ s.Reached a fun phase => phase.checksPred = true :=
    not_reached_of_idle (idle_of_tick moved) fun task listed => inv.checking listed
  cases phase : task.phase with
  | checkRead | checkCall | checked | takeOver | takeOverCall =>
    exact absurd ⟨task, listed, here, by rw [phase]; rfl⟩ idle
  | _ => trivial

/-- A predecessor that is running stays one. -/
theorem Trusting.predecessor (trusting : Trusting rest a s) (relink : AllRelink rest s t)
    (old : s.nodes a = some chord) (new : t.nodes a = some changed) :
    changed.node.predecessor = chord.node.predecessor ∨
      (chord.node.predecessor = "X" ∧ changed.node.predecessor = rest.previous a) := by
  rcases (relink a chord changed old new).predecessor with same | learned | ⟨_, task, listed, here, forgets⟩
  · exact .inl same
  · exact .inr learned
  · have trusts := trusting task listed here chord old
    cases phase : task.phase with
    | checked alive =>
      rw [phase] at trusts forgets
      cases alive with
      | true => cases forgets
      | false => cases trusts
    | takeOver => rw [phase] at trusts; exact trusts.elim
    | _ => rw [phase] at forgets; cases forgets

theorem Begins.trusts (begins : Begins sha1 a chord e changed phase)
    (known : e = .checkPred a → chord.node.predecessor ≠ "X" ∧ chord.node.predecessor ∈ rest.members) :
    phase.Trusts rest chord.node.predecessor := by
  cases begins with
  | unpreceded unknown => exact absurd unknown (known rfl).1
  | selfPreceded => rfl
  | checks => exact (known rfl).2
  | looksUp => exact lookupResolved_trusts _ _
  | _ => trivial

theorem Trusting.step (trusting : Trusting rest a s) (inv : Recovering rest s) (noX : "X" ∉ rest.members)
    (fresh : Fresh rest a s) (abides : Abides s e) (knows : Knows s e) (moved : System.step sha1 s e = some t) :
    Trusting rest a t := by
  obtain ⟨inv', relink⟩ := inv.step noX abides moved
  intro task' inside here after new
  obtain ⟨before, old⟩ := inv.before inv' new
  have kept : before.node.predecessor ∈ rest.members → after.node.predecessor ∈ rest.members := by
    intro running
    rcases trusting.predecessor relink old new with same | ⟨_, learned⟩
    · exact same ▸ running
    · exact learned ▸ rest.previous_mem
  have asBefore : task' ∈ s.tasks → task'.phase.Trusts rest after.node.predecessor :=
    fun listed => (trusting task' listed here before old).of_predecessor kept
  cases step_effect moved with
  | launch boots => cases boots <;> exact abides.elim
  | @start _ b _ _ chord _ _ starts found _ _ _ ran =>
    obtain listed | isNew := List.mem_append.mp inside
    · exact asBefore listed
    · obtain rfl := List.mem_singleton.mp isNew
      obtain rfl : b = a := here
      obtain rfl := Option.some.inj (found.symm.trans old)
      refine ((starts.begins ran).trusts fun isCheck => ?_).of_predecessor kept
      subst isCheck
      have known : chord.node.predecessor ≠ "X" := knows chord found
      exact ⟨known, (fresh chord found).resolve_left known⟩
  | resume member found _ proceeds =>
    obtain listed | ⟨sameNode, isNew⟩ := mem_resumed inside
    · exact asBefore listed
    · have atHome : _ = a := sameNode.symm.trans here
      subst atHome
      exact proceeds.trusts ((trusting _ (Pool.mem_of_found member) rfl before old).at_site old found) _ isNew
  | handle member _ _ _ serves =>
    obtain listed | rfl := List.mem_or_eq_of_mem_set inside
    · exact asBefore listed
    · subst here
      exact (serves.trusts (trusting _ (Pool.mem_of_found member) rfl before old)).of_predecessor kept
  | @fail _ task _ member gives =>
    obtain listed | rfl := List.mem_or_eq_of_mem_set inside
    · exact asBefore listed
    · subst here
      refine ((trusting _ (Pool.mem_of_found member) rfl before old).failed gives fun fails => ?_).of_predecessor kept
      obtain ⟨target, asks, lost⟩ := abides task member (.inr fails)
      refine ⟨target, asks, ?_⟩
      rw [← inv.running target, lost]
      simp
  | crash => exact abides.elim

/-! ### The last round -/

/-- All successors are right, and no predecessor is wrong or will be forgotten. -/
structure Closing (rest : Ring sha1) (s : System) : Prop where
  recovering : Recovering rest s
  near : ∀ a, NearTo rest a 0 s
  fresh : ∀ a, Fresh rest a s
  trusting : ∀ a, Trusting rest a s

theorem Closing.step (closing : Closing rest s) (noX : "X" ∉ rest.members) (abides : Abides s e)
    (knows : Knows s e) (moved : System.step sha1 s e = some t) : Closing rest t ∧ AllRelink rest s t := by
  obtain ⟨inv', relink⟩ := closing.recovering.step noX abides moved
  exact ⟨⟨inv', fun a => (closing.near a).step closing.recovering inv' relink,
    fun a => (closing.fresh a).step closing.recovering inv' relink,
    fun a => (closing.trusting a).step closing.recovering noX (closing.fresh a) abides knows moved⟩, relink⟩

/-- Node `a` knows its predecessor. -/
def Known (rest : Ring sha1) (a : NodeAddress) (s : System) : Prop :=
  ∀ chord, s.nodes a = some chord → chord.node.predecessor = rest.previous a

theorem Known.step (known : Known rest a s) (closing : Closing rest s) (inv' : Recovering rest t)
    (relink : AllRelink rest s t) : Known rest a t := by
  intro after found
  obtain ⟨before, old⟩ := closing.recovering.before inv' found
  rcases (closing.trusting a).predecessor relink old found with same | ⟨_, learned⟩
  · rw [same]
    exact known before old
  · exact learned

/-- The next node knows node `a`, or is being asked by it. -/
def Greeting (rest : Ring sha1) (a : NodeAddress) (s : System) : Prop :=
  Known rest (rest.next a) s ∨ s.Reached a Phase.Calls

/-- The next node is told of node `a`. -/
theorem known_of_stabilized {request : Request} (closing : Closing rest s) (member : a ∈ rest.members)
    (named : request.nodeAddress = a) (found : s.nodes (rest.next a) = some chord)
    (nodes : t.nodes = Function.update s.nodes (rest.next a) (some (stabilized chord request).1)) :
    Known rest (rest.next a) t := by
  intro after new
  rw [nodes, Function.update_self] at new
  rw [← Option.some.inj new, rest.previous_next member, ← named]
  unfold stabilized
  split
  · rfl
  · next known =>
    split
    · next same => exact same
    · next other =>
      have running := (closing.fresh _ chord found).resolve_left known
      have isPrevious := (closing.recovering.mending _ chord found).predecessor running
      exact isPrevious.trans (by rw [rest.previous_next member, named])

theorem Greeting.step (greeting : Greeting rest a s) (closing : Closing rest s) (noX : "X" ∉ rest.members)
    (abides : Abides s e) (knows : Knows s e) (moved : System.step sha1 s e = some t) : Greeting rest a t := by
  obtain ⟨closing', relink⟩ := closing.step noX abides knows moved
  have inv := closing.recovering
  -- a request that waits is for the next node
  have asked : ∀ {task : Task} {request : Request} {succ : NodeAddress}, task ∈ s.tasks →
      task.phase = .stabilizeCall request succ →
      task.node ∈ rest.members ∧ request.nodeAddress = task.node ∧ succ = rest.next task.node := by
    intro task request succ listed waits
    obtain ⟨own, isOwn⟩ := inv.node_of_unfinished listed (by rw [waits]; nofun)
    have mends := inv.tasks task listed own isOwn
    rw [waits] at mends
    refine ⟨(inv.running _).mp (Option.isSome_of_eq_some isOwn), mends.1, mends.2.trans ?_⟩
    exact (closing.near _ own isOwn).first_eq_next
  obtain known | calling := greeting
  · exact .inl (known.step closing closing'.recovering relink)
  refine calling.step abides moved ?_ ?_ ?_
  · rintro task _ rfl calls disk chord changed next spawned _ proceeds _
    generalize task.phase = phase at calls proceeds
    cases proceeds <;> exact calls.elim
  · rintro task listed rfl calls disk target chord changed next asks found serves nodes
    have asked := @asked task
    generalize task.phase = phase at calls asks serves asked
    cases serves with
    | stabilize request succ =>
      obtain ⟨member, named, rfl⟩ := asked listed rfl
      obtain rfl := Option.some.inj asks
      exact .inl (known_of_stabilized closing member named found nodes)
    | _ => exact calls.elim
  · rintro task listed rfl calls next stopped gives
    cases phase : task.phase with
    | stabilizeCall request succ =>
      obtain ⟨target, asks, lost⟩ := stopped (.inl (by rw [phase]; rfl))
      obtain ⟨_, _, rfl⟩ := asked listed phase
      rw [phase] at asks
      rw [← Option.some.inj asks] at lost
      have running := (inv.running (rest.next task.node)).mpr rest.next_mem
      rw [lost] at running
      cases running
    | _ => rw [phase] at calls; exact calls.elim

theorem greeting_of_tick (closing : Closing rest s) (two : 2 ≤ rest.members.length)
    (moved : System.step sha1 s (.stabilize a) = some t) : Greeting rest a t := by
  have inv := closing.recovering
  cases step_effect moved with
  | launch boots => cases boots
  | @start _ _ _ _ chord changed phase starts found _ _ _ ran =>
    have member := (inv.running _).mp (Option.isSome_of_eq_some found)
    have isNext := (closing.near _ chord found).first_eq_next
    cases starts.begins ran with
    | searches => exact .inr ⟨_, List.mem_append_right _ List.mem_cons_self, rfl, trivial⟩
    | alone itself =>
      rw [(inv.mending _ chord found).nodeAddress, isNext] at itself
      exact absurd itself (rest.next_ne two member)
    | stabilizes => exact .inr ⟨_, List.mem_append_right _ List.mem_cons_self, rfl, trivial⟩

theorem known_of_idle (inv : Recovering rest s) (greeting : Greeting rest a s)
    (moved : System.step sha1 s (.stabilize a) = some t) : Known rest (rest.next a) s := by
  refine greeting.resolve_right fun calling => ?_
  refine not_reached_of_idle (idle_of_tick moved) (fun task listed calls => inv.stabilizing listed ?_) calling
  cases phase : task.phase with
  | stabilizeCall => rfl
  | _ => rw [phase] at calls; exact calls.elim

end Progress

/-! ## Whole runs -/

section Runs

variable {sha1 : String → Nat}

/-- What is left of a settled ring: the nodes of `rest` are running, with the neighbours that they had in
`ring`, and one of the successors of each is running. -/
structure Gaps (ring rest : Ring sha1) (extra : Nat) (nodes : NodeAddress → Option Chord) : Prop where
  noX : "X" ∉ ring.members
  fewer : ∀ a ∈ rest.members, a ∈ ring.members
  running : ∀ a, (nodes a).isSome ↔ a ∈ rest.members
  links : ∀ a chord, nodes a = some chord → Links ring a chord
  length : ∀ a chord, nodes a = some chord → chord.node.successors.others.length = extra
  reachable : ∀ a ∈ rest.members, ∃ b ∈ ring.following a (extra + 1), b ∈ rest.members

/-- Every node of `rest` begins these ticks, in this order. -/
def Ticked (rest : Ring sha1) (ticks : NodeAddress → List Event) (taken : List (Taken System Event)) : Prop :=
  ∀ a ∈ rest.members, (ticks a).Sublist (taken.map Taken.event)

variable {ring rest : Ring sha1} {extra : Nat} {s t : System} {a : NodeAddress}
  {taken : List (Taken System Event)}

theorem Gaps.noX_rest {nodes : NodeAddress → Option Chord} (gaps : Gaps ring rest extra nodes) :
    "X" ∉ rest.members :=
  fun isX => gaps.noX (gaps.fewer _ isX)

theorem Gaps.leads {nodes : NodeAddress → Option Chord} (gaps : Gaps ring rest extra nodes) {chord : Chord}
    (found : nodes a = some chord) : Leads rest a extra chord.node.successors.toList := by
  have member := (gaps.running a).mp (Option.isSome_of_eq_some found)
  obtain ⟨extra', listed⟩ := (gaps.links a chord found).successors
  have same : extra' = extra := by
    have length := congrArg List.length listed
    rw [Successors.toList, List.length_cons, gaps.length a chord found, ring.length_following] at length
    omega
  rw [same] at listed
  obtain ⟨gone, later, split, stopped⟩ :=
    ring.following_of_fewer gaps.fewer (gaps.fewer a member) (gaps.reachable a member)
  have few := congrArg List.length split
  rw [ring.length_following, List.length_append, List.length_cons] at few
  refine ⟨gone, later, listed.trans split, by omega, fun b isGone => ⟨?_, stopped b isGone⟩⟩
  have inside : b ∈ ring.following a (extra + 1) := by
    rw [split]
    exact List.mem_append_left _ isGone
  exact ne_of_mem_of_not_mem (ring.mem_of_mem_following inside) gaps.noX

theorem Gaps.recovering (gaps : Gaps ring rest extra s.nodes) (quiet : Quiet s) : Recovering rest s where
  disciplined :=
    { ticker := fun task listed checks => by rw [quiet task listed] at checks; cases checks
      single := fun _ _ _ ⟨task, found, _, _, running⟩ => absurd (quiet task (Pool.mem_of_found found)) running
      locked := fun _ _ ⟨task, found, _, owns⟩ => by
        rw [quiet task (Pool.mem_of_found found)] at owns
        cases owns
      gone := fun task listed _ => quiet task listed }
  running := gaps.running
  mending a chord found := by
    have links := gaps.links a chord found
    have member := (gaps.running a).mp (Option.isSome_of_eq_some found)
    refine ⟨links.nodeAddress, ⟨extra, gaps.leads found⟩, fun running => ?_⟩
    rw [links.predecessor] at running ⊢
    exact (ring.previous_of_fewer gaps.fewer member running).symm
  ticker task listed stabilizes := by
    rw [quiet task listed] at stabilizes
    cases stabilizes
  tasks task listed chord _ := by
    rw [quiet task listed]
    trivial

theorem nearTo_kept {n : Nat} {e : Event} (noX : "X" ∉ rest.members)
    (both : Recovering rest s ∧ NearTo rest a n s) (abides : Abides s e)
    (moved : System.step sha1 s e = some t) : Recovering rest t ∧ NearTo rest a n t := by
  obtain ⟨inv', relink⟩ := both.1.step noX abides moved
  exact ⟨inv', both.2.step both.1 inv' relink⟩

theorem fresh_kept {e : Event} (noX : "X" ∉ rest.members) (both : Recovering rest s ∧ Fresh rest a s)
    (abides : Abides s e) (moved : System.step sha1 s e = some t) : Recovering rest t ∧ Fresh rest a t := by
  obtain ⟨inv', relink⟩ := both.1.step noX abides moved
  exact ⟨inv', both.2.step both.1 inv' relink⟩

/-- All that is allowed in the last rounds. -/
def Closes (s : System) (e : Event) : Prop := Abides s e ∧ Knows s e

theorem trusting_kept {e : Event} (noX : "X" ∉ rest.members)
    (all : (Recovering rest s ∧ Fresh rest a s) ∧ Trusting rest a s) (closes : Closes s e)
    (moved : System.step sha1 s e = some t) : (Recovering rest t ∧ Fresh rest a t) ∧ Trusting rest a t :=
  ⟨fresh_kept noX all.1 closes.1 moved, all.2.step all.1.1 noX all.1.2 closes.1 closes.2 moved⟩

theorem known_kept {e : Event} (noX : "X" ∉ rest.members) (both : Closing rest s ∧ Known rest a s)
    (closes : Closes s e) (moved : System.step sha1 s e = some t) : Closing rest t ∧ Known rest a t := by
  obtain ⟨closing', relink⟩ := both.1.step noX closes.1 closes.2 moved
  exact ⟨closing', both.2.step both.1 closing'.recovering relink⟩

/-- One more tick of `CallStabilize` than there are entries in the way. -/
theorem Recovering.nearTo_of_ticks {n : Nat} (inv : Recovering rest s) (noX : "X" ∉ rest.members)
    (near : NearTo rest a n s) (run : Run (System.step sha1) s taken t) (abides : AllMeet Abides taken)
    (ticks : (List.replicate (n + 1) (Event.stabilize a)).Sublist (taken.map Taken.event)) :
    NearTo rest a 0 t := by
  induction n generalizing s taken with
  | zero =>
    exact (run.invariant abides (And.intro inv near) fun _ _ _ both abides moved =>
      nearTo_kept noX both abides moved).2
  | succ n ih =>
    obtain ⟨u, later, run', abides', ticks', both, nearer⟩ := run.completes abides ticks (And.intro inv near)
      (fun _ _ _ both abides moved => nearTo_kept noX both abides moved)
      (fun _ _ both abides moved => nearing_of_tick both.1 noX both.2 abides moved)
      (fun _ _ _ both nearing abides moved => Nearing.step nearing both.1 noX abides moved)
      fun _ _ both nearing moved => nearTo_of_idle both.1 nearing moved
    exact ih both.1 nearer run' abides' ticks'

theorem Recovering.run (inv : Recovering rest s) (noX : "X" ∉ rest.members)
    (run : Run (System.step sha1) s taken t) (abides : AllMeet Abides taken) : Recovering rest t :=
  run.invariant abides inv fun _ _ _ inv abides moved => (inv.step noX abides moved).1

/-- A tick that checks the predecessor, and the next tick. -/
theorem Recovering.fresh_of_ticks (inv : Recovering rest s) (noX : "X" ∉ rest.members)
    (run : Run (System.step sha1) s taken t) (abides : AllMeet Abides taken)
    (ticks : [Event.checkPred a, .stabilize a].Sublist (taken.map Taken.event)) : Fresh rest a t := by
  obtain ⟨u, later, run', abides', _, inv', fresh⟩ := run.completes abides ticks inv
    (fun _ _ _ inv abides moved => (inv.step noX abides moved).1)
    (fun _ _ inv abides moved => checking_of_tick inv noX abides moved)
    (fun _ _ _ inv checking abides moved => Checking.step checking inv noX abides moved)
    fun _ _ inv checking moved => fresh_of_idle inv checking moved
  exact (run'.invariant abides' (And.intro inv' fresh) fun _ _ _ both abides moved =>
    fresh_kept noX both abides moved).2

theorem Recovering.trusting_of_ticks (inv : Recovering rest s) (noX : "X" ∉ rest.members)
    (fresh : Fresh rest a s) (run : Run (System.step sha1) s taken t) (closes : AllMeet Closes taken)
    (ticks : [Event.stabilize a].Sublist (taken.map Taken.event)) : Trusting rest a t := by
  obtain ⟨before, u, v, later, rfl, first, moved, second, _⟩ := run.split_event ticks
  have both := first.invariant closes.earlier (And.intro inv fresh) fun _ _ _ both closes moved =>
    fresh_kept noX both closes.1 moved
  have closing : AllMeet Closes (⟨u, .stabilize a, v⟩ :: later) :=
    fun τ listed => closes τ (List.mem_append_right _ listed)
  exact ((second.cons moved).invariant closing (And.intro both (trusting_of_idle both.1 moved))
    fun _ _ _ all closes moved => trusting_kept noX all closes moved).2

/-- Two ticks of `CallStabilize`: the next node knows its predecessor. -/
theorem Closing.known_of_ticks (closing : Closing rest s) (noX : "X" ∉ rest.members)
    (two : 2 ≤ rest.members.length) (run : Run (System.step sha1) s taken t) (closes : AllMeet Closes taken)
    (ticks : [Event.stabilize a, .stabilize a].Sublist (taken.map Taken.event)) :
    Known rest (rest.next a) t := by
  obtain ⟨u, later, run', closes', _, closing', known⟩ := run.completes closes ticks closing
    (fun _ _ _ closing closes moved => (closing.step noX closes.1 closes.2 moved).1)
    (fun _ _ closing _ moved => greeting_of_tick closing two moved)
    (fun _ _ _ closing greeting closes moved => Greeting.step greeting closing noX closes.1 closes.2 moved)
    fun _ _ closing greeting moved => known_of_idle closing.recovering greeting moved
  exact (run'.invariant closes' (And.intro closing' known) fun _ _ _ both closes moved =>
    known_kept noX both closes moved).2

/-- Whatever ticks and commands run and however they interleave, the nodes that are left never lose sight of
each other.  In every state of every run in which no further process starts or stops and no answer of a running
node to `Stabilize` or `CheckPred` is lost, at most `extra` successors come before the next running node, all of
which have stopped, and a predecessor that is running is the right one. -/
theorem survivors_stay_in_sight (gaps : Gaps ring rest extra s.nodes) (quiet : Quiet s)
    (run : Run (System.step sha1) s taken t) (abides : AllMeet Abides taken) {chord : Chord}
    (found : t.nodes a = some chord) :
    (∃ gone later, chord.node.successors.toList = gone ++ rest.next a :: later ∧ gone.length ≤ extra ∧
      ∀ b ∈ gone, b ≠ "X" ∧ t.nodes b = none) ∧
    ((t.nodes chord.node.predecessor).isSome → chord.node.predecessor = rest.previous a) := by
  have start := And.intro (gaps.recovering quiet) fun chord (found : s.nodes a = some chord) => gaps.leads found
  have both : Recovering rest t ∧ NearTo rest a extra t := run.invariant abides start fun _ _ _ both abides moved =>
    nearTo_kept gaps.noX_rest both abides moved
  obtain ⟨gone, later, split, few, stopped⟩ := both.2 chord found
  refine ⟨⟨gone, later, split, few, fun b listed => ⟨(stopped b listed).1, ?_⟩⟩, fun running => ?_⟩
  · rw [← Option.not_isSome_iff_eq_none, both.1.running b]
    exact (stopped b listed).2
  · exact (both.1.mending a chord found).predecessor ((both.1.running _).mp running)

/-- The nodes that are left, two or more, repair the ring.  First every node begins `CallStabilize` once more than
there can be successors in the way, and checks its predecessor and then begins another `CallStabilize`; then every
node begins one more; then every node begins `CallStabilize` twice.  Whatever else goes on meanwhile, in whatever
order, all neighbours are right in the end, if no further process starts or stops, no answer of a running node is
lost, and from the second part on no node checks its predecessor while it knows none. -/
theorem crash_repaired {u v : System} (gaps : Gaps ring rest extra s.nodes) (two : 2 ≤ rest.members.length)
    (quiet : Quiet s) {drops ends greets : List (Taken System Event)} (first : Run (System.step sha1) s drops t)
    (second : Run (System.step sha1) t ends u) (third : Run (System.step sha1) u greets v)
    (abides : AllMeet Abides drops) (closes : AllMeet Closes (ends ++ greets))
    (dropped : Ticked rest (fun a => List.replicate (extra + 1) (.stabilize a)) drops)
    (checked : Ticked rest (fun a => [.checkPred a, .stabilize a]) drops)
    (ended : Ticked rest (fun a => [.stabilize a]) ends)
    (greeted : Ticked rest (fun a => [.stabilize a, .stabilize a]) greets) : Linked rest v.nodes := by
  have noX := gaps.noX_rest
  have inv := gaps.recovering quiet
  have invT := inv.run noX first abides
  have near : ∀ a, NearTo rest a 0 t := fun a chord found => by
    have member := (invT.running a).mp (Option.isSome_of_eq_some found)
    exact inv.nearTo_of_ticks noX (fun _ found => gaps.leads found) first abides (dropped a member) chord found
  have fresh : ∀ a, Fresh rest a t := fun a chord found => by
    have member := (invT.running a).mp (Option.isSome_of_eq_some found)
    exact inv.fresh_of_ticks noX first abides (checked a member) chord found
  have invU := invT.run noX second fun τ listed => (closes.earlier τ listed).1
  have nearU : ∀ a, Recovering rest u ∧ NearTo rest a 0 u := fun a =>
    second.invariant closes.earlier (And.intro invT (near a)) fun _ _ _ both closes moved =>
      nearTo_kept noX both closes.1 moved
  have freshU : ∀ a, Recovering rest u ∧ Fresh rest a u := fun a =>
    second.invariant closes.earlier (And.intro invT (fresh a)) fun _ _ _ both closes moved =>
      fresh_kept noX both closes.1 moved
  have trusting : ∀ a, Trusting rest a u := fun a task listed here chord found => by
    have member := (invU.running a).mp (Option.isSome_of_eq_some found)
    exact invT.trusting_of_ticks noX (fresh a) second closes.earlier (ended a member) task listed here chord found
  have closing : Closing rest u := ⟨invU, fun a => (nearU a).2, fun a => (freshU a).2, trusting⟩
  have closesLast : AllMeet Closes greets := fun τ listed => closes τ (List.mem_append_right _ listed)
  have last : Closing rest v := third.invariant closesLast closing fun _ _ _ closing closes moved =>
    (closing.step noX closes.1 closes.2 moved).1
  refine ⟨noX, fun a member => ?_⟩
  obtain ⟨chord, found⟩ := Option.isSome_iff_exists.mp ((last.recovering.running a).mpr member)
  refine ⟨chord, found, ?_, (last.near a chord found).first_eq_next⟩
  have known := closing.known_of_ticks noX two third closesLast (greeted _ (rest.previous_mem (x := a)))
  rw [rest.next_previous member] at known
  exact known chord found

end Runs

/-! ## Three nodes, one of which stops -/

instance (s : System) (e : Event) : Decidable (Abides s e) :=
  match e with
  | .create _ _ | .enter _ _ _ | .crash _ => isFalse id
  | .fail k => inferInstanceAs (Decidable (∀ task ∈ s.tasks[k]?, _ → ∃ target ∈ task.phase.awaits, _))
  | .stabilize _ | .fixFingers _ | .checkPred _ | .storeFile _ _ _ | .lookup _ _ | .resume _ _ | .handle _ _ =>
    isTrue trivial

instance (s : System) (e : Event) : Decidable (Knows s e) :=
  match e with
  | .checkPred a => inferInstanceAs (Decidable (∀ chord ∈ s.nodes a, _))
  | .create _ _ | .enter _ _ _ | .crash _ | .fail _ | .stabilize _ | .fixFingers _ | .storeFile _ _ _
  | .lookup _ _ | .resume _ _ | .handle _ _ => isTrue trivial

instance {sha1 : String → Nat} (rest : Ring sha1) (ticks : NodeAddress → List Event)
    (taken : List (Taken System Event)) : Decidable (Ticked rest ticks taken) :=
  inferInstanceAs (Decidable (∀ a ∈ rest.members, _))

instance (s : System) (e : Event) : Decidable (Closes s e) := inferInstanceAs (Decidable (_ ∧ _))

/-- `localhost:1236` has stopped. -/
def without1236 : System where
  nodes a := if a ∈ twoPorts.members then some (settledChord threePorts 1 a) else none
  owner _ := none
  tasks := []

/-- `localhost:1235` drops its first successor and `localhost:1234` forgets its predecessor. -/
def dropTicks : List Event :=
  [.stabilize "localhost:1235", .stabilize "localhost:1234", .fail 0, .handle 1 .good, .resume 0 .good,
    .resume 1 .good, .checkPred "localhost:1234", .checkPred "localhost:1235", .resume 2 .good, .resume 3 .good,
    .fail 2, .handle 3 .good, .resume 2 .good, .resume 3 .good, .stabilize "localhost:1234",
    .stabilize "localhost:1235", .handle 4 .good, .resume 4 .good, .handle 5 .good, .resume 5 .good]

def endTicks : List Event :=
  [.stabilize "localhost:1234", .stabilize "localhost:1235", .handle 6 .good, .handle 7 .good, .resume 7 .good,
    .resume 6 .good]

def greetTicks : List Event :=
  [.stabilize "localhost:1234", .stabilize "localhost:1235", .handle 8 .good, .handle 9 .good, .resume 9 .good,
    .resume 8 .good, .stabilize "localhost:1234", .stabilize "localhost:1235"]

theorem without1236_gaps : Gaps threePorts twoPorts 1 without1236.nodes where
  noX := by decide
  fewer := by decide
  running a := by by_cases member : a ∈ twoPorts.members <;> simp [without1236, member]
  links a chord found := by
    obtain ⟨_, rfl⟩ := Option.ite_some_none_eq_some.mp found
    exact (settledChord_stable threePorts 1 a).links
  length a chord found := by
    obtain ⟨_, rfl⟩ := Option.ite_some_none_eq_some.mp found
    exact threePorts.length_following 1
  reachable := by decide +kernel

theorem without1236_in_sight :
    ∃ chord, (outcome (step knownSha1) without1236 dropTicks).nodes "localhost:1235" = some chord ∧
      ∃ gone later, chord.node.successors.toList = gone ++ twoPorts.next "localhost:1235" :: later ∧
        gone.length ≤ 1 := by
  have running : ((outcome (step knownSha1) without1236 dropTicks).nodes "localhost:1235").isSome = true := by
    decide +kernel
  obtain ⟨chord, found⟩ := Option.isSome_iff_exists.mp running
  obtain ⟨⟨gone, later, split, few, _⟩, _⟩ := survivors_stay_in_sight without1236_gaps
    (fun _ listed => by cases listed) (run_trace (step knownSha1) without1236 dropTicks) (by decide +kernel) found
  exact ⟨chord, found, gone, later, split, few⟩

theorem without1236_repaired : Linked twoPorts (outcome (step knownSha1) (outcome (step knownSha1)
    (outcome (step knownSha1) without1236 dropTicks) endTicks) greetTicks).nodes :=
  crash_repaired without1236_gaps (by decide) (fun _ listed => by cases listed)
    (run_trace (step knownSha1) without1236 dropTicks) (run_trace (step knownSha1) _ endTicks)
    (run_trace (step knownSha1) _ greetTicks) (by decide +kernel) (by decide +kernel) (by decide +kernel)
    (by decide +kernel) (by decide +kernel) (by decide +kernel)

end System

end Tda596Labs.Chord
