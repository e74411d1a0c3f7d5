import Tda596Labs.Chord.System

/-! # Invariants of the network

Most of what holds throughout a run is a condition on every running node together with a condition on the
point every goroutine has reached, since what a goroutine brings to a node was read at another one.  Such a
pair is kept by every step of the network if the code of one node keeps it: the first step of a tick or
command, a step of a goroutine, and a handler (`Upholds`).
-/

namespace Tda596Labs.Chord

open Transition

namespace System

/-- Every node meets a condition, and so does the point every goroutine has reached. -/
structure All (onNode : NodeAddress → Chord → Prop) (onTask : NodeAddress → Phase → Prop) (s : System) :
    Prop where
  nodes : ∀ a chord, s.nodes a = some chord → onNode a chord
  tasks : ∀ task ∈ s.tasks, onTask task.node task.phase

/-- The code of one node keeps the conditions in every event that is allowed. -/
structure Upholds (sha1 : String → Nat) (onNode : NodeAddress → Chord → Prop)
    (onTask : NodeAddress → Phase → Prop) (allowed : System → Event → Prop) : Prop where
  boots : ∀ {s e a chord tasks}, allowed s e → Boots sha1 e a chord tasks →
    onNode a chord ∧ ∀ task ∈ tasks, onTask task.node task.phase
  begins : ∀ {s e a chord changed phase}, allowed s e → onNode a chord →
    Begins sha1 a chord e changed phase → onNode a changed ∧ onTask a phase
  proceeds : ∀ {s k disk chord changed a phase next spawned}, allowed s (.resume k disk) →
    onNode (phase.site a) chord → onTask a phase →
    proceed sha1 disk chord phase = some (changed, next, spawned) →
    onNode (phase.site a) changed ∧ ∀ p ∈ next :: spawned, onTask a p
  serves : ∀ {s k disk chord changed a target phase next}, allowed s (.handle k disk) →
    onNode target chord → onTask a phase → phase.awaits = some target →
    Serves sha1 disk a chord phase changed next → onNode target changed ∧ onTask a next
  fails : ∀ {s : System} {k task next}, allowed s (.fail k) → s.tasks[k]? = some task →
    onTask task.node task.phase → task.phase.failed = some next → onTask task.node next
  stops : ∀ {s a phase}, allowed s (.crash a) → onTask a phase → onTask a .finished
  cutOff : ∀ {s a b phase}, allowed s (.crash a) → onTask b phase → onTask b (phase.cutOff a)
  left : ∀ {s a dest phase next}, allowed s (.crash a) → onTask a phase → phase.handler = some (dest, next) →
    onTask dest next

section

variable {sha1 : String → Nat} {onNode : NodeAddress → Chord → Prop} {onTask : NodeAddress → Phase → Prop}
  {allowed : System → Event → Prop} {s t : System} {e : Event}

theorem all_init : init.All onNode onTask where
  nodes _ _ found := by cases found
  tasks _ listed := by cases listed

theorem All.update (all : s.All onNode onTask) {a : NodeAddress} {chord : Chord} (new : onNode a chord)
    (b : NodeAddress) (chord' : Chord) (found : Function.update s.nodes a (some chord) b = some chord') :
    onNode b chord' := by
  by_cases equal : b = a
  · subst equal
    rw [Function.update_self] at found
    exact Option.some.inj found ▸ new
  · rw [Function.update_of_ne equal] at found
    exact all.nodes b chord' found

theorem All.append (all : s.All onNode onTask) {tasks : List Task}
    (new : ∀ task ∈ tasks, onTask task.node task.phase) :
    ∀ task ∈ s.tasks ++ tasks, onTask task.node task.phase := by
  intro task listed
  obtain old | isNew := List.mem_append.mp listed
  · exact all.tasks task old
  · exact new task isNew

theorem All.set (all : s.All onNode onTask) {k : Nat} {task : Task} {phase : Phase}
    (new : onTask task.node phase) :
    ∀ task' ∈ s.tasks.set k { task with phase := phase }, onTask task'.node task'.phase := by
  intro task' listed
  obtain old | rfl := List.mem_or_eq_of_mem_set listed
  · exact all.tasks task' old
  · exact new

theorem All.resume (all : s.All onNode onTask) (upholds : Upholds sha1 onNode onTask allowed) {k : Nat}
    {disk : Disk} (allow : allowed s (.resume k disk)) (moved : s.resume sha1 k disk = some t) :
    t.All onNode onTask := by
  -- the inversion of `proceed` forgets some of what is sent on
  simp only [System.resume, Option.bind_eq_bind, Option.bind_eq_some_iff] at moved
  obtain ⟨task, member, chord, found, ⟨changed, phase, spawned⟩, ran, moved⟩ := moved
  split at moved
  · obtain rfl := Option.some.inj moved
    have old := all.tasks task (List.mem_of_getElem? member)
    obtain ⟨node, new⟩ := upholds.proceeds allow (all.nodes _ _ found) old ran
    refine ⟨all.update node, ?_⟩
    intro task' inside
    obtain kept | ⟨here, isNew⟩ := mem_resumed inside
    · exact all.tasks task' kept
    · rw [here]
      exact new _ isNew
  · cases moved

/-- Every step that is allowed keeps the conditions. -/
theorem All.step (all : s.All onNode onTask) (upholds : Upholds sha1 onNode onTask allowed)
    (allow : allowed s e) (moved : step sha1 s e = some t) : t.All onNode onTask := by
  cases step_effect moved with
  | launch boots =>
    obtain ⟨node, tasks⟩ := upholds.boots allow boots
    exact ⟨all.update node, all.append tasks⟩
  | start starts found _ _ _ ran =>
    obtain ⟨node, task⟩ := upholds.begins allow (all.nodes _ _ found) (starts.begins ran)
    exact ⟨all.update node, all.append (by simpa using task)⟩
  | resume => exact all.resume upholds allow moved
  | handle member asks found _ serves =>
    have old := all.tasks _ (List.mem_of_getElem? member)
    obtain ⟨node, task⟩ := upholds.serves allow (all.nodes _ _ found) old asks serves
    exact ⟨all.update node, all.set task⟩
  | fail member gives =>
    have old := all.tasks _ (List.mem_of_getElem? member)
    exact ⟨all.nodes, all.set (upholds.fails allow member old gives)⟩
  | crash a =>
    constructor
    · intro b chord found
      by_cases equal : b = a
      · subst equal
        simp [crash] at found
      · simp only [crash, Function.update_of_ne equal] at found
        exact all.nodes b chord found
    · intro task' listed
      obtain ⟨task, old, rfl⟩ := List.mem_map.mp listed
      have before := all.tasks task old
      generalize left : s.afterCrash a task = after
      cases left ▸ outlives s a task with
      | elsewhere => exact upholds.cutOff allow before
      | ended here =>
        rw [here]
        exact upholds.stops allow (here ▸ before)
      | handler here isHandler => exact upholds.left allow (here ▸ before) isHandler

theorem Upholds.run (upholds : Upholds sha1 onNode onTask allowed) {taken : List (Taken System Event)}
    (run : Run (System.step sha1) s taken t) (allow : AllMeet allowed taken) (start : s.All onNode onTask) :
    t.All onNode onTask :=
  run.invariant allow start fun _ _ _ all allow moved => all.step upholds allow moved

end

end System

end Tda596Labs.Chord
