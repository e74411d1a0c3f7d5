import Tda596Labs.Chord.System
import Tda596Labs.Chord.Ring

/-! # Copies of files

A node sends a copy of every file it stores to its successor, once, right after storing it.  What
happens to the successor afterwards is not followed up: a node that gets a new successor does not send
its files again, and a node without predecessor turns the copies it keeps into files of its own.  So a
file is covered by a copy as long as neither happens to the nodes concerned.
-/

namespace Tda596Labs.Chord

/-- The goroutine is about to send a copy of the file from `x` to its successor `succ`. -/
def Phase.Duplicating (x succ : NodeAddress) (name : String) : Phase → Prop
  | .duplicate request _ dest => dest = x ∧ request.fileName = name
  | .duplicateCall request _ dest target => dest = x ∧ target = succ ∧ request.fileName = name
  | _ => False

/-- No failure has happened to the goroutine, and it does not take over files. -/
def Phase.Calm : Phase → Prop
  | .stabilizeFailed | .takeOver _ | .takeOverCall _ _ _ => False
  | .duplicateCall request _ _ _ => request.duplicationReq = true
  | _ => True

/-! ## Steps of one goroutine -/

section Phases

variable {sha1 : String → Nat} {disk : Disk} {chord changed : Chord} {phase next : Phase}

theorem storeResolved_spec (request : StoreFileRequest) (back : Return) (resolving : Resolving) :
    (storeResolved request back resolving).handing = (Phase.resolve request back).handing ∧
      (storeResolved request back resolving).Calm := by
  cases resolving <;> exact ⟨rfl, trivial⟩

theorem lookupResolved_spec (request : RetreiveFileRequest) (resolving : Resolving) :
    (lookupResolved request resolving).handing = [] ∧ (lookupResolved request resolving).Calm := by
  cases resolving <;> exact ⟨rfl, trivial⟩

theorem handedOff_spec (progress : HandOff) :
    (handedOff progress).handing = progress.names ∧ (handedOff progress).Calm := by
  cases progress <;> exact ⟨rfl, trivial⟩

/-- What a step of a goroutine lists, and what it starts, is listed before at the node it runs at. -/
structure Retains (phase : Phase) (chord changed : Chord) (next : List Phase) : Prop where
  calm : ∀ p ∈ next, p.Calm
  handing : ∀ p ∈ next, ∀ name ∈ p.handing,
    name ∈ phase.handing ∨ (name ∈ chord.files ∧ ∀ node, phase.site node = node)
  files : ∀ name ∈ changed.files,
    name ∈ chord.files ∨ (name ∈ phase.handing ∧ ∀ node, phase.site node = node)
  replicatedFiles : changed.replicatedFiles = chord.replicatedFiles

/-- Only pointers change, and the goroutine goes on with the files it had. -/
theorem Retains.of_keeps (keeps : KeepsFiles chord changed) (calm : next.Calm)
    (handing : ∀ name ∈ next.handing, name ∈ phase.handing) : Retains phase chord changed [next] where
  calm := by simpa using calm
  handing := by simpa using fun name inside => .inl (handing name inside)
  files := fun _ inside => .inl (keeps.files ▸ inside)
  replicatedFiles := keeps.replicatedFiles

/-- Only pointers change, and no goroutine hands off files. -/
theorem Retains.of_idle {next : List Phase} (keeps : KeepsFiles chord changed)
    (idle : ∀ p ∈ next, p.Calm ∧ p.handing = []) : Retains phase chord changed next where
  calm := fun p member => (idle p member).1
  handing := fun p member name inside => by simp [(idle p member).2] at inside
  files := fun _ inside => .inl (keeps.files ▸ inside)
  replicatedFiles := keeps.replicatedFiles

theorem Proceeds.retains {spawned : List Phase}
    (proceeds : Proceeds sha1 disk chord phase changed next spawned) (calm : phase.Calm)
    (stays : phase = .checked false → chord.replicatedFiles = []) :
    Retains phase chord changed (next :: spawned) := by
  cases proceeds with
  | handsOff =>
    have spec := reassignToPred_spec sha1 disk chord
    obtain ⟨names, calm⟩ := handedOff_spec (reassignToPred sha1 disk chord).2
    refine ⟨by simpa using calm, ?_, fun name inside => .inl ((spec.files name inside).elim id id),
      spec.replicatedFiles⟩
    -- The hand-off begins: what it may hand off are the files of the node.
    simp only [List.mem_singleton, forall_eq, names]
    exact fun name inside => .inr ⟨spec.names name inside, fun _ => rfl⟩
  | handsOn rest keepFiles =>
    have spec := handOff_spec sha1 disk chord rest keepFiles
    obtain ⟨names, calm⟩ := handedOff_spec (handOff sha1 disk chord rest keepFiles).2
    refine ⟨by simpa using calm, ?_, fun name inside => ?_, spec.replicatedFiles⟩
    · simp only [List.mem_singleton, forall_eq, names]
      exact fun name inside => .inl (spec.names name inside)
    · exact (spec.files name inside).imp_right fun listed => ⟨listed, fun _ => rfl⟩
  | resolves request back =>
    obtain ⟨names, calm⟩ :=
      storeResolved_spec request back (resolveFirst sha1 chord request.fileIdentifier)
    exact .of_keeps (.refl chord) calm fun _ inside => (names ▸ inside :)
  | uncopied | returns => exact .of_keeps (.refl chord) trivial fun _ inside => inside
  | copies => exact .of_keeps (.refl chord) rfl fun _ inside => inside
  | @fingered index _ _ response _ onward =>
    refine .of_idle (resolvedFinger_keeps chord index response).toKeepsFiles ?_
    rcases onward with rfl | ⟨query, rest, rfl⟩ <;> simp [Phase.Calm, Phase.handing, Phase.work]
  | verified good verifies =>
    exact .of_idle (verifySuccs_keeps verifies).1 (by simp [Phase.Calm, Phase.handing, Phase.work])
  | accepted => exact .of_idle (accepted_keeps chord _) (by simp [Phase.Calm, Phase.handing, Phase.work])
  | unfingered =>
    exact .of_idle (setFinger_keeps chord _ _).toKeepsFiles (by simp [Phase.Calm, Phase.handing, Phase.work])
  | forgets => exact .of_idle (setPredecessor_keeps chord _) (by simp [Phase.Calm, Phase.handing, Phase.work])
  | begins some_ => exact absurd (stays rfl) some_
  | drops | takenOver | moves => exact calm.elim
  | _ => exact .of_idle (.refl chord) (by simp [Phase.Calm, Phase.handing, Phase.work, Return.work])

/-- In a calm network a goroutine gives its own node a new successor only after a `CallNotify`. -/
theorem Proceeds.first {spawned : List Phase}
    (proceeds : Proceeds sha1 disk chord phase changed next spawned) (calm : phase.Calm) :
    changed.node.successors.first = chord.node.successors.first ∨
      ∃ target response, phase = .notifyReply target response ∧ response.success = true ∧
        chord.node.successors.first ≠ target := by
  cases proceeds with
  | @accepted target response success =>
    by_cases same : chord.node.successors.first = target
    · exact .inl same.symm
    · exact .inr ⟨target, response, rfl, success, same⟩
  | verified _ verifies => exact .inl (verifySuccs_keeps verifies).2.2
  | fingered => exact .inl (by rw [(resolvedFinger_keeps chord _ _).successors])
  | handsOff => exact .inl (by rw [(reassignToPred_spec sha1 disk chord).node])
  | handsOn rest keepFiles => exact .inl (by rw [(handOff_spec sha1 disk chord rest keepFiles).node])
  | drops | takenOver | moves => exact calm.elim
  | _ => exact .inl rfl

theorem Proceeds.site_of_duplicating {spawned : List Phase} {x succ : NodeAddress} {name : String}
    (proceeds : Proceeds sha1 disk chord phase changed next spawned)
    (duplicating : phase.Duplicating x succ name) (node : NodeAddress) : phase.site node = x := by
  cases proceeds with
  | uncopied | copies => exact duplicating.1
  | _ => exact duplicating.elim

/-- A copy that is about to be sent is sent on, unless there is nobody to send it to. -/
theorem Proceeds.duplicating {spawned : List Phase} {x : NodeAddress} {name : String}
    (proceeds : Proceeds sha1 disk chord phase changed next spawned)
    (duplicating : phase.Duplicating x chord.node.successors.first name)
    (named : chord.node.nodeAddress = x) :
    chord.node.successors.first = x ∨ chord.node.successors.first = "X" ∨
      next.Duplicating x chord.node.successors.first name := by
  cases proceeds with
  | uncopied alone =>
    unfold callDuplication at alone
    split at alone
    · next unknown => exact .inr (.inl unknown)
    · split at alone
      · next itself => exact .inl (itself.trans named)
      · cases alone
  | copies sends =>
    unfold callDuplication at sends
    split at sends
    · cases sends
    · split at sends
      · cases sends
      · exact .inr (.inr ⟨duplicating.1, (Option.some.inj sends).symm, duplicating.2⟩)
  | _ => exact duplicating.elim

/-- A handler takes no copy away, and a file it stores is about to be copied. -/
theorem Serves.retains {me : NodeAddress} (serves : Serves sha1 disk me chord phase changed next)
    (calm : phase.Calm) :
    next.Calm ∧ next.handing = phase.handing ∧
    (∀ name ∈ changed.files, name ∈ chord.files ∨
      ∃ request back dest, phase = .storeCall request back dest ∧ next = .duplicate request back dest ∧
        request.fileName = name) ∧
    (∀ name ∈ chord.replicatedFiles, name ∈ changed.replicatedFiles) := by
  have kept : KeepsFiles chord changed →
      (∀ name ∈ changed.files, name ∈ chord.files ∨
        ∃ request back dest, phase = .storeCall request back dest ∧ next = .duplicate request back dest ∧
          request.fileName = name) ∧
      (∀ name ∈ chord.replicatedFiles, name ∈ changed.replicatedFiles) := fun keeps =>
    ⟨fun name inside => .inl (keeps.files ▸ inside), fun name inside => keeps.replicatedFiles ▸ inside⟩
  cases serves with
  | notify request => exact ⟨trivial, rfl, kept (notify_keeps sha1 chord request).1⟩
  | join request => exact ⟨trivial, rfl, kept (join_keeps sha1 chord request)⟩
  | stabilize request => exact ⟨trivial, rfl, kept (stabilized_keeps chord request).1⟩
  | resolve request back =>
    obtain ⟨names, calm⟩ := storeResolved_spec request back
      (resolveNext me _ (findSuccessor sha1 chord request.fileIdentifier))
    exact ⟨calm, names, kept (.refl chord)⟩
  | lookupFind request =>
    obtain ⟨names, calm⟩ := lookupResolved_spec request
      (resolveNext me _ (findSuccessor sha1 chord request.fileIdentifier))
    exact ⟨calm, names, kept (.refl chord)⟩
  | @stores request back dest ok original =>
    obtain ⟨files, replicated⟩ := storeFile_lists disk chord request
    simp only [ok, original, true_and, if_true] at files
    refine ⟨trivial, rfl, fun name inside => ?_, fun name inside => ?_⟩
    · rw [files, List.mem_append, List.mem_singleton] at inside
      exact inside.imp_right fun same => ⟨request, back, dest, rfl, rfl, same.symm⟩
    · exact replicated ▸ List.mem_append_left _ inside
  | @unstored request back dest ends =>
    obtain ⟨files, replicated⟩ := storeFile_lists disk chord request
    have other : ¬ ((storeFile disk chord request).2 = .fileOk ∧ request.duplicationReq = false) := by
      rintro ⟨ok, original⟩
      exact ends.elim (absurd ok) (by simp [original])
    rw [if_neg other, List.append_nil] at files
    exact ⟨trivial, rfl, fun name inside => .inl (files ▸ inside),
      fun name inside => replicated ▸ List.mem_append_left _ inside⟩
  | @duplicates request back dest succ =>
    obtain ⟨files, replicated⟩ := storeFile_lists disk chord request
    have copy : request.duplicationReq = true := calm
    simp only [copy, Bool.true_eq_false, and_false, if_false, List.append_nil] at files
    exact ⟨trivial, rfl, fun name inside => .inl (files ▸ inside),
      fun name inside => replicated ▸ List.mem_append_left _ inside⟩
  | takesOver => exact calm.elim
  | _ => exact ⟨trivial, rfl, kept (.refl chord)⟩

/-- A handler gives its node a new successor only in a `Join`. -/
theorem Serves.first {me : NodeAddress} (serves : Serves sha1 disk me chord phase changed next) :
    changed.node.successors.first = chord.node.successors.first ∨
      ∃ request target, phase = .joinCall request target ∧
        ((find sha1 chord request.identifier .zero).1 = .mySucc ∨
          (find sha1 chord request.identifier .zero).1 = .soloNode) := by
  cases serves with
  | notify request => exact .inl (by rw [(notify_keeps sha1 chord request).2])
  | stabilize request => exact .inl (by rw [(stabilized_keeps chord request).2])
  | join request target =>
    unfold Chord.join
    generalize answer : find sha1 chord request.identifier .zero = result
    obtain ⟨code, response⟩ := result
    cases code with
    | mySucc => exact .inr ⟨request, target, rfl, .inl (by rw [answer])⟩
    | soloNode => exact .inr ⟨request, target, rfl, .inr (by rw [answer])⟩
    | iAmSucc | passAlong => exact .inl rfl
  | stores | unstored | duplicates | takesOver => exact .inl (by rw [storeFile_node])
  | _ => exact .inl rfl

/-- With a working disk the copy arrives. -/
theorem Serves.duplicating {me x succ : NodeAddress} {name : String}
    (serves : Serves sha1 .good me chord phase changed next) (calm : phase.Calm)
    (duplicating : phase.Duplicating x succ name) :
    phase.awaits = some succ ∧ name ∈ changed.replicatedFiles := by
  cases serves with
  | duplicates request back dest target =>
    obtain ⟨_, rfl, rfl⟩ := duplicating
    have copy : request.duplicationReq = true := calm
    obtain ⟨_, replicated⟩ := storeFile_lists .good chord request
    simp only [storeFile_good, copy, true_and, if_true] at replicated
    exact ⟨rfl, replicated ▸ by simp⟩
  | _ => exact duplicating.elim

end Phases

namespace System

open Transition

/-- No crash, and every RPC and file operation succeeds. -/
def FaultFree : Event → Prop
  | .fail _ | .crash _ => False
  | .resume _ disk | .handle _ disk => disk = .good
  | _ => True

instance (e : Event) : Decidable (FaultFree e) :=
  match e with
  | .fail _ | .crash _ => isFalse id
  | .resume _ disk | .handle _ disk => inferInstanceAs (Decidable (disk = .good))
  | .create _ _ | .enter _ _ _ | .stabilize _ | .fixFingers _ | .checkPred _ | .storeFile _ _ _
  | .lookup _ _ => isTrue trivial

/-- The node has no files and hands none off. -/
def Unburdened (s : System) (x : NodeAddress) : Prop :=
  ((s.nodes x).all fun chord => chord.files = []) = true ∧
    ∀ task ∈ s.tasks, task.node = x → task.phase.handing = []

instance (s : System) (x : NodeAddress) : Decidable (Unburdened s x) :=
  inferInstanceAs (Decidable (_ ∧ _))

/-- The node that the event gives a new `Successors[0]`: one that answers a `Join` with `MYSUCC` or
`SOLONODE`, one whose `CallNotify` was accepted by another node than its successor, one that falls back
on `findNewSucc`. -/
def repoints (sha1 : String → Nat) (s : System) : Event → Option NodeAddress
  | .stabilize a =>
    if (s.nodes a).any fun chord => chord.node.successors.first = "X" then some a else none
  | .handle k _ =>
    match s.tasks[k]? with
    | some ⟨_, _, .joinCall request target⟩ =>
      if (s.nodes target).any fun chord =>
          (find sha1 chord request.identifier .zero).1 = .mySucc ∨
            (find sha1 chord request.identifier .zero).1 = .soloNode then
        some target
      else none
    | _ => none
  | .resume k _ =>
    match s.tasks[k]? with
    | some ⟨a, _, .notifyReply target response⟩ =>
      if response.success ∧ (s.nodes a).any (fun chord => chord.node.successors.first ≠ target) then some a
      else none
    | _ => none
  | _ => none

/-- A node gets a new successor only while it has no files, and no node takes over copies. -/
def CopiesStay (sha1 : String → Nat) (s : System) (e : Event) : Prop :=
  (∀ x ∈ repoints sha1 s e, Unburdened s x) ∧ s.takesOver e = false

instance (sha1 : String → Nat) (s : System) (e : Event) : Decidable (CopiesStay sha1 s e) :=
  inferInstanceAs (Decidable (_ ∧ _))

/-! ## The invariant -/

/-- The file belongs to the node: it is in its list, or a hand-off may put it there again. -/
def Listed (s : System) (x : NodeAddress) (name : String) : Prop :=
  (∃ chord, s.nodes x = some chord ∧ name ∈ chord.files) ∨
    ∃ task ∈ s.tasks, task.node = x ∧ name ∈ task.phase.handing

/-- A copy of the file from `x` is at its successor `succ` or on its way; or there is no successor. -/
def CopiedTo (s : System) (x succ : NodeAddress) (name : String) : Prop :=
  succ = x ∨ succ = "X" ∨ (∃ other, s.nodes succ = some other ∧ name ∈ other.replicatedFiles) ∨
    ∃ task ∈ s.tasks, task.phase.Duplicating x succ name

def Covered (s : System) (x : NodeAddress) (name : String) : Prop :=
  ∃ chord, s.nodes x = some chord ∧ CopiedTo s x chord.node.successors.first name

structure CopyInv (s : System) : Prop where
  addressed : s.Addressed
  calm : ∀ task ∈ s.tasks, task.phase.Calm
  covered : ∀ x name, Listed s x name → Covered s x name

theorem Unburdened.not_listed {s : System} {x : NodeAddress} (unburdened : Unburdened s x)
    (name : String) : ¬ Listed s x name := by
  rintro (⟨chord, found, inside⟩ | ⟨task, member, atNode, inside⟩)
  · have none_ := unburdened.1
    simp only [found, Option.all_some, decide_eq_true_eq] at none_
    rw [none_] at inside
    cases inside
  · rw [unburdened.2 task member atNode] at inside
    cases inside

section Frame

variable {s t : System} {a x : NodeAddress} {changed : Chord} {name : String}

/-- Copies that are on their way from `x` in the first state are on their way or there in the second. -/
def Delivers (s t : System) (x succ : NodeAddress) (name : String) : Prop :=
  ∀ task ∈ s.tasks, task.phase.Duplicating x succ name → CopiedTo t x succ name

/-- A step at one node keeps the files of all nodes covered if it takes no copy away, changes no
successor of a node with files, and finishes what it began. -/
theorem Covered.update (covered : Covered s x name)
    (nodes : t.nodes = Function.update s.nodes a (some changed))
    (grows : ∀ chord, s.nodes a = some chord →
      ∀ name ∈ chord.replicatedFiles, name ∈ changed.replicatedFiles)
    (first : x = a → ∀ chord, s.nodes a = some chord →
      changed.node.successors.first = chord.node.successors.first)
    (delivers : ∀ owner, s.nodes x = some owner → Delivers s t x owner.node.successors.first name) :
    Covered t x name := by
  obtain ⟨owner, ownerFound, copied⟩ := covered
  have now : CopiedTo t x owner.node.successors.first name := by
    rcases copied with alone | unknown | ⟨other, otherFound, inside⟩ | ⟨task, member, duplicating⟩
    · exact .inl alone
    · exact .inr (.inl unknown)
    · by_cases equal : owner.node.successors.first = a
      · rw [equal] at otherFound
        exact .inr (.inr (.inl ⟨changed, by rw [nodes, equal, Function.update_self],
          grows other otherFound name inside⟩))
      · exact .inr (.inr (.inl ⟨other, by rw [nodes, Function.update_of_ne equal]; exact otherFound, inside⟩))
    · exact delivers owner ownerFound task member duplicating
  by_cases equal : x = a
  · refine ⟨changed, by rw [nodes, equal, Function.update_self], ?_⟩
    rw [first equal owner (equal ▸ ownerFound)]
    exact now
  · exact ⟨owner, by rw [nodes, Function.update_of_ne equal]; exact ownerFound, now⟩

/-- A step at one node keeps everything covered if what it lists was listed before or is covered now. -/
theorem CopyInv.update (inv : CopyInv s) (addressed : t.Addressed)
    (nodes : t.nodes = Function.update s.nodes a (some changed))
    (calm : ∀ task ∈ t.tasks, task.phase.Calm)
    (files : ∀ name ∈ changed.files, Listed s a name ∨ Covered t a name)
    (handing : ∀ task ∈ t.tasks, ∀ name ∈ task.phase.handing, Listed s task.node name)
    (grows : ∀ chord, s.nodes a = some chord →
      ∀ name ∈ chord.replicatedFiles, name ∈ changed.replicatedFiles)
    (first : ∀ chord, s.nodes a = some chord →
      changed.node.successors.first = chord.node.successors.first ∨ Unburdened s a)
    (delivers : ∀ x owner, s.nodes x = some owner →
      ∀ name, Delivers s t x owner.node.successors.first name) : CopyInv t := by
  refine ⟨addressed, calm, fun x name listed => ?_⟩
  have before : Listed s x name ∨ Covered t x name := by
    rcases listed with ⟨chord, found, inside⟩ | ⟨task, member, rfl, inside⟩
    · rw [nodes] at found
      by_cases equal : x = a
      · subst equal
        rw [Function.update_self] at found
        exact files name (Option.some.inj found ▸ inside)
      · rw [Function.update_of_ne equal] at found
        exact .inl (.inl ⟨chord, found, inside⟩)
    · exact .inl (handing task member name inside)
  rcases before with listed | covered
  · refine (inv.covered x name listed).update nodes grows (fun equal chord found => ?_)
      fun owner found => delivers x owner found name
    rcases first chord found with same | unburdened
    · exact same
    · exact absurd listed (equal ▸ unburdened.not_listed name)
  · exact covered

/-- The same for a node that has been running. -/
theorem CopyInv.update_at (inv : CopyInv s) (addressed : t.Addressed) {chord : Chord}
    (found : s.nodes a = some chord) (nodes : t.nodes = Function.update s.nodes a (some changed))
    (calm : ∀ task ∈ t.tasks, task.phase.Calm)
    (files : ∀ name ∈ changed.files, Listed s a name ∨ Covered t a name)
    (handing : ∀ task ∈ t.tasks, ∀ name ∈ task.phase.handing, Listed s task.node name)
    (grows : ∀ name ∈ chord.replicatedFiles, name ∈ changed.replicatedFiles)
    (first : changed.node.successors.first = chord.node.successors.first ∨ Unburdened s a)
    (delivers : ∀ x owner, s.nodes x = some owner →
      ∀ name, Delivers s t x owner.node.successors.first name) : CopyInv t := by
  refine inv.update addressed nodes calm files handing (fun other same => ?_) (fun other same => ?_) delivers
  · exact Option.some.inj (found.symm.trans same) ▸ grows
  · exact Option.some.inj (found.symm.trans same) ▸ first

theorem delivers_of_subset (subset : ∀ task ∈ s.tasks, task ∈ t.tasks) (x succ : NodeAddress)
    (name : String) : Delivers s t x succ name :=
  fun task member duplicating => .inr (.inr (.inr ⟨task, subset task member, duplicating⟩))

theorem listed_of_task {task : Task} (member : task ∈ s.tasks) (inside : name ∈ task.phase.handing) :
    Listed s task.node name :=
  .inr ⟨task, member, rfl, inside⟩

end Frame

/-! ## Whole runs -/

section Run

variable {sha1 : String → Nat} {s t : System} {e : Event}

theorem Begins.calm {a : NodeAddress} {chord changed : Chord} {phase : Phase}
    (begins : Begins sha1 a chord e changed phase) : phase.Calm ∧ phase.handing = [] := by
  cases begins with
  | looksUp => exact (lookupResolved_spec _ _).symm
  | _ => exact ⟨trivial, rfl⟩

/-- A tick gives its node a new successor only if the old one is unknown. -/
theorem Begins.first {a : NodeAddress} {chord changed : Chord} {phase : Phase}
    (begins : Begins sha1 a chord e changed phase) :
    changed.node.successors.first = chord.node.successors.first ∨
      (e = .stabilize a ∧ chord.node.successors.first = "X") := by
  cases begins with
  | searches unknown => exact .inr ⟨rfl, unknown⟩
  | fixed | fixes => exact .inl (by rw [(fixFingers_keeps sha1 chord).successors])
  | _ => exact .inl rfl

theorem CopyInv.launched (inv : CopyInv s) (addressed : t.Addressed) {a : NodeAddress} {chord : Chord}
    {tasks : List Task} (boots : Boots sha1 e a chord tasks) (fresh : s.nodes a = none)
    (nodes : t.nodes = Function.update s.nodes a (some chord)) (running : t.tasks = s.tasks ++ tasks) :
    CopyInv t := by
  have idle : ∀ task ∈ tasks, task.phase.Calm ∧ task.phase.handing = [] := by
    cases boots <;> simp [Phase.Calm, Phase.handing, Phase.work]
  have empty : chord.files = [] := by cases boots <;> rfl
  have kept : ∀ task ∈ s.tasks, task ∈ t.tasks := fun task old => running ▸ List.mem_append_left _ old
  refine inv.update addressed nodes (fun task member => ?_) (by simp [empty])
    (fun task member name inside => ?_) (by simp [fresh]) (by simp [fresh]) fun x owner _ name => delivers_of_subset kept x _ name
  · rw [running] at member
    exact (List.mem_append.mp member).elim (inv.calm task) fun new => (idle task new).1
  · rw [running] at member
    rcases List.mem_append.mp member with old | new
    · exact listed_of_task old inside
    · simp [(idle task new).2] at inside

theorem CopyInv.started (inv : CopyInv s) (addressed : t.Addressed) {a : NodeAddress}
    {goroutine : Goroutine} {chord changed : Chord} {phase : Phase}
    (unburdened : ∀ x ∈ repoints sha1 s e, Unburdened s x) (found : s.nodes a = some chord)
    (begins : Begins sha1 a chord e changed phase)
    (nodes : t.nodes = Function.update s.nodes a (some changed))
    (running : t.tasks = s.tasks ++ [⟨a, goroutine, phase⟩]) : CopyInv t := by
  obtain ⟨calm, idle⟩ := begins.calm
  have kept : ∀ task ∈ s.tasks, task ∈ t.tasks := fun task old => running ▸ List.mem_append_left _ old
  refine inv.update_at addressed found nodes (fun task member => ?_) (fun name inside => ?_)
    (fun task member name inside => ?_) (fun name inside => begins.keeps.replicatedFiles ▸ inside)
    (begins.first.imp_right ?_) fun x owner _ name => delivers_of_subset kept x _ name
  · rw [running] at member
    rcases List.mem_append.mp member with old | new
    · exact inv.calm task old
    · exact List.mem_singleton.mp new ▸ calm
  · exact .inl (.inl ⟨chord, found, begins.keeps.files ▸ inside⟩)
  · rw [running] at member
    rcases List.mem_append.mp member with old | new
    · exact listed_of_task old inside
    · obtain rfl := List.mem_singleton.mp new
      simp [idle] at inside
  · rintro ⟨rfl, unknown⟩
    exact unburdened a (by simp [repoints, found, unknown])

theorem CopyInv.resumed (inv : CopyInv s) (addressed : t.Addressed) {k : Nat} {disk : Disk} {task : Task}
    {chord changed : Chord} {phase : Phase} {spawned : List Phase}
    (stay : CopiesStay sha1 s (.resume k disk)) (member : s.tasks[k]? = some task)
    (found : s.nodes (task.phase.site task.node) = some chord)
    (proceeds : Proceeds sha1 disk chord task.phase changed phase spawned)
    (nodes : t.nodes = Function.update s.nodes (task.phase.site task.node) (some changed))
    (running : t.tasks = s.tasks.set k { task with phase := phase } ++
      spawned.map fun phase => ⟨task.node, .spawned, phase⟩) : CopyInv t := by
  have inTasks := Pool.mem_of_found member
  have calm := inv.calm task inTasks
  have stays : task.phase = .checked false → chord.replicatedFiles = [] := by
    intro isChecked
    by_contra some_
    rw [isChecked] at found
    exact absurd (takesOver_of_checked disk member isChecked found some_) (by simp [stay.2])
  have retains := proceeds.retains calm stays
  refine inv.update_at addressed found nodes (fun task' inside => ?_) (fun name inside => ?_)
    (fun task' inside name handed => ?_) (fun name inside => retains.replicatedFiles ▸ inside)
    ((proceeds.first calm).imp_right ?_) fun x owner ownerFound name task' inside duplicating => ?_
  · rw [running] at inside
    exact (mem_resumed inside).elim (inv.calm task') fun new => retains.calm _ new.2
  · rcases retains.files name inside with listed | ⟨handed, atNode⟩
    · exact .inl (.inl ⟨chord, found, listed⟩)
    · rw [atNode task.node]
      exact .inl (listed_of_task inTasks handed)
  · rw [running] at inside
    rcases mem_resumed inside with old | ⟨sameNode, new⟩
    · exact listed_of_task old handed
    · rw [sameNode]
      rcases retains.handing _ new name handed with before | ⟨listed, atNode⟩
      · exact listed_of_task inTasks before
      · exact .inl ⟨chord, atNode task.node ▸ found, listed⟩
  · rintro ⟨notified, response, isReply, success, different⟩
    obtain ⟨node, goroutine, phase⟩ := task
    subst isReply
    have here : s.nodes node = some chord := found
    exact stay.1 node (by simp [repoints, member, success, here, different])
  · rcases Pool.mem_set_or_eq member { task with phase := phase } inside with kept | rfl
    · exact .inr (.inr (.inr ⟨task', running ▸ List.mem_append_left _ kept, duplicating⟩))
    · rw [proceeds.site_of_duplicating duplicating] at found
      obtain rfl := Option.some.inj (found.symm.trans ownerFound)
      rcases proceeds.duplicating duplicating (inv.addressed x chord found) with alone | unknown | onward
      · exact .inl alone
      · exact .inr (.inl unknown)
      · obtain ⟨task'', inside', _, samePhase⟩ := exists_resumed member (List.mem_cons_self (l := spawned))
        exact .inr (.inr (.inr ⟨task'', running ▸ inside', samePhase ▸ onward⟩))

theorem CopyInv.handled (inv : CopyInv s) (addressed : t.Addressed) {k : Nat} {task : Task}
    {target : NodeAddress} {chord changed : Chord} {phase : Phase}
    (unburdened : ∀ x ∈ repoints sha1 s (.handle k .good), Unburdened s x)
    (member : s.tasks[k]? = some task) (asks : task.phase.awaits = some target)
    (found : s.nodes target = some chord)
    (serves : Serves sha1 .good task.node chord task.phase changed phase)
    (nodes : t.nodes = Function.update s.nodes target (some changed))
    (running : t.tasks = s.tasks.set k { task with phase := phase }) : CopyInv t := by
  have calm := inv.calm task (Pool.mem_of_found member)
  obtain ⟨nextCalm, sameHanding, files, grows⟩ := serves.retains calm
  have now : t.nodes target = some changed := by rw [nodes, Function.update_self]
  refine inv.update_at addressed found nodes (running ▸ Pool.forall_set inv.calm nextCalm)
    (fun name inside => ?_) (fun task' inside name handed => ?_) grows (serves.first.imp_right ?_)
    fun x owner ownerFound name task' inside duplicating => ?_
  · rcases files name inside with listed | ⟨request, back, dest, isStore, isDuplicate, rfl⟩
    · exact .inl (.inl ⟨chord, found, listed⟩)
    · -- A new file: its copy is the next thing the handler sends.
      rw [isStore] at asks
      obtain rfl := Option.some.inj asks
      have copying : { task with phase := phase } ∈ t.tasks := running ▸ Pool.mem_set_self member _
      exact .inr ⟨changed, now, .inr (.inr (.inr ⟨_, copying, by rw [isDuplicate]; exact ⟨rfl, rfl⟩⟩))⟩
  · rw [running] at inside
    rcases List.mem_or_eq_of_mem_set inside with kept | rfl
    · exact listed_of_task kept handed
    · have before : Listed s task.node name :=
        listed_of_task (Pool.mem_of_found member) (sameHanding ▸ handed)
      exact before
  · rintro ⟨request, asked, isJoin, answer⟩
    obtain ⟨node, goroutine, phase⟩ := task
    subst isJoin
    obtain rfl := Option.some.inj asks
    exact unburdened asked (by simp [repoints, member, found, answer])
  · rcases Pool.mem_set_or_eq member { task with phase := phase } inside with kept | rfl
    · exact .inr (.inr (.inr ⟨task', running ▸ kept, duplicating⟩))
    · obtain ⟨atSuccessor, arrived⟩ := serves.duplicating calm duplicating
      obtain rfl := Option.some.inj (asks.symm.trans atSuccessor)
      exact .inr (.inr (.inl ⟨changed, now, arrived⟩))

theorem CopyInv.step (inv : CopyInv s) (faultFree : FaultFree e) (stay : CopiesStay sha1 s e)
    (moved : step sha1 s e = some t) : CopyInv t := by
  have addressed := inv.addressed.step moved
  cases step_effect moved with
  | launch boots _ fresh => exact inv.launched addressed boots fresh rfl rfl
  | start starts found _ _ _ ran =>
    exact inv.started addressed stay.1 found (starts.begins ran) rfl rfl
  | resume member found _ proceeds => exact inv.resumed addressed stay member found proceeds rfl rfl
  | handle member asks found _ serves =>
    obtain rfl := faultFree
    exact inv.handled addressed stay.1 member asks found serves rfl rfl
  | fail | crash => exact faultFree.elim

/-- The running nodes, at least two, form a ring and know their neighbours. -/
def RingSettled (sha1 : String → Nat) (s : System) : Prop :=
  ∃ ring : Ring sha1, 2 ≤ ring.members.length ∧ Linked ring s.nodes ∧
    ∀ a, (s.nodes a).isSome → a ∈ ring.members

/-- The successor of every node has copies of its files. -/
def Replicated (s : System) : Prop :=
  ∀ a chord, s.nodes a = some chord → ∀ name ∈ chord.files,
    ∃ other, s.nodes chord.node.successors.first = some other ∧ name ∈ other.replicatedFiles

theorem copyInv_init : CopyInv init where
  addressed := nofun
  calm := List.forall_mem_nil _
  covered _ _ listed := by
    obtain ⟨_, found, _⟩ | ⟨_, member, _⟩ := listed
    · cases found
    · cases member

/-- In a ring of two or more nodes that is at rest, a copy can only be in the list of the successor. -/
theorem CopyInv.replicated (inv : CopyInv s) (settled : RingSettled sha1 s) (quiet : Quiet s) :
    Replicated s := by
  obtain ⟨ring, two, linked, all⟩ := settled
  intro a chord found name inside
  have member : a ∈ ring.members := all a (by simp [found])
  obtain ⟨owner, ownerFound, _, first⟩ := linked.neighbours a member
  obtain rfl := Option.some.inj (found.symm.trans ownerFound)
  obtain ⟨owner, ownerFound, copied⟩ := inv.covered a name (.inl ⟨chord, found, inside⟩)
  obtain rfl := Option.some.inj (found.symm.trans ownerFound)
  rcases copied with alone | unknown | arrived | ⟨task, running, duplicating⟩
  · exact absurd (first.symm.trans alone) (ring.next_ne two member)
  · have known : chord.node.successors.first ∈ ring.members := first ▸ ring.next_mem
    exact absurd (unknown ▸ known) linked.noX
  · exact arrived
  · rw [quiet task running] at duplicating
    exact duplicating.elim

/-- In every run without faults in which a node gets a new successor only while it has no files, and in
which no node takes over copies: whenever the ring is correct and at rest, all files are replicated. -/
theorem replicated_of_copies_stay {taken : List (Taken System Event)}
    (run : Run (System.step sha1) init taken s)
    (all : AllMeet (fun s e => FaultFree e ∧ CopiesStay sha1 s e) taken)
    (settled : RingSettled sha1 s) (quiet : Quiet s) : Replicated s := by
  have inv : CopyInv s := run.invariant all copyInv_init fun s e t holds meets moved =>
    holds.step meets.1 meets.2 moved
  exact inv.replicated settled quiet

end Run

/-! ## A successor that joins later -/

/-- The node whose process the event starts. -/
def launches : Event → Option NodeAddress
  | .create a _ | .enter a _ _ => some a
  | _ => none

theorem isSome_of_update {nodes : NodeAddress → Option Chord} {a b : NodeAddress} {chord changed : Chord}
    (found : nodes b = some chord) (isNode : (Function.update nodes b (some changed) a).isSome) :
    (nodes a).isSome := by
  by_cases equal : a = b
  · simp [equal, found]
  · rwa [Function.update_of_ne equal] at isNode

/-- Only the start of its process brings a node into the network. -/
theorem launches_of_step {sha1 : String → Nat} {s t : System} {e : Event} {a : NodeAddress}
    (moved : step sha1 s e = some t) (isNode : (t.nodes a).isSome) :
    (s.nodes a).isSome ∨ launches e = some a := by
  cases step_effect moved with
  | @launch _ b chord tasks boots _ _ =>
    by_cases equal : a = b
    · subst equal
      cases boots <;> exact .inr rfl
    · simp only [Function.update_of_ne equal] at isNode
      exact .inl isNode
  | start _ found => exact .inl (isSome_of_update found isNode)
  | resume _ found => exact .inl (isSome_of_update found isNode)
  | handle _ _ found => exact .inl (isSome_of_update found isNode)
  | fail => exact .inl isNode
  | crash b =>
    by_cases equal : a = b
    · simp [crash, equal] at isNode
    · simp only [crash, Function.update_of_ne equal] at isNode
      exact .inl isNode

theorem launches_of_run {sha1 : String → Nat} {s : System} {taken : List (Taken System Event)}
    (run : Run (step sha1) init taken s) {a : NodeAddress} (isNode : (s.nodes a).isSome) :
    a ∈ taken.filterMap fun τ => launches τ.event := by
  induction run with
  | nil => cases isNode
  | snoc _ moved ih =>
    rw [List.filterMap_append, List.mem_append]
    refine (launches_of_step moved isNode).imp ih fun started => ?_
    simp [started]

/-- To settle on a ring, its members must know their neighbours, and no other process was started. -/
theorem settled_of_run {sha1 : String → Nat} (ring : Ring sha1) (two : 2 ≤ ring.members.length)
    (noX : "X" ∉ ring.members) {s : System} {taken : List (Taken System Event)}
    (run : Run (step sha1) init taken s)
    (started : ∀ a ∈ taken.filterMap (fun τ => launches τ.event), a ∈ ring.members)
    (linked : ∀ a ∈ ring.members, (s.nodes a).any (fun chord =>
      chord.node.predecessor = ring.previous a ∧ chord.node.successors.first = ring.next a) = true) :
    RingSettled sha1 s := by
  refine ⟨ring, two, ⟨noX, fun a member => ?_⟩, fun a isNode => started a (launches_of_run run isNode)⟩
  obtain ⟨chord, found, neighbours⟩ := (Option.any_eq_true ..).mp (linked a member)
  exact ⟨chord, found, of_decide_eq_true neighbours⟩

/-- `localhost:1235` joins `localhost:1234`; the goroutines that do it are numbered from `k`. -/
def joining (k : Nat) : List Event :=
  [.enter "localhost:1235" 1 "localhost:1234", .resume k .good, .handle k .good, .resume k .good,
    .resume (k + 1) .good, .handle (k + 1) .good, .resume (k + 1) .good,
    .stabilize "localhost:1234", .handle (k + 2) .good, .resume (k + 2) .good]

/-- Both nodes stabilize and check their predecessors. -/
def upkeep (k : Nat) : List Event :=
  [.stabilize "localhost:1234", .handle k .good, .resume k .good,
    .stabilize "localhost:1235", .handle (k + 1) .good, .resume (k + 1) .good,
    .checkPred "localhost:1234", .resume (k + 2) .good, .handle (k + 2) .good, .resume (k + 2) .good,
    .checkPred "localhost:1235", .resume (k + 3) .good, .handle (k + 3) .good, .resume (k + 3) .good]

/-- `localhost:1234` stores `a.txt` while it is alone, so that there is nobody to send a copy to. -/
def storedAlone : List Event :=
  [.create "localhost:1234" 1, .storeFile "localhost:1234" "a.txt" [1], .resume 0 .good, .handle 0 .good,
    .resume 0 .good, .resume 0 .good, .resume 0 .good] ++ joining 1

/-- The successor that joins later never gets a copy. -/
theorem not_replicated_after_join :
    ¬ ∀ (sha1 : String → Nat) (before after : List (Taken System Event)) (middle final : System),
      Run (step sha1) init before middle → AllMeet (fun _ e => FaultFree e) before →
      RingSettled sha1 middle → Quiet middle →
      Run (step sha1) middle after final → AllMeet (fun _ e => FaultFree e) after →
      (∀ a, (final.nodes a).isSome →
        (∃ τ ∈ after, τ.event = .stabilize a) ∧ ∃ τ ∈ after, τ.event = .checkPred a) →
      RingSettled sha1 final → Quiet final → Replicated final := by
  intro always
  have run := run_trace (step knownSha1) init storedAlone
  have onward := run_trace (step knownSha1) (outcome (step knownSha1) init storedAlone) (upkeep 4)
  have settled := settled_of_run twoPorts (by decide) (by decide) run (by decide +kernel) (by decide +kernel)
  have stays := settled_of_run twoPorts (by decide) (by decide) (run.append onward) (by decide +kernel)
    (by decide +kernel)
  have ticked : ∀ a ∈ (trace (step knownSha1) init storedAlone ++
        trace (step knownSha1) (outcome (step knownSha1) init storedAlone) (upkeep 4)).filterMap
          (fun τ => launches τ.event),
      (∃ τ ∈ trace (step knownSha1) (outcome (step knownSha1) init storedAlone) (upkeep 4),
        τ.event = .stabilize a) ∧
      ∃ τ ∈ trace (step knownSha1) (outcome (step knownSha1) init storedAlone) (upkeep 4),
        τ.event = .checkPred a := by decide +kernel
  have replicated := always knownSha1 _ _ _ _ run (by decide +kernel) settled (by decide +kernel) onward
    (by decide +kernel) (fun a isNode => ticked a (launches_of_run (run.append onward) isNode)) stays
    (by decide +kernel)
  have uncovered : ((outcome (step knownSha1) (outcome (step knownSha1) init storedAlone) (upkeep 4)).nodes
      "localhost:1234").any (fun chord => "a.txt" ∈ chord.files ∧
        ((outcome (step knownSha1) (outcome (step knownSha1) init storedAlone) (upkeep 4)).nodes
          chord.node.successors.first).all fun other => "a.txt" ∉ other.replicatedFiles) = true := by
    decide +kernel
  obtain ⟨chord, found, lost⟩ := (Option.any_eq_true ..).mp uncovered
  obtain ⟨inside, missing⟩ := of_decide_eq_true lost
  obtain ⟨other, otherFound, copied⟩ := replicated "localhost:1234" chord found "a.txt" inside
  rw [otherFound] at missing
  exact of_decide_eq_true missing copied

/-- Here `localhost:1234` stores `a.txt` when the ring of two has been formed. -/
def storedTogether : List Event :=
  .create "localhost:1234" 1 :: joining 0 ++
    [.storeFile "localhost:1234" "a.txt" [1], .resume 3 .good, .handle 3 .good, .resume 3 .good,
      .handle 3 .good, .resume 3 .good, .resume 3 .good]

theorem replicated_storedTogether :
    ((outcome (step knownSha1) init storedTogether).nodes "localhost:1234").any
        (fun chord => "a.txt" ∈ chord.files) = true ∧
      Replicated (outcome (step knownSha1) init storedTogether) := by
  have run := run_trace (step knownSha1) init storedTogether
  have settled := settled_of_run twoPorts (by decide) (by decide) run (by decide +kernel) (by decide +kernel)
  exact ⟨by decide +kernel, replicated_of_copies_stay run (by decide +kernel) settled (by decide +kernel)⟩

end System

end Tda596Labs.Chord
