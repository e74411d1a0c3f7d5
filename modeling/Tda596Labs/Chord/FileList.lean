import Tda596Labs.Chord.Deadlock

/-! # The list of files and the directory

`StoreFile` writes a file and lists it with the lock, so that every file in the directory is the file of a
listed name.  Two pieces of code of the ticker set list and directory apart for a while.
`reassignToPred` goes through the list as it found it, releases the lock for every file it sends away,
and replaces the list at its end.  `reassignDuplicatedToMe` moves files into the directory one by one and
lists them at its end, but keeps the lock until then.  What may be in the directory of a node depends on
which of the two its ticker is in, and a file stored while `reassignToPred` goes on is not in the list it
leaves behind.
-/

namespace Tda596Labs.Chord

/-! ## The work of a ticker -/

/-- The goroutine is somewhere in the tick that checks the predecessor. -/
def Phase.checksPred : Phase → Bool
  | .checkRead | .checkCall _ | .checked _ => true
  | phase => phase.work.isSome

/-- The `StoreFile` request the goroutine waits for. -/
def Phase.storing : Phase → Option StoreFileRequest
  | .storeCall request _ _ | .duplicateCall request _ _ _ | .takeOverCall _ request _ => some request
  | _ => none

/-- How list and directory of a node stand to each other while its ticker does this work. -/
def Listed (chord : Chord) : Option Work → Prop
  | none => chord.fileDir.names ⊆ chord.files.map Path.clean
  | some (.handOff names) => chord.fileDir.names ⊆ names.map Path.clean ∧ names ⊆ chord.files
  | some (.takeOver entries) =>
    chord.fileDir.names ⊆ (chord.files ++ chord.replicatedFiles).map Path.clean ∧ chord.duplDir.names ⊆ entries

structure Accounted (chord : Chord) (work : Option Work) : Prop where
  files : Listed chord work
  copies : chord.duplDir.names ⊆ chord.replicatedFiles.map Path.clean

section Accounts

variable {sha1 : String → Nat} {chord changed : Chord} {work : Option Work}

theorem Accounted.of_keeps (accounted : Accounted chord work) (keeps : KeepsFiles chord changed) :
    Accounted changed work := by
  obtain ⟨files, copies⟩ := accounted
  refine ⟨?_, by rwa [keeps.duplDir, keeps.replicatedFiles]⟩
  cases work with
  | none => simpa only [Listed, keeps.files, keeps.fileDir] using files
  | some work =>
    cases work <;>
      simpa only [Listed, keeps.files, keeps.fileDir, keeps.replicatedFiles, keeps.duplDir] using files

/-- Only the set of names a hand-off has to do with counts. -/
theorem Accounted.regroup {names names' : List String} (accounted : Accounted chord (some (.handOff names)))
    (same : ∀ name, name ∈ names ↔ name ∈ names') : Accounted chord (some (.handOff names')) :=
  ⟨⟨fun _ inside => List.map_subset Path.clean (fun name => (same name).mp) (accounted.files.1 inside),
    fun name inside => accounted.files.2 ((same name).mpr inside)⟩, accounted.copies⟩

theorem handOff_accounted {entries keepFiles : List String}
    (accounted : Accounted chord (some (.handOff (entries ++ keepFiles)))) :
    Accounted (handOff sha1 .good chord entries keepFiles).1
      (handedOff (handOff sha1 .good chord entries keepFiles).2).work := by
  induction entries generalizing keepFiles with
  | nil =>
    obtain ⟨onDisk, listed⟩ := accounted.files
    rw [handOff]
    -- The list is replaced only by a shorter one.
    split
    · exact ⟨onDisk, accounted.copies⟩
    · exact ⟨List.Subset.trans onDisk (List.map_subset Path.clean listed), accounted.copies⟩
  | cons entry rest ih =>
    obtain ⟨onDisk, listed⟩ := accounted.files
    have others : ∀ file ∈ chord.fileDir.names, file ≠ Path.clean entry →
        file ∈ (rest ++ keepFiles).map Path.clean := by
      intro file inside other
      exact (List.mem_cons.mp (onDisk inside)).resolve_left other
    have listedRest : rest ++ keepFiles ⊆ chord.files := fun name inside =>
      listed (List.mem_cons_of_mem _ inside)
    rw [handOff]
    split
    · exact ih (accounted.regroup (by simp; tauto))
    · split
      · next unread =>
        -- A listed name that is not on the disk is dropped from the list.
        have absent : Path.clean entry ∉ chord.fileDir.names := by
          rw [Directory.mem_names_iff]
          simpa [Disk.failsRead, Disk.good] using unread
        refine ih ⟨⟨fun file inside => others file inside fun equal => ?_, listedRest⟩, accounted.copies⟩
        exact absent (equal ▸ inside)
      · refine ⟨⟨fun file inside => ?_, listedRest⟩, accounted.copies⟩
        obtain ⟨other, inside⟩ := Directory.mem_names_remove.mp inside
        exact others file inside other

theorem reassignToPred_accounted (accounted : Accounted chord none) :
    Accounted (reassignToPred sha1 .good chord).1 (handedOff (reassignToPred sha1 .good chord).2).work := by
  unfold reassignToPred
  split
  · exact accounted
  · refine handOff_accounted ⟨⟨?_, ?_⟩, accounted.copies⟩
    · rw [List.append_nil]
      exact accounted.files
    · rw [List.append_nil]
      exact List.Subset.refl _

theorem takeOverEntry_accounted {entry : String} {entries : List String}
    (accounted : Accounted chord (some (.takeOver (entry :: entries)))) :
    Accounted (takeOverEntry sha1 .good chord entry).1 (some (.takeOver entries)) := by
  obtain ⟨onDisk, left⟩ := accounted.files
  have others : ∀ name ∈ chord.duplDir.names, name ≠ entry → name ∈ entries := fun name inside other =>
    (List.mem_cons.mp (left inside)).resolve_left other
  have same : (takeOverEntry sha1 .good chord entry).1 =
      (chord.duplDir.read entry).elim chord fun content =>
        { chord with
          duplDir := chord.duplDir.remove entry
          fileDir := chord.fileDir.create entry content } := by
    simp only [takeOverEntry, Disk.good, Bool.false_eq_true, if_false]
    cases chord.duplDir.read entry <;> dsimp only <;> split <;> rfl
  rw [same]
  cases held : chord.duplDir.read entry with
  | none =>
    rw [Option.elim_none]
    refine ⟨⟨onDisk, fun name inside => others name inside fun equal => ?_⟩, accounted.copies⟩
    rw [equal, Directory.mem_names_iff, held] at inside
    cases inside
  | some content =>
    rw [Option.elim_some]
    have copied : entry ∈ chord.replicatedFiles.map Path.clean :=
      accounted.copies (by rw [Directory.mem_names_iff, held]; rfl)
    refine ⟨⟨fun name inside => ?_, fun name inside => ?_⟩, fun name inside => ?_⟩
    · rcases Directory.mem_names_create.mp inside with rfl | old
      · rw [List.map_append]
        exact List.mem_append_right _ copied
      · exact onDisk old
    · obtain ⟨other, old⟩ := Directory.mem_names_remove.mp inside
      exact others name old other
    · exact accounted.copies (Directory.mem_names_remove.mp inside).2

theorem takeOverDone_accounted (accounted : Accounted chord (some (.takeOver []))) :
    Accounted (takeOverDone chord) none :=
  ⟨accounted.files.1, accounted.files.2⟩

/-- A copy is stored at a node that is not taking files over. -/
theorem storeCopy_accounted {request : StoreFileRequest} (accounted : Accounted chord work)
    (released : ∀ entries, work ≠ some (.takeOver entries)) (duplicate : request.duplicationReq = true) :
    Accounted (storeFile .good chord request).1 work := by
  obtain ⟨files, copies⟩ := accounted
  rw [storeFile_good_of_duplicate chord duplicate]
  refine ⟨?_, fun name inside => ?_⟩
  · cases work with
    | none => exact files
    | some work =>
      cases work with
      | handOff names => exact files
      | takeOver entries => exact absurd rfl (released entries)
  · rw [List.map_append]
    rcases Directory.mem_names_create.mp inside with rfl | old
    · exact List.mem_append_right _ List.mem_cons_self
    · exact List.mem_append_left _ (copies old)

/-- A file is stored at a node that is not taking files over, and of which a hand-off under way knows the
name. -/
theorem storeOriginal_accounted {request : StoreFileRequest} (accounted : Accounted chord work)
    (released : ∀ entries, work ≠ some (.takeOver entries)) (original : request.duplicationReq = false)
    (known : ∀ names, work = some (.handOff names) → request.fileName ∈ names) :
    Accounted (storeFile .good chord request).1 work := by
  obtain ⟨files, copies⟩ := accounted
  rw [storeFile_good_of_original chord original]
  refine ⟨?_, copies⟩
  cases work with
  | none =>
    intro name inside
    change name ∈ (chord.files ++ [request.fileName]).map Path.clean
    rw [List.map_append]
    rcases Directory.mem_names_create.mp inside with rfl | old
    · exact List.mem_append_right _ List.mem_cons_self
    · exact List.mem_append_left _ (files old)
  | some work =>
    cases work with
    | handOff names =>
      refine ⟨fun name inside => ?_, List.Subset.trans files.2 (List.subset_append_left _ _)⟩
      rcases Directory.mem_names_create.mp inside with rfl | old
      · exact List.mem_map_of_mem (known names rfl)
      · exact files.1 old
    | takeOver entries => exact absurd rfl (released entries)

end Accounts

/-! ## Steps of one goroutine -/

section Phases

variable {sha1 : String → Nat} {chord changed : Chord} {phase next : Phase}

theorem storeResolved_work (request : StoreFileRequest) (back : Return) (resolving : Resolving) :
    (storeResolved request back resolving).work = back.work := by
  cases resolving <;> rfl

theorem lookupResolved_checksPred (request : RetreiveFileRequest) (resolving : Resolving) :
    (lookupResolved request resolving).checksPred = false := by
  cases resolving <;> rfl

theorem work_of_checksPred (elsewhere : phase.checksPred = false) : phase.work = none := by
  cases phase with
  | checkRead | checkCall | checked => cases elsewhere
  | _ => exact Option.not_isSome_iff_eq_none.mp (by simpa [Phase.checksPred] using elsewhere)

theorem checksPred_of_work {work : Work} (doing : phase.work = some work) : phase.checksPred = true := by
  by_contra elsewhere
  rw [work_of_checksPred (by simpa using elsewhere)] at doing
  cases doing

theorem storeResolved_checksPred (request : StoreFileRequest) (back : Return) (resolving : Resolving) :
    (storeResolved request back resolving).checksPred = back.work.isSome := by
  cases resolving <;> rfl

/-- A step that is not one of the tick touches pointers only and leaves the work as it is; a step of the
tick turns the account of the work before it into that of the work after it. -/
inductive Accounts (chord changed : Chord) (phase next : Phase) : Prop where
  | elsewhere (keeps : KeepsFiles chord changed) (same : next.work = phase.work)
  | tick (checks : phase.checksPred = true) (atNode : ∀ node, phase.site node = node)
      (carries : Accounted chord phase.work → Accounted changed next.work)

theorem Proceeds.accounts {spawned : List Phase}
    (proceeds : Proceeds sha1 .good chord phase changed next spawned) :
    Accounts chord changed phase next := by
  cases proceeds with
  | accepted => exact .elsewhere (accepted_keeps chord _) rfl
  | drops => exact .elsewhere (clearDeadSucc_keeps chord) rfl
  | verified _ verifies => exact .elsewhere (verifySuccs_keeps verifies).1 rfl
  | unfingered => exact .elsewhere (setFinger_keeps chord _ _).toKeepsFiles rfl
  | fingered onward =>
    refine .elsewhere (resolvedFinger_keeps chord _ _).toKeepsFiles ?_
    rcases onward with rfl | ⟨query, rest, rfl⟩ <;> rfl
  | resolves => exact .elsewhere (.refl chord) (storeResolved_work _ _ _)
  | handsOff => exact .tick rfl (fun _ => rfl) reassignToPred_accounted
  | handsOn => exact .tick rfl (fun _ => rfl) handOff_accounted
  | forgets => exact .elsewhere (setPredecessor_keeps chord _) rfl
  | begins =>
    -- The entries are the names in the directory of copies, all of them listed as copies.
    refine .tick rfl (fun _ => rfl) fun accounted => ⟨⟨?_, List.Subset.refl _⟩, accounted.copies⟩
    exact List.Subset.trans accounted.files (List.map_subset Path.clean (List.subset_append_left _ _))
  | takenOver => exact .tick rfl (fun _ => rfl) takeOverDone_accounted
  | moves onward =>
    refine .tick rfl (fun _ => rfl) fun accounted => ?_
    rcases onward with rfl | ⟨request, succ, rfl, _⟩ <;> exact takeOverEntry_accounted accounted
  | _ => exact .elsewhere (.refl chord) rfl

/-- Only the tick that checks the predecessor goes on in it. -/
theorem Proceeds.checksPred {disk : Disk} {spawned : List Phase}
    (proceeds : Proceeds sha1 disk chord phase changed next spawned) :
    (next.checksPred = true → phase.checksPred = true) ∧ ∀ p ∈ spawned, p.checksPred = false := by
  cases proceeds with
  | refused | joined | passedAlong | replaced =>
    refine ⟨nofun, fun p isSpawned => ?_⟩
    rw [List.mem_singleton.mp isSpawned]
    rfl
  | fingered onward =>
    obtain rfl | ⟨query, rest, rfl⟩ := onward
    · exact ⟨nofun, List.forall_mem_nil _⟩
    · exact ⟨nofun, List.forall_mem_nil _⟩
  | resolves => exact ⟨fun checks => (storeResolved_checksPred _ _ _).symm.trans checks, List.forall_mem_nil _⟩
  | rereads | begins | moves | handsOff | handsOn => exact ⟨fun _ => rfl, List.forall_mem_nil _⟩
  | uncopied | copies | returns => exact ⟨id, List.forall_mem_nil _⟩
  | _ => exact ⟨nofun, List.forall_mem_nil _⟩

theorem Proceeds.unfinished {disk : Disk} {spawned : List Phase}
    (proceeds : Proceeds sha1 disk chord phase changed next spawned) : phase ≠ .finished := by
  rintro rfl
  cases proceeds

theorem Serves.work {disk : Disk} {me : NodeAddress} (serves : Serves sha1 disk me chord phase changed next) :
    next.work = phase.work ∧ (next.checksPred = true → phase.checksPred = true) := by
  cases serves with
  | resolve =>
    exact ⟨storeResolved_work _ _ _, fun checks => (storeResolved_checksPred _ _ _).symm.trans checks⟩
  | lookupFind =>
    refine ⟨work_of_checksPred (lookupResolved_checksPred _ _), fun checks => ?_⟩
    rw [lookupResolved_checksPred] at checks
    cases checks
  | _ => simp [Phase.checksPred, Phase.work]

/-- A handler stores a file or touches pointers only. -/
theorem Serves.storing {disk : Disk} {me : NodeAddress}
    (serves : Serves sha1 disk me chord phase changed next) :
    KeepsFiles chord changed ∨ ∃ request, phase.storing = some request ∧ phase.handlerLocks = true ∧
      changed = (storeFile disk chord request).1 := by
  cases serves with
  | notify request => exact .inl (notify_keeps sha1 chord request).1
  | join request => exact .inl (join_keeps sha1 chord request)
  | stabilize request => exact .inl (stabilized_keeps chord request).1
  | stores | unstored | duplicates | takesOver => exact .inr ⟨_, rfl, rfl, rfl⟩
  | _ => exact .inl (.refl chord)

theorem ownsLock_of_takeOver {entries : List String} (doing : phase.work = some (.takeOver entries)) :
    phase.ownsLock = true := by
  have handsOff : ∀ back : Return, back.work ≠ some (.takeOver entries) := by
    intro back
    cases back <;> nofun
  cases phase with
  | takeOver | takeOverCall => rfl
  | resolve _ back | resolveCall _ back | storeCall _ back | stored back | duplicate _ back
  | duplicateCall _ back | storeReturn back => exact absurd doing (handsOff back)
  | _ => cases doing

theorem failed_work (gives : phase.failed = some next) :
    next.work = phase.work ∧ (next.checksPred = true → phase.checksPred = true) := by
  cases phase <;> cases gives <;> exact ⟨rfl, id⟩

theorem cutOff_work (a : NodeAddress) (phase : Phase) :
    (phase.cutOff a).work = phase.work ∧ ((phase.cutOff a).checksPred = true → phase.checksPred = true) := by
  cases phase with
  | duplicate request back dest | duplicateCall request back dest succ | storeReturn back dest =>
    simp only [Phase.cutOff]
    split <;> exact ⟨rfl, id⟩
  | _ => exact ⟨rfl, id⟩

theorem handler_work {phase next : Phase} {dest : NodeAddress} (left : phase.handler = some (dest, next)) :
    next.work = none ∧ next.checksPred = false := by
  cases phase <;> cases left <;> exact ⟨rfl, rfl⟩

end Phases

namespace System

open Transition

/-! ## Goroutines of one node

What every run keeps to: a node has one ticker, whoever is in a place that owns the lock does own it, and
a node that is gone has no goroutine. -/

/-- Goroutine `k` is the ticker of node `a`, in a tick. -/
def Ticks (tasks : List Task) (a : NodeAddress) (k : Nat) : Prop :=
  ∃ task, tasks[k]? = some task ∧ task.node = a ∧ task.goroutine = .ticker ∧ task.phase ≠ .finished

structure Disciplined (s : System) : Prop where
  ticker : ∀ task ∈ s.tasks, task.phase.checksPred = true → task.goroutine = .ticker
  single : ∀ a i j, Ticks s.tasks a i → Ticks s.tasks a j → i = j
  locked : ∀ a k, Owns s.tasks a k → s.owner a = some k
  gone : ∀ task ∈ s.tasks, s.nodes task.node = none → task.phase = .finished

section Discipline

variable {sha1 : String → Nat} {s t : System} {e : Event}

theorem Starts.ticker {a : NodeAddress} {goroutine : Goroutine} {first : Chord → Chord × Phase}
    {chord changed : Chord} {phase : Phase} (starts : Starts sha1 e a goroutine first)
    (begins : Begins sha1 a chord e changed phase) (checks : phase.checksPred = true) :
    goroutine = .ticker := by
  cases begins with
  | stores => cases checks
  | looksUp =>
    rw [lookupResolved_checksPred] at checks
    cases checks
  | _ => cases starts; rfl

theorem Begins.work {a : NodeAddress} {chord changed : Chord} {phase : Phase} (begins : Begins sha1 a chord e changed phase) :
    phase.work = none := by
  cases begins with
  | looksUp => exact work_of_checksPred (lookupResolved_checksPred _ _)
  | _ => rfl

/-- Goroutine `k` goes on to `phase` and starts others. -/
theorem Disciplined.goes (inv : Disciplined s) {k : Nat} {task : Task} {phase : Phase} {spawned : List Phase}
    (member : s.tasks[k]? = some task) (unfinished : task.phase ≠ .finished)
    (checks : phase.checksPred = true → task.phase.checksPred = true)
    (others : ∀ p ∈ spawned, p.checksPred = false)
    (tasks : t.tasks = s.tasks.set k { task with phase := phase } ++
      spawned.map fun phase => ⟨task.node, .spawned, phase⟩)
    (nodes : ∀ b, t.nodes b = none → s.nodes b = none)
    (locked : ∀ b i, Owns t.tasks b i → t.owner b = some i) : Disciplined t where
  locked := locked
  ticker := by
    intro task' inside checks'
    rw [tasks] at inside
    rcases List.mem_append.mp inside with old | new
    · rcases List.mem_or_eq_of_mem_set old with kept | rfl
      · exact inv.ticker task' kept checks'
      · exact inv.ticker task (Pool.mem_of_found member) (checks checks')
    · obtain ⟨p, isSpawned, rfl⟩ := List.mem_map.mp new
      simp [others p isSpawned] at checks'
  single := by
    have before : ∀ a i, Ticks t.tasks a i → Ticks s.tasks a i := by
      rintro a i ⟨task', found, atNode, isTicker, running⟩
      rw [tasks] at found
      rcases Pool.found_of_append found with changed | ⟨_, new⟩
      · rcases Pool.found_of_set changed with ⟨rfl, rfl⟩ | ⟨_, old⟩
        · exact ⟨task, member, atNode, isTicker, unfinished⟩
        · exact ⟨task', old, atNode, isTicker, running⟩
      · obtain ⟨p, _, rfl⟩ := List.mem_map.mp (List.mem_of_getElem? new)
        cases isTicker
    exact fun a i j first second => inv.single a i j (before a i first) (before a j second)
  gone := by
    intro task' inside dead
    rw [tasks] at inside
    rcases mem_resumed inside with old | ⟨sameNode, _⟩
    · exact inv.gone task' old (nodes _ dead)
    · -- a goroutine that goes on, or is started, has its node running
      rw [sameNode] at dead
      exact absurd (inv.gone task (Pool.mem_of_found member) (nodes _ dead)) unfinished

/-- Goroutine `k` goes on without a change of locks. -/
theorem Disciplined.passes (inv : Disciplined s) {k : Nat} {task : Task} {phase : Phase}
    (member : s.tasks[k]? = some task) (unfinished : task.phase ≠ .finished)
    (checks : phase.checksPred = true → task.phase.checksPred = true)
    (locks : phase.ownsLock = task.phase.ownsLock)
    (tasks : t.tasks = s.tasks.set k { task with phase := phase })
    (nodes : ∀ b, t.nodes b = none → s.nodes b = none) (owner : t.owner = s.owner) : Disciplined t := by
  refine inv.goes member unfinished checks (fun p (none_ : p ∈ []) => nomatch none_) ?_ nodes
    fun b i owns => ?_
  · simpa using tasks
  · obtain ⟨task', found, atNode, owned⟩ := owns
    rw [tasks] at found
    rw [owner]
    rcases Pool.found_of_set found with ⟨rfl, rfl⟩ | ⟨_, old⟩
    · exact inv.locked b _ ⟨task, member, atNode, locks ▸ owned⟩
    · exact inv.locked b i ⟨task', old, atNode, owned⟩

/-- The lock of a node that a goroutine may work at is owned by no other goroutine. -/
theorem Disciplined.owner_resumed (inv : Disciplined s) {k : Nat} {disk : Disk} {task : Task}
    {chord changed : Chord} {phase : Phase} {spawned : List Phase} (member : s.tasks[k]? = some task)
    (may : s.mayRun k (task.phase.site task.node) task.phase)
    (proceeds : Proceeds sha1 disk chord task.phase changed phase spawned) {b : NodeAddress} {i : Nat}
    (owns : Owns (s.tasks.set k { task with phase := phase } ++
      spawned.map fun phase => ⟨task.node, .spawned, phase⟩) b i) :
    (if task.phase.underLock then
      Function.update s.owner (task.phase.site task.node) (if phase.ownsLock then some k else none)
    else s.owner) b = some i := by
  obtain ⟨gains, _, freeSpawned⟩ := proceeds.locks
  obtain ⟨task', found, atNode, owned⟩ := owns
  rcases Pool.found_of_append found with changed | ⟨_, new⟩
  · rcases Pool.found_of_set changed with ⟨rfl, rfl⟩ | ⟨other, old⟩
    · obtain ⟨atHome, locked⟩ := site_of_gains (gains owned) task.node
      rw [if_pos locked, if_pos owned, atHome, ← atNode, Function.update_self]
    · have held := inv.locked b i ⟨task', old, atNode, owned⟩
      cases locked : task.phase.underLock with
      | false => simpa using held
      | true =>
        -- The lock at the site is free or its own, so the other owner is elsewhere.
        have elsewhere : b ≠ task.phase.site task.node := by
          rintro rfl
          unfold mayRun at may
          split at may
          · exact other (Option.some.inj (held.symm.trans may))
          · rw [may locked] at held
            cases held
        simpa [Function.update_of_ne elsewhere] using held
  · obtain ⟨p, isSpawned, rfl⟩ := List.mem_map.mp (List.mem_of_getElem? new)
    simp [freeSpawned p isSpawned] at owned

/-- A goroutine is started at a node that is running, a ticker only where none is in a tick. -/
theorem Disciplined.starts (inv : Disciplined s) {more : List Task} (tasks : t.tasks = s.tasks ++ more)
    (few : more.length ≤ 1)
    (ticker : ∀ task ∈ more, task.phase.checksPred = true → task.goroutine = .ticker)
    (idle : ∀ task ∈ more, task.goroutine = .ticker → ¬ s.busy task.node .ticker)
    (alive : ∀ task ∈ more, t.nodes task.node ≠ none) (nodes : ∀ b, t.nodes b = none → s.nodes b = none)
    (locked : ∀ b i, Owns t.tasks b i → t.owner b = some i) : Disciplined t where
  locked := locked
  ticker := by
    intro task inside
    rw [tasks] at inside
    exact (List.mem_append.mp inside).elim (inv.ticker task) (ticker task)
  gone := by
    intro task inside dead
    rw [tasks] at inside
    rcases List.mem_append.mp inside with old | new
    · exact inv.gone task old (nodes _ dead)
    · exact absurd dead (alive task new)
  single := by
    have before : ∀ a i, Ticks t.tasks a i →
        Ticks s.tasks a i ∨ (i = s.tasks.length ∧ ¬ s.busy a .ticker) := by
      rintro a i ⟨task, found, rfl, isTicker, running⟩
      rw [tasks] at found
      rcases Pool.found_of_append found with old | ⟨beyond, new⟩
      · exact .inl ⟨task, old, rfl, isTicker, running⟩
      · obtain ⟨bound, _⟩ := List.getElem?_eq_some_iff.mp new
        exact .inr ⟨by omega, idle task (List.mem_of_getElem? new) isTicker⟩
    have busy : ∀ {a i}, Ticks s.tasks a i → s.busy a .ticker := by
      rintro a i ⟨task, found, rest⟩
      exact ⟨task, List.mem_of_getElem? found, rest⟩
    -- Two tickers at one node: at most one of them is new, and then no old one is in a tick.
    intro a i j first second
    rcases before a i first with old | ⟨atEnd, idleA⟩ <;> rcases before a j second with old' | ⟨atEnd', idleA'⟩
    · exact inv.single a i j old old'
    · exact absurd (busy old) idleA'
    · exact absurd (busy old') idleA
    · exact atEnd.trans atEnd'.symm

theorem update_none {nodes : NodeAddress → Option Chord} {a b : NodeAddress} {chord : Chord}
    (dead : Function.update nodes a (some chord) b = none) : nodes b = none := by
  by_cases equal : b = a
  · rw [equal, Function.update_self] at dead
    cases dead
  · rwa [Function.update_of_ne equal] at dead

theorem found_crash {a : NodeAddress} {k : Nat} {task : Task} (found : (s.crash a).tasks[k]? = some task) :
    ∃ old, s.tasks[k]? = some old ∧ Outlives s a old task := by
  simp only [crash, List.getElem?_map, Option.map_eq_some_iff] at found
  obtain ⟨old, member, rfl⟩ := found
  exact ⟨old, member, outlives s a old⟩

theorem Disciplined.crashed (inv : Disciplined s) (a : NodeAddress) : Disciplined (s.crash a) where
  ticker := by
    intro task inside checks
    obtain ⟨k, found⟩ := List.getElem?_of_mem inside
    obtain ⟨old, member, left⟩ := found_crash found
    cases left with
    | elsewhere => exact inv.ticker old (List.mem_of_getElem? member) ((cutOff_work a old.phase).2 checks)
    | ended => cases checks
    | handler _ isHandler => simp [(handler_work isHandler).2] at checks
  single := by
    have before : ∀ b i, Ticks (s.crash a).tasks b i → Ticks s.tasks b i := by
      rintro b i ⟨task, found, atNode, isTicker, running⟩
      obtain ⟨old, member, left⟩ := found_crash found
      cases left with
      | elsewhere => exact ⟨old, member, atNode, isTicker, fun finished => running (by simp [finished, Phase.cutOff])⟩
      | ended => exact absurd rfl running
      | handler => cases isTicker
    exact fun b i j first second => inv.single b i j (before b i first) (before b j second)
  locked := by
    rintro b i ⟨task, found, rfl, owned⟩
    obtain ⟨old, member, left⟩ := found_crash found
    cases left with
    | elsewhere other =>
      rw [cutOff_ownsLock] at owned
      exact (Function.update_of_ne other _ _).trans (inv.locked old.node i ⟨old, member, rfl, owned⟩)
    | ended => cases owned
    | handler _ isHandler => simp [handler_free isHandler] at owned
  gone := by
    intro task inside dead
    obtain ⟨k, found⟩ := List.getElem?_of_mem inside
    obtain ⟨old, member, left⟩ := found_crash found
    cases left with
    | elsewhere other =>
      have before : s.nodes old.node = none := (Function.update_of_ne other _ _).symm.trans dead
      simp [inv.gone old (List.mem_of_getElem? member) before, Phase.cutOff]
    | ended => rfl
    | @handler dest _ _ _ other running =>
      have before : s.nodes dest = none := (Function.update_of_ne other _ _).symm.trans dead
      simp [before] at running

theorem Disciplined.step (inv : Disciplined s) (moved : step sha1 s e = some t) : Disciplined t := by
  cases step_effect moved with
  | @launch _ a chord tasks boots _ fresh =>
    have main : tasks.length ≤ 1 ∧ ∀ task ∈ tasks, task.goroutine = .main ∧
        task.phase.checksPred = false ∧ task.phase.ownsLock = false ∧ task.node = a := by
      cases boots <;> simp [Phase.checksPred, Phase.work, Phase.ownsLock]
    refine inv.starts rfl main.1 (fun task new checks => ?_) (fun task new isTicker => ?_)
      (fun task new => ?_) (fun b dead => update_none dead) fun b i owns => ?_
    · simp [(main.2 task new).2.1] at checks
    · simp [(main.2 task new).1] at isTicker
    · simp [(main.2 task new).2.2.2]
    · obtain ⟨task, member, atNode, owned⟩ := owns
      rcases Pool.found_of_append member with old | ⟨_, new⟩
      · exact inv.locked b i ⟨task, old, atNode, owned⟩
      · simp [(main.2 task (List.mem_of_getElem? new)).2.2.1] at owned
  | @start _ a goroutine first chord changed phase starts found _ free idle ran =>
    refine inv.starts rfl (by simp) (fun task new checks => ?_) (fun task new isTicker => ?_)
      (fun task new => ?_) (fun b dead => update_none dead) fun b i owns => ?_
    · obtain rfl := List.mem_singleton.mp new
      exact starts.ticker (starts.begins ran) checks
    · obtain rfl := List.mem_singleton.mp new
      exact isTicker ▸ idle
    · obtain rfl := List.mem_singleton.mp new
      simp
    · obtain ⟨task, member, rfl, owned⟩ := owns
      rcases Pool.found_of_append member with old | ⟨beyond, new⟩
      · have held := inv.locked task.node i ⟨task, old, rfl, owned⟩
        have elsewhere : task.node ≠ a := fun equal => by simp [← equal, held] at free
        exact (Function.update_of_ne elsewhere _ _).trans held
      · obtain ⟨bound, rfl⟩ := List.getElem?_eq_some_iff.mp new
        rw [List.length_singleton] at bound
        obtain rfl : i = s.tasks.length := by omega
        simp only [List.getElem_singleton] at owned ⊢
        rw [Function.update_self, if_pos owned]
  | resume member found may proceeds =>
    exact inv.goes member proceeds.unfinished proceeds.checksPred.1 proceeds.checksPred.2 rfl
      (fun b dead => update_none dead) fun b i owns => inv.owner_resumed member may proceeds owns
  | handle member asks _ _ serves =>
    exact inv.passes member (fun finished => by simp [finished, Phase.awaits] at asks) serves.work.2
      serves.locks.1 rfl (fun b dead => update_none dead) rfl
  | @fail _ task _ member gives =>
    exact inv.passes member (fun finished => by simp [finished, Phase.failed] at gives) (failed_work gives).2
      (failed_locks gives : _ ∧ AsksOther task.node _).1 rfl (fun b dead => dead) rfl
  | crash a => exact inv.crashed a

end Discipline

/-! ## The work in hand -/

/-- A goroutine of node `a` does this work. -/
def Doing (tasks : List Task) (a : NodeAddress) (work : Work) : Prop :=
  (a, some work) ∈ tasks.map fun task => (task.node, task.phase.work)

/-- The work node `a` has in hand, or none. -/
def InHand (tasks : List Task) (a : NodeAddress) : Option Work → Prop
  | none => ∀ work, ¬ Doing tasks a work
  | some work => Doing tasks a work

section Works

variable {tasks later : List Task} {a : NodeAddress} {work : Option Work}

theorem doing_iff {done : Work} : Doing tasks a done ↔
    ∃ task ∈ tasks, task.node = a ∧ task.phase.work = some done := by
  simp [Doing]

theorem InHand.congr (same : ∀ done, Doing later a done ↔ Doing tasks a done)
    (inHand : InHand later a work) : InHand tasks a work := by
  cases work with
  | none => exact fun done doing => inHand done ((same done).mpr doing)
  | some done => exact (same done).mp inHand

theorem InHand.of_append {more : List Task} (idle : ∀ task ∈ more, task.phase.work = none)
    (inHand : InHand (tasks ++ more) a work) : InHand tasks a work := by
  refine inHand.congr fun done => ?_
  simp only [doing_iff, List.mem_append]
  constructor
  · rintro ⟨task, old | new, atNode, doing⟩
    · exact ⟨task, old, atNode, doing⟩
    · simp [idle task new] at doing
  · rintro ⟨task, old, rest⟩
    exact ⟨task, .inl old, rest⟩

theorem InHand.of_set {k : Nat} {task : Task} {phase : Phase} (member : tasks[k]? = some task)
    (same : phase.work = task.phase.work)
    (inHand : InHand (tasks.set k { task with phase := phase }) a work) : InHand tasks a work := by
  refine inHand.congr fun done => ?_
  unfold Doing
  rw [Pool.map_set_of_eq member]
  rw [same]

theorem InHand.of_set_other {k : Nat} {task : Task} {phase : Phase} (member : tasks[k]? = some task)
    (other : a ≠ task.node) (inHand : InHand (tasks.set k { task with phase := phase }) a work) :
    InHand tasks a work := by
  refine inHand.congr fun done => ?_
  simp only [doing_iff]
  constructor
  · rintro ⟨task', inside, atNode, doing⟩
    rcases List.mem_or_eq_of_mem_set inside with old | rfl
    · exact ⟨task', old, atNode, doing⟩
    · exact absurd atNode.symm other
  · exact Pool.exists_set member fun ⟨atNode, _⟩ => absurd atNode.symm other

variable {s : System}

/-- While a ticker checks the predecessor, no other goroutine of the node has work in hand. -/
theorem Disciplined.alone (inv : Disciplined s) {i k : Nat} {task task' : Task} {done : Work}
    (member : s.tasks[k]? = some task) (checks : task.phase.checksPred = true)
    (member' : s.tasks[i]? = some task') (sameNode : task'.node = task.node)
    (doing : task'.phase.work = some done) : i = k := by
  have ticks : ∀ {j : Nat} {other : Task}, s.tasks[j]? = some other → other.phase.checksPred = true →
      Ticks s.tasks other.node j := by
    intro j other found checks
    refine ⟨other, found, rfl, inv.ticker other (List.mem_of_getElem? found) checks, fun finished => ?_⟩
    rw [finished] at checks
    cases checks
  exact inv.single task.node i k (sameNode ▸ ticks member' (checksPred_of_work doing)) (ticks member checks)

theorem doing_crash {b : NodeAddress} (other : b ≠ a) (done : Work) :
    Doing (s.crash a).tasks b done ↔ Doing s.tasks b done := by
  simp only [doing_iff, crash, List.mem_map, exists_exists_and_eq_and]
  refine exists_congr fun task => and_congr_right fun _ => ?_
  generalize left : s.afterCrash a task = after
  cases left ▸ outlives s a task with
  | elsewhere => rw [(cutOff_work a task.phase).1]
  | ended here => simp [here, other.symm]
  | handler here isHandler => simp [here, other.symm, (handler_work isHandler).1]

/-- So the work of the ticker is that of the node, before a step of the tick and after it. -/
theorem Disciplined.inHand (inv : Disciplined s) {k : Nat} {task : Task} (member : s.tasks[k]? = some task)
    (checks : task.phase.checksPred = true) : InHand s.tasks task.node task.phase.work := by
  cases has : task.phase.work with
  | some done => exact doing_iff.mpr ⟨task, Pool.mem_of_found member, rfl, has⟩
  | none =>
    intro done doing
    obtain ⟨task', inside, sameNode, doing⟩ := doing_iff.mp doing
    obtain ⟨i, member'⟩ := List.getElem?_of_mem inside
    obtain rfl := inv.alone member checks member' sameNode doing
    obtain rfl := Option.some.inj (member.symm.trans member')
    rw [has] at doing
    cases doing

theorem Disciplined.inHand_set (inv : Disciplined s) {k : Nat} {task : Task} {phase : Phase}
    (member : s.tasks[k]? = some task) (checks : task.phase.checksPred = true)
    (inHand : InHand (s.tasks.set k { task with phase := phase }) task.node work) : work = phase.work := by
  cases work with
  | some done =>
    obtain ⟨task', inside, sameNode, doing⟩ := doing_iff.mp inHand
    obtain ⟨i, found⟩ := List.getElem?_of_mem inside
    rcases Pool.found_of_set found with ⟨_, rfl⟩ | ⟨other, old⟩
    · exact doing.symm
    · exact absurd (inv.alone member checks old sameNode doing) other
  | none =>
    cases has : phase.work with
    | none => rfl
    | some done => exact absurd (doing_iff.mpr ⟨_, Pool.mem_set_self member _, rfl, has⟩) (inHand done)

end Works

/-! ## The invariant -/

/-- Every file operation of this step succeeds. -/
def GoodDisk : Event → Prop
  | .resume _ disk | .handle _ disk => disk = .good
  | _ => True

instance (e : Event) : Decidable (GoodDisk e) := by
  cases e <;> unfold GoodDisk <;> infer_instance

/-- A file of this name may be stored without the work in hand losing it. -/
def Work.knows (name : String) : Work → Bool
  | .handOff names => name ∈ names
  | .takeOver _ => true

/-- The event does not store a file of its own at a node that is in the middle of a hand-off, unless the
hand-off still goes through this name or keeps it. -/
def undisturbed (s : System) : Event → Bool
  | .handle k _ =>
    s.tasks[k]?.all fun task => task.phase.storing.all fun request => request.duplicationReq ||
      s.tasks.all fun other =>
        some other.node ≠ task.phase.awaits || other.phase.work.all (Work.knows request.fileName)
  | _ => true

/-- A `reassignToPred` is in progress at the node. -/
def HandingOff (s : System) (a : NodeAddress) : Prop :=
  ∃ task ∈ s.tasks, task.node = a ∧ task.phase.work.any fun
    | .handOff _ => true
    | .takeOver _ => false

instance (s : System) (a : NodeAddress) : Decidable (HandingOff s a) :=
  inferInstanceAs (Decidable (∃ task ∈ s.tasks, _))

def AllAccounted (s : System) : Prop :=
  ∀ a chord work, s.nodes a = some chord → InHand s.tasks a work → Accounted chord work

section Invariant

variable {sha1 : String → Nat} {s t : System} {e : Event}

/-- One node changes; what any work in hand demands of it is kept. -/
theorem AllAccounted.update (all : AllAccounted s) {tasks : List Task} {owner : NodeAddress → Option Nat}
    {b : NodeAddress} {chord changed : Chord} (found : s.nodes b = some chord)
    (before : ∀ {a work}, InHand tasks a work → InHand s.tasks a work)
    (keeps : ∀ work, InHand s.tasks b work → Accounted chord work → Accounted changed work) :
    AllAccounted ⟨Function.update s.nodes b (some changed), owner, tasks⟩ := by
  intro a chord' work found' inHand
  by_cases same : a = b
  · subst same
    obtain rfl : changed = chord' := by simpa using found'
    exact keeps work (before inHand) (all a chord work found (before inHand))
  · exact all a chord' work ((Function.update_of_ne same _ _).symm.trans found') (before inHand)

theorem AllAccounted.resumed (all : AllAccounted s) (inv : Disciplined s) {k : Nat} {task : Task}
    {owner : NodeAddress → Option Nat} {chord changed : Chord} {phase : Phase} {spawned : List Phase}
    (member : s.tasks[k]? = some task) (found : s.nodes (task.phase.site task.node) = some chord)
    (proceeds : Proceeds sha1 .good chord task.phase changed phase spawned) :
    AllAccounted ⟨Function.update s.nodes (task.phase.site task.node) (some changed), owner,
      s.tasks.set k { task with phase := phase } ++
        spawned.map fun phase => ⟨task.node, .spawned, phase⟩⟩ := by
  have idle : ∀ task' ∈ spawned.map (fun phase => (⟨task.node, .spawned, phase⟩ : Task)),
      task'.phase.work = none := by
    intro task' new
    obtain ⟨p, isSpawned, rfl⟩ := List.mem_map.mp new
    exact work_of_checksPred (proceeds.checksPred.2 p isSpawned)
  cases proceeds.accounts with
  | elsewhere keeps same =>
    exact all.update found (fun inHand => (inHand.of_append idle).of_set member same)
      fun work _ accounted => accounted.of_keeps keeps
  | tick checks atNode carries =>
    -- The ticker has the work of its node in hand, before the step and after it.
    rw [atNode] at found ⊢
    intro a chord' work found' inHand
    have before := inHand.of_append idle
    by_cases same : a = task.node
    · subst same
      obtain rfl : changed = chord' := by simpa using found'
      rw [inv.inHand_set member checks before]
      exact carries (all _ chord _ found (inv.inHand member checks))
    · exact all a chord' work ((Function.update_of_ne same _ _).symm.trans found')
        (before.of_set_other member same)

/-- While the lock of a node is free, the node takes no files over. -/
theorem Disciplined.not_takeOver (inv : Disciplined s) {a : NodeAddress} (free : s.owner a = none)
    (entries : List String) : ¬ Doing s.tasks a (.takeOver entries) := by
  intro doing
  obtain ⟨task, inside, atNode, doing⟩ := doing_iff.mp doing
  obtain ⟨k, member⟩ := List.getElem?_of_mem inside
  rw [inv.locked a k ⟨task, member, atNode, ownsLock_of_takeOver doing⟩] at free
  cases free

theorem knows_of_undisturbed {k : Nat} {disk : Disk} {task : Task} {request : StoreFileRequest}
    {target : NodeAddress} {names : List String} (calm : undisturbed s (.handle k disk) = true)
    (member : s.tasks[k]? = some task) (storing : task.phase.storing = some request)
    (asks : task.phase.awaits = some target) (original : request.duplicationReq = false)
    (doing : Doing s.tasks target (.handOff names)) : request.fileName ∈ names := by
  obtain ⟨other, inside, atNode, doing⟩ := doing_iff.mp doing
  simp only [undisturbed, member, storing, Option.all_some, original, Bool.false_or, List.all_eq_true] at calm
  simpa [asks, atNode, doing, Work.knows] using calm other inside

theorem AllAccounted.handled (all : AllAccounted s) (inv : Disciplined s) {k : Nat} {task : Task}
    {target : NodeAddress} {chord changed : Chord} {phase : Phase}
    (calm : undisturbed s (.handle k .good) = true) (member : s.tasks[k]? = some task)
    (asks : task.phase.awaits = some target) (found : s.nodes target = some chord)
    (free : task.phase.handlerLocks = true → s.owner target = none)
    (serves : Serves sha1 .good task.node chord task.phase changed phase) :
    AllAccounted { s with
      nodes := Function.update s.nodes target (some changed)
      tasks := s.tasks.set k { task with phase := phase } } := by
  refine all.update found (fun inHand => inHand.of_set member serves.work.1) fun work inHand accounted => ?_
  rcases serves.storing with keeps | ⟨request, storing, locks, rfl⟩
  · exact accounted.of_keeps keeps
  · have released : ∀ entries, work ≠ some (.takeOver entries) := by
      rintro entries rfl
      exact inv.not_takeOver (free locks) entries inHand
    cases duplicate : request.duplicationReq with
    | true => exact storeCopy_accounted accounted released duplicate
    | false =>
      refine storeOriginal_accounted accounted released duplicate ?_
      rintro names rfl
      exact knows_of_undisturbed calm member storing asks duplicate inHand

theorem AllAccounted.step (all : AllAccounted s) (inv : Disciplined s) (good : GoodDisk e)
    (calm : undisturbed s e = true) (moved : step sha1 s e = some t) : AllAccounted t := by
  cases step_effect moved with
  | @launch _ a chord tasks boots _ fresh =>
    have idle : ∀ task ∈ tasks, task.phase.work = none := by
      cases boots <;> simp [Phase.work]
    intro b chord' work found inHand
    have before := inHand.of_append idle
    by_cases same : b = a
    · subst same
      obtain rfl : chord = chord' := by simpa using found
      -- A process starts with empty directories, and nothing is left of an earlier one.
      cases work with
      | none => cases boots <;> exact ⟨List.nil_subset _, List.nil_subset _⟩
      | some done =>
        obtain ⟨task, inside, rfl, doing⟩ := doing_iff.mp before
        rw [inv.gone task inside fresh] at doing
        cases doing
    · exact all b chord' work ((Function.update_of_ne same _ _).symm.trans found) before
  | start starts found _ _ _ ran =>
    have begins := starts.begins ran
    refine all.update found (fun inHand => inHand.of_append ?_) fun work _ accounted =>
      accounted.of_keeps begins.keeps
    simpa using begins.work
  | resume member found _ proceeds =>
    subst good
    exact all.resumed inv member found proceeds
  | handle member asks found free serves =>
    subst good
    exact all.handled inv calm member asks found free serves
  | fail member gives =>
    intro a chord work found inHand
    exact all a chord work found (inHand.of_set member (failed_work gives).1)
  | crash a =>
    intro b chord work found inHand
    have other : b ≠ a := fun equal => by simp [crash, equal] at found
    refine all b chord work ((Function.update_of_ne other _ _).symm.trans found) (inHand.congr fun done => ?_)
    exact doing_crash other done

structure FilesInv (s : System) : Prop where
  disciplined : Disciplined s
  accounted : AllAccounted s

theorem filesInv_init : FilesInv init where
  disciplined :=
    { ticker := List.forall_mem_nil _
      single := fun _ _ _ ⟨_, found, _⟩ => nomatch found
      locked := fun _ _ ⟨_, found, _⟩ => nomatch found
      gone := List.forall_mem_nil _ }
  accounted := fun _ _ _ found => nomatch found

/-- In every run in which file operations succeed and no file is stored at a node in the middle of a
hand-off that does not know it, a node whose lock is free and which hands no files off lists every file in
its directory, under a name that leads to it. -/
theorem files_listed_of_undisturbed {taken : List (Taken System Event)}
    (run : Run (System.step sha1) init taken s) (good : AllMeet (fun _ e => GoodDisk e) taken)
    (calm : AllMeet (fun s e => undisturbed s e = true) taken) {a : NodeAddress} {chord : Chord}
    (found : s.nodes a = some chord) (free : s.owner a = none) (idle : ¬ HandingOff s a) :
    ∀ file ∈ chord.fileDir.names, ∃ name ∈ chord.files, Path.clean name = file := by
  have both : AllMeet (fun s e => GoodDisk e ∧ undisturbed s e = true) taken := fun τ member =>
    ⟨good τ member, calm τ member⟩
  have inv : FilesInv s := run.invariant both filesInv_init fun s e t holds meets moved =>
    ⟨holds.disciplined.step moved, holds.accounted.step holds.disciplined meets.1 meets.2 moved⟩
  have nothing : InHand s.tasks a none := by
    intro done doing
    cases done with
    | takeOver entries => exact inv.disciplined.not_takeOver free entries doing
    | handOff names =>
      obtain ⟨task, inside, atNode, doing⟩ := doing_iff.mp doing
      exact idle ⟨task, inside, atNode, by rw [doing]; rfl⟩
  exact fun file inside => List.mem_map.mp ((inv.accounted a chord none found nothing).files inside)

end Invariant

/-! ## A file stored during a hand-off -/

/-- `localhost:1237` stores `d.txt` while it is alone; then `localhost:1236`, which is to have the file,
joins, and the tick of `localhost:1237` takes the file off its disk to send it there. -/
def handOffBegun : List Event :=
  [.create "localhost:1237" 0, .storeFile "localhost:1237" "d.txt" [1], .resume 0 .good, .handle 0 .good,
    .resume 0 .good, .resume 0 .good, .resume 0 .good,
    .enter "localhost:1236" 0 "localhost:1237", .resume 1 .good, .handle 1 .good, .resume 1 .good,
    .resume 2 .good, .handle 2 .good, .resume 2 .good,
    .checkPred "localhost:1237", .resume 3 .good, .handle 3 .good, .resume 3 .good]

/-- The file is stored at `localhost:1236`, which sends a copy back, and `reassignToPred` returns. -/
def handOffEnded : List Event :=
  [.resume 3 .good, .handle 3 .good, .resume 3 .good, .handle 3 .good, .resume 3 .good, .resume 3 .good]

/-- `localhost:1237` stores `a.txt`, which belongs to it, as goroutine 4. -/
def storedOwn : List Event :=
  [.storeFile "localhost:1237" "a.txt" [2], .resume 4 .good, .handle 4 .good]

theorem files_listed_after_hand_off :
    ((outcome (step knownSha1) init (handOffBegun ++ handOffEnded ++ storedOwn)).nodes "localhost:1237").any
        (fun chord => "a.txt" ∈ chord.fileDir.names) = true ∧
      ∀ chord, (outcome (step knownSha1) init (handOffBegun ++ handOffEnded ++ storedOwn)).nodes
        "localhost:1237" = some chord → ∀ file ∈ chord.fileDir.names, ∃ name ∈ chord.files, Path.clean name = file :=
  ⟨by decide +kernel, fun _ found =>
    files_listed_of_undisturbed (run_trace (step knownSha1) init (handOffBegun ++ handOffEnded ++ storedOwn))
      (by decide +kernel) (by decide +kernel) found (by decide +kernel) (by decide +kernel)⟩

/-- When `a.txt` comes while the hand-off waits for its call, the list that the hand-off leaves does not
have it. -/
theorem unlisted_after_store_in_hand_off :
    ¬ ∀ (sha1 : String → Nat) (taken : List (Taken System Event)) (s : System),
      Run (step sha1) init taken s → AllMeet (fun _ e => GoodDisk e) taken →
      ∀ a chord, s.nodes a = some chord → s.owner a = none → ¬ HandingOff s a →
        ∀ file ∈ chord.fileDir.names, ∃ name ∈ chord.files, Path.clean name = file := by
  intro always
  have run := run_trace (step knownSha1) init (handOffBegun ++ storedOwn ++ handOffEnded)
  have unlisted : ((outcome (step knownSha1) init (handOffBegun ++ storedOwn ++ handOffEnded)).nodes
      "localhost:1237").any (fun chord => "a.txt" ∈ chord.fileDir.names ∧ chord.files = []) = true := by
    decide +kernel
  obtain ⟨chord, found, lost⟩ := (Option.any_eq_true ..).mp unlisted
  obtain ⟨inside, nothing⟩ := of_decide_eq_true lost
  obtain ⟨name, isListed, _⟩ := always knownSha1 _ _ run (by decide +kernel) "localhost:1237" chord found
    (by decide +kernel) (by decide +kernel) "a.txt" inside
  rw [nothing] at isListed
  cases isListed

end System

end Tda596Labs.Chord
