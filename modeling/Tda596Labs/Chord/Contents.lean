import Tda596Labs.Chord.Invariants

/-! # Where file contents come from

A content travels far between the command that stores it and the disk it ends on: it is resolved, stored,
copied to a successor, handed off to a predecessor that joined and taken over from one that stopped, by
goroutines that interleave, fail and are cut off.  Whatever they do, no content is made up and none gets
into another file: every file of every node is the beginning of what some `StoreFile` command for that
file was given, and all of it if no write was cut short.

The invariant is stated for an arbitrary condition on files that the commands meet and the failed writes
keep; the two statements above are two such conditions.  The condition is on the file and not on the name that
leads to it: a file stored as `./a.txt` may be handed off as `a.txt`.
-/

namespace Tda596Labs.Chord

open Transition

/-- The condition does not tell names apart that lead to the same file. -/
def OfFiles (good : String → FileContent → Prop) : Prop :=
  ∀ name content, good (Path.clean name) content ↔ good name content

/-- Every file in the two directories of a node meets a condition. -/
structure Holds (good : String → FileContent → Prop) (chord : Chord) : Prop where
  fileDir : ∀ name content, chord.fileDir.read name = some content → good name content
  duplDir : ∀ name content, chord.duplDir.read name = some content → good name content

/-- The `StoreFile` request a goroutine has in its hands. -/
def Phase.carried : Phase → Option StoreFileRequest
  | .resolve request _ | .resolveCall request _ _ _ | .storeCall request _ _ => some request
  | .duplicate request _ _ | .duplicateCall request _ _ _ => some request
  | .takeOverCall _ request _ => some request
  | _ => none

/-- A request that is for a file meeting the condition and asks for the owner of its name. -/
structure StoreFileRequest.Carries (sha1 : String → Nat) (good : String → FileContent → Prop)
    (request : StoreFileRequest) : Prop where
  fileContent : good request.fileName request.fileContent
  fileIdentifier : request.fileIdentifier = hashString sha1 request.fileName

def Phase.Carries (sha1 : String → Nat) (good : String → FileContent → Prop) (phase : Phase) : Prop :=
  ∀ request, phase.carried = some request → request.Carries sha1 good

/-- A write that fails leaves a file that still meets the condition. -/
def Disk.Spares (good : String → FileContent → Prop) (disk : Disk) : Prop :=
  ∀ written, disk.failedWrite = some written →
    ∀ name content, good name content → good name (content.take written)

section Steps

variable {sha1 : String → Nat} {good : String → FileContent → Prop} {disk : Disk} {chord changed : Chord}

theorem Phase.carries_of_none {phase : Phase} (empty : phase.carried = none) : phase.Carries sha1 good := by
  intro request carried
  rw [empty] at carried
  cases carried

theorem Phase.carries_of_some {phase : Phase} {request : StoreFileRequest}
    (carried : phase.carried = some request) : phase.Carries sha1 good ↔ request.Carries sha1 good := by
  constructor
  · intro carries
    exact carries request carried
  · intro carries other same
    obtain rfl : request = other := Option.some.inj (carried.symm.trans same)
    exact carries

theorem KeepsFiles.holds (keeps : KeepsFiles chord changed) (holds : chord.Holds good) :
    changed.Holds good where
  fileDir := by rw [keeps.fileDir]; exact holds.fileDir
  duplDir := by rw [keeps.duplDir]; exact holds.duplDir

/-! ## Directories -/

theorem read_create_good {dir : Directory FileContent} {entry : String} {content : FileContent}
    (all : ∀ name content, dir.read name = some content → good name content)
    (new : good entry content) (name : String) (content' : FileContent)
    (found : (dir.create entry content).read name = some content') : good name content' := by
  rw [Directory.read_create] at found
  split at found
  · next same =>
    rw [same, ← Option.some.inj found]
    exact new
  · exact all name content' found

theorem read_remove_good {dir : Directory FileContent} {entry : String}
    (all : ∀ name content, dir.read name = some content → good name content)
    (name : String) (content : FileContent)
    (found : (dir.remove entry).read name = some content) : good name content := by
  rw [Directory.read_remove] at found
  split at found
  · cases found
  · exact all name content found

theorem writeFile_holds (ofFiles : OfFiles good) {request : StoreFileRequest} {content : FileContent}
    (holds : chord.Holds good) (new : good request.fileName content) :
    (writeFile chord request content).Holds good := by
  have written : good (Path.clean request.fileName) content := (ofFiles _ _).mpr new
  unfold writeFile
  split
  · exact ⟨holds.fileDir, read_create_good holds.duplDir written⟩
  · exact ⟨read_create_good holds.fileDir written, holds.duplDir⟩

theorem storeFile_holds (ofFiles : OfFiles good) {request : StoreFileRequest} (holds : chord.Holds good)
    (carries : request.Carries sha1 good) (spares : disk.Spares good) :
    (storeFile disk chord request).1.Holds good := by
  unfold storeFile
  split
  · exact holds
  · split
    · next written failed =>
      exact writeFile_holds ofFiles holds (spares written failed _ _ carries.fileContent)
    · have stored := writeFile_holds ofFiles holds carries.fileContent
      split
      · exact ⟨stored.fileDir, stored.duplDir⟩
      · exact ⟨stored.fileDir, stored.duplDir⟩

theorem handOff_contents (ofFiles : OfFiles good) (holds : chord.Holds good) (entries keepFiles : List String) :
    (handOff sha1 disk chord entries keepFiles).1.Holds good ∧
      (handedOff (handOff sha1 disk chord entries keepFiles).2).Carries sha1 good := by
  induction entries generalizing keepFiles with
  | nil =>
    rw [handOff]
    refine ⟨?_, Phase.carries_of_none rfl⟩
    split
    · exact ⟨holds.fileDir, holds.duplDir⟩
    · exact holds
  | cons entry rest ih =>
    rw [handOff]
    split
    · exact ih _
    · split
      · exact ih _
      · next content readable =>
        have found : chord.fileDir.read (Path.clean entry) = some content := by
          split_ifs at readable
          exact readable
        refine ⟨⟨read_remove_good holds.fileDir, holds.duplDir⟩, ?_⟩
        exact (Phase.carries_of_some rfl).mpr ⟨(ofFiles _ _).mp (holds.fileDir _ _ found), rfl⟩

theorem reassignToPred_contents (ofFiles : OfFiles good) (holds : chord.Holds good) :
    (reassignToPred sha1 disk chord).1.Holds good ∧
      (handedOff (reassignToPred sha1 disk chord).2).Carries sha1 good := by
  unfold reassignToPred
  split
  · exact ⟨holds, Phase.carries_of_none rfl⟩
  · exact handOff_contents ofFiles holds _ _

/-- An entry that is taken over is moved as it is, or stays, and the copy sent on is what is then in the
own directory. -/
theorem takeOverEntry_cases (sha1 : String → Nat) (disk : Disk) (chord : Chord) (entry : String) :
    ((takeOverEntry sha1 disk chord entry).1 = chord ∨
      ∃ content, chord.duplDir.read entry = some content ∧ (takeOverEntry sha1 disk chord entry).1 =
        { chord with
          duplDir := chord.duplDir.remove entry
          fileDir := chord.fileDir.create entry content }) ∧
    ∀ request, (takeOverEntry sha1 disk chord entry).2 = some request →
      ∃ content, (takeOverEntry sha1 disk chord entry).1.fileDir.read entry = some content ∧
        request = ⟨hashString sha1 entry, entry, content, true⟩ := by
  unfold takeOverEntry
  dsimp only
  generalize moves : (if disk.unmovable then none else chord.duplDir.read entry) = content
  cases content with
  | none =>
    dsimp only
    split
    · exact ⟨.inl rfl, nofun⟩
    · next readable =>
      split_ifs at readable
      exact ⟨.inl rfl, fun request copied => ⟨_, readable, (Option.some.inj copied).symm⟩⟩
  | some content =>
    have found : chord.duplDir.read entry = some content := by
      split_ifs at moves
      exact moves
    dsimp only
    split
    · exact ⟨.inr ⟨content, found, rfl⟩, nofun⟩
    · next readable =>
      split_ifs at readable
      exact ⟨.inr ⟨content, found, rfl⟩,
        fun request copied => ⟨_, readable, (Option.some.inj copied).symm⟩⟩

theorem takeOverEntry_contents (holds : chord.Holds good) (entry : String) :
    (takeOverEntry sha1 disk chord entry).1.Holds good ∧
      ∀ request, (takeOverEntry sha1 disk chord entry).2 = some request → request.Carries sha1 good := by
  obtain ⟨moves, copies⟩ := takeOverEntry_cases sha1 disk chord entry
  have moved : (takeOverEntry sha1 disk chord entry).1.Holds good := by
    obtain stays | ⟨content, found, moves⟩ := moves
    · rw [stays]
      exact holds
    · rw [moves]
      exact ⟨read_create_good holds.fileDir (holds.duplDir _ _ found), read_remove_good holds.duplDir⟩
  refine ⟨moved, ?_⟩
  intro request copied
  obtain ⟨content, found, rfl⟩ := copies request copied
  exact ⟨moved.fileDir _ _ found, rfl⟩

/-! ## Steps of one goroutine -/

theorem storeResolved_carried (request : StoreFileRequest) (back : Return) (resolving : Resolving) :
    (storeResolved request back resolving).carried = some request := by
  cases resolving <;> rfl

theorem lookupResolved_carried (request : RetreiveFileRequest) (resolving : Resolving) :
    (lookupResolved request resolving).carried = none := by
  cases resolving <;> rfl

/-- `proceed` passes on what was carried, or takes a file of the node along. -/
theorem proceed_contents (ofFiles : OfFiles good) {phase next : Phase} {spawned : List Phase}
    (ran : proceed sha1 disk chord phase = some (changed, next, spawned)) (holds : chord.Holds good)
    (carries : phase.Carries sha1 good) :
    changed.Holds good ∧ ∀ p ∈ next :: spawned, p.Carries sha1 good := by
  have only : ∀ {p : Phase}, p.Carries sha1 good → ∀ q ∈ [p], q.Carries sha1 good :=
    fun carried q listed => List.mem_singleton.mp listed ▸ carried
  have nothing : ∀ {phases : List Phase}, (∀ p ∈ phases, p.carried = none) →
      ∀ p ∈ phases, p.Carries sha1 good := fun empty p listed => Phase.carries_of_none (empty p listed)
  cases proceed_proceeds ran with
  | accepted => exact ⟨(accepted_keeps chord _).holds holds, nothing (by simp [Phase.carried])⟩
  | drops => exact ⟨(clearDeadSucc_keeps chord).holds holds, nothing (by simp [Phase.carried])⟩
  | verified _ verifies =>
    exact ⟨(verifySuccs_keeps verifies).1.holds holds, nothing (by simp [Phase.carried])⟩
  | unfingered index => exact ⟨⟨holds.fileDir, holds.duplDir⟩, nothing (by simp [Phase.carried])⟩
  | fingered onward =>
    refine ⟨(resolvedFinger_keeps chord _ _).toKeepsFiles.holds holds, nothing ?_⟩
    obtain rfl | ⟨query, rest, rfl⟩ := onward <;> simp [Phase.carried]
  | handsOff => exact (reassignToPred_contents ofFiles holds).imp_right only
  | forgets => exact ⟨(setPredecessor_keeps chord _).holds holds, nothing (by simp [Phase.carried])⟩
  | resolves request back =>
    refine ⟨holds, only ?_⟩
    rw [Phase.carries_of_some (storeResolved_carried _ _ _)]
    exact carries request rfl
  | handsOn rest keepFiles => exact (handOff_contents ofFiles holds rest keepFiles).imp_right only
  | @copies request =>
    have original := carries request rfl
    have copy : StoreFileRequest.Carries sha1 good { request with duplicationReq := true } :=
      ⟨original.fileContent, original.fileIdentifier⟩
    exact ⟨holds, only ((Phase.carries_of_some rfl).mpr copy)⟩
  | takenOver => exact ⟨⟨holds.fileDir, holds.duplDir⟩, nothing (by simp [Phase.carried])⟩
  | @moves entry entries =>
    have entered : (takeOverEntry sha1 disk chord entry).1.Holds good ∧
        ∀ request, (takeOverEntry sha1 disk chord entry).2 = some request → request.Carries sha1 good :=
      takeOverEntry_contents holds entry
    refine ⟨entered.1, ?_⟩
    -- the inversion forgets which request is sent on
    simp only [proceed] at ran
    generalize takeOverEntry sha1 disk chord entry = result at ran entered
    obtain ⟨after, copy⟩ := result
    cases copy with
    | none =>
      cases ran
      exact nothing (by simp [Phase.carried])
    | some request =>
      dsimp only at ran
      split at ran <;> cases ran
      · exact nothing (by simp [Phase.carried])
      · exact only ((Phase.carries_of_some rfl).mpr (entered.2 request rfl))
  | _ => exact ⟨holds, nothing (by simp [Phase.carried])⟩

theorem Serves.contents (ofFiles : OfFiles good) {me : NodeAddress} {phase next : Phase}
    (serves : Serves sha1 disk me chord phase changed next) (holds : chord.Holds good)
    (carries : phase.Carries sha1 good) (spares : disk.Spares good) :
    changed.Holds good ∧ next.Carries sha1 good := by
  cases serves with
  | notify request => exact ⟨(notify_keeps sha1 chord request).1.holds holds, Phase.carries_of_none rfl⟩
  | join request => exact ⟨(join_keeps sha1 chord request).holds holds, Phase.carries_of_none rfl⟩
  | stabilize request =>
    exact ⟨(stabilized_keeps chord request).1.holds holds, Phase.carries_of_none rfl⟩
  | resolve request =>
    rw [Phase.carries_of_some (storeResolved_carried _ _ _)]
    exact ⟨holds, carries request rfl⟩
  | @stores request =>
    exact ⟨storeFile_holds ofFiles holds (carries request rfl) spares,
      (Phase.carries_of_some rfl).mpr (carries request rfl)⟩
  | @unstored request =>
    exact ⟨storeFile_holds ofFiles holds (carries request rfl) spares, Phase.carries_of_none rfl⟩
  | duplicates request | takesOver _ request =>
    exact ⟨storeFile_holds ofFiles holds (carries request rfl) spares, Phase.carries_of_none rfl⟩
  | lookupFind request => exact ⟨holds, Phase.carries_of_none (lookupResolved_carried _ _)⟩
  | _ => exact ⟨holds, Phase.carries_of_none rfl⟩

theorem Phase.failed_carries {phase next : Phase} (gives : phase.failed = some next)
    (carries : phase.Carries sha1 good) : next.Carries sha1 good := by
  cases phase with
  | resolveCall request =>
    cases gives
    exact (Phase.carries_of_some rfl).mpr (carries request rfl)
  | _ => cases gives <;> exact Phase.carries_of_none rfl

theorem Phase.cutOff_carries (a : NodeAddress) {phase : Phase} (carries : phase.Carries sha1 good) :
    (phase.cutOff a).Carries sha1 good := by
  cases phase with
  | duplicate | duplicateCall | storeReturn =>
    rw [Phase.cutOff]
    split
    · exact Phase.carries_of_none rfl
    · exact carries
  | _ => exact carries

theorem Phase.handler_carries {phase next : Phase} {dest : NodeAddress}
    (left : phase.handler = some (dest, next)) (carries : phase.Carries sha1 good) : next.Carries sha1 good := by
  cases phase with
  | duplicate request | duplicateCall request =>
    cases left
    exact (Phase.carries_of_some rfl).mpr (carries request rfl)
  | storeReturn =>
    cases left
    exact Phase.carries_of_none rfl
  | _ => cases left

end Steps

namespace System

/-- Every file on a disk and every file on its way meets a condition. -/
structure Sound (sha1 : String → Nat) (good : String → FileContent → Prop) (s : System) : Prop where
  onDisk : ∀ a chord, s.nodes a = some chord → chord.Holds good
  onTheWay : ∀ task ∈ s.tasks, task.phase.Carries sha1 good

/-- Events that bring in nothing but files meeting the condition. -/
structure Brings (good : String → FileContent → Prop) (e : Event) : Prop where
  command : ∀ a name content, e = .storeFile a name content → good name content
  write : ∀ k disk, e = .handle k disk → disk.Spares good

section

variable {sha1 : String → Nat} {good : String → FileContent → Prop} {s t : System} {e : Event}

theorem Begins.carries {a : NodeAddress} {chord changed : Chord} {phase : Phase}
    (begins : Begins sha1 a chord e changed phase) (brings : Brings good e) : phase.Carries sha1 good := by
  cases begins with
  | stores name content => exact (Phase.carries_of_some rfl).mpr ⟨brings.command _ _ _ rfl, rfl⟩
  | looksUp name => exact Phase.carries_of_none (lookupResolved_carried _ _)
  | _ => exact Phase.carries_of_none rfl

theorem Boots.sound (good : String → FileContent → Prop) {a : NodeAddress} {chord : Chord}
    {tasks : List Task} (boots : Boots sha1 e a chord tasks) :
    chord.Holds good ∧ ∀ task ∈ tasks, task.phase.Carries sha1 good := by
  cases boots with
  | create => exact ⟨⟨nofun, nofun⟩, nofun⟩
  | enter =>
    refine ⟨⟨nofun, nofun⟩, ?_⟩
    intro task listed
    rw [List.mem_singleton.mp listed]
    exact Phase.carries_of_none rfl

theorem upholds_contents (ofFiles : OfFiles good) :
    Upholds sha1 (fun _ => Holds good) (fun _ => Phase.Carries sha1 good) fun _ e => Brings good e where
  boots _ boots := boots.sound good
  begins brings holds begins := ⟨begins.keeps.holds holds, begins.carries brings⟩
  proceeds _ holds carries ran := proceed_contents ofFiles ran holds carries
  serves brings holds carries _ serves := serves.contents ofFiles holds carries (brings.write _ _ rfl)
  fails _ _ carries gives := Phase.failed_carries gives carries
  stops _ _ := Phase.carries_of_none rfl
  cutOff _ carries := Phase.cutOff_carries _ carries
  left _ carries left := Phase.handler_carries left carries

theorem sound_of_run (ofFiles : OfFiles good) {taken : List (Taken System Event)} {final : System}
    (run : Run (step sha1) init taken final) (brings : ∀ τ ∈ taken, Brings good τ.event) :
    final.Sound sha1 good := by
  have all := (upholds_contents ofFiles).run run brings all_init
  exact ⟨all.nodes, all.tasks⟩

/-- No write is cut short. -/
def WritesWhole : Event → Prop
  | .handle _ disk => disk.failedWrite = none
  | _ => True

instance : (e : Event) → Decidable (WritesWhole e)
  | .handle _ disk => inferInstanceAs (Decidable (disk.failedWrite = none))
  | .create .. | .enter .. | .stabilize _ | .fixFingers _ | .checkPred _ | .storeFile .. | .lookup ..
  | .resume .. | .fail _ | .crash _ => .isTrue trivial

/-- A `StoreFile` command of the run was given this content for this file. -/
def Commanded (taken : List (Taken System Event)) (file : String) (content : FileContent) : Prop :=
  ∃ τ ∈ taken, ∃ a name, τ.event = .storeFile a name content ∧ Path.clean name = Path.clean file

theorem commanded_ofFiles (taken : List (Taken System Event)) : OfFiles (Commanded taken) := by
  intro name content
  simp only [Commanded, Path.clean_clean]

theorem brings_commanded {taken : List (Taken System Event)}
    (whole : AllMeet (fun _ e => WritesWhole e) taken) :
    ∀ τ ∈ taken, Brings (Commanded taken) τ.event := by
  intro τ member
  refine ⟨fun a name content commands => ⟨τ, member, a, name, commands, rfl⟩, ?_⟩
  intro k disk handles written failed
  have unfailed : WritesWhole τ.event := whole τ member
  rw [handles] at unfailed
  exact absurd (failed.symm.trans unfailed) (by simp)

/-- The content is a beginning of what a `StoreFile` command of the run was given for this file. -/
def PartCommanded (taken : List (Taken System Event)) (file : String) (content : FileContent) : Prop :=
  ∃ whole written, Commanded taken file whole ∧ content = whole.take written

theorem partCommanded_ofFiles (taken : List (Taken System Event)) : OfFiles (PartCommanded taken) := by
  intro name content
  simp only [PartCommanded, commanded_ofFiles taken name]

/-- The beginning of a beginning is a beginning, so failed writes do no harm. -/
theorem brings_partCommanded {taken : List (Taken System Event)} :
    ∀ τ ∈ taken, Brings (PartCommanded taken) τ.event := by
  intro τ member
  constructor
  · intro a name content commands
    exact ⟨content, content.length, ⟨τ, member, a, name, commands, rfl⟩, content.take_length.symm⟩
  · rintro k disk _ written _ name _ ⟨whole, before, commanded, rfl⟩
    exact ⟨whole, min written before, commanded, List.take_take⟩

/-- Nothing is made up: in every state of every run, each file of each node and each file on its way to one
is the beginning of what a `StoreFile` command gave for the same file, and all of it if every write succeeded;
and every file on its way looks for the owner of its own name. -/
theorem stored_was_commanded {taken : List (Taken System Event)} {final : System}
    (run : Run (System.step sha1) init taken final) :
    final.Sound sha1 (PartCommanded taken) ∧
    (AllMeet (fun _ e => WritesWhole e) taken → final.Sound sha1 (Commanded taken)) :=
  ⟨sound_of_run (partCommanded_ofFiles taken) run brings_partCommanded,
    fun whole => sound_of_run (commanded_ofFiles taken) run (brings_commanded whole)⟩

end

/-- `localhost:1` is alone and is told to store `./f`; the write stops after two of three bytes. -/
def cutShort : List Event :=
  [.create "localhost:1" 0, .storeFile "localhost:1" "./f" [7, 8, 9], .resume 0 .good,
    .handle 0 { Disk.good with failedWrite := some 2 }]

theorem cutShort_was_commanded :
    ((outcome (step String.length) init cutShort).nodes "localhost:1").any
        (fun chord => chord.fileDir.read "f" = some [7, 8]) = true ∧
      (outcome (step String.length) init cutShort).Sound String.length
        (PartCommanded (trace (step String.length) init cutShort)) :=
  ⟨by decide +kernel, (stored_was_commanded (run_trace (step String.length) init cutShort)).1⟩

end System

end Tda596Labs.Chord
