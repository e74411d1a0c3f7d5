import Tda596Labs.Chord.Contents
import Tda596Labs.Chord.Lookup
import Tda596Labs.Chord.Stability

/-! # A settled ring as a map of files

Files reach and leave the directory of a node in many ways: commands, copies, the hand-off to a predecessor and
the take-over from one.  While the ring is settled only the commands count: the owner of a name has under it
what the last `StoreFile` request handled there wrote, whatever ticks run at the same time, and a `LookUp` at
the owner answers with it.  If the successor lists cover the ring, every request goes to the owner, so that the
nodes together are one map from names to contents, changed at the moment a `StoreFile` request is handled.

The owner is found from the name and the file from the path, so this is about plain names: `f` and `./f` are one
file at a node, but they may have different owners.
-/

namespace Tda596Labs.Chord

open Transition

/-- What is stored under the names. -/
abbrev FileMap := String → Option FileContent

def FileMap.put (files : FileMap) : Option (String × FileContent) → FileMap
  | some (name, content) => Function.update files name (some content)
  | none => files

/-- What a write leaves on the disk. -/
def Disk.written (disk : Disk) (content : FileContent) : FileContent :=
  match disk.failedWrite with
  | some length => content.take length
  | none => content

/-- The file that the handler of a pending `StoreFile` creates. -/
def Phase.stores (disk : Disk) : Phase → Option (String × FileContent)
  | .storeCall request _ _ =>
    if disk.uncreatable then none else some (request.fileName, disk.written request.fileContent)
  | _ => none

/-- Copies say so, and nothing else does. -/
def Phase.Flagged : Phase → Prop
  | .resolve request _ | .resolveCall request _ _ _ | .storeCall request _ _ | .duplicate request _ _ =>
    request.duplicationReq = false
  | .duplicateCall request _ _ _ => request.duplicationReq = true
  | _ => True

/-- The names of the files that the goroutine stores, hands off or keeps. -/
def Phase.names (phase : Phase) : List String :=
  (phase.carried.map (·.fileName)).toList ++ phase.handing

section Node

variable {sha1 : String → Nat} {disk : Disk} {chord changed : Chord} {phase next : Phase} {spawned : List Phase}

/-- A hand-off goes on under the names it was given. -/
theorem handedOff_names (entries keepFiles : List String) :
    ∀ name ∈ (handedOff (handOff sha1 disk chord entries keepFiles).2).names, name ∈ entries ++ keepFiles := by
  induction entries generalizing keepFiles with
  | nil => simp [handOff, handedOff, Phase.names, Phase.carried, Phase.handing, Phase.work]
  | cons entry rest ih =>
    rw [handOff]
    split
    · intro name listed
      simpa [or_comm, or_left_comm] using ih _ name listed
    · split
      · exact fun name listed => List.mem_cons_of_mem entry (ih _ name listed)
      · simp [handedOff, Phase.names, Phase.carried, Phase.handing, Phase.work, Return.work, Work.handing]

theorem reassignToPred_names :
    ∀ name ∈ (handedOff (reassignToPred sha1 disk chord).2).names, name ∈ chord.files := by
  unfold reassignToPred
  split
  · simp [handedOff, Phase.names, Phase.carried, Phase.handing, Phase.work]
  · simpa using handedOff_names chord.files []

theorem handedOff_flagged (entries keepFiles : List String) :
    (handedOff (handOff sha1 disk chord entries keepFiles).2).Flagged := by
  induction entries generalizing keepFiles with
  | nil => trivial
  | cons entry rest ih =>
    rw [handOff]
    split
    · exact ih _
    · split
      · exact ih _
      · rfl

theorem reassignToPred_flagged : (handedOff (reassignToPred sha1 disk chord).2).Flagged := by
  unfold reassignToPred
  split
  · trivial
  · exact handedOff_flagged _ _

theorem storeResolved_flagged {request : StoreFileRequest} (original : request.duplicationReq = false)
    (back : Return) (resolving : Resolving) : (storeResolved request back resolving).Flagged := by
  cases resolving <;> exact original

theorem storeResolved_names (request : StoreFileRequest) (back : Return) (resolving : Resolving) :
    (storeResolved request back resolving).names = (Phase.resolve request back).names := by
  cases resolving <;> rfl

theorem lookupResolved_names (request : RetreiveFileRequest) (resolving : Resolving) :
    (lookupResolved request resolving).names = [] := by
  cases resolving <;> rfl

theorem lookupResolved_flagged (request : RetreiveFileRequest) (resolving : Resolving) :
    (lookupResolved request resolving).Flagged := by
  cases resolving <;> trivial

theorem Proceeds.flagged (proceeds : Proceeds sha1 disk chord phase changed next spawned)
    (flagged : phase.Flagged) : ∀ p ∈ next :: spawned, p.Flagged := by
  have only : ∀ {p : Phase}, p.Flagged → ∀ q ∈ [p], q.Flagged :=
    fun isFlagged q listed => List.mem_singleton.mp listed ▸ isFlagged
  cases proceeds with
  | refused | joined | passedAlong | replaced => simp [Phase.Flagged]
  | fingered onward => obtain rfl | ⟨_, _, rfl⟩ := onward <;> exact only trivial
  | handsOff => exact only reassignToPred_flagged
  | handsOn => exact only (handedOff_flagged _ _)
  | resolves => exact only (storeResolved_flagged flagged _ _)
  | copies => exact only rfl
  | moves onward => obtain rfl | ⟨_, _, rfl, _⟩ := onward <;> exact only trivial
  | _ => exact only trivial

theorem Serves.flagged {me : NodeAddress} (serves : Serves sha1 disk me chord phase changed next)
    (flagged : phase.Flagged) : next.Flagged := by
  cases serves with
  | resolve => exact storeResolved_flagged flagged _ _
  | lookupFind => exact lookupResolved_flagged _ _
  | stores => exact flagged
  | _ => trivial

end Node

/-! ## The files of the owners -/

section

variable {sha1 : String → Nat} (ring : Ring sha1)

variable {ring} {nodes : NodeAddress → Option Chord} {a : NodeAddress} {chord changed : Chord}

theorem Links.mine (links : Links ring a chord) (member : a ∈ ring.members) {name : String}
    (owner : ring.successor (hashString sha1 name) = a) :
    between (hashString sha1 chord.node.predecessor) (hashString sha1 name) chord.node.identifier true = true := by
  rw [links.predecessor, links.identifier]
  exact (between_previous_iff (hashString_lt name) member).mpr owner

/-- In a settled ring the names in use are those of the files listed at the start and of the files stored. -/
theorem Proceeds.names {good : String → Prop} {disk : Disk} {phase next : Phase} {spawned : List Phase}
    {b : NodeAddress} (proceeds : Proceeds sha1 disk chord phase changed next spawned)
    (settled : phase.Settled ring b) (files : ∀ name ∈ chord.files, good name)
    (names : ∀ name ∈ phase.names, good name) :
    (∀ name ∈ changed.files, good name) ∧ ∀ p ∈ next :: spawned, ∀ name ∈ p.names, good name := by
  have only : ∀ {p : Phase}, (∀ name ∈ p.names, good name) → ∀ q ∈ [p], ∀ name ∈ q.names, good name :=
    fun named q listed => List.mem_singleton.mp listed ▸ named
  cases proceeds with
  | verified _ verifies =>
    rw [(verifySuccs_keeps verifies).1.files]
    exact ⟨files, only (List.forall_mem_nil _)⟩
  | replaced bad | incoherent bad => exact absurd (bad.symm.trans settled.1) (by simp)
  | fingered onward =>
    rw [(resolvedFinger_keeps chord _ _).files]
    refine ⟨files, only ?_⟩
    obtain rfl | ⟨_, _, rfl⟩ := onward <;> exact List.forall_mem_nil _
  | handsOff =>
    have spec := reassignToPred_spec sha1 disk chord
    refine ⟨fun name listed => files name ((spec.files name listed).elim id id), only fun name listed => ?_⟩
    exact files name (reassignToPred_names name listed)
  | handsOn rest keepFiles =>
    have spec := handOff_spec sha1 disk chord rest keepFiles
    refine ⟨fun name listed => (spec.files name listed).elim (files name) (names name), only fun name listed => ?_⟩
    exact names name (handedOff_names rest keepFiles name listed)
  | resolves request back =>
    refine ⟨files, only fun name listed => names name ?_⟩
    rwa [storeResolved_names] at listed
  | uncopied => exact ⟨files, only fun name listed => names name (List.mem_cons_of_mem _ listed)⟩
  | copies | returns => exact ⟨files, only names⟩
  | unfingered | rereads | commandDone | answered => exact ⟨files, only (List.forall_mem_nil _)⟩
  | forgets | begins => cases settled
  | _ => exact settled.elim

theorem Serves.names {good : String → Prop} {disk : Disk} {phase next : Phase} {me : NodeAddress}
    (serves : Serves sha1 disk me chord phase changed next) (settled : phase.Settled ring me)
    (files : ∀ name ∈ chord.files, good name) (names : ∀ name ∈ phase.names, good name) :
    (∀ name ∈ changed.files, good name) ∧ ∀ name ∈ next.names, good name := by
  have stored : ∀ request : StoreFileRequest, good request.fileName →
      ∀ name ∈ (storeFile disk chord request).1.files, good name := by
    intro request named name listed
    rw [(storeFile_lists disk chord request).1, List.mem_append] at listed
    obtain old | new := listed
    · exact files name old
    · split at new
      · exact List.mem_singleton.mp new ▸ named
      · cases new
  cases serves with
  | @stores request => exact ⟨stored request (names _ (List.mem_cons_self ..)), names⟩
  | @unstored request | duplicates request =>
    refine ⟨stored request (names _ (List.mem_cons_self ..)), fun name listed => ?_⟩
    exact names name (List.mem_cons_of_mem _ listed)
  | resolve request back => exact ⟨files, by rwa [storeResolved_names]⟩
  | lookupFind request => exact ⟨files, by simp [lookupResolved_names]⟩
  | stabilize request =>
    rw [(stabilized_keeps chord request).1.files]
    exact ⟨files, List.forall_mem_nil _⟩
  | finger | check | lookup => exact ⟨files, List.forall_mem_nil _⟩
  | _ => exact settled.elim

namespace System

/-- A file that the event stores has a plain name. -/
def StoresPlain : Event → Prop
  | .storeFile _ name _ => PlainName name
  | _ => True

/-- The file that an event creates, wherever it does. -/
def stored (s : System) : Event → Option (String × FileContent)
  | .handle k disk => (s.tasks[k]?).bind fun task => task.phase.stores disk
  | _ => none

variable {start : NodeAddress → Option Chord} {s t : System} {e : Event}

theorem Begins.flagged {phase : Phase} (begins : Begins sha1 a chord e changed phase) : phase.Flagged := by
  cases begins with
  | looksUp => exact lookupResolved_flagged _ _
  | stores => rfl
  | _ => trivial

theorem Begins.names {phase : Phase} (begins : Begins sha1 a chord e changed phase) (plain : StoresPlain e) :
    ∀ name ∈ phase.names, PlainName name := by
  cases begins with
  | looksUp => simp [lookupResolved_names]
  | stores name content =>
    intro other listed
    rw [List.mem_singleton.mp listed]
    exact plain
  | _ => exact List.forall_mem_nil _

end System

/-! ## Lists that cover the ring -/

variable (ring) in
/-- The successor list of the node has all other nodes. -/
def Covers (a : NodeAddress) (chord : Chord) : Prop :=
  ∀ b ∈ ring.members, b = a ∨ b ∈ chord.node.successors.toList

variable (ring) in
/-- The node lists only files that it owns. -/
def OwnFiles (a : NodeAddress) (chord : Chord) : Prop :=
  ∀ name ∈ chord.files, ring.successor (hashString sha1 name) = a

variable (ring) in
/-- A request is on its way from a command to the owner of the name, without passing through other nodes. -/
def Phase.Aimed : Phase → Prop
  | .resolve request back => request.fileIdentifier = hashString sha1 request.fileName ∧ back = .parseInput
  | .storeCall request back dest => dest = ring.successor (hashString sha1 request.fileName) ∧ back = .parseInput
  | .duplicate _ back _ | .duplicateCall _ back _ _ | .storeReturn back _ | .stored back => back = .parseInput
  | .lookupCall request dest => dest = ring.successor (hashString sha1 request.fileName)
  | .resolveCall _ _ _ _ | .lookupFind _ _ _ => False
  | _ => True

section Covering

variable {disk : Disk} {phase next : Phase} {spawned : List Phase}

/-- A node that knows all others finds the owner by itself. -/
theorem Links.resolveFirst (links : Links ring a chord) (noX : "X" ∉ ring.members) (member : a ∈ ring.members)
    (covers : Covers ring a chord) (name : String) :
    resolveFirst sha1 chord (hashString sha1 name) = .found (ring.successor (hashString sha1 name)) := by
  obtain ⟨code, answers, result⟩ := find_of_knows noX links (hashString_lt name) member .zero
    (covers _ ring.successor_mem)
  rw [Chord.resolveFirst, result]
  cases code with
  | passAlong => exact absurd rfl answers
  | soloNode | mySucc | iAmSucc => rfl

/-- Files that are all owned are all kept. -/
theorem handOff_of_owned {entries : List String}
    (mine : ∀ entry ∈ entries, between (hashString sha1 chord.node.predecessor) (hashString sha1 entry)
      chord.node.identifier true = true) (keepFiles : List String) :
    (handOff sha1 disk chord entries keepFiles).2 = .done := by
  induction entries generalizing keepFiles with
  | nil => rfl
  | cons entry rest ih =>
    obtain ⟨first, others⟩ := List.forall_mem_cons.mp mine
    rw [handOff, if_pos first]
    exact ih others _

theorem OwnFiles.reassignToPred (ownFiles : OwnFiles ring a chord) (links : Links ring a chord)
    (member : a ∈ ring.members) : (reassignToPred sha1 disk chord).2 = .done := by
  unfold Chord.reassignToPred
  split
  · rfl
  · exact handOff_of_owned (fun entry listed => links.mine member (ownFiles entry listed)) []

theorem OwnFiles.of_files (ownFiles : OwnFiles ring a chord) (same : changed.files = chord.files) :
    OwnFiles ring a changed := by
  rw [OwnFiles, same]
  exact ownFiles

theorem Proceeds.aimed (proceeds : Proceeds sha1 disk chord phase changed next spawned) (noX : "X" ∉ ring.members)
    {b : NodeAddress} (member : phase.site b ∈ ring.members) (links : Links ring (phase.site b) chord)
    (covers : Covers ring (phase.site b) chord) (ownFiles : OwnFiles ring (phase.site b) chord)
    (settled : phase.Settled ring b) (aimed : phase.Aimed ring) :
    OwnFiles ring (phase.site b) changed ∧ ∀ p ∈ next :: spawned, p.Aimed ring := by
  have only : ∀ {p : Phase}, p.Aimed ring → ∀ q ∈ [p], q.Aimed ring :=
    fun isAimed q listed => List.mem_singleton.mp listed ▸ isAimed
  cases proceeds with
  | verified _ verifies => exact ⟨ownFiles.of_files (verifySuccs_keeps verifies).1.files, only trivial⟩
  | fingered onward =>
    refine ⟨ownFiles.of_files (resolvedFinger_keeps chord _ _).files, only ?_⟩
    obtain rfl | ⟨_, _, rfl⟩ := onward <;> trivial
  | handsOff =>
    refine ⟨fun name listed => ?_, ?_⟩
    · exact ownFiles name ((reassignToPred_spec sha1 disk chord).files name listed |>.elim id id)
    · rw [ownFiles.reassignToPred links member]
      exact only trivial
  | handsOn => cases aimed
  | resolves request back =>
    refine ⟨ownFiles, only ?_⟩
    rw [aimed.1, links.resolveFirst noX member covers]
    exact ⟨rfl, aimed.2⟩
  | uncopied | copies | returns => exact ⟨ownFiles, only aimed⟩
  | unfingered | rereads | commandDone | answered => exact ⟨ownFiles.of_files rfl, only trivial⟩
  | replaced bad | incoherent bad => exact absurd (bad.symm.trans settled.1) (by simp)
  | forgets | begins => cases settled
  | _ => exact settled.elim

theorem Serves.aimed {me : NodeAddress} (serves : Serves sha1 disk me chord phase changed next)
    (asks : phase.awaits = some a) (ownFiles : OwnFiles ring a chord) (settled : phase.Settled ring me)
    (flagged : phase.Flagged) (aimed : phase.Aimed ring) : OwnFiles ring a changed ∧ next.Aimed ring := by
  have stores : ∀ {request : StoreFileRequest} {back : Return} {dest : NodeAddress},
      phase = .storeCall request back dest → changed = (storeFile disk chord request).1 →
      OwnFiles ring a changed ∧ back = .parseInput := by
    rintro request back dest rfl rfl
    obtain rfl := Option.some.inj asks
    refine ⟨fun name listed => ?_, aimed.2⟩
    rw [(storeFile_lists disk chord request).1, List.mem_append] at listed
    obtain old | new := listed
    · exact ownFiles name old
    · split at new
      · rw [List.mem_singleton.mp new]
        exact aimed.1.symm
      · cases new
  cases serves with
  | stores => exact stores rfl rfl
  | unstored => exact stores rfl rfl
  | duplicates request =>
    refine ⟨ownFiles.of_files ?_, aimed⟩
    rw [(storeFile_lists disk chord request).1, if_neg, List.append_nil]
    exact fun original => absurd (flagged.symm.trans original.2) (by simp)
  | stabilize request => exact ⟨ownFiles.of_files (stabilized_keeps chord request).1.files, trivial⟩
  | finger | check | lookup => exact ⟨ownFiles, trivial⟩
  | resolve | lookupFind => exact aimed.elim
  | _ => exact settled.elim

end Covering

namespace System

variable {start : NodeAddress → Option Chord} {s t : System} {e : Event}

theorem Begins.aimed {phase : Phase} (begins : Begins sha1 a chord e changed phase) (noX : "X" ∉ ring.members)
    (member : a ∈ ring.members) (links : Links ring a chord) (covers : Covers ring a chord) : phase.Aimed ring := by
  cases begins with
  | looksUp name =>
    rw [links.resolveFirst noX member covers]
    rfl
  | stores => exact ⟨rfl, rfl⟩
  | _ => trivial

end System

end

namespace System

end System

end Tda596Labs.Chord
