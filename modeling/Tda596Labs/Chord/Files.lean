import Tda596Labs.Lib.Path
import Tda596Labs.Chord.Node

/-! # Files of a node

What `StoreFile`, `LookUp`, `CallDuplication`, `reassignToPred` and `reassignDuplicatedToMe` do with
the two file lists and the two directories of a node, again in stretches between taking and releasing
`chordSync`.  A name is a path below the directory, so that `a.txt` and `./a.txt` are one file: a file is known by
its cleaned name.
-/

namespace Tda596Labs.Chord

/-- The name leads to an entry of the directory and is the name of that entry. -/
def PlainName (name : String) : Prop := Path.IsName name.toList

instance instDecidablePlainName (name : String) : Decidable (PlainName name) :=
  inferInstanceAs (Decidable (Path.IsName name.toList))

theorem PlainName.clean {name : String} (plain : PlainName name) : Path.clean name = name := Path.clean_of_isName plain

inductive FileStat where
  | fileOk
  | noSuchFile
  | readErr
  | createErr
  | writeErr
  deriving DecidableEq, Repr

structure StoreFileRequest where
  fileIdentifier : Nat
  fileName : String
  fileContent : FileContent
  duplicationReq : Bool
  deriving DecidableEq, Repr

structure RetreiveFileRequest where
  fileIdentifier : Nat
  fileName : String
  deriving DecidableEq, Repr

structure RetreiveFileResponse where
  nodeAddress : NodeAddress
  identifier : Nat
  fileStatus : FileStat
  fileContent : FileContent
  deriving DecidableEq, Repr

/-- Which file operations fail. -/
structure Disk where
  /-- `os.ReadDir` -/
  unlisted : Bool
  /-- `os.Rename` -/
  unmovable : Bool
  /-- opening a file under one of these names -/
  unopenable : List String
  /-- reading a file that has been opened under one of these names -/
  unreadable : List String
  /-- `os.Create` -/
  uncreatable : Bool
  /-- a write that stops after so many bytes -/
  failedWrite : Option Nat
  deriving DecidableEq, Repr

/-- Every file operation succeeds. -/
def Disk.good : Disk := ⟨false, false, [], [], false, none⟩

/-- `os.ReadFile`, or `os.Open` and `io.ReadAll`, under this name. -/
def Disk.failsRead (disk : Disk) (name : String) : Bool := name ∈ disk.unopenable ∨ name ∈ disk.unreadable

/-- The file is written into the directory the request asks for. -/
def writeFile (chord : Chord) (request : StoreFileRequest) (content : FileContent) : Chord :=
  if request.duplicationReq then
    { chord with duplDir := chord.duplDir.create (Path.clean request.fileName) content }
  else { chord with fileDir := chord.fileDir.create (Path.clean request.fileName) content }

/-- The handler `StoreFile` up to the duplication of a new file. -/
def storeFile (disk : Disk) (chord : Chord) (request : StoreFileRequest) : Chord × FileStat :=
  if disk.uncreatable then (chord, .createErr)
  else
    match disk.failedWrite with
    | some written => (writeFile chord request (request.fileContent.take written), .writeErr)
    | none =>
      let stored := writeFile chord request request.fileContent
      if request.duplicationReq then
        ({ stored with replicatedFiles := chord.replicatedFiles ++ [request.fileName] }, .fileOk)
      else ({ stored with files := chord.files ++ [request.fileName] }, .fileOk)

/-- The handler `LookUp`, which does not take the lock. -/
def lookUp (disk : Disk) (chord : Chord) (request : RetreiveFileRequest) : RetreiveFileResponse :=
  match if request.fileName ∈ disk.unopenable then none else chord.fileDir.read (Path.clean request.fileName) with
  | none => ⟨"", 0, .noSuchFile, []⟩
  | some content =>
    if request.fileName ∈ disk.unreadable then ⟨"", 0, .readErr, []⟩
    else ⟨chord.node.nodeAddress, chord.node.identifier, .fileOk, content⟩

/-- The node to which `CallDuplication` sends a copy. -/
def callDuplication (chord : Chord) : Option NodeAddress :=
  if chord.node.successors.first = "X" then none
  else if chord.node.successors.first = chord.node.nodeAddress then none
  else some chord.node.successors.first

/-! ## reassignToPred -/

/-- How far the loop of `reassignToPred` got with the lock: to its end, or to a `CallStoreFile` with the
entries still to come and the files kept so far. -/
inductive HandOff where
  | done
  | store (request : StoreFileRequest) (rest keepFiles : List String)

def handOff (sha1 : String → Nat) (disk : Disk) (chord : Chord) :
    List String → List String → Chord × HandOff
  | [], keepFiles =>
    (if keepFiles.length < chord.files.length then { chord with files := keepFiles } else chord, .done)
  | entry :: rest, keepFiles =>
    if between (hashString sha1 chord.node.predecessor) (hashString sha1 entry) chord.node.identifier true then
      handOff sha1 disk chord rest (keepFiles ++ [entry])
    else
      match if disk.failsRead entry then none else chord.fileDir.read (Path.clean entry) with
      | none => handOff sha1 disk chord rest keepFiles
      | some content =>
        ({ chord with fileDir := chord.fileDir.remove (Path.clean entry) },
          .store ⟨hashString sha1 entry, entry, content, false⟩ rest keepFiles)

def reassignToPred (sha1 : String → Nat) (disk : Disk) (chord : Chord) : Chord × HandOff :=
  if chord.files = [] ∨ chord.node.predecessor = chord.node.nodeAddress then (chord, .done)
  else handOff sha1 disk chord chord.files []

/-! ## reassignDuplicatedToMe -/

/-- The directory entries `reassignDuplicatedToMe` goes through, if there is anything to take over. -/
def takeOverEntries (disk : Disk) (chord : Chord) : Option (List String) :=
  if chord.replicatedFiles = [] then none
  else some (if disk.unlisted then [] else chord.duplDir.names)

/-- One entry moved into the own directory, and the copy to send to the successor.  The name is the one that the
directory has for the file. -/
def takeOverEntry (sha1 : String → Nat) (disk : Disk) (chord : Chord) (entry : String) :
    Chord × Option StoreFileRequest :=
  let moved :=
    match if disk.unmovable then none else chord.duplDir.read entry with
    | none => chord
    | some content =>
      { chord with
        duplDir := chord.duplDir.remove entry
        fileDir := chord.fileDir.create entry content }
  match if disk.failsRead entry then none else moved.fileDir.read entry with
  | none => (moved, none)
  | some content => (moved, some ⟨hashString sha1 entry, entry, content, true⟩)

/-- The end of `reassignDuplicatedToMe`, and the predecessor forgotten. -/
def takeOverDone (chord : Chord) : Chord :=
  { chord with files := chord.files ++ chord.replicatedFiles, replicatedFiles := [] }.setPredecessor "X"

/-! ## What is kept -/

theorem storeFile_node (disk : Disk) (chord : Chord) (request : StoreFileRequest) :
    (storeFile disk chord request).1.node = chord.node := by
  unfold storeFile writeFile
  dsimp only
  split_ifs <;> cases disk.failedWrite <;> rfl

/-- A file reaches one of the two lists only when all of it was written. -/
theorem storeFile_lists (disk : Disk) (chord : Chord) (request : StoreFileRequest) :
    (storeFile disk chord request).1.files =
      chord.files ++ (if (storeFile disk chord request).2 = .fileOk ∧ request.duplicationReq = false then
        [request.fileName] else []) ∧
    (storeFile disk chord request).1.replicatedFiles =
      chord.replicatedFiles ++
        (if (storeFile disk chord request).2 = .fileOk ∧ request.duplicationReq = true then
          [request.fileName] else []) := by
  unfold storeFile writeFile
  cases disk.uncreatable <;> cases disk.failedWrite <;> cases request.duplicationReq <;> simp

theorem storeFile_good (chord : Chord) (request : StoreFileRequest) :
    (storeFile .good chord request).2 = .fileOk := by
  unfold storeFile
  cases request.duplicationReq <;> rfl

theorem storeFile_good_of_duplicate (chord : Chord) {request : StoreFileRequest}
    (duplicate : request.duplicationReq = true) :
    (storeFile .good chord request).1 =
      { chord with
        duplDir := chord.duplDir.create (Path.clean request.fileName) request.fileContent
        replicatedFiles := chord.replicatedFiles ++ [request.fileName] } := by
  simp [storeFile, writeFile, Disk.good, duplicate]

theorem storeFile_good_of_original (chord : Chord) {request : StoreFileRequest}
    (original : request.duplicationReq = false) :
    (storeFile .good chord request).1 =
      { chord with
        fileDir := chord.fileDir.create (Path.clean request.fileName) request.fileContent
        files := chord.files ++ [request.fileName] } := by
  simp [storeFile, writeFile, Disk.good, original]

/-- The names a hand-off still has to do with. -/
def HandOff.names : HandOff → List String
  | .done => []
  | .store _ rest keepFiles => rest ++ keepFiles

/-- A hand-off changes nothing but the own files, and it lists no name that was not listed before. -/
structure HandsOff (before : Chord) (names : List String) (after : Chord) (progress : HandOff) : Prop where
  node : after.node = before.node
  replicatedFiles : after.replicatedFiles = before.replicatedFiles
  files : ∀ name ∈ after.files, name ∈ before.files ∨ name ∈ names
  names : ∀ name ∈ progress.names, name ∈ names

theorem HandsOff.mono {before after : Chord} {names more : List String} {progress : HandOff}
    (handsOff : HandsOff before names after progress) (subset : ∀ name ∈ names, name ∈ more) :
    HandsOff before more after progress where
  node := handsOff.node
  replicatedFiles := handsOff.replicatedFiles
  files := fun name listed => (handsOff.files name listed).imp_right (subset name)
  names := fun name listed => subset name (handsOff.names name listed)

theorem handOff_spec (sha1 : String → Nat) (disk : Disk) (chord : Chord)
    (entries keepFiles : List String) :
    HandsOff chord (entries ++ keepFiles) (handOff sha1 disk chord entries keepFiles).1
      (handOff sha1 disk chord entries keepFiles).2 := by
  induction entries generalizing keepFiles with
  | nil =>
    rw [handOff]
    split
    · exact ⟨rfl, rfl, fun name kept => .inr kept, fun name listed => nomatch listed⟩
    · exact ⟨rfl, rfl, fun name kept => .inl kept, fun name listed => nomatch listed⟩
  | cons entry rest ih =>
    rw [handOff]
    split
    · exact (ih _).mono (by simp; tauto)
    · split
      · exact (ih _).mono (by simp; tauto)
      · exact ⟨rfl, rfl, fun name kept => .inl kept, by simp [HandOff.names]; tauto⟩

theorem reassignToPred_spec (sha1 : String → Nat) (disk : Disk) (chord : Chord) :
    HandsOff chord chord.files (reassignToPred sha1 disk chord).1 (reassignToPred sha1 disk chord).2 := by
  unfold reassignToPred
  split
  · exact ⟨rfl, rfl, fun name kept => .inl kept, fun name listed => nomatch listed⟩
  · exact (handOff_spec sha1 disk chord chord.files []).mono (by simp)

/-- Taking over one entry changes only the directories. -/
theorem takeOverEntry_spec (sha1 : String → Nat) (disk : Disk) (chord : Chord) (entry : String) :
    (takeOverEntry sha1 disk chord entry).1.node = chord.node ∧
      (takeOverEntry sha1 disk chord entry).1.files = chord.files ∧
      (takeOverEntry sha1 disk chord entry).1.replicatedFiles = chord.replicatedFiles := by
  unfold takeOverEntry
  dsimp only
  generalize (if disk.unmovable then none else chord.duplDir.read entry) = content
  cases content <;> dsimp only <;> split <;> exact ⟨rfl, rfl, rfl⟩

end Tda596Labs.Chord
