import Tda596Labs.Chord.Files

/-! # What a hand-off loses

`reassignToPred` removes a file from the disk before it looks for the node that is to have it, and
whatever comes of the call, the file is not listed any more at the end.  This file follows one
`reassignToPred` from its first line to its return, with every outcome of the reads and of the calls it
makes, while nothing else happens at the node.
-/

namespace Tda596Labs.Chord

/-- The status with which `StoreFile` answers. -/
def Disk.storeStatus (disk : Disk) : FileStat :=
  if disk.uncreatable then .createErr
  else
    match disk.failedWrite with
    | some _ => .writeErr
    | none => .fileOk

/-- What comes of one `CallStoreFile`. -/
inductive Delivery where
  /-- `resolveIdentifier` gave `"X"`, or the call failed -/
  | failed
  /-- `StoreFile` ran at this node -/
  | handled (destination : NodeAddress) (disk : Disk)
  deriving DecidableEq, Repr

/-- The node itself after the call: it may be the destination. -/
def Delivery.receive (delivery : Delivery) (chord : Chord) (request : StoreFileRequest) : Chord :=
  match delivery with
  | .failed => chord
  | .handled destination disk =>
    if destination = chord.node.nodeAddress then (storeFile disk chord request).1 else chord

/-- The node after a file has been removed and sent. -/
def afterSending (delivery : Delivery) (chord : Chord) (request : StoreFileRequest) : Chord :=
  delivery.receive { chord with fileDir := chord.fileDir.remove (Path.clean request.fileName) } request

/-- A `CallStoreFile` that was made. -/
structure Sent where
  request : StoreFileRequest
  delivery : Delivery
  deriving DecidableEq, Repr

/-- What comes of an entry of the list: whether reading it fails, and what comes of the call if it is sent. -/
structure Outcome where
  unread : Bool
  delivery : Delivery
  deriving DecidableEq, Repr

/-- The loop of `reassignToPred` from some entries on, to the return, with the calls made. -/
def handEntries (sha1 : String → Nat) :
    Chord → List (String × Outcome) → List String → List Sent → Chord × List Sent
  | chord, [], keepFiles, sent =>
    (if keepFiles.length < chord.files.length then { chord with files := keepFiles } else chord, sent)
  | chord, (entry, outcome) :: rest, keepFiles, sent =>
    if between (hashString sha1 chord.node.predecessor) (hashString sha1 entry) chord.node.identifier true then
      handEntries sha1 chord rest (keepFiles ++ [entry]) sent
    else
      match if outcome.unread then none else chord.fileDir.read (Path.clean entry) with
      | none => handEntries sha1 chord rest keepFiles sent
      | some content =>
        let request := ⟨hashString sha1 entry, entry, content, false⟩
        handEntries sha1 (afterSending outcome.delivery chord request) rest keepFiles
          (sent ++ [⟨request, outcome.delivery⟩])

/-- One `reassignToPred` from beginning to end, with an outcome for every listed file. -/
def runReassignToPred (sha1 : String → Nat) (chord : Chord) (outcomes : List Outcome) : Chord × List Sent :=
  if chord.files = [] ∨ chord.node.predecessor = chord.node.nodeAddress then (chord, [])
  else handEntries sha1 chord (chord.files.zip outcomes) [] []

/-! ## Stretches

A goroutine makes the hand-off in stretches, from one `CallStoreFile` to the next (`handOff`).  Played one after
the other they are the loop above. -/

/-- The rest of a hand-off, with what comes of each `CallStoreFile` and of the reads after it. -/
def finishHandOff (sha1 : String → Nat) :
    List (Delivery × Disk) → Chord × HandOff → List Sent → Option (Chord × List Sent)
  | _, (chord, .done), sent => some (chord, sent)
  | [], (_, .store _ _ _), _ => none
  | (delivery, disk) :: deliveries, (chord, .store request rest keepFiles), sent =>
    finishHandOff sha1 deliveries
      (handOff sha1 disk (delivery.receive chord request) rest keepFiles) (sent ++ [⟨request, delivery⟩])

theorem finishHandOff_eq_handEntries {sha1 : String → Nat} {deliveries : List (Delivery × Disk)} {disk : Disk}
    {chord final : Chord} {entries keepFiles : List String} {sent sent' : List Sent}
    (returns : finishHandOff sha1 deliveries (handOff sha1 disk chord entries keepFiles) sent = some (final, sent')) :
    ∃ outcomes : List Outcome, outcomes.length = entries.length ∧
      handEntries sha1 chord (entries.zip outcomes) keepFiles sent = (final, sent') := by
  induction entries generalizing deliveries disk chord keepFiles sent with
  | nil =>
    refine ⟨[], rfl, ?_⟩
    cases deliveries <;> exact Option.some.inj returns
  | cons entry entries ih =>
    rw [handOff] at returns
    split at returns
    · next own =>
      obtain ⟨outcomes, length, same⟩ := ih returns
      refine ⟨⟨false, .failed⟩ :: outcomes, congrArg Nat.succ length, ?_⟩
      rw [List.zip_cons_cons, handEntries, if_pos own]
      exact same
    · next foreign =>
      split at returns
      · next unread =>
        obtain ⟨outcomes, length, same⟩ := ih returns
        refine ⟨⟨disk.failsRead entry, .failed⟩ :: outcomes, congrArg Nat.succ length, ?_⟩
        rw [List.zip_cons_cons, handEntries, if_neg foreign]
        simp only [unread]
        exact same
      · next content read =>
        -- here the stretch ends: the next one begins with the outcome of the call
        cases deliveries with
        | nil => cases returns
        | cons delivery deliveries =>
          obtain ⟨delivery, disk'⟩ := delivery
          obtain ⟨outcomes, length, same⟩ := ih returns
          refine ⟨⟨disk.failsRead entry, delivery⟩ :: outcomes, congrArg Nat.succ length, ?_⟩
          rw [List.zip_cons_cons, handEntries, if_neg foreign]
          simp only [read]
          exact same

/-- However its calls and reads come out, a `reassignToPred` made in stretches is one of the loops above. -/
theorem reassignToPred_eq_run {sha1 : String → Nat} {deliveries : List (Delivery × Disk)} {disk : Disk}
    {chord final : Chord} {sent : List Sent}
    (returns : finishHandOff sha1 deliveries (reassignToPred sha1 disk chord) [] = some (final, sent)) :
    ∃ outcomes : List Outcome, outcomes.length = chord.files.length ∧
      runReassignToPred sha1 chord outcomes = (final, sent) := by
  unfold reassignToPred at returns
  unfold runReassignToPred
  split at returns
  · next nothing =>
    refine ⟨List.replicate chord.files.length ⟨false, .failed⟩, List.length_replicate, ?_⟩
    rw [if_pos nothing]
    cases deliveries <;> exact Option.some.inj returns
  · next some_ =>
    simp only [if_neg some_]
    exact finishHandOff_eq_handEntries returns

/-! ## What stays -/

section Stays

variable (sha1 : String → Nat)

/-- The file belongs to this node. -/
def stays (chord : Chord) (name : String) : Bool :=
  between (hashString sha1 chord.node.predecessor) (hashString sha1 name) chord.node.identifier true

/-- The loop of a hand-off that began in the state `first`, before the entries that are left. -/
structure Underway (first chord : Chord) (entries keepFiles : List String) : Prop where
  node : chord.node = first.node
  inside : ∀ name ∈ entries, name ∈ first.files
  listed : ∀ name ∈ first.files, name ∈ chord.files
  length : first.files.length ≤ chord.files.length
  kept : ∀ name ∈ keepFiles, stays sha1 first name = true
  covered : ∀ name ∈ first.files, stays sha1 first name = true → name ∈ keepFiles ∨ name ∈ entries
  counted : keepFiles.length + entries.length ≤ first.files.length
  dropped : ∀ name ∈ first.files, stays sha1 first name = false →
    name ∈ entries ∨ keepFiles.length + entries.length < first.files.length
  onDisk : ∀ name ∈ first.files, stays sha1 first name = true →
    chord.fileDir.read name = first.fileDir.read name

/-- A hand-off that began in the state `first` has ended. -/
structure Ended (first chord : Chord) : Prop where
  kept : ∀ name ∈ first.files, stays sha1 first name = true →
    name ∈ chord.files ∧ chord.fileDir.read name = first.fileDir.read name
  dropped : ∀ name ∈ first.files, stays sha1 first name = false → name ∉ chord.files

end Stays

variable {sha1 : String → Nat} {first chord : Chord} {entry name : String} {rest keepFiles : List String}
  {content : FileContent} {request : StoreFileRequest}

theorem Underway.keep (underway : Underway sha1 first chord (entry :: rest) keepFiles)
    (isKept : stays sha1 first entry = true) : Underway sha1 first chord rest (keepFiles ++ [entry]) where
  node := underway.node
  inside := fun name member => underway.inside name (List.mem_cons_of_mem _ member)
  listed := underway.listed
  length := underway.length
  kept name member := by
    obtain old | new := List.mem_append.mp member
    · exact underway.kept name old
    · rw [List.mem_singleton.mp new]
      exact isKept
  covered name isListed ofNode := by
    simp only [List.mem_append, List.mem_singleton]
    obtain old | left := underway.covered name isListed ofNode
    · exact .inl (.inl old)
    · obtain same | later := List.mem_cons.mp left
      · exact .inl (.inr same)
      · exact .inr later
  counted := by
    have counted := underway.counted
    simp only [List.length_cons, List.length_append, List.length_nil] at counted ⊢
    omega
  dropped name isListed foreign := by
    obtain left | fewer := underway.dropped name isListed foreign
    · obtain rfl | later := List.mem_cons.mp left
      · rw [isKept] at foreign
        cases foreign
      · exact .inl later
    · right
      simp only [List.length_cons, List.length_append, List.length_nil] at fewer ⊢
      omega
  onDisk := underway.onDisk

/-- An entry that does not stay is left out. -/
theorem Underway.drop (underway : Underway sha1 first chord (entry :: rest) keepFiles)
    (foreign : stays sha1 first entry = false) : Underway sha1 first chord rest keepFiles where
  node := underway.node
  inside := fun name member => underway.inside name (List.mem_cons_of_mem _ member)
  listed := underway.listed
  length := underway.length
  kept := underway.kept
  covered name isListed ofNode := by
    obtain old | left := underway.covered name isListed ofNode
    · exact .inl old
    · obtain rfl | later := List.mem_cons.mp left
      · rw [foreign] at ofNode
        cases ofNode
      · exact .inr later
  counted := by
    have counted := underway.counted
    simp only [List.length_cons] at counted
    omega
  dropped name isListed _ := by
    right
    have counted := underway.counted
    simp only [List.length_cons] at counted
    omega
  onDisk := underway.onDisk

/-- What a node stores itself, and what it removes, are files that do not stay. -/
theorem Underway.change {chord' : Chord} (underway : Underway sha1 first chord rest keepFiles)
    (node : chord'.node = chord.node) (files : chord.files <+: chord'.files)
    (foreign : stays sha1 first entry = false)
    (onDisk : ∀ name ≠ entry, chord'.fileDir.read name = chord.fileDir.read name) :
    Underway sha1 first chord' rest keepFiles where
  node := node.trans underway.node
  inside := underway.inside
  listed name isListed := files.subset (underway.listed name isListed)
  length := underway.length.trans files.length_le
  kept := underway.kept
  covered := underway.covered
  counted := underway.counted
  dropped := underway.dropped
  onDisk name isListed ofNode := by
    have other : name ≠ entry := by
      rintro rfl
      rw [foreign] at ofNode
      cases ofNode
    exact (onDisk name other).trans (underway.onDisk name isListed ofNode)

theorem Underway.ended (underway : Underway sha1 first chord [] keepFiles) :
    Ended sha1 first
      (if keepFiles.length < chord.files.length then { chord with files := keepFiles } else chord) where
  kept name isListed ofNode := by
    have isKept := (underway.covered name isListed ofNode).resolve_right (List.not_mem_nil)
    split
    · exact ⟨isKept, underway.onDisk name isListed ofNode⟩
    · exact ⟨underway.listed name isListed, underway.onDisk name isListed ofNode⟩
  dropped name isListed foreign isKept := by
    have fewer := (underway.dropped name isListed foreign).resolve_left (List.not_mem_nil)
    have shorter : keepFiles.length < chord.files.length := by
      have length := underway.length
      simp only [List.length_nil] at fewer
      omega
    rw [if_pos shorter] at isKept
    have ofNode := underway.kept name isKept
    rw [foreign] at ofNode
    cases ofNode

/-! ## One entry -/

/-- What a call leaves at node `me` of a file that was there before it was sent. -/
def Delivery.leaves (delivery : Delivery) (me : NodeAddress) (content : FileContent) : Option FileContent :=
  match delivery with
  | .failed => none
  | .handled destination disk =>
    if destination ≠ me ∨ disk.uncreatable then none
    else some (disk.failedWrite.elim content content.take)

theorem afterSending_node (delivery : Delivery) (chord : Chord) (request : StoreFileRequest) :
    (afterSending delivery chord request).node = chord.node := by
  unfold afterSending Delivery.receive
  cases delivery with
  | failed => rfl
  | handled destination disk =>
    dsimp only
    split
    · exact storeFile_node disk _ request
    · rfl

theorem afterSending_files (delivery : Delivery) (chord : Chord) (request : StoreFileRequest) :
    chord.files <+: (afterSending delivery chord request).files := by
  unfold afterSending Delivery.receive
  cases delivery with
  | failed => exact List.prefix_refl _
  | handled destination disk =>
    dsimp only
    split
    · rw [(storeFile_lists disk _ request).1]
      exact List.prefix_append _ _
    · exact List.prefix_refl _

/-- Sending a file changes nothing on the disk but this file. -/
theorem read_afterSending (delivery : Delivery) (chord : Chord) (plain : PlainName request.fileName)
    (original : request.duplicationReq = false) (name : String) :
    (afterSending delivery chord request).fileDir.read name =
      if name = request.fileName then delivery.leaves chord.node.nodeAddress request.fileContent
      else chord.fileDir.read name := by
  unfold afterSending Delivery.receive Delivery.leaves
  rw [plain.clean]
  cases delivery with
  | failed => exact Directory.read_remove _ _ _
  | handled destination disk =>
    by_cases own : destination = chord.node.nodeAddress
    · simp only [own, if_true, ne_eq, not_true_eq_false, false_or]
      unfold storeFile writeFile
      cases disk.uncreatable <;> cases disk.failedWrite <;> by_cases same : name = request.fileName <;>
        simp [original, plain.clean, Directory.read_create, Directory.read_remove, same]
    · simp only [own, if_false, ne_eq, not_false_eq_true, true_or, if_true]
      exact Directory.read_remove _ _ _

theorem Underway.send (underway : Underway sha1 first chord rest keepFiles) (plain : PlainName request.fileName)
    (original : request.duplicationReq = false) (foreign : stays sha1 first request.fileName = false)
    (delivery : Delivery) : Underway sha1 first (afterSending delivery chord request) rest keepFiles := by
  refine underway.change (afterSending_node delivery chord request) (afterSending_files delivery chord request)
    foreign fun name other => ?_
  rw [read_afterSending delivery chord plain original, if_neg other]

/-- `StoreFile` ran at another node and answered `FILEOK`. -/
def Delivery.elsewhere (me : NodeAddress) : Delivery → Bool
  | .failed => false
  | .handled destination disk => destination ≠ me ∧ disk.storeStatus = .fileOk

section Lost

variable {me : NodeAddress} {sent : List Sent} {entries : List (String × Outcome)} {outcome : Outcome}

end Lost

/-- A node at 100 whose predecessor is at 50, with two files that belong to the predecessor, one of them listed
twice. -/
def holder : Chord :=
  { (initClient 100 "n" 0).setPredecessor "p" with
    files := ["f", "g", "f"]
    fileDir := (Directory.empty.create "f" [1]).create "g" [2] }

end Tda596Labs.Chord
