import Mathlib.Logic.Function.Basic
import Mathlib.Data.List.Basic
import Tda596Labs.Lib.Bytes
import Tda596Labs.Lib.Directory

/-! # One Chord node

The state of a node and the code that runs under its `chordSync`: the lookup step `find`, the RPC
handlers `FindSuccessor`, `Stabilize`, `Notify` and `Join`, and what the periodic tasks do with
`Successors` and `FingerTable`.  A function here is one stretch of the source between taking and
releasing the lock; the network between the nodes is modelled on top.

`sha1` stands for the library function: the digest of a string read as a number.  The address `"X"`
marks an entry as unknown.
-/

namespace Tda596Labs.Chord

abbrev NodeAddress := String

/-! ## Identifiers -/

def keySize : Nat := 160

def hashMod : Nat := 2 ^ keySize

def mod (input : Nat) : Nat := input % hashMod

def hashString (sha1 : String → Nat) (elt : NodeAddress) : Nat := mod (sha1 elt)

/-- The identifier that entry `fingerentry` of a finger table stands for. -/
def jumpIdentifier (identifier fingerentry : Nat) : Nat :=
  (identifier + 2 ^ (fingerentry - 1)) % hashMod

def between (start elt stop : Nat) (inclusive : Bool) : Bool :=
  if start < stop then (start < elt && elt < stop) || (inclusive && elt == stop)
  else start < elt || elt < stop || (inclusive && elt == stop)

/-! ## State -/

inductive RetCode where
  | soloNode
  | mySucc
  | iAmSucc
  | passAlong
  deriving DecidableEq, Repr

structure FingerEntry where
  identifier : Nat
  nodeAddress : NodeAddress
  deriving DecidableEq, Repr

/-- The slice `Successors`, of length at least one: `Successors[0]` and the entries after it. -/
structure Successors where
  first : NodeAddress
  others : List NodeAddress
  deriving DecidableEq, Repr

def Successors.toList (successors : Successors) : List NodeAddress :=
  successors.first :: successors.others

/-- `FingerTable` has the entries `0, …, keySize`; it is only read and written there. -/
structure NodeInfo where
  identifier : Nat
  nodeAddress : NodeAddress
  predecessor : NodeAddress
  nextFinger : Nat
  fingerTable : Nat → FingerEntry
  successors : Successors
  joinPending : Bool

abbrev FileContent := Bytes

structure Response where
  isSuccessor : Bool
  nodeAddress : NodeAddress
  identifier : Nat
  deriving DecidableEq, Repr

/-- The Go zero value of `Response`. -/
def Response.zero : Response := ⟨false, "", 0⟩

/-- `JoinRequest`, `StabilizeRequest` and `NotifyRequest` all carry the sender's name and identifier. -/
structure Request where
  nodeAddress : NodeAddress
  identifier : Nat
  deriving DecidableEq, Repr

structure StabilizeResponse where
  youGood : Bool
  newPredAddress : NodeAddress
  nodeSuccessors : List NodeAddress
  deriving DecidableEq, Repr

structure NotifyResponse where
  success : Bool
  newPredAddress : NodeAddress
  deriving DecidableEq, Repr

end Tda596Labs.Chord

namespace Tda596Labs

/-- A node with its two directories, `<id>Files` and `<id>Replicated`. -/
structure Chord where
  node : Chord.NodeInfo
  files : List String
  replicatedFiles : List String
  fileDir : Directory Chord.FileContent
  duplDir : Directory Chord.FileContent

namespace Chord

/-- The request a node sends about itself. -/
def request (chord : Chord) : Request := ⟨chord.node.nodeAddress, chord.node.identifier⟩

/-- `Successors[0] = address`. -/
def setSuccessor (chord : Chord) (address : NodeAddress) : Chord :=
  { chord with node := { chord.node with
      successors := { chord.node.successors with first := address } } }

/-- `Predecessor = address`. -/
def setPredecessor (chord : Chord) (address : NodeAddress) : Chord :=
  { chord with node := { chord.node with predecessor := address } }

/-- `FingerTable[index].NodeAddress = address`. -/
def setFinger (chord : Chord) (index : Nat) (address : NodeAddress) : Chord :=
  { chord with node := { chord.node with
      fingerTable := Function.update chord.node.fingerTable index
        { chord.node.fingerTable index with nodeAddress := address } } }

/-! ## Setting up -/

/-- The state `getArgs` and `initClient` build: every successor and every finger is the node itself,
the predecessor is unknown.  The slice `Successors` gets `extra + 1` entries. -/
def initClient (identifier : Nat) (address : NodeAddress) (extra : Nat) : Chord where
  node :=
    { identifier := identifier
      nodeAddress := address
      predecessor := "X"
      nextFinger := 0
      fingerTable := fun n => ⟨if n = 0 then identifier else jumpIdentifier identifier n, address⟩
      successors := ⟨address, List.replicate extra address⟩
      joinPending := true }
  files := []
  replicatedFiles := []
  fileDir := .empty
  duplDir := .empty

/-- `Create`, after `main` has cleared `JoinPending`. -/
def create (chord : Chord) : Chord :=
  { chord with node := { chord.node with
      joinPending := false
      successors := { chord.node.successors with first := chord.node.nodeAddress }
      predecessor := chord.node.nodeAddress } }

/-! ## find -/

section Find

variable (sha1 : String → Nat) (chord : Chord) (identifier : Nat)

/-- The loop of `closestPreceedingNode`, from entry `n` downwards. -/
def closestPreceedingFrom (response : Response) : Nat → Response
  | 0 => { response with nodeAddress := chord.node.successors.first }
  | n + 1 =>
    let finger := chord.node.fingerTable (n + 1)
    if between chord.node.identifier identifier finger.identifier true then
      { response with identifier := finger.identifier, nodeAddress := finger.nodeAddress }
    else closestPreceedingFrom response n

def closestPreceedingNode (response : Response) : RetCode × Response :=
  (.passAlong, closestPreceedingFrom chord identifier response keySize)

/-- The loop of `find` over the successors that are left. -/
def findAmong : List NodeAddress → Option (RetCode × Response)
  | [] => none
  | succ :: later =>
    if succ = "X" then
      some (.soloNode, ⟨true, chord.node.nodeAddress, chord.node.identifier⟩)
    else if between chord.node.identifier identifier (hashString sha1 succ) true then
      some (.mySucc, ⟨true, succ, hashString sha1 succ⟩)
    else if between (hashString sha1 chord.node.predecessor) identifier chord.node.identifier true then
      some (.iAmSucc, ⟨true, chord.node.nodeAddress, chord.node.identifier⟩)
    else findAmong later

def find (response : Response) : RetCode × Response :=
  match findAmong sha1 chord identifier chord.node.successors.toList with
  | some found => found
  | none => closestPreceedingNode chord identifier response

end Find

/-! ## RPC handlers -/

section Handlers

variable (sha1 : String → Nat)

def findSuccessor (chord : Chord) (queryIdentifier : Nat) : Response :=
  match find sha1 chord queryIdentifier .zero with
  | (.passAlong, response) =>
    let response := { response with isSuccessor := false }
    -- An uninitialised finger: ask the successor instead.
    if response.nodeAddress = "X" then { response with nodeAddress := chord.node.successors.first }
    else response
  | (_, response) => response

/-- The handler `Stabilize`. -/
def stabilized (chord : Chord) (request : Request) : Chord × StabilizeResponse :=
  if chord.node.predecessor = "X" then
    (chord.setPredecessor request.nodeAddress, ⟨true, "", chord.node.successors.toList⟩)
  else if chord.node.predecessor = request.nodeAddress then
    (chord, ⟨true, "", chord.node.successors.toList⟩)
  else (chord, ⟨false, chord.node.predecessor, []⟩)

def notify (chord : Chord) (request : Request) : Chord × NotifyResponse :=
  if chord.node.predecessor = "X" ∨ chord.node.predecessor = request.nodeAddress then
    (chord.setPredecessor request.nodeAddress, ⟨true, ""⟩)
  else if between (hashString sha1 chord.node.predecessor) request.identifier chord.node.identifier true then
    (chord.setPredecessor request.nodeAddress, ⟨true, ""⟩)
  else (chord, ⟨false, chord.node.predecessor⟩)

def join (chord : Chord) (request : Request) : Chord × Response :=
  match find sha1 chord request.identifier .zero with
  | (.mySucc, response) => (chord.setSuccessor request.nodeAddress, response)
  | (.soloNode, response) => (chord.setSuccessor request.nodeAddress, response)
  -- The response names this node, not the joiner.
  | (.iAmSucc, response) => (chord.setPredecessor response.nodeAddress, response)
  | (.passAlong, response) => (chord, { response with isSuccessor := false })

end Handlers

/-- `CallNotify` was accepted by the node at `address`. -/
def accepted (chord : Chord) (address : NodeAddress) : Chord :=
  { chord with node := { chord.node with
      joinPending := false
      successors := { chord.node.successors with first := address } } }

/-! ## Upkeep of the successors -/

/-- The loop of `verifySuccs` over the own entries after the first, along the reply; `none` is an index
out of range. -/
def verifyOthers : List NodeAddress → List NodeAddress → Option (List NodeAddress)
  | [], _ => some []
  | _ :: _, [] => none
  | own :: others, theirs :: replied =>
    if theirs = "X" then some (own :: others)
    else (verifyOthers others replied).map (theirs :: ·)

def verifySuccs (chord : Chord) (nodeSuccessors : List NodeAddress) : Option Chord :=
  (verifyOthers chord.node.successors.others nodeSuccessors).map fun others =>
    { chord with node := { chord.node with
        successors := { chord.node.successors with others := others } } }

/-- The loop of `getNextValidFinger` over `fuel` entries from `n` on. -/
def validFingerFrom (chord : Chord) (n : Nat) : Nat → Option Nat
  | 0 => none
  | fuel + 1 =>
    if (chord.node.fingerTable n).nodeAddress ≠ "X" then some n
    else validFingerFrom chord (n + 1) fuel

def getNextValidFinger (chord : Chord) (start : Nat) : Option Nat :=
  validFingerFrom chord start (keySize + 1 - start)

/-- Entries `n, …, 1` are given the address. -/
def fillFingers (chord : Chord) (address : NodeAddress) : Nat → Chord
  | 0 => chord
  | n + 1 => fillFingers (chord.setFinger (n + 1) address) address n

def findNewSucc (chord : Chord) : Chord :=
  match chord.node.successors.others with
  | second :: later =>
    { chord with node := { chord.node with successors := ⟨second, later ++ ["X"]⟩ } }
  | [] =>
    match getNextValidFinger chord 1 with
    | none => chord.setSuccessor chord.node.predecessor
    | some index => fillFingers chord (chord.node.fingerTable index).nodeAddress (index - 1)

/-- The successors that are not the failed first one, then an `"X"` for each that is. -/
def Successors.collapse (successors : Successors) : Successors :=
  let failed := List.replicate (successors.toList.count successors.first) "X"
  match successors.others.filter (· ≠ successors.first) with
  | [] => ⟨"X", failed.tail⟩
  | second :: later => ⟨second, later ++ failed⟩

/-- The search of `clearDeadSucc` for the last finger at the failed node, from entry `n` downwards, with
the address found above it. -/
def failedFingerFrom (chord : Chord) (failedNode : NodeAddress) :
    Nat → NodeAddress → Option (Nat × NodeAddress)
  | 0, _ => none
  | n + 1, succ =>
    if failedNode = (chord.node.fingerTable (n + 1)).nodeAddress then some (n + 1, succ)
    else failedFingerFrom chord failedNode n (chord.node.fingerTable (n + 1)).nodeAddress

/-- Entries `n, n - 1, …` are given the address as long as they hold the failed node. -/
def replaceFingers (chord : Chord) (failedNode address : NodeAddress) : Nat → Chord
  | 0 => chord
  | n + 1 =>
    if (chord.node.fingerTable (n + 1)).nodeAddress ≠ failedNode then chord
    else replaceFingers (chord.setFinger (n + 1) address) failedNode address n

def clearDeadSucc (chord : Chord) : Chord :=
  let failedNode := chord.node.successors.first
  let collapsed := { chord with node := { chord.node with
    successors := Successors.collapse chord.node.successors } }
  match failedFingerFrom collapsed failedNode keySize chord.node.predecessor with
  | none => collapsed
  | some (failedId, succ) => replaceFingers collapsed failedNode succ failedId

/-! ## Upkeep of the fingers -/

/-- `resolveFinger` up to its loop: the node to ask next, if any. -/
def resolveFinger (chord : Chord) (nodeToAsk : NodeAddress) (fingerIndex : Nat) :
    Chord × Option NodeAddress :=
  let nodeToAsk :=
    if nodeToAsk = "X" then
      match getNextValidFinger chord fingerIndex with
      | none => chord.node.predecessor
      | some index => (chord.node.fingerTable index).nodeAddress
    else nodeToAsk
  if nodeToAsk = "X" then (chord, none)
  else if nodeToAsk = chord.node.nodeAddress then
    (chord.setFinger fingerIndex chord.node.nodeAddress, none)
  else (chord, some nodeToAsk)

/-- What the loop of `resolveFinger` does with a reply. -/
def resolvedFinger (chord : Chord) (fingerIndex : Nat) (response : Response) :
    Chord × Option NodeAddress :=
  if response.isSuccessor then (chord.setFinger fingerIndex response.nodeAddress, none)
  else if response.nodeAddress = chord.node.nodeAddress then
    (chord.setFinger fingerIndex chord.node.nodeAddress, none)
  else (chord, some response.nodeAddress)

/-- `FixFingers` up to the loop of `resolveFinger`: the finger in work and the node to ask. -/
def fixFingers (sha1 : String → Nat) (chord : Chord) : Chord × Option NodeAddress :=
  let succ := chord.node.successors.first
  let nextFinger := (chord.node.nextFinger + 1) % keySize
  let moved := { chord with node := { chord.node with nextFinger := nextFinger } }
  let finger := chord.node.fingerTable nextFinger
  let pointed :=
    if succ ≠ "X" ∧ between chord.node.identifier finger.identifier (hashString sha1 succ) true then
      moved.setFinger nextFinger succ
    else moved
  let held := (pointed.node.fingerTable nextFinger).nodeAddress
  let askNode := if succ ≠ "X" ∧ held = chord.node.nodeAddress then succ else held
  resolveFinger pointed askNode nextFinger

/-! ## What is kept -/

/-- The name of the node and its files are kept. -/
structure KeepsFiles (before after : Chord) : Prop where
  nodeAddress : after.node.nodeAddress = before.node.nodeAddress
  identifier : after.node.identifier = before.node.identifier
  files : after.files = before.files
  replicatedFiles : after.replicatedFiles = before.replicatedFiles
  fileDir : after.fileDir = before.fileDir
  duplDir : after.duplDir = before.duplDir

/-- Everything but the finger table is kept. -/
structure KeepsRing (before after : Chord) : Prop extends KeepsFiles before after where
  predecessor : after.node.predecessor = before.node.predecessor
  successors : after.node.successors = before.node.successors
  joinPending : after.node.joinPending = before.node.joinPending

theorem KeepsRing.refl (chord : Chord) : KeepsRing chord chord :=
  ⟨⟨rfl, rfl, rfl, rfl, rfl, rfl⟩, rfl, rfl, rfl⟩

theorem KeepsFiles.refl (chord : Chord) : KeepsFiles chord chord := (KeepsRing.refl chord).toKeepsFiles

theorem KeepsFiles.trans {a b c : Chord} (first : KeepsFiles a b) (second : KeepsFiles b c) :
    KeepsFiles a c where
  nodeAddress := second.nodeAddress.trans first.nodeAddress
  identifier := second.identifier.trans first.identifier
  files := second.files.trans first.files
  replicatedFiles := second.replicatedFiles.trans first.replicatedFiles
  fileDir := second.fileDir.trans first.fileDir
  duplDir := second.duplDir.trans first.duplDir

theorem KeepsRing.trans {a b c : Chord} (first : KeepsRing a b) (second : KeepsRing b c) :
    KeepsRing a c where
  toKeepsFiles := first.toKeepsFiles.trans second.toKeepsFiles
  predecessor := second.predecessor.trans first.predecessor
  successors := second.successors.trans first.successors
  joinPending := second.joinPending.trans first.joinPending

theorem setSuccessor_keeps (chord : Chord) (address : NodeAddress) :
    KeepsFiles chord (chord.setSuccessor address) := ⟨rfl, rfl, rfl, rfl, rfl, rfl⟩

theorem accepted_keeps (chord : Chord) (address : NodeAddress) :
    KeepsFiles chord (chord.accepted address) := ⟨rfl, rfl, rfl, rfl, rfl, rfl⟩

theorem setPredecessor_keeps (chord : Chord) (address : NodeAddress) :
    KeepsFiles chord (chord.setPredecessor address) := ⟨rfl, rfl, rfl, rfl, rfl, rfl⟩

theorem setFinger_keeps (chord : Chord) (index : Nat) (address : NodeAddress) :
    KeepsRing chord (chord.setFinger index address) := ⟨⟨rfl, rfl, rfl, rfl, rfl, rfl⟩, rfl, rfl, rfl⟩

theorem fillFingers_keeps (chord : Chord) (address : NodeAddress) (n : Nat) :
    KeepsRing chord (fillFingers chord address n) := by
  induction n generalizing chord with
  | zero => exact .refl chord
  | succ n ih => exact (setFinger_keeps chord (n + 1) address).trans (ih _)

theorem replaceFingers_keeps (chord : Chord) (failedNode address : NodeAddress) (n : Nat) :
    KeepsRing chord (replaceFingers chord failedNode address n) := by
  induction n generalizing chord with
  | zero => exact .refl chord
  | succ n ih =>
    rw [replaceFingers]
    split
    · exact .refl chord
    · exact (setFinger_keeps chord (n + 1) address).trans (ih _)

theorem verifyOthers_length {own replied others : List NodeAddress}
    (ran : verifyOthers own replied = some others) : others.length = own.length := by
  induction own generalizing replied others with
  | nil => cases ran; rfl
  | cons address own ih =>
    cases replied with
    | nil => cases ran
    | cons theirs replied =>
      rw [verifyOthers] at ran
      split at ran
      · cases ran
        rfl
      · obtain ⟨rest, verified, rfl⟩ := Option.map_eq_some_iff.mp ran
        simp [ih verified]

/-- The loop stays in range if and only if the reply is long enough or stops the loop. -/
theorem verifyOthers_isSome_iff {own replied : List NodeAddress} :
    (verifyOthers own replied).isSome ↔ own.length ≤ replied.length ∨ "X" ∈ replied := by
  induction own generalizing replied with
  | nil => simp [verifyOthers]
  | cons address own ih =>
    cases replied with
    | nil => simp [verifyOthers]
    | cons theirs replied =>
      rw [verifyOthers]
      split
      · next isX => simp [isX]
      · next notX => simp [ih, Ne.symm notX]

theorem verifySuccs_keeps {chord verified : Chord} {nodeSuccessors : List NodeAddress}
    (ran : chord.verifySuccs nodeSuccessors = some verified) :
    KeepsFiles chord verified ∧ verified.node.predecessor = chord.node.predecessor ∧
      verified.node.successors.first = chord.node.successors.first := by
  obtain ⟨others, _, rfl⟩ := Option.map_eq_some_iff.mp ran
  exact ⟨⟨rfl, rfl, rfl, rfl, rfl, rfl⟩, rfl, rfl⟩

theorem findNewSucc_keeps (chord : Chord) : KeepsFiles chord chord.findNewSucc := by
  unfold findNewSucc
  split
  · exact ⟨rfl, rfl, rfl, rfl, rfl, rfl⟩
  · split
    · exact setSuccessor_keeps chord _
    · exact (fillFingers_keeps chord _ _).toKeepsFiles

theorem clearDeadSucc_keeps (chord : Chord) : KeepsFiles chord chord.clearDeadSucc := by
  unfold clearDeadSucc
  dsimp only
  split
  · exact ⟨rfl, rfl, rfl, rfl, rfl, rfl⟩
  · refine KeepsFiles.trans ?_ (replaceFingers_keeps _ _ _ _).toKeepsFiles
    exact ⟨rfl, rfl, rfl, rfl, rfl, rfl⟩

theorem resolveFinger_keeps (chord : Chord) (nodeToAsk : NodeAddress) (index : Nat) :
    KeepsRing chord (resolveFinger chord nodeToAsk index).1 := by
  unfold resolveFinger
  dsimp only
  generalize (if nodeToAsk = "X" then _ else nodeToAsk) = asked
  split
  · exact .refl chord
  · split
    · exact setFinger_keeps chord _ _
    · exact .refl chord

theorem resolvedFinger_keeps (chord : Chord) (index : Nat) (response : Response) :
    KeepsRing chord (resolvedFinger chord index response).1 := by
  unfold resolvedFinger
  split
  · exact setFinger_keeps chord _ _
  · split
    · exact setFinger_keeps chord _ _
    · exact .refl chord

theorem fixFingers_keeps (sha1 : String → Nat) (chord : Chord) :
    KeepsRing chord (fixFingers sha1 chord).1 := by
  unfold fixFingers
  dsimp only
  refine KeepsRing.trans ?_ (resolveFinger_keeps _ _ _)
  split
  · refine KeepsRing.trans ?_ (setFinger_keeps _ _ _)
    exact ⟨⟨rfl, rfl, rfl, rfl, rfl, rfl⟩, rfl, rfl, rfl⟩
  · exact ⟨⟨rfl, rfl, rfl, rfl, rfl, rfl⟩, rfl, rfl, rfl⟩

theorem notify_keeps (sha1 : String → Nat) (chord : Chord) (request : Request) :
    KeepsFiles chord (notify sha1 chord request).1 ∧
      (notify sha1 chord request).1.node.successors = chord.node.successors := by
  unfold notify
  split
  · exact ⟨setPredecessor_keeps chord _, rfl⟩
  · split
    · exact ⟨setPredecessor_keeps chord _, rfl⟩
    · exact ⟨.refl chord, rfl⟩

theorem stabilized_keeps (chord : Chord) (request : Request) :
    KeepsFiles chord (stabilized chord request).1 ∧
      (stabilized chord request).1.node.successors = chord.node.successors := by
  unfold stabilized
  split
  · exact ⟨setPredecessor_keeps chord _, rfl⟩
  · split <;> exact ⟨.refl chord, rfl⟩

theorem join_keeps (sha1 : String → Nat) (chord : Chord) (request : Request) :
    KeepsFiles chord (join sha1 chord request).1 := by
  unfold join
  split
  · exact setSuccessor_keeps chord _
  · exact setSuccessor_keeps chord _
  · exact setPredecessor_keeps chord _
  · exact .refl chord

end Chord

end Tda596Labs
