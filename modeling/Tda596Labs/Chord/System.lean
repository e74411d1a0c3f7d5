import Tda596Labs.Lib.Transition
import Tda596Labs.Lib.Pool
import Tda596Labs.Chord.Files

/-! # The network of nodes

Every node runs goroutines: its `main`, which joins the ring and then obeys commands, its ticker, which
runs the periodic tasks one after the other, and those started with `go`.  A goroutine is modelled by
the point it has reached (`Phase`).  Code between taking and releasing `chordSync` is one step; so is
the handler of an RPC at its target.  An RPC may fail at any time, a node may stop at any time.

Most goroutines release `chordSync` before an RPC.  A `Lookup` command and the take-over of replicated
files do not: they own the lock of their node over several steps, and `owner` says which goroutine
does.
-/

namespace Tda596Labs.Chord

open Transition

/-! ## Goroutines -/

/-- Where `CallStoreFile` returns to. -/
inductive Return where
  | parseInput
  | reassignToPred (rest keepFiles : List String)
  deriving DecidableEq, Repr

/-- The point a goroutine has reached. -/
inductive Phase where
  | finished
  /-- `CallNotify`: before it, waiting for the reply, with the reply -/
  | notify (target : NodeAddress)
  | notifyCall (request : Request) (target : NodeAddress)
  | notifyReply (target : NodeAddress) (response : NotifyResponse)
  /-- `CallJoin`: before it, waiting for the reply, with the reply -/
  | join (target : NodeAddress)
  | joinCall (request : Request) (target : NodeAddress)
  | joinReply (response : Response)
  /-- `CallStabilize`: waiting for the reply, without it, with it -/
  | stabilizeCall (request : Request) (succ : NodeAddress)
  | stabilizeFailed
  | stabilizeReply (response : StabilizeResponse)
  /-- the loop of `resolveFinger`, with the iterations left after this one -/
  | fingerCall (index identifier : Nat) (query : NodeAddress) (left : Nat)
  | fingerFailed (index : Nat)
  | fingerReply (index identifier : Nat) (response : Response) (left : Nat)
  /-- `CallCheckPred`: lock released and predecessor about to be read again, waiting, answered -/
  | checkRead
  | checkCall (predecessor : NodeAddress)
  | checked (alive : Bool)
  /-- `CallStoreFile`: about to look up, looking up, waiting for `StoreFile` at `dest`, done -/
  | resolve (request : StoreFileRequest) (back : Return)
  | resolveCall (request : StoreFileRequest) (back : Return) (query : NodeAddress) (left : Nat)
  | storeCall (request : StoreFileRequest) (back : Return) (dest : NodeAddress)
  | stored (back : Return)
  /-- the handler `StoreFile` at `dest`, lock released: before `CallDuplication`, in it, after it -/
  | duplicate (request : StoreFileRequest) (back : Return) (dest : NodeAddress)
  | duplicateCall (request : StoreFileRequest) (back : Return) (dest succ : NodeAddress)
  | storeReturn (back : Return) (dest : NodeAddress)
  /-- `reassignDuplicatedToMe`, owning the lock: between entries, waiting for `StoreFile` -/
  | takeOver (entries : List String)
  | takeOverCall (entries : List String) (request : StoreFileRequest) (succ : NodeAddress)
  /-- `Lookup`, owning the lock: looking up, waiting for `LookUp`, answered -/
  | lookupFind (request : RetreiveFileRequest) (query : NodeAddress) (left : Nat)
  | lookupCall (request : RetreiveFileRequest) (dest : NodeAddress)
  | lookupDone (response : Option RetreiveFileResponse)
  deriving DecidableEq, Repr

inductive Goroutine where
  | main
  | ticker
  | spawned
  deriving DecidableEq, Repr

structure Task where
  node : NodeAddress
  goroutine : Goroutine
  phase : Phase
  deriving DecidableEq, Repr

namespace Phase

/-- The node whose answer the goroutine waits for. -/
def awaits : Phase → Option NodeAddress
  | notifyCall _ target | joinCall _ target => some target
  | stabilizeCall _ succ => some succ
  | fingerCall _ _ query _ | resolveCall _ _ query _ | lookupFind _ query _ => some query
  | checkCall predecessor => some predecessor
  | storeCall _ _ dest | lookupCall _ dest => some dest
  | duplicateCall _ _ _ succ | takeOverCall _ _ succ => some succ
  | _ => none

/-- The handler of the pending request takes `chordSync` of its node; `CheckPred` and `LookUp` do not. -/
def handlerLocks : Phase → Bool
  | checkCall _ | lookupCall _ _ => false
  | _ => true

/-- The goroutine owns `chordSync` of its node. -/
def ownsLock : Phase → Bool
  | takeOver _ | takeOverCall _ _ _ | lookupFind _ _ _ | lookupCall _ _ | lookupDone _ => true
  | _ => false

/-- The next step of the goroutine is made with `chordSync`. -/
def underLock : Phase → Bool
  | joinReply _ | checkRead | resolve _ _ | duplicate _ _ _ => false
  | _ => true

/-- The node at which the next step of the goroutine is made: the handler `StoreFile` works at the node
it was called at. -/
def site (node : NodeAddress) : Phase → NodeAddress
  | duplicate _ _ dest | storeReturn _ dest => dest
  | _ => node

/-- What becomes of the goroutine when its RPC fails; a failed `Join` ends the process. -/
def failed : Phase → Option Phase
  | notifyCall _ _ | notifyReply _ _ => some finished
  | stabilizeCall _ _ | stabilizeReply _ => some stabilizeFailed
  | fingerCall index _ _ _ | fingerReply index _ _ _ => some (fingerFailed index)
  | checkCall _ => some (checked false)
  -- `resolveIdentifier` returns "X", and the call to "X" is still made.
  | resolveCall request back _ _ => some (storeCall request back "X")
  | storeCall _ back _ => some (stored back)
  | duplicateCall _ back dest _ => some (storeReturn back dest)
  | takeOverCall entries _ _ => some (takeOver entries)
  | lookupFind request _ _ => some (lookupCall request "X")
  | lookupCall _ _ => some (lookupDone none)
  | _ => none

/-- The handler `StoreFile` that the goroutine has called, if it is still at work, with the node it works at.  It
goes on when the caller stops, and returns to nobody. -/
def handler : Phase → Option (NodeAddress × Phase)
  | duplicate request _ dest => some (dest, duplicate request .parseInput dest)
  | duplicateCall request _ dest succ => some (dest, duplicateCall request .parseInput dest succ)
  | storeReturn _ dest => some (dest, storeReturn .parseInput dest)
  | _ => none

/-- What becomes of a goroutine of another node when the node `a` stops: a handler it waits for is gone. -/
def cutOff (a : NodeAddress) : Phase → Phase
  | duplicate request back dest => if dest = a then stored back else duplicate request back dest
  | duplicateCall request back dest succ =>
    if dest = a then stored back else duplicateCall request back dest succ
  | storeReturn back dest => if dest = a then stored back else storeReturn back dest
  | phase => phase

end Phase

/-! ## The work of a ticker -/

/-- What a ticker has in hand: a hand-off, with the names it still goes through and those it keeps; a
take-over, with the entries still to be moved. -/
inductive Work where
  | handOff (names : List String)
  | takeOver (entries : List String)
  deriving DecidableEq, Repr

def Return.work : Return → Option Work
  | .parseInput => none
  | .reassignToPred rest keepFiles => some (.handOff (rest ++ keepFiles))

def Phase.work : Phase → Option Work
  | .resolve _ back | .resolveCall _ back _ _ | .storeCall _ back _ | .stored back
  | .duplicate _ back _ | .duplicateCall _ back _ _ | .storeReturn back _ => back.work
  | .takeOver entries | .takeOverCall entries _ _ => some (.takeOver entries)
  | _ => none

/-- The files of its node that the work is about to hand off or to keep. -/
def Work.handing : Work → List String
  | .handOff names => names
  | .takeOver _ => []

def Phase.handing (phase : Phase) : List String := phase.work.elim [] Work.handing

/-! ## Looking up, step by step -/

/-- The state of `resolveIdentifier`: answered, or about to ask, with the iterations left after that. -/
inductive Resolving where
  | found (address : NodeAddress)
  | ask (query : NodeAddress) (left : Nat)

def resolveFirst (sha1 : String → Nat) (chord : Chord) (identifier : Nat) : Resolving :=
  match find sha1 chord identifier .zero with
  | (.passAlong, response) =>
    if response.nodeAddress = chord.node.nodeAddress then .found chord.node.nodeAddress
    else .ask response.nodeAddress 31
  | (_, response) => .found response.nodeAddress

/-- The rest of one iteration and the test at the head of the next. -/
def resolveNext (me : NodeAddress) (left : Nat) (response : Response) : Resolving :=
  if response.isSuccessor then .found response.nodeAddress
  else
    match left with
    | 0 => .found "X"
    | left + 1 => if response.nodeAddress = me then .found me else .ask response.nodeAddress left

/-- `CallStoreFile` goes on with the result of the lookup. -/
def storeResolved (request : StoreFileRequest) (back : Return) : Resolving → Phase
  | .found dest => .storeCall request back dest
  | .ask query left => .resolveCall request back query left

/-- `CallLookup` goes on with the result of the lookup. -/
def lookupResolved (request : RetreiveFileRequest) : Resolving → Phase
  | .found dest => .lookupCall request dest
  | .ask query left => .lookupFind request query left

/-! ## Steps of one goroutine -/

/-- The first step of `CallStabilize`. -/
def callStabilize (chord : Chord) : Chord × Phase :=
  let succ := chord.node.successors.first
  -- Even after `findNewSucc` the request goes to the address read before.
  if succ = "X" then (chord.findNewSucc, .stabilizeCall chord.request succ)
  else if succ = chord.node.nodeAddress then (chord, .finished)
  else (chord, .stabilizeCall chord.request succ)

/-- The first step of `FixFingers`. -/
def callFixFingers (sha1 : String → Nat) (chord : Chord) : Chord × Phase :=
  match fixFingers sha1 chord with
  | (moved, none) => (moved, .finished)
  | (moved, some query) =>
    let index := moved.node.nextFinger
    (moved, .fingerCall index (moved.node.fingerTable index).identifier query 31)

/-- The first step of `CallCheckPred`. -/
def callCheckPred (chord : Chord) : Chord × Phase :=
  if chord.node.predecessor = "X" then (chord, .checked false)
  else if chord.node.predecessor = chord.node.nodeAddress then (chord, .checked true)
  else (chord, .checkRead)

/-- The command `StoreFile`, with the encrypted content of the file. -/
def commandStoreFile (sha1 : String → Nat) (name : String) (content : FileContent) (chord : Chord) :
    Chord × Phase :=
  (chord, .resolve ⟨hashString sha1 name, name, content, false⟩ .parseInput)

/-- The command `Lookup`. -/
def commandLookup (sha1 : String → Nat) (name : String) (chord : Chord) : Chord × Phase :=
  (chord, lookupResolved ⟨hashString sha1 name, name⟩ (resolveFirst sha1 chord (hashString sha1 name)))

/-- The loop of `reassignToPred` has come to its end or to a `CallStoreFile`. -/
def handedOff : HandOff → Phase
  | .done => .finished
  | .store request rest keepFiles => .resolve request (.reassignToPred rest keepFiles)

/-- The next step of a goroutine at its own node (for a handler, at the node it works at): the new state,
the point reached, and what it starts with `go`.  `none`: it waits, has ended, or runs out of a list. -/
def proceed (sha1 : String → Nat) (disk : Disk) (chord : Chord) :
    Phase → Option (Chord × Phase × List Phase)
  | .notify target => some (chord, .notifyCall chord.request target, [])
  | .notifyReply target response =>
    if response.success then some (chord.accepted target, .finished, [])
    else some (chord, .finished, [.notify response.newPredAddress])
  | .join target => some (chord, .joinCall chord.request target, [])
  | .joinReply response =>
    if response.isSuccessor then some (chord, .finished, [.notify response.nodeAddress])
    else some (chord, .finished, [.join response.nodeAddress])
  | .stabilizeFailed => some (chord.clearDeadSucc, .finished, [])
  | .stabilizeReply response =>
    if response.youGood then
      (chord.verifySuccs response.nodeSuccessors).map fun verified => (verified, .finished, [])
    else if response.newPredAddress ≠ chord.node.nodeAddress then
      some (chord, .finished, [.notify response.newPredAddress])
    else some (chord, .finished, [])
  | .fingerFailed index => some (chord.setFinger index "X", .finished, [])
  | .fingerReply index identifier response left =>
    match resolvedFinger chord index response, left with
    | (changed, some query), left + 1 => some (changed, .fingerCall index identifier query left, [])
    | (changed, _), _ => some (changed, .finished, [])
  | .checkRead => some (chord, .checkCall chord.node.predecessor, [])
  | .checked true =>
    let (changed, progress) := reassignToPred sha1 disk chord
    some (changed, handedOff progress, [])
  | .checked false =>
    match takeOverEntries disk chord with
    | none => some (chord.setPredecessor "X", .finished, [])
    | some entries => some (chord, .takeOver entries, [])
  | .resolve request back =>
    some (chord, storeResolved request back (resolveFirst sha1 chord request.fileIdentifier), [])
  | .stored .parseInput => some (chord, .finished, [])
  | .stored (.reassignToPred rest keepFiles) =>
    let (changed, progress) := handOff sha1 disk chord rest keepFiles
    some (changed, handedOff progress, [])
  | .duplicate request back dest =>
    match callDuplication chord with
    | none => some (chord, .storeReturn back dest, [])
    | some succ => some (chord, .duplicateCall { request with duplicationReq := true } back dest succ, [])
  | .storeReturn back _ => some (chord, .stored back, [])
  | .takeOver [] => some (takeOverDone chord, .finished, [])
  | .takeOver (entry :: entries) =>
    match takeOverEntry sha1 disk chord entry with
    | (moved, none) => some (moved, .takeOver entries, [])
    | (moved, some request) =>
      match callDuplication moved with
      | none => some (moved, .takeOver entries, [])
      | some succ => some (moved, .takeOverCall entries request succ, [])
  | .lookupDone _ => some (chord, .finished, [])
  | _ => none

/-- The handler of the pending request, at the node that was asked; `me` is the node that asks. -/
def serve (sha1 : String → Nat) (disk : Disk) (me : NodeAddress) (chord : Chord) :
    Phase → Option (Chord × Phase)
  | .notifyCall request target =>
    let (changed, response) := notify sha1 chord request
    some (changed, .notifyReply target response)
  | .joinCall request _ =>
    let (changed, response) := join sha1 chord request
    some (changed, .joinReply response)
  | .stabilizeCall request _ =>
    let (changed, response) := stabilized chord request
    some (changed, .stabilizeReply response)
  | .fingerCall index identifier _ left =>
    some (chord, .fingerReply index identifier (findSuccessor sha1 chord identifier) left)
  | .checkCall _ => some (chord, .checked true)
  | .resolveCall request back _ left =>
    some (chord, storeResolved request back
      (resolveNext me left (findSuccessor sha1 chord request.fileIdentifier)))
  | .storeCall request back dest =>
    match storeFile disk chord request with
    | (changed, .fileOk) =>
      some (changed, if request.duplicationReq then .stored back else .duplicate request back dest)
    | (changed, _) => some (changed, .stored back)
  | .duplicateCall request back dest _ =>
    some ((storeFile disk chord request).1, .storeReturn back dest)
  | .takeOverCall entries request _ => some ((storeFile disk chord request).1, .takeOver entries)
  | .lookupFind request _ left =>
    some (chord, lookupResolved request
      (resolveNext me left (findSuccessor sha1 chord request.fileIdentifier)))
  | .lookupCall request _ => some (chord, .lookupDone (some (lookUp disk chord request)))
  | _ => none

/-! ## What the steps do to a node -/

/-- `proceed` read backwards. -/
inductive Proceeds (sha1 : String → Nat) (disk : Disk) (chord : Chord) :
    Phase → Chord → Phase → List Phase → Prop where
  | notify (target : NodeAddress) :
      Proceeds sha1 disk chord (.notify target) chord (.notifyCall chord.request target) []
  | accepted {target : NodeAddress} {response : NotifyResponse} (success : response.success = true) :
      Proceeds sha1 disk chord (.notifyReply target response) (chord.accepted target) .finished []
  | refused {target : NodeAddress} {response : NotifyResponse} (refusal : response.success = false) :
      Proceeds sha1 disk chord (.notifyReply target response) chord .finished
        [.notify response.newPredAddress]
  | join (target : NodeAddress) :
      Proceeds sha1 disk chord (.join target) chord (.joinCall chord.request target) []
  | joined {response : Response} (found : response.isSuccessor = true) :
      Proceeds sha1 disk chord (.joinReply response) chord .finished [.notify response.nodeAddress]
  | passedAlong {response : Response} (passed : response.isSuccessor = false) :
      Proceeds sha1 disk chord (.joinReply response) chord .finished [.join response.nodeAddress]
  | drops : Proceeds sha1 disk chord .stabilizeFailed chord.clearDeadSucc .finished []
  | verified {response : StabilizeResponse} {changed : Chord} (good : response.youGood = true)
      (verifies : chord.verifySuccs response.nodeSuccessors = some changed) :
      Proceeds sha1 disk chord (.stabilizeReply response) changed .finished []
  | replaced {response : StabilizeResponse} (bad : response.youGood = false)
      (other : response.newPredAddress ≠ chord.node.nodeAddress) :
      Proceeds sha1 disk chord (.stabilizeReply response) chord .finished
        [.notify response.newPredAddress]
  | incoherent {response : StabilizeResponse} (bad : response.youGood = false)
      (mine : response.newPredAddress = chord.node.nodeAddress) :
      Proceeds sha1 disk chord (.stabilizeReply response) chord .finished []
  | unfingered (index : Nat) :
      Proceeds sha1 disk chord (.fingerFailed index) (chord.setFinger index "X") .finished []
  | fingered {index identifier left : Nat} {response : Response} {next : Phase}
      (onward : next = .finished ∨ ∃ query rest, next = .fingerCall index identifier query rest) :
      Proceeds sha1 disk chord (.fingerReply index identifier response left)
        (resolvedFinger chord index response).1 next []
  | rereads : Proceeds sha1 disk chord .checkRead chord (.checkCall chord.node.predecessor) []
  | handsOff : Proceeds sha1 disk chord (.checked true) (reassignToPred sha1 disk chord).1
      (handedOff (reassignToPred sha1 disk chord).2) []
  | forgets (none_ : chord.replicatedFiles = []) :
      Proceeds sha1 disk chord (.checked false) (chord.setPredecessor "X") .finished []
  | begins (some_ : chord.replicatedFiles ≠ []) :
      Proceeds sha1 disk chord (.checked false) chord
        (.takeOver (if disk.unlisted then [] else chord.duplDir.names)) []
  | resolves (request : StoreFileRequest) (back : Return) :
      Proceeds sha1 disk chord (.resolve request back) chord
        (storeResolved request back (resolveFirst sha1 chord request.fileIdentifier)) []
  | commandDone : Proceeds sha1 disk chord (.stored .parseInput) chord .finished []
  | handsOn (rest keepFiles : List String) :
      Proceeds sha1 disk chord (.stored (.reassignToPred rest keepFiles))
        (handOff sha1 disk chord rest keepFiles).1
        (handedOff (handOff sha1 disk chord rest keepFiles).2) []
  | uncopied {request : StoreFileRequest} {back : Return} {dest : NodeAddress}
      (alone : callDuplication chord = none) :
      Proceeds sha1 disk chord (.duplicate request back dest) chord (.storeReturn back dest) []
  | copies {request : StoreFileRequest} {back : Return} {dest succ : NodeAddress}
      (sends : callDuplication chord = some succ) :
      Proceeds sha1 disk chord (.duplicate request back dest) chord
        (.duplicateCall { request with duplicationReq := true } back dest succ) []
  | returns (back : Return) (dest : NodeAddress) :
      Proceeds sha1 disk chord (.storeReturn back dest) chord (.stored back) []
  | takenOver : Proceeds sha1 disk chord (.takeOver []) (takeOverDone chord) .finished []
  | moves {entry : String} {entries : List String} {next : Phase}
      (onward : next = .takeOver entries ∨ ∃ request succ, next = .takeOverCall entries request succ ∧
        callDuplication (takeOverEntry sha1 disk chord entry).1 = some succ) :
      Proceeds sha1 disk chord (.takeOver (entry :: entries)) (takeOverEntry sha1 disk chord entry).1 next []
  | answered (response : Option RetreiveFileResponse) :
      Proceeds sha1 disk chord (.lookupDone response) chord .finished []

section Steps

variable {sha1 : String → Nat} {disk : Disk} {chord changed : Chord} {phase next : Phase}
  {spawned : List Phase}

theorem proceed_proceeds (ran : proceed sha1 disk chord phase = some (changed, next, spawned)) :
    Proceeds sha1 disk chord phase changed next spawned := by
  cases phase with
  | notify target => cases ran; exact .notify target
  | notifyReply target response =>
    simp only [proceed] at ran
    split at ran <;> cases ran
    · next success => exact .accepted success
    · next refusal => exact .refused (by simpa using refusal)
  | join target => cases ran; exact .join target
  | joinReply response =>
    simp only [proceed] at ran
    split at ran <;> cases ran
    · next found => exact .joined found
    · next passed => exact .passedAlong (by simpa using passed)
  | stabilizeFailed => cases ran; exact .drops
  | stabilizeReply response =>
    simp only [proceed] at ran
    split at ran
    · next good =>
      obtain ⟨verified, verifies, same⟩ := Option.map_eq_some_iff.mp ran
      cases same
      exact .verified good verifies
    · next bad =>
      split at ran <;> cases ran
      · next other => exact .replaced (by simpa using bad) other
      · next mine => exact .incoherent (by simpa using bad) (by simpa using mine)
  | fingerFailed index => cases ran; exact .unfingered index
  | fingerReply index identifier response left =>
    have same : changed = (resolvedFinger chord index response).1 ∧ spawned = [] ∧
        (next = .finished ∨ ∃ query rest, next = .fingerCall index identifier query rest) := by
      simp only [proceed] at ran
      generalize resolvedFinger chord index response = result at ran
      obtain ⟨after, query⟩ := result
      cases query <;> cases left <;> cases ran <;> simp
    obtain ⟨rfl, rfl, onward⟩ := same
    exact .fingered onward
  | checkRead => cases ran; exact .rereads
  | checked alive =>
    cases alive with
    | true => cases ran; exact .handsOff
    | false =>
      simp only [proceed, takeOverEntries] at ran
      by_cases none_ : chord.replicatedFiles = []
      · simp only [none_, if_true] at ran
        cases ran
        exact .forgets none_
      · simp only [none_, if_false] at ran
        cases ran
        exact .begins none_
  | resolve request back => cases ran; exact .resolves request back
  | stored back =>
    cases back with
    | parseInput => cases ran; exact .commandDone
    | reassignToPred rest keepFiles => cases ran; exact .handsOn rest keepFiles
  | duplicate request back dest =>
    simp only [proceed] at ran
    split at ran <;> cases ran
    · next alone => exact .uncopied alone
    · next sends => exact .copies sends
  | storeReturn back dest => cases ran; exact .returns back dest
  | takeOver entries =>
    cases entries with
    | nil => cases ran; exact .takenOver
    | cons entry entries =>
      have same : changed = (takeOverEntry sha1 disk chord entry).1 ∧ spawned = [] ∧
          (next = .takeOver entries ∨ ∃ request succ, next = .takeOverCall entries request succ ∧
            callDuplication (takeOverEntry sha1 disk chord entry).1 = some succ) := by
        simp only [proceed] at ran
        generalize takeOverEntry sha1 disk chord entry = result at ran
        obtain ⟨after, copy⟩ := result
        cases copy with
        | none => cases ran; simp
        | some request =>
          dsimp only at ran
          split at ran
          · cases ran; simp
          · next sends => cases ran; simp [sends]
      obtain ⟨rfl, rfl, onward⟩ := same
      exact .moves onward
  | lookupDone response => cases ran; exact .answered response
  | _ => cases ran

theorem Proceeds.nodeAddress (proceeds : Proceeds sha1 disk chord phase changed next spawned) :
    changed.node.nodeAddress = chord.node.nodeAddress := by
  cases proceeds with
  | verified _ verifies => exact (verifySuccs_keeps verifies).1.nodeAddress
  | drops => exact (clearDeadSucc_keeps chord).nodeAddress
  | fingered => exact (resolvedFinger_keeps chord _ _).nodeAddress
  | handsOff => rw [(reassignToPred_spec sha1 disk chord).node]
  | handsOn rest keepFiles => rw [(handOff_spec sha1 disk chord rest keepFiles).node]
  | moves => rw [(takeOverEntry_spec sha1 disk chord _).1]
  | _ => rfl

/-- `serve` read backwards. -/
inductive Serves (sha1 : String → Nat) (disk : Disk) (me : NodeAddress) (chord : Chord) :
    Phase → Chord → Phase → Prop where
  | notify (request : Request) (target : NodeAddress) :
      Serves sha1 disk me chord (.notifyCall request target) (notify sha1 chord request).1
        (.notifyReply target (notify sha1 chord request).2)
  | join (request : Request) (target : NodeAddress) :
      Serves sha1 disk me chord (.joinCall request target) (join sha1 chord request).1
        (.joinReply (join sha1 chord request).2)
  | stabilize (request : Request) (succ : NodeAddress) :
      Serves sha1 disk me chord (.stabilizeCall request succ) (stabilized chord request).1
        (.stabilizeReply (stabilized chord request).2)
  | finger (index identifier : Nat) (query : NodeAddress) (left : Nat) :
      Serves sha1 disk me chord (.fingerCall index identifier query left) chord
        (.fingerReply index identifier (findSuccessor sha1 chord identifier) left)
  | check (pred : NodeAddress) : Serves sha1 disk me chord (.checkCall pred) chord (.checked true)
  | resolve (request : StoreFileRequest) (back : Return) (query : NodeAddress) (left : Nat) :
      Serves sha1 disk me chord (.resolveCall request back query left) chord
        (storeResolved request back
          (resolveNext me left (findSuccessor sha1 chord request.fileIdentifier)))
  | stores {request : StoreFileRequest} {back : Return} {dest : NodeAddress}
      (ok : (storeFile disk chord request).2 = .fileOk) (original : request.duplicationReq = false) :
      Serves sha1 disk me chord (.storeCall request back dest) (storeFile disk chord request).1
        (.duplicate request back dest)
  | unstored {request : StoreFileRequest} {back : Return} {dest : NodeAddress}
      (ends : (storeFile disk chord request).2 ≠ .fileOk ∨ request.duplicationReq = true) :
      Serves sha1 disk me chord (.storeCall request back dest) (storeFile disk chord request).1
        (.stored back)
  | duplicates (request : StoreFileRequest) (back : Return) (dest succ : NodeAddress) :
      Serves sha1 disk me chord (.duplicateCall request back dest succ) (storeFile disk chord request).1
        (.storeReturn back dest)
  | takesOver (entries : List String) (request : StoreFileRequest) (succ : NodeAddress) :
      Serves sha1 disk me chord (.takeOverCall entries request succ) (storeFile disk chord request).1
        (.takeOver entries)
  | lookupFind (request : RetreiveFileRequest) (query : NodeAddress) (left : Nat) :
      Serves sha1 disk me chord (.lookupFind request query left) chord
        (lookupResolved request
          (resolveNext me left (findSuccessor sha1 chord request.fileIdentifier)))
  | lookup (request : RetreiveFileRequest) (dest : NodeAddress) :
      Serves sha1 disk me chord (.lookupCall request dest) chord
        (.lookupDone (some (lookUp disk chord request)))

theorem serve_serves {me : NodeAddress} (ran : serve sha1 disk me chord phase = some (changed, next)) :
    Serves sha1 disk me chord phase changed next := by
  cases phase with
  | notifyCall request target => cases ran; exact .notify request target
  | joinCall request target => cases ran; exact .join request target
  | stabilizeCall request succ => cases ran; exact .stabilize request succ
  | fingerCall index identifier query left => cases ran; exact .finger index identifier query left
  | checkCall pred => cases ran; exact .check pred
  | resolveCall request back query left => cases ran; exact .resolve request back query left
  | storeCall request back dest =>
    have same : changed = (storeFile disk chord request).1 ∧ next =
        if (storeFile disk chord request).2 = .fileOk ∧ request.duplicationReq = false then
          .duplicate request back dest
        else .stored back := by
      simp only [serve] at ran
      generalize storeFile disk chord request = result at ran
      obtain ⟨after, status⟩ := result
      cases status <;> cases ran <;> cases request.duplicationReq <;> simp
    obtain ⟨rfl, rfl⟩ := same
    split
    · next goesOn => exact .stores goesOn.1 goesOn.2
    · next ends =>
      rw [not_and_or, Bool.not_eq_false] at ends
      exact .unstored ends
  | duplicateCall request back dest succ => cases ran; exact .duplicates request back dest succ
  | takeOverCall entries request succ => cases ran; exact .takesOver entries request succ
  | lookupFind request query left => cases ran; exact .lookupFind request query left
  | lookupCall request dest => cases ran; exact .lookup request dest
  | _ => cases ran

theorem Serves.nodeAddress {me : NodeAddress} (serves : Serves sha1 disk me chord phase changed next) :
    changed.node.nodeAddress = chord.node.nodeAddress := by
  cases serves with
  | notify request => exact (notify_keeps sha1 chord request).1.nodeAddress
  | join request => exact (join_keeps sha1 chord request).nodeAddress
  | stabilize request => exact (stabilized_keeps chord request).1.nodeAddress
  | stores | unstored | duplicates | takesOver => rw [storeFile_node]
  | _ => rfl

end Steps

/-! ## The system -/

structure System where
  /-- the nodes that are running -/
  nodes : NodeAddress → Option Chord
  /-- the goroutine that owns `chordSync` of a node from one step to the next -/
  owner : NodeAddress → Option Nat
  tasks : List Task

inductive Event where
  /-- `main` without and with a node to join; `extra + 1` is the length of `Successors` -/
  | create (a : NodeAddress) (extra : Nat)
  | enter (a : NodeAddress) (extra : Nat) (entry : NodeAddress)
  /-- the ticks -/
  | stabilize (a : NodeAddress)
  | fixFingers (a : NodeAddress)
  | checkPred (a : NodeAddress)
  /-- the commands -/
  | storeFile (a : NodeAddress) (name : String) (content : FileContent)
  | lookup (a : NodeAddress) (name : String)
  /-- goroutine `k` goes on; its request is handled; its request fails -/
  | resume (k : Nat) (disk : Disk)
  | handle (k : Nat) (disk : Disk)
  | fail (k : Nat)
  /-- the process of a node ends -/
  | crash (a : NodeAddress)
  deriving DecidableEq, Repr

namespace System

/-- No node, no goroutine. -/
def init : System := ⟨fun _ => none, fun _ => none, []⟩

/-- A goroutine of this kind is running at the node. -/
def busy (s : System) (a : NodeAddress) (goroutine : Goroutine) : Prop :=
  ∃ task ∈ s.tasks, task.node = a ∧ task.goroutine = goroutine ∧ task.phase ≠ .finished

instance (s : System) (a : NodeAddress) (goroutine : Goroutine) : Decidable (s.busy a goroutine) :=
  inferInstanceAs (Decidable (∃ task ∈ s.tasks, _))

/-- No request is in flight. -/
def Quiet (s : System) : Prop := ∀ task ∈ s.tasks, task.phase = .finished

instance (s : System) : Decidable (Quiet s) := inferInstanceAs (Decidable (∀ task ∈ s.tasks, _))

/-- In this event a tick begins to take over replicated files. -/
def takesOver (s : System) : Event → Bool
  | .resume k _ =>
    match s.tasks[k]? with
    | some ⟨a, _, .checked false⟩ => (s.nodes a).any fun chord => chord.replicatedFiles ≠ []
    | _ => false
  | _ => false

/-- The process of node `a` starts. -/
def launch (s : System) (a : NodeAddress) (chord : Chord) (tasks : List Task) : Option System :=
  if a = "X" ∨ (s.nodes a).isSome then none
  else some { s with nodes := Function.update s.nodes a (some chord), tasks := s.tasks ++ tasks }

/-- A tick or command at a node that has joined: its first step is made with the lock. -/
def start (s : System) (a : NodeAddress) (goroutine : Goroutine) (first : Chord → Chord × Phase) :
    Option System := do
  let chord ← s.nodes a
  if chord.node.joinPending ∨ s.owner a ≠ none ∨ s.busy a goroutine then none
  else
    let (changed, phase) := first chord
    some
      { nodes := Function.update s.nodes a (some changed)
        owner := Function.update s.owner a (if phase.ownsLock then some s.tasks.length else none)
        tasks := s.tasks ++ [⟨a, goroutine, phase⟩] }

/-- Goroutine `k` may make its next step at `site`. -/
def mayRun (s : System) (k : Nat) (site : NodeAddress) (phase : Phase) : Prop :=
  if phase.ownsLock then s.owner site = some k
  else phase.underLock = true → s.owner site = none

instance (s : System) (k : Nat) (site : NodeAddress) (phase : Phase) :
    Decidable (s.mayRun k site phase) := by
  unfold mayRun
  infer_instance

def resume (sha1 : String → Nat) (s : System) (k : Nat) (disk : Disk) : Option System := do
  let task ← s.tasks[k]?
  let site := task.phase.site task.node
  let chord ← s.nodes site
  let (changed, phase, spawned) ← proceed sha1 disk chord task.phase
  if s.mayRun k site task.phase then
    some
      { nodes := Function.update s.nodes site (some changed)
        owner :=
          if task.phase.underLock then
            Function.update s.owner site (if phase.ownsLock then some k else none)
          else s.owner
        tasks := s.tasks.set k { task with phase := phase } ++
          spawned.map fun phase => ⟨task.node, .spawned, phase⟩ }
  else none

def handle (sha1 : String → Nat) (s : System) (k : Nat) (disk : Disk) : Option System := do
  let task ← s.tasks[k]?
  let target ← task.phase.awaits
  let chord ← s.nodes target
  let (changed, phase) ← serve sha1 disk task.node chord task.phase
  if task.phase.handlerLocks = true → s.owner target = none then
    some { s with
      nodes := Function.update s.nodes target (some changed)
      tasks := s.tasks.set k { task with phase := phase } }
  else none

def fail (s : System) (k : Nat) : Option System := do
  let task ← s.tasks[k]?
  let phase ← task.phase.failed
  some { s with tasks := s.tasks.set k { task with phase := phase } }

/-- What becomes of a goroutine when the node `a` stops. -/
def afterCrash (s : System) (a : NodeAddress) (task : Task) : Task :=
  if task.node = a then
    match task.phase.handler.filter fun left => left.1 ≠ a ∧ (s.nodes left.1).isSome with
    | some (dest, phase) => ⟨dest, .spawned, phase⟩
    | none => { task with phase := .finished }
  else { task with phase := task.phase.cutOff a }

def crash (s : System) (a : NodeAddress) : System where
  nodes := Function.update s.nodes a none
  owner := Function.update s.owner a none
  tasks := s.tasks.map (s.afterCrash a)

def step (sha1 : String → Nat) (s : System) : Event → Option System
  | .create a extra => s.launch a (initClient (hashString sha1 a) a extra).create []
  | .enter a extra entry => s.launch a (initClient (hashString sha1 a) a extra) [⟨a, .main, .join entry⟩]
  | .stabilize a => s.start a .ticker callStabilize
  | .fixFingers a => s.start a .ticker (callFixFingers sha1)
  | .checkPred a => s.start a .ticker callCheckPred
  | .storeFile a name content => s.start a .main (commandStoreFile sha1 name content)
  | .lookup a name => s.start a .main (commandLookup sha1 name)
  | .resume k disk => s.resume sha1 k disk
  | .handle k disk => s.handle sha1 k disk
  | .fail k => s.fail k
  | .crash a => some (s.crash a)

/-! ## What one step does -/

/-- The events that start a process, with its first state and goroutine. -/
inductive Boots (sha1 : String → Nat) : Event → NodeAddress → Chord → List Task → Prop where
  | create (a : NodeAddress) (extra : Nat) :
      Boots sha1 (.create a extra) a (initClient (hashString sha1 a) a extra).create []
  | enter (a : NodeAddress) (extra : Nat) (entry : NodeAddress) :
      Boots sha1 (.enter a extra entry) a (initClient (hashString sha1 a) a extra)
        [⟨a, .main, .join entry⟩]

/-- The ticks and commands, with the first step of each. -/
inductive Starts (sha1 : String → Nat) :
    Event → NodeAddress → Goroutine → (Chord → Chord × Phase) → Prop where
  | stabilize (a : NodeAddress) : Starts sha1 (.stabilize a) a .ticker callStabilize
  | fixFingers (a : NodeAddress) : Starts sha1 (.fixFingers a) a .ticker (callFixFingers sha1)
  | checkPred (a : NodeAddress) : Starts sha1 (.checkPred a) a .ticker callCheckPred
  | storeFile (a : NodeAddress) (name : String) (content : FileContent) :
      Starts sha1 (.storeFile a name content) a .main (commandStoreFile sha1 name content)
  | lookup (a : NodeAddress) (name : String) : Starts sha1 (.lookup a name) a .main (commandLookup sha1 name)

/-- The step function read backwards. -/
inductive Effect (sha1 : String → Nat) (s : System) : Event → System → Prop where
  | launch {e : Event} {a : NodeAddress} {chord : Chord} {tasks : List Task}
      (boots : Boots sha1 e a chord tasks) (notX : a ≠ "X") (fresh : s.nodes a = none) :
      Effect sha1 s e
        { s with nodes := Function.update s.nodes a (some chord), tasks := s.tasks ++ tasks }
  | start {e : Event} {a : NodeAddress} {goroutine : Goroutine} {first : Chord → Chord × Phase}
      {chord changed : Chord} {phase : Phase} (starts : Starts sha1 e a goroutine first)
      (found : s.nodes a = some chord) (joined : chord.node.joinPending = false)
      (free : s.owner a = none) (idle : ¬ s.busy a goroutine) (ran : first chord = (changed, phase)) :
      Effect sha1 s e
        { nodes := Function.update s.nodes a (some changed)
          owner := Function.update s.owner a (if phase.ownsLock then some s.tasks.length else none)
          tasks := s.tasks ++ [⟨a, goroutine, phase⟩] }
  | resume {k : Nat} {disk : Disk} {task : Task} {chord changed : Chord} {phase : Phase}
      {spawned : List Phase} (member : s.tasks[k]? = some task)
      (found : s.nodes (task.phase.site task.node) = some chord)
      (may : s.mayRun k (task.phase.site task.node) task.phase)
      (proceeds : Proceeds sha1 disk chord task.phase changed phase spawned) :
      Effect sha1 s (.resume k disk)
        { nodes := Function.update s.nodes (task.phase.site task.node) (some changed)
          owner :=
            if task.phase.underLock then
              Function.update s.owner (task.phase.site task.node)
                (if phase.ownsLock then some k else none)
            else s.owner
          tasks := s.tasks.set k { task with phase := phase } ++
            spawned.map fun phase => ⟨task.node, .spawned, phase⟩ }
  | handle {k : Nat} {disk : Disk} {task : Task} {target : NodeAddress} {chord changed : Chord}
      {phase : Phase} (member : s.tasks[k]? = some task) (asks : task.phase.awaits = some target)
      (found : s.nodes target = some chord)
      (free : task.phase.handlerLocks = true → s.owner target = none)
      (serves : Serves sha1 disk task.node chord task.phase changed phase) :
      Effect sha1 s (.handle k disk)
        { s with
          nodes := Function.update s.nodes target (some changed)
          tasks := s.tasks.set k { task with phase := phase } }
  | fail {k : Nat} {task : Task} {phase : Phase} (member : s.tasks[k]? = some task)
      (gives : task.phase.failed = some phase) :
      Effect sha1 s (.fail k) { s with tasks := s.tasks.set k { task with phase := phase } }
  | crash (a : NodeAddress) : Effect sha1 s (.crash a) (s.crash a)

section

variable {sha1 : String → Nat} {s t : System} {e : Event}

theorem launch_effect {a : NodeAddress} {chord : Chord} {tasks : List Task}
    (boots : Boots sha1 e a chord tasks) (moved : s.launch a chord tasks = some t) :
    Effect sha1 s e t := by
  unfold launch at moved
  split at moved
  · cases moved
  · next allowed =>
    obtain ⟨notX, fresh⟩ := not_or.mp allowed
    obtain rfl := Option.some.inj moved
    exact .launch boots notX (by simpa using fresh)

theorem start_effect {a : NodeAddress} {goroutine : Goroutine} {first : Chord → Chord × Phase}
    (starts : Starts sha1 e a goroutine first) (moved : s.start a goroutine first = some t) :
    Effect sha1 s e t := by
  simp only [start, Option.bind_eq_bind, Option.bind_eq_some_iff] at moved
  obtain ⟨chord, found, moved⟩ := moved
  split at moved
  · cases moved
  · next allowed =>
    simp only [not_or, not_not, Bool.not_eq_true] at allowed
    obtain ⟨joined, free, idle⟩ := allowed
    obtain rfl := Option.some.inj moved
    exact .start starts found joined free idle rfl

theorem resume_effect {k : Nat} {disk : Disk} (moved : s.resume sha1 k disk = some t) :
    Effect sha1 s (.resume k disk) t := by
  simp only [resume, Option.bind_eq_bind, Option.bind_eq_some_iff] at moved
  obtain ⟨task, member, chord, found, ⟨changed, phase, spawned⟩, ran, moved⟩ := moved
  split at moved
  · next may =>
    obtain rfl := Option.some.inj moved
    exact .resume member found may (proceed_proceeds ran)
  · cases moved

theorem handle_effect {k : Nat} {disk : Disk} (moved : s.handle sha1 k disk = some t) :
    Effect sha1 s (.handle k disk) t := by
  simp only [handle, Option.bind_eq_bind, Option.bind_eq_some_iff] at moved
  obtain ⟨task, member, target, asks, chord, found, ⟨changed, phase⟩, ran, moved⟩ := moved
  split at moved
  · next free =>
    obtain rfl := Option.some.inj moved
    exact .handle member asks found free (serve_serves ran)
  · cases moved

theorem fail_effect {k : Nat} (moved : s.fail k = some t) : Effect sha1 s (.fail k) t := by
  simp only [fail, Option.bind_eq_bind, Option.bind_eq_some_iff] at moved
  obtain ⟨task, member, phase, gives, moved⟩ := moved
  obtain rfl := Option.some.inj moved
  exact .fail member gives

theorem step_effect (moved : step sha1 s e = some t) : Effect sha1 s e t := by
  cases e with
  | create a extra => exact launch_effect (.create a extra) moved
  | enter a extra entry => exact launch_effect (.enter a extra entry) moved
  | stabilize a => exact start_effect (.stabilize a) moved
  | fixFingers a => exact start_effect (.fixFingers a) moved
  | checkPred a => exact start_effect (.checkPred a) moved
  | storeFile a name content => exact start_effect (.storeFile a name content) moved
  | lookup a name => exact start_effect (.lookup a name) moved
  | resume k disk => exact resume_effect moved
  | handle k disk => exact handle_effect moved
  | fail k => exact fail_effect moved
  | crash a =>
    obtain rfl := Option.some.inj moved
    exact .crash a

/-- What is left of a goroutine when the node `a` stops. -/
inductive Outlives (s : System) (a : NodeAddress) (task : Task) : Task → Prop where
  | elsewhere (other : task.node ≠ a) : Outlives s a task { task with phase := task.phase.cutOff a }
  | ended (here : task.node = a) : Outlives s a task { task with phase := .finished }
  | handler {dest : NodeAddress} {phase : Phase} (here : task.node = a) (left : task.phase.handler = some (dest, phase))
      (other : dest ≠ a) (running : (s.nodes dest).isSome) : Outlives s a task ⟨dest, .spawned, phase⟩

theorem outlives (s : System) (a : NodeAddress) (task : Task) : Outlives s a task (s.afterCrash a task) := by
  unfold afterCrash
  split
  · next here =>
    split
    · next dest phase left =>
      obtain ⟨isHandler, runs⟩ := Option.filter_eq_some_iff.mp left
      obtain ⟨other, running⟩ := of_decide_eq_true runs
      exact .handler here isHandler other running
    · exact .ended here
  · next other => exact .elsewhere other

/-- The goroutines after a step of goroutine `k`: the others, what became of it, and what it started. -/
theorem mem_resumed {tasks : List Task} {k : Nat} {task task' : Task} {phase : Phase} {spawned : List Phase}
    (inside : task' ∈ tasks.set k { task with phase := phase } ++
      spawned.map fun phase => ⟨task.node, .spawned, phase⟩) :
    task' ∈ tasks ∨ (task'.node = task.node ∧ task'.phase ∈ phase :: spawned) := by
  rcases List.mem_append.mp inside with old | new
  · rcases List.mem_or_eq_of_mem_set old with kept | rfl
    · exact .inl kept
    · exact .inr ⟨rfl, List.mem_cons_self⟩
  · obtain ⟨p, isSpawned, rfl⟩ := List.mem_map.mp new
    exact .inr ⟨rfl, List.mem_cons_of_mem _ isSpawned⟩

theorem exists_resumed {tasks : List Task} {k : Nat} {task : Task} (member : tasks[k]? = some task)
    {p phase : Phase} {spawned : List Phase} (new : p ∈ phase :: spawned) :
    ∃ task' ∈ tasks.set k { task with phase := phase } ++
      spawned.map (fun phase => ⟨task.node, .spawned, phase⟩), task'.node = task.node ∧ task'.phase = p := by
  rcases List.mem_cons.mp new with rfl | isSpawned
  · exact ⟨_, List.mem_append_left _ (Pool.mem_set_self member _), rfl, rfl⟩
  · exact ⟨_, List.mem_append_right _ (List.mem_map_of_mem isSpawned), rfl, rfl⟩

theorem mayRun_of_free {k : Nat} {site : NodeAddress} {phase : Phase} (unlocked : phase.ownsLock = false)
    (free : s.owner site = none) : s.mayRun k site phase := by
  simp [mayRun, unlocked, free]

theorem resume_eq {k : Nat} {disk : Disk} {task : Task} {chord changed : Chord} {phase : Phase}
    {spawned : List Phase} (member : s.tasks[k]? = some task)
    (found : s.nodes (task.phase.site task.node) = some chord)
    (may : s.mayRun k (task.phase.site task.node) task.phase)
    (ran : proceed sha1 disk chord task.phase = some (changed, phase, spawned)) :
    step sha1 s (.resume k disk) = some
      { nodes := Function.update s.nodes (task.phase.site task.node) (some changed)
        owner :=
          if task.phase.underLock then
            Function.update s.owner (task.phase.site task.node) (if phase.ownsLock then some k else none)
          else s.owner
        tasks := s.tasks.set k { task with phase := phase } ++
          spawned.map fun phase => ⟨task.node, .spawned, phase⟩ } := by
  simp [step, resume, member, found, ran, may]

theorem resume_enabled {k : Nat} {disk : Disk} {task : Task} {chord : Chord}
    (member : s.tasks[k]? = some task) (found : s.nodes (task.phase.site task.node) = some chord)
    (may : s.mayRun k (task.phase.site task.node) task.phase)
    (ready : (proceed sha1 disk chord task.phase).isSome) : ∃ t, step sha1 s (.resume k disk) = some t := by
  obtain ⟨⟨changed, phase, spawned⟩, ran⟩ := Option.isSome_iff_exists.mp ready
  exact ⟨_, resume_eq member found may ran⟩

theorem handle_eq {k : Nat} {disk : Disk} {task : Task} {target : NodeAddress} {chord changed : Chord}
    {phase : Phase} (member : s.tasks[k]? = some task) (asks : task.phase.awaits = some target)
    (found : s.nodes target = some chord)
    (free : task.phase.handlerLocks = true → s.owner target = none)
    (ran : serve sha1 disk task.node chord task.phase = some (changed, phase)) :
    step sha1 s (.handle k disk) = some
      { s with
        nodes := Function.update s.nodes target (some changed)
        tasks := s.tasks.set k { task with phase := phase } } := by
  simpa [step, handle, member, asks, found, ran] using free

theorem handle_enabled {k : Nat} {disk : Disk} {task : Task} {target : NodeAddress} {chord : Chord}
    (member : s.tasks[k]? = some task) (asks : task.phase.awaits = some target)
    (found : s.nodes target = some chord)
    (free : task.phase.handlerLocks = true → s.owner target = none)
    (ready : (serve sha1 disk task.node chord task.phase).isSome) :
    ∃ t, step sha1 s (.handle k disk) = some t := by
  obtain ⟨⟨changed, phase⟩, ran⟩ := Option.isSome_iff_exists.mp ready
  exact ⟨_, handle_eq member asks found free ran⟩

/-- The first steps of ticks and commands read backwards. -/
inductive Begins (sha1 : String → Nat) (a : NodeAddress) (chord : Chord) : Event → Chord → Phase → Prop where
  | searches (unknown : chord.node.successors.first = "X") :
      Begins sha1 a chord (.stabilize a) chord.findNewSucc (.stabilizeCall chord.request "X")
  | alone (itself : chord.node.successors.first = chord.node.nodeAddress) :
      Begins sha1 a chord (.stabilize a) chord .finished
  | stabilizes (known : chord.node.successors.first ≠ "X") :
      Begins sha1 a chord (.stabilize a) chord
        (.stabilizeCall chord.request chord.node.successors.first)
  | fixed : Begins sha1 a chord (.fixFingers a) (fixFingers sha1 chord).1 .finished
  | fixes (index identifier : Nat) (query : NodeAddress) :
      Begins sha1 a chord (.fixFingers a) (fixFingers sha1 chord).1 (.fingerCall index identifier query 31)
  | unpreceded (unknown : chord.node.predecessor = "X") :
      Begins sha1 a chord (.checkPred a) chord (.checked false)
  | selfPreceded (itself : chord.node.predecessor = chord.node.nodeAddress) :
      Begins sha1 a chord (.checkPred a) chord (.checked true)
  | checks : Begins sha1 a chord (.checkPred a) chord .checkRead
  | stores (name : String) (content : FileContent) :
      Begins sha1 a chord (.storeFile a name content) chord
        (.resolve ⟨hashString sha1 name, name, content, false⟩ .parseInput)
  | looksUp (name : String) :
      Begins sha1 a chord (.lookup a name) chord
        (lookupResolved ⟨hashString sha1 name, name⟩ (resolveFirst sha1 chord (hashString sha1 name)))

theorem Starts.begins {a : NodeAddress} {goroutine : Goroutine} {first : Chord → Chord × Phase}
    {chord changed : Chord} {phase : Phase} (starts : Starts sha1 e a goroutine first)
    (ran : first chord = (changed, phase)) : Begins sha1 a chord e changed phase := by
  cases starts with
  | stabilize =>
    simp only [callStabilize] at ran
    split at ran
    · next unknown =>
      cases ran
      rw [unknown]
      exact .searches unknown
    · next known =>
      split at ran <;> cases ran
      · next itself => exact .alone itself
      · exact .stabilizes known
  | fixFingers =>
    simp only [callFixFingers] at ran
    split at ran
    · next moved =>
      cases ran
      obtain rfl : (Chord.fixFingers sha1 chord).1 = changed := congrArg Prod.fst moved
      exact .fixed
    · next moved =>
      cases ran
      obtain rfl : (Chord.fixFingers sha1 chord).1 = changed := congrArg Prod.fst moved
      exact .fixes _ _ _
  | checkPred =>
    simp only [callCheckPred] at ran
    split at ran
    · next unknown => cases ran; exact .unpreceded unknown
    · split at ran <;> cases ran
      · next itself => exact .selfPreceded itself
      · exact .checks
  | storeFile => cases ran; exact .stores _ _
  | lookup => cases ran; exact .looksUp _

/-- The first step of a tick or command touches pointers only. -/
theorem Begins.keeps {a : NodeAddress} {chord changed : Chord} {phase : Phase}
    (begins : Begins sha1 a chord e changed phase) : KeepsFiles chord changed := by
  cases begins with
  | searches => exact findNewSucc_keeps chord
  | fixed | fixes => exact (fixFingers_keeps sha1 chord).toKeepsFiles
  | _ => exact .refl chord

theorem takesOver_of_checked {k : Nat} (disk : Disk) {task : Task} {chord : Chord}
    (member : s.tasks[k]? = some task) (phase : task.phase = .checked false)
    (found : s.nodes task.node = some chord) (some_ : chord.replicatedFiles ≠ []) :
    s.takesOver (.resume k disk) = true := by
  obtain ⟨node, goroutine, phase'⟩ := task
  subst phase
  simp [takesOver, member, found, some_]

/-! ## Names -/

/-- Every node goes by its address. -/
def Addressed (s : System) : Prop := ∀ a chord, s.nodes a = some chord → chord.node.nodeAddress = a

theorem Addressed.update (addressed : s.Addressed) {a : NodeAddress} {chord : Chord}
    (named : chord.node.nodeAddress = a) {b : NodeAddress} {chord' : Chord}
    (found : Function.update s.nodes a (some chord) b = some chord') : chord'.node.nodeAddress = b := by
  by_cases equal : b = a
  · subst equal
    rw [Function.update_self] at found
    exact Option.some.inj found ▸ named
  · rw [Function.update_of_ne equal] at found
    exact addressed b chord' found

theorem Addressed.step (addressed : s.Addressed) (moved : step sha1 s e = some t) : t.Addressed := by
  intro b chord' found
  cases step_effect moved with
  | launch boots _ _ => exact addressed.update (by cases boots <;> rfl) found
  | start starts old _ _ _ ran =>
    exact addressed.update ((starts.begins ran).keeps.nodeAddress.trans (addressed _ _ old)) found
  | resume _ old _ proceeds =>
    exact addressed.update (proceeds.nodeAddress.trans (addressed _ _ old)) found
  | handle _ _ old _ serves =>
    exact addressed.update (serves.nodeAddress.trans (addressed _ _ old)) found
  | fail => exact addressed b chord' found
  | crash a =>
    by_cases equal : b = a
    · subst equal
      simp [crash] at found
    · simp only [crash, Function.update_of_ne equal] at found
      exact addressed b chord' found

end

end System

end Tda596Labs.Chord
