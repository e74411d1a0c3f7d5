import Tda596Labs.Lib.LinkedList
import Tda596Labs.Porcupine.Bitset

/-! # Checking one history

`checkSingle` looks for a linearization of a history by going through a doubly linked list of calls and
returns.  A call that the model allows is lifted out of the list together with its return; at a return the
search goes back to the call lifted last, puts it in again and goes on after it.  A cache remembers which
sets of operations have been linearized with which state.

Nodes live in a heap with one map for each field; `none` as a result of a heap operation is a nil
dereference.  `interface{}` is an arbitrary type whose `default` is nil.
-/

namespace Tda596Labs.Porcupine

open LinkedList

variable {V S : Type}

inductive EntryKind where
  | callEntry
  | returnEntry
  deriving DecidableEq, Repr

structure Operation (V : Type) where
  input : V
  /-- invocation time -/
  call : Int
  output : V
  /-- response time -/
  ret : Int
  deriving DecidableEq, Repr

structure Entry (V : Type) where
  kind : EntryKind
  value : V
  id : Nat
  time : Int
  deriving DecidableEq, Repr

/-- `byTime.Less`: at the same time calls come before returns. -/
def less (a b : Entry V) : Bool :=
  if a.time ≠ b.time then a.time < b.time
  else a.kind = .callEntry && b.kind = .returnEntry

/-- The entries of a history, from some id on. -/
def entriesFrom (id : Nat) : List (Operation V) → List (Entry V)
  | [] => []
  | elem :: history =>
    ⟨.callEntry, elem.input, id, elem.call⟩ :: ⟨.returnEntry, elem.output, id, elem.ret⟩ ::
      entriesFrom (id + 1) history

/-- `makeEntries`; `sort` is `sort.Sort(byTime(entries))`. -/
def makeEntries (sort : List (Entry V) → List (Entry V)) (history : List (Operation V)) : List (Entry V) :=
  sort (entriesFrom 0 history)

/-! ## The list of entries -/

/-- All nodes; `size` is where the next one is allocated. -/
structure Heap (V : Type) extends Pointers Nat where
  value : Nat → V
  /-- call if there is one, otherwise return -/
  match_ : Nat → Option Nat
  id : Nat → Nat
  size : Nat

namespace Heap

def empty [Inhabited V] : Heap V where
  next _ := none
  prev _ := none
  value _ := default
  match_ _ := none
  id _ := 0
  size := 0

/-- `&node{value, match, id}` -/
def alloc (h : Heap V) (value : V) (match_ : Option Nat) (id : Nat) : Heap V where
  next := Function.update h.next h.size none
  prev := Function.update h.prev h.size none
  value := Function.update h.value h.size value
  match_ := Function.update h.match_ h.size match_
  id := Function.update h.id h.size id
  size := h.size + 1

/-- `node.next = target` -/
def setNext (h : Heap V) (node target : Option Nat) : Option (Heap V) :=
  node.map fun node => { h with next := Function.update h.next node target }

/-- `node.prev = target` -/
def setPrev (h : Heap V) (node target : Option Nat) : Option (Heap V) :=
  node.map fun node => { h with prev := Function.update h.prev node target }

def insertBefore (h : Heap V) (n : Nat) : Option Nat → Option (Heap V)
  | none => some h
  | some mark => do
    let beforeMark := h.prev mark
    let h ← h.setPrev mark n
    let h ← h.setNext n mark
    if beforeMark.isSome then
      let h ← h.setPrev n beforeMark
      h.setNext beforeMark n
    else some h

/-- The loop of `length`, for at most `fuel` nodes. -/
def length (h : Heap V) : Nat → Option Nat → Option Nat
  | _, none => some 0
  | 0, some _ => none
  | fuel + 1, some n => (h.length fuel (h.next n)).map (· + 1)

def lift (h : Heap V) (entry : Nat) : Option (Heap V) := do
  let h ← h.setNext (h.prev entry) (h.next entry)
  let h ← h.setPrev (h.next entry) (h.prev entry)
  let match_ ← h.match_ entry
  let h ← h.setNext (h.prev match_) (h.next match_)
  if (h.next match_).isSome then h.setPrev (h.next match_) (h.prev match_) else some h

def unlift (h : Heap V) (entry : Nat) : Option (Heap V) := do
  let match_ ← h.match_ entry
  let h ← h.setNext (h.prev match_) match_
  let h ← (if (h.next match_).isSome then h.setPrev (h.next match_) match_ else some h)
  let h ← h.setNext (h.prev entry) entry
  h.setPrev (h.next entry) entry

end Heap

/-- What `makeLinkedEntries` has made of the entries from some index on. -/
structure Linking (V : Type) where
  heap : Heap V
  root : Option Nat
  match_ : Nat → Option Nat

/-- One iteration of the loop of `makeLinkedEntries`. -/
def linkEntry (elem : Entry V) (linking : Linking V) : Option (Linking V) :=
  let entry := linking.heap.size
  match elem.kind with
  | .returnEntry =>
    ((linking.heap.alloc elem.value none elem.id).insertBefore entry linking.root).map fun heap =>
      ⟨heap, some entry, Function.update linking.match_ elem.id (some entry)⟩
  | .callEntry =>
    ((linking.heap.alloc elem.value (linking.match_ elem.id) elem.id).insertBefore entry
      linking.root).map fun heap => ⟨heap, some entry, linking.match_⟩

/-- `makeLinkedEntries` goes through the entries from the last to the first. -/
def makeLinkedEntries [Inhabited V] (entries : List (Entry V)) : Option (Linking V) :=
  entries.foldr (fun elem linking => linking.bind (linkEntry elem)) (some ⟨.empty, none, fun _ => none⟩)

/-! ## The search -/

/-- What a model says about a single object. -/
structure Model (V S : Type) where
  init : S
  step : S → V → V → Bool × S
  equal : S → S → Bool

structure CacheEntry (S : Type) where
  linearized : Bitset
  state : S

def cacheContains (model : Model V S) (cache : BitVec 64 → List (CacheEntry S)) (entry : CacheEntry S) :
    Bool :=
  (cache entry.linearized.hash).any fun elem =>
    entry.linearized.equals elem.linearized && model.equal entry.state elem.state

structure CallsEntry (S : Type) where
  entry : Nat
  state : S

/-- The variables of the loop of `checkSingle`. -/
structure Search (V S : Type) where
  heap : Heap V
  headEntry : Nat
  entry : Option Nat
  linearized : Bitset
  cache : BitVec 64 → List (CacheEntry S)
  calls : List (CallsEntry S)
  state : S
  /-- longest linearizable beginning that includes the given entry -/
  longest : List (Option (List Nat))

/-- The ids of the calls, in the order in which they were made. -/
def Search.seq (m : Search V S) : List Nat := m.calls.map fun v => m.heap.id v.entry

/-- The sequence is noted for every id for which there is none as long; `none`: an index is out of range. -/
def noteLongest (seq : List Nat) : List Nat → List (Option (List Nat)) → Option (List (Option (List Nat)))
  | [], longest => some longest
  | id :: ids, longest =>
    match longest[id]? with
    | none => none
    | some old =>
      noteLongest seq ids
        (if old.all fun old => seq.length > old.length then longest.set id (some seq) else longest)

/-- One iteration of the loop: it goes on, `checkSingle` returns, or a nil dereference or an index out of
range ends the program. -/
inductive Iteration (V S : Type) where
  | next (m : Search V S)
  | returns (ok : Bool) (longest : List (Option (List Nat)))
  | crash

/-- A call: linearize it, or go on with the next entry. -/
def Search.tryCall (model : Model V S) (m : Search V S) (entry matching : Nat) : Iteration V S :=
  let (ok, newState) := model.step m.state (m.heap.value entry) (m.heap.value matching)
  if ok then
    match m.linearized.set (m.heap.id entry) with
    | none => .crash
    | some newLinearized =>
      if cacheContains model m.cache ⟨newLinearized, newState⟩ then
        .next { m with entry := m.heap.next entry }
      else
        let hash := newLinearized.hash
        match m.heap.lift entry with
        | none => .crash
        | some heap =>
          .next { m with
            cache := Function.update m.cache hash (m.cache hash ++ [⟨newLinearized, newState⟩])
            calls := m.calls ++ [⟨entry, m.state⟩]
            state := newState
            linearized := newLinearized
            heap := heap
            entry := heap.next m.headEntry }
  else .next { m with entry := m.heap.next entry }

/-- A return: go back to the call linearized last and on to the entry after it. -/
def Search.goBack (computePartial : Bool) (m : Search V S) : Iteration V S :=
  match m.calls.getLast? with
  | none => .returns false m.longest
  | some callsTop =>
    match if computePartial then noteLongest m.seq m.seq m.longest else some m.longest,
        m.linearized.clear (m.heap.id callsTop.entry), m.heap.unlift callsTop.entry with
    | some longest, some linearized, some heap =>
      .next { m with
        longest := longest
        state := callsTop.state
        linearized := linearized
        calls := m.calls.dropLast
        heap := heap
        entry := heap.next callsTop.entry }
    | _, _, _ => .crash

def Search.iterate (model : Model V S) (computePartial kill : Bool) (m : Search V S) : Iteration V S :=
  match m.heap.next m.headEntry with
  | none => .returns true (m.longest.map fun _ => some m.seq)
  | some _ =>
    if kill then .returns false m.longest
    else
      match m.entry with
      | none => .crash
      | some entry =>
        match m.heap.match_ entry with
        | some matching => m.tryCall model entry matching
        | none => m.goBack computePartial

/-- What became of `checkSingle`. -/
inductive Verdict where
  | returns (ok : Bool) (longest : List (Option (List Nat)))
  | crash
  deriving DecidableEq, Repr

/-- The loop of `checkSingle`, for at most `fuel` iterations; `kill t` is what iteration `t` reads of the
flag. -/
def Search.loop (model : Model V S) (computePartial : Bool) (kill : Nat → Bool) :
    Nat → Nat → Search V S → Option Verdict
  | 0, _, _ => none
  | fuel + 1, t, m =>
    match m.iterate model computePartial (kill t) with
    | .next m => m.loop model computePartial kill fuel (t + 1)
    | .returns ok longest => some (.returns ok longest)
    | .crash => some .crash

/-- What `checkSingle` sets up; `none`: a nil dereference. -/
def startSearch [Inhabited V] (model : Model V S) (history : List (Entry V)) : Option (Search V S) := do
  let linking ← makeLinkedEntries history
  let length ← linking.heap.length linking.heap.size linking.root
  let n := length / 2
  let headEntry := linking.heap.size
  -- the id of the head, which is -1, is never read
  let heap ← (linking.heap.alloc default none 0).insertBefore headEntry linking.root
  some
    { heap := heap
      headEntry := headEntry
      entry := linking.root
      linearized := newBitset n
      cache := fun _ => []
      calls := []
      state := model.init
      longest := List.replicate n none }

/-- `none`: not done after `fuel` iterations. -/
def checkSingle [Inhabited V] (model : Model V S) (history : List (Entry V)) (computePartial : Bool)
    (kill : Nat → Bool) (fuel : Nat) : Option Verdict :=
  match startSearch model history with
  | none => some .crash
  | some m => m.loop model computePartial kill fuel 0

end Tda596Labs.Porcupine
