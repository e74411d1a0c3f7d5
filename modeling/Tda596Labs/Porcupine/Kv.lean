import Tda596Labs.Lib.Directory
import Tda596Labs.Porcupine.Parallel

/-! # Histories of a key-value store

`KvModel` describes the value of a single key, and its `Partition` splits a history by key.  Whether a history
is one of a store with all keys is then asked key by key.  Both questions have the same answer
(`linearizable_keyed_iff`), so that what `CheckOperations` returns is right for the whole store.
-/

namespace Tda596Labs.Porcupine

open Linearizability Transition

structure KvInput where
  /-- 0 => get, 1 => put, 2 => append -/
  op : UInt8
  key : String
  value : String
  deriving DecidableEq, Repr

structure KvOutput where
  value : String
  deriving DecidableEq, Repr

/-- What histories hold in their `interface{}` fields. -/
inductive KvValue where
  | nil
  | input (inp : KvInput)
  | output (out : KvOutput)
  deriving DecidableEq, Repr, Inhabited

/-- `.(KvInput)`; none is a panic. -/
def KvValue.asInput : KvValue → Option KvInput
  | .input inp => some inp
  | _ => none

/-- `.(KvOutput)`; none is a panic. -/
def KvValue.asOutput : KvValue → Option KvOutput
  | .output out => some out
  | _ => none

/-- `KvModel.Step`; none is a panic. -/
def kvStep (state : String) (input output : KvValue) : Option (Bool × String) := do
  let inp ← input.asInput
  let out ← output.asOutput
  if inp.op = 0 then some (out.value = state, state)
  else if inp.op = 1 then some (true, inp.value)
  else some (true, state ++ inp.value)

/-- `KvModel`, with the `Equal` that `fillDefault` gives it. -/
def kvModel : Model KvValue String where
  init := ""
  step state input output := (kvStep state input output).getD (false, state)
  equal a b := a = b

theorem kvModel_congruent : kvModel.Congruent where
  allows a b same _ _ := by rw [of_decide_eq_true same]
  steps a b same _ _ _ := by rw [of_decide_eq_true same]; exact decide_eq_true rfl

/-- `m[key] = append(m[key], v)`. -/
def appendAt (m : Directory (List (Operation KvValue))) (key : String) (v : Operation KvValue) :
    Directory (List (Operation KvValue)) :=
  m.create key ((m.read key).getD [] ++ [v])

/-- `KvModel.Partition`: the keys of the map come out sorted; none is a panic. -/
def kvPartition (history : List (Operation KvValue)) : Option (List (List (Operation KvValue))) := do
  let m ← history.foldlM (fun m v => (v.input.asInput).map fun inp => appendAt m inp.key v) .empty
  some (m.names.map fun k => (m.read k).getD [])

/-! ## Operations of a key-value store -/

/-- An operation of a key-value store, as the clients log it. -/
structure KvOperation where
  input : KvInput
  call : Int
  output : KvOutput
  ret : Int
  deriving DecidableEq, Repr

namespace KvOperation

def toOperation (op : KvOperation) : Operation KvValue := ⟨.input op.input, op.call, .output op.output, op.ret⟩

def key (op : KvOperation) : String := op.input.key

end KvOperation

/-- A store with all keys. -/
abbrev KvStore := String → String

/-- What an operation does to the store, and whether it can have had its result. -/
def KvStore.step (store : KvStore) (op : KvOperation) : Option KvStore :=
  let inp := op.input
  if inp.op = 0 then if op.output.value = store inp.key then some store else none
  else if inp.op = 1 then some (Function.update store inp.key inp.value)
  else some (Function.update store inp.key (store inp.key ++ inp.value))

/-- The history is one of a store that starts with no values. -/
def KvLinearizable (history : List KvOperation) : Prop :=
  Linearizable KvStore.step (Precedes KvOperation.call KvOperation.ret) (fun _ => "") history

/-- The store has a `KvModel` for every key. -/
theorem KvStore.step_eq_keyed :
    KvStore.step = keyed KvOperation.key fun s op => kvModel.stepOf s op.toOperation := by
  funext store op
  simp only [KvStore.step, keyed, Model.stepOf, kvModel, KvOperation.toOperation, kvStep, KvValue.asInput,
    KvValue.asOutput, KvOperation.key, Option.bind_eq_bind, Option.bind_some]
  by_cases get : op.input.op = 0
  · by_cases same : op.output.value = store op.input.key <;> simp [get, same]
  · by_cases put : op.input.op = 1 <;> simp [put, get]

/-- A history is linearizable exactly if the operations on each key are. -/
theorem kvLinearizable_iff {history : List KvOperation} (timely : ∀ op ∈ history, op.call ≤ op.ret) :
    KvLinearizable history ↔
      ∀ k, kvModel.Linearizes ((onKey KvOperation.key k history).map KvOperation.toOperation) := by
  rw [KvLinearizable, KvStore.step_eq_keyed, linearizable_keyed_iff timely]
  refine forall_congr' fun k => ?_
  rw [Model.Linearizes, linearizable_map_iff]
  rfl

/-! ## Partitions -/

/-- The map that `Partition` has built from a history. -/
structure Grouped (m : Directory (List (Operation KvValue))) (history : List KvOperation) : Prop where
  read : ∀ k, (m.read k).getD [] = (onKey KvOperation.key k history).map KvOperation.toOperation
  names : ∀ k, k ∈ m.names ↔ ∃ op ∈ history, op.key = k

theorem Grouped.append {m : Directory (List (Operation KvValue))} {history : List KvOperation}
    (grouped : Grouped m history) (op : KvOperation) :
    Grouped (appendAt m op.key op.toOperation) (history ++ [op]) where
  read k := by
    rw [appendAt, Directory.read_create, onKey, List.filter_append, List.map_append]
    by_cases same : k = op.key
    · rw [if_pos same, Option.getD_some, grouped.read, same]
      simp [onKey]
    · rw [if_neg same, grouped.read]
      simp [onKey, Ne.symm same]
  names k := by
    rw [appendAt, Directory.mem_names_create, grouped.names]
    simp only [List.mem_append, List.mem_singleton, or_and_right, exists_or, exists_eq_left]
    rw [or_comm, eq_comm]

theorem foldlM_grouped {m : Directory (List (Operation KvValue))} {before : List KvOperation}
    (grouped : Grouped m before) (history : List KvOperation) :
    ∃ m', (history.map KvOperation.toOperation).foldlM
        (fun m v => (v.input.asInput).map fun inp => appendAt m inp.key v) m = some m' ∧
      Grouped m' (before ++ history) := by
  induction history generalizing m before with
  | nil => exact ⟨m, rfl, by simpa using grouped⟩
  | cons op history ih =>
    obtain ⟨m', folds, grouped'⟩ := ih (grouped.append op)
    refine ⟨m', ?_, by simpa using grouped'⟩
    rw [List.map_cons, List.foldlM_cons]
    exact folds

/-- `Partition` does not panic, and its parts are the operations on each key that occurs. -/
theorem kvPartition_eq_some (history : List KvOperation) :
    ∃ keys : List String, (∀ k, k ∈ keys ↔ ∃ op ∈ history, op.key = k) ∧
      kvPartition (history.map KvOperation.toOperation) =
        some (keys.map fun k => (onKey KvOperation.key k history).map KvOperation.toOperation) := by
  have nothing : Grouped .empty [] := ⟨fun k => rfl, fun k => by simp [Directory.names, Directory.empty]⟩
  obtain ⟨m, folds, grouped⟩ := foldlM_grouped nothing history
  refine ⟨m.names, grouped.names, ?_⟩
  rw [kvPartition, folds]
  simp [grouped.read]

/-- All parts are linearizable exactly if the history is. -/
theorem forall_partitions_iff {history : List KvOperation} (timely : ∀ op ∈ history, op.call ≤ op.ret)
    {keys : List String} (all : ∀ k, k ∈ keys ↔ ∃ op ∈ history, op.key = k) :
    (∀ subhistory ∈ keys.map fun k => (onKey KvOperation.key k history).map KvOperation.toOperation,
      kvModel.Linearizes subhistory) ↔ KvLinearizable history := by
  rw [kvLinearizable_iff timely, List.forall_mem_map]
  refine ⟨fun parts k => ?_, fun parts k _ => parts k⟩
  by_cases listed : k ∈ keys
  · exact parts k listed
  · have empty : onKey KvOperation.key k history = [] := by
      refine List.filter_eq_nil_iff.mpr fun op inside same => ?_
      exact listed ((all k).mpr ⟨op, inside, by simpa using same⟩)
    rw [empty]
    exact linearizable_nil _

/-- `CheckOperations` with `KvModel` decides whether a history is one of a key-value store.  Whatever it
returns is right; it comes to its end, except for the empty history without a timeout, for which it waits
for a result that never comes. -/
theorem checkOperations_kv {history : List KvOperation} (timely : ∀ op ∈ history, op.call ≤ op.ret)
    {sort : List (Entry KvValue) → List (Entry KvValue)} (sorts : Sorts sort) (verbose timed : Bool) :
    ∃ partitions, kvPartition (history.map KvOperation.toOperation) = some partitions ∧
      ∀ taken s, Run (Parallel.step kvModel (entriesOf sort partitions) verbose timed)
        (Parallel.start (entriesOf sort partitions)) taken s →
        (s.stage = .returned → (s.result = .ok → KvLinearizable history) ∧
          (s.result = .illegal → ¬ KvLinearizable history) ∧ (s.result = .unknown → timed = true)) ∧
        ((∀ e, Parallel.step kvModel (entriesOf sort partitions) verbose timed s e = none) ↔
          (s.stage = .returned ∧ s.running = []) ∨ (history = [] ∧ timed = false)) := by
  obtain ⟨keys, all, partitioned⟩ := kvPartition_eq_some history
  refine ⟨_, partitioned, fun taken s run => ?_⟩
  have timely' : ∀ subhistory ∈ keys.map fun k => (onKey KvOperation.key k history).map KvOperation.toOperation,
      ∀ op ∈ subhistory, op.call ≤ op.ret := by
    rw [List.forall_mem_map]
    intro k _
    rw [List.forall_mem_map]
    exact fun op inside => timely op (mem_onKey.mp inside).1
  have decides := decides_operations kvModel_congruent sorts timely' verbose
  constructor
  · intro returned
    have sound := Parallel.sound_of_run decides run returned
    rw [forall_linearizesAt, forall_partitions_iff timely all] at sound
    exact sound
  · have stops := Parallel.forall_step_eq_none_iff decides (Parallel.inv_of_run decides run)
    have nothing : keys = [] ↔ history = [] := by
      simp only [List.eq_nil_iff_forall_not_mem, all]
      simp
    simp only [entriesOf, List.map_eq_nil_iff, nothing] at stops ⊢
    exact stops

/-- A client puts 1 at x while another, that reads it, then reads no value; a third key is appended to. -/
def newThenNothing : List KvOperation :=
  [⟨⟨1, "x", "1"⟩, 0, ⟨""⟩, 9⟩, ⟨⟨2, "y", "2"⟩, 0, ⟨""⟩, 1⟩, ⟨⟨0, "x", ""⟩, 1, ⟨"1"⟩, 2⟩,
    ⟨⟨0, "x", ""⟩, 3, ⟨""⟩, 4⟩]

def newThenNothingEntries : List (List (Entry KvValue)) :=
  entriesOf sortByTime ((kvPartition (newThenNothing.map KvOperation.toOperation)).getD [])

/-- A check of the history in which the goroutine for y is the first to finish. -/
def yFirst : List ParallelEvent := [.finish 1 none 20, .finish 0 none 40, .receive, .receive]

def newThenNothingAfter (events : List ParallelEvent) : Parallel :=
  outcome (Parallel.step kvModel newThenNothingEntries false false) (Parallel.start newThenNothingEntries) events

theorem newThenNothing_illegal :
    (newThenNothingAfter yFirst).stage = .returned ∧ (newThenNothingAfter yFirst).result = .illegal ∧
      ¬ KvLinearizable newThenNothing := by
  have returned : (newThenNothingAfter yFirst).stage = .returned := by decide +kernel
  have illegal : (newThenNothingAfter yFirst).result = .illegal := by decide +kernel
  obtain ⟨partitions, partitioned, checked⟩ :=
    @checkOperations_kv newThenNothing (by decide) sortByTime sortByTime_sorts false false
  have entries : newThenNothingEntries = entriesOf sortByTime partitions := by
    rw [newThenNothingEntries, partitioned, Option.getD_some]
  have run := run_trace (Parallel.step kvModel newThenNothingEntries false false)
    (Parallel.start newThenNothingEntries) yFirst
  have sound := (checked _ _ (entries ▸ run)).1
  rw [← entries] at sound
  exact ⟨returned, illegal, (sound returned).2.1 illegal⟩

end Tda596Labs.Porcupine
