import Mathlib.Data.List.Sort
import Tda596Labs.Porcupine.Single

/-! # Histories of operations with times

`makeEntries` sorts the calls and returns of a history by time, calls before returns at the same time.  A
return then stands before a call in the list exactly if its time is earlier, so that what `checkSingle`
says about the list holds for the operations and their times.
-/

namespace Tda596Labs.Porcupine

open Linearizability

variable {V S : Type}

/-- What is expected of `sort.Sort(byTime(entries))`; entries that are not ordered may come out in any order. -/
structure Sorts (sort : List (Entry V) → List (Entry V)) : Prop where
  perm : ∀ entries, (sort entries).Perm entries
  sorted : ∀ entries, (sort entries).Pairwise fun a b => less b a = false

/-- One way to sort by time. -/
def sortByTime (entries : List (Entry V)) : List (Entry V) := entries.insertionSort fun a b => less b a = false

theorem less_eq_false_iff {a b : Entry V} :
    less b a = false ↔ a.time < b.time ∨
      (a.time = b.time ∧ (b.kind = .callEntry → a.kind = .callEntry)) := by
  have kinds : ∀ kind : EntryKind, kind = .returnEntry ↔ kind ≠ .callEntry := by
    intro kind
    cases kind <;> simp
  unfold less
  by_cases same : b.time = a.time
  · simp [same, kinds]
  · rw [if_pos same, decide_eq_false_iff_not]
    have other : a.time ≠ b.time := Ne.symm same
    simp only [other, false_and, or_false]
    omega

instance trans_notLess : IsTrans (Entry V) fun a b => less b a = false where
  trans a b c first second := by
    simp only [less_eq_false_iff] at first second ⊢
    obtain first | ⟨first, kinds⟩ := first <;> obtain second | ⟨second, kinds'⟩ := second
    · exact .inl (first.trans second)
    · exact .inl (second ▸ first)
    · exact .inl (first ▸ second)
    · exact .inr ⟨first.trans second, fun called => kinds (kinds' called)⟩

instance total_notLess : Std.Total fun a b : Entry V => less b a = false where
  total a b := by
    simp only [less_eq_false_iff]
    obtain lt | eq | gt := lt_trichotomy a.time b.time
    · exact .inl (.inl lt)
    · obtain called | returned := Decidable.em (a.kind = .callEntry)
      · exact .inl (.inr ⟨eq, fun _ => called⟩)
      · exact .inr (.inr ⟨eq.symm, fun called => absurd called returned⟩)
    · exact .inr (.inl gt)

theorem sortByTime_sorts : Sorts (V := V) sortByTime where
  perm entries := List.perm_insertionSort _ entries
  sorted entries := List.pairwise_insertionSort _ entries

/-- Two entries stand in the order of their times. -/
theorem pair_sublist_makeEntries {sort : List (Entry V) → List (Entry V)} (sorts : Sorts sort)
    {history : List (Operation V)} {a b : Entry V} (ina : a ∈ makeEntries sort history)
    (inb : b ∈ makeEntries sort history) (ordered : less a b = true) :
    [a, b].Sublist (makeEntries sort history) := by
  have different : a ≠ b := by
    rintro rfl
    cases kind : a.kind <;> simp [less, kind] at ordered
  obtain right | wrong := pair_or_pair ina inb different
  · exact right
  · have sorted := (sorts.sorted _).sublist wrong
    have unordered := (List.pairwise_cons.mp sorted).1 a (by simp)
    rw [ordered] at unordered
    cases unordered

/-! ## The entries of a history -/

variable [Inhabited V]

/-- The operation with an id. -/
def opOf (history : List (Operation V)) (id : Nat) : Operation V :=
  history.getD id ⟨default, 0, default, 0⟩

theorem map_opOf (history : List (Operation V)) :
    (List.range history.length).map (opOf history) = history := by
  refine List.ext_getElem (by simp) fun i within within' => ?_
  simp [opOf, List.getD_eq_getElem?_getD, within']

/-- What an operation does to the state, and whether it can have had its result. -/
def Model.stepOf (model : Model V S) (s : S) (op : Operation V) : Option S :=
  if (model.step s op.input op.output).1 then some (model.step s op.input op.output).2 else none

/-- The history is linearizable. -/
def Model.Linearizes (model : Model V S) (history : List (Operation V)) : Prop :=
  Linearizable model.stepOf (Precedes Operation.call Operation.ret) model.init history

def callOf (history : List (Operation V)) (id : Nat) : Entry V :=
  ⟨.callEntry, (opOf history id).input, id, (opOf history id).call⟩

def retOf (history : List (Operation V)) (id : Nat) : Entry V :=
  ⟨.returnEntry, (opOf history id).output, id, (opOf history id).ret⟩

theorem entriesFrom_eq (history : List (Operation V)) :
    entriesFrom 0 history =
      (List.range history.length).flatMap fun i => [callOf history i, retOf history i] := by
  have general : ∀ (before after : List (Operation V)),
      entriesFrom before.length after = (List.range' before.length after.length).flatMap fun i =>
        [callOf (before ++ after) i, retOf (before ++ after) i] := by
    intro before after
    induction after generalizing before with
    | nil => rfl
    | cons op after ih =>
      have here : opOf (before ++ op :: after) before.length = op := by
        simp [opOf, List.getD_eq_getElem?_getD]
      have rest := ih (before ++ [op])
      rw [List.length_append, List.length_singleton, List.append_assoc, List.singleton_append] at rest
      rw [entriesFrom, List.length_cons, List.range'_succ, List.flatMap_cons, rest, callOf, retOf, here]
      rfl
  rw [List.range_eq_range']
  exact general [] history

theorem mem_entries {history : List (Operation V)} {elem : Entry V} :
    elem ∈ entriesFrom 0 history ↔
      ∃ i < history.length, elem = callOf history i ∨ elem = retOf history i := by
  simp [entriesFrom_eq, List.mem_flatMap]

theorem nodup_entries (history : List (Operation V)) : ((entriesFrom 0 history).map Entry.mark).Nodup := by
  rw [entriesFrom_eq, List.map_flatMap, List.nodup_flatMap]
  refine ⟨fun i _ => by simp [callOf, retOf, Entry.mark], ?_⟩
  refine List.nodup_range.imp fun {i j} different => ?_
  have other : j ≠ i := Ne.symm different
  simp [Function.onFun, callOf, retOf, Entry.mark, List.disjoint_left, different]

section Sorted

variable {sort : List (Entry V) → List (Entry V)} (sorts : Sorts sort) {history : List (Operation V)}

include sorts

theorem mem_makeEntries {elem : Entry V} :
    elem ∈ makeEntries sort history ↔
      ∃ i < history.length, elem = callOf history i ∨ elem = retOf history i :=
  (sorts.perm _).mem_iff.trans mem_entries

theorem wellFormed_makeEntries (timely : ∀ op ∈ history, op.call ≤ op.ret) :
    WellFormed history.length ((makeEntries sort history).map Entry.mark) where
  nodup := ((sorts.perm _).map _).nodup_iff.mpr (nodup_entries history)
  call_mem i := by
    simp only [List.mem_map, mem_makeEntries sorts]
    constructor
    · rintro ⟨_, ⟨j, small, rfl | rfl⟩, mark⟩
      · cases mark
        exact small
      · cases mark
    · exact fun small => ⟨_, ⟨i, small, .inl rfl⟩, rfl⟩
  ret_mem i := by
    simp only [List.mem_map, mem_makeEntries sorts]
    constructor
    · rintro ⟨_, ⟨j, small, rfl | rfl⟩, mark⟩
      · cases mark
      · cases mark
        exact small
    · exact fun small => ⟨_, ⟨i, small, .inr rfl⟩, rfl⟩
  ordered i small := by
    have inside : opOf history i ∈ history := by
      simp [opOf, List.getD_eq_getElem?_getD, small]
    have ordered : less (callOf history i) (retOf history i) = true := by
      have notAfter := timely _ inside
      unfold less callOf retOf
      dsimp only
      split
      · simpa using lt_of_le_of_ne notAfter ‹_›
      · rfl
    exact (pair_sublist_makeEntries sorts ((mem_makeEntries sorts).mpr ⟨i, small, .inl rfl⟩)
      ((mem_makeEntries sorts).mpr ⟨i, small, .inr rfl⟩) ordered).map Entry.mark

theorem carries_makeEntries :
    Carries (makeEntries sort history) (fun i => (opOf history i).input) fun i => (opOf history i).output := by
  intro elem inside
  obtain ⟨i, _, rfl | rfl⟩ := (mem_makeEntries sorts).mp inside <;> rfl

/-- A return stands before a call exactly if its time is earlier. -/
theorem precedesIn_makeEntries {i j : Nat} (smalli : i < history.length) (smallj : j < history.length) :
    PrecedesIn ((makeEntries sort history).map Entry.mark) i j ↔
      Precedes Operation.call Operation.ret (opOf history i) (opOf history j) := by
  constructor
  · intro precedes
    obtain ⟨part, inside, marks⟩ := List.sublist_map_iff.mp precedes
    obtain ⟨a, rest, rfl, marka, marks'⟩ := List.map_eq_cons_iff.mp marks.symm
    obtain ⟨b, rest, rfl, markb, marks''⟩ := List.map_eq_cons_iff.mp marks'
    have sorted := (sorts.sorted _).sublist inside
    have before := (List.pairwise_cons.mp sorted).1 b (by simp)
    obtain ⟨i', _, rfl | rfl⟩ := (mem_makeEntries sorts).mp (inside.subset (by simp) : a ∈ _)
    · cases marka
    obtain ⟨j', _, rfl | rfl⟩ := (mem_makeEntries sorts).mp (inside.subset (by simp) : b ∈ _)
    · cases marka
      cases markb
      rw [less_eq_false_iff] at before
      exact before.resolve_right (by simp [callOf, retOf])
    · cases markb
  · intro precedes
    have ordered : less (retOf history i) (callOf history j) = true := by
      have earlier : (opOf history i).ret < (opOf history j).call := precedes
      unfold less callOf retOf
      dsimp only
      rw [if_pos earlier.ne]
      exact decide_eq_true earlier
    exact (pair_sublist_makeEntries sorts ((mem_makeEntries sorts).mpr ⟨i, smalli, .inr rfl⟩)
      ((mem_makeEntries sorts).mpr ⟨j, smallj, .inl rfl⟩) ordered).map Entry.mark

end Sorted

/-! ## checkSingle on histories of operations -/

/-- The ids in `order` begin a linearization of the history. -/
def Model.BeginsWith (model : Model V S) (history : List (Operation V)) (order : List Nat) : Prop :=
  ∃ rest, Beginning (fun s i => model.stepOf s (opOf history i))
    (fun i j => Precedes Operation.call Operation.ret (opOf history i) (opOf history j)) model.init
    (List.range history.length) order rest

section Checked

variable {sort : List (Entry V) → List (Entry V)} (sorts : Sorts sort) {history : List (Operation V)}
  (timely : ∀ op ∈ history, op.call ≤ op.ret) {model : Model V S} (congruent : model.Congruent)

/-- The problem that `checkSingle` solves for the entries of a history. -/
def problemOf (computePartial : Bool) : Problem V S :=
  problem model congruent (makeEntries sort history) computePartial (wellFormed_makeEntries sorts timely)
    (fun i => (opOf history i).input) fun i => (opOf history i).output

theorem linearizes_iff_problemOf (computePartial : Bool) :
    (problemOf sorts timely congruent computePartial).Linearizes ↔ model.Linearizes history := by
  have named : model.Linearizes history ↔
      Linearizable (fun s i => model.stepOf s (opOf history i))
        (fun i j => Precedes Operation.call Operation.ret (opOf history i) (opOf history j)) model.init
        (List.range history.length) := by
    rw [← linearizable_map_iff, map_opOf, Model.Linearizes]
  rw [named]
  refine linearizable_congr (fun i _ s => rfl) fun i small j small' => ?_
  exact precedesIn_makeEntries sorts (List.mem_range.mp small) (List.mem_range.mp small')

theorem beginsWith_iff_problemOf (computePartial : Bool) (order : List Nat) :
    let p := problemOf sorts timely congruent computePartial
    (∃ rest, p.Begins p.model.init [] order rest) ↔ model.BeginsWith history order := by
  intro p
  refine exists_congr fun rest => ?_
  rw [Problem.Begins, opsLeft_nil]
  refine beginning_congr (fun i _ s => rfl) fun i small j small' => ?_
  exact precedesIn_makeEntries sorts (List.mem_range.mp small) (List.mem_range.mp small')

end Checked

/-- `checkSingle` decides linearizability: on every history whose operations do not return before they are
called, it returns, never dereferences nil and never leaves an array; it returns `true` only if the history
is linearizable, and it does so if the flag is not raised. -/
theorem checkSingle_iff_linearizes {model : Model V S} (congruent : model.Congruent)
    {sort : List (Entry V) → List (Entry V)} (sorts : Sorts sort) {history : List (Operation V)}
    (timely : ∀ op ∈ history, op.call ≤ op.ret) (computePartial : Bool) (kill : Nat → Bool) :
    ∃ fuel ok longest,
      (∀ more, checkSingle model (makeEntries sort history) computePartial kill (fuel + more) =
        some (.returns ok longest)) ∧
      (ok = true → model.Linearizes history) ∧
      (model.Linearizes history → (∀ t, kill t = false) → ok = true) := by
  rw [← linearizes_iff_problemOf sorts timely congruent computePartial]
  exact checkSingle_decides congruent computePartial (wellFormed_makeEntries sorts timely)
    (carries_makeEntries sorts) kill

/-- The partial results of `checkSingle` are right: what is noted for an operation is a beginning of a
linearization that includes it and, unless the search was stopped, no beginning that includes it is longer. -/
theorem checkSingle_longest {model : Model V S} (congruent : model.Congruent)
    {sort : List (Entry V) → List (Entry V)} (sorts : Sorts sort) {history : List (Operation V)}
    (timely : ∀ op ∈ history, op.call ≤ op.ret) (kill : Nat → Bool) :
    ∃ fuel ok longest,
      (∀ more, checkSingle model (makeEntries sort history) true kill (fuel + more) =
        some (.returns ok longest)) ∧
      longest.length = history.length ∧
      (∀ (i : Nat) (seq : List Nat), longest[i]? = some (some seq) →
        i ∈ seq ∧ model.BeginsWith history seq) ∧
      ((∀ t, kill t = false) → ∀ order, model.BeginsWith history order → ∀ i ∈ order,
        ∃ seq, longest[i]? = some (some seq) ∧ order.length ≤ seq.length) := by
  obtain ⟨ok, longest, answers, runs⟩ := checkSingle_answers congruent true
    (wellFormed_makeEntries sorts timely) (carries_makeEntries sorts)
  have begins := beginsWith_iff_problemOf sorts timely congruent true
  obtain ⟨fuel, ok', longest', returns, result⟩ := runs kill
  have longestOk : (problemOf sorts timely congruent true).LongestOk longest' := by
    obtain ⟨_, rfl⟩ | ⟨_, _, noted⟩ := result
    · exact answers.longestOk
    · exact noted
  refine ⟨fuel, ok', longest', returns, longestOk.length, fun i seq noted => ?_, fun never => ?_⟩
  · obtain ⟨inside, begun⟩ := longestOk.begins i seq noted
    exact ⟨inside, (begins seq).mp begun⟩
  · obtain ⟨_, rfl⟩ | ⟨_, ⟨t, raised⟩, _⟩ := result
    · intro order begun i inside
      obtain ⟨rest, begun⟩ := (begins order).mpr begun
      exact answers.covered rfl order rest begun i inside
    · exact absurd raised (by simp [never t])

/-! ## A register -/

/-- A register of numbers: the input 0 reads it, any other input is written. -/
def register : Model Nat Nat where
  init := 0
  step state input output := if input = 0 then (output = state, state) else (true, input)
  equal a b := a = b

theorem register_congruent : register.Congruent where
  allows a b same _ _ := by rw [of_decide_eq_true same]
  steps a b same _ _ _ := by rw [of_decide_eq_true same]; exact decide_eq_true rfl

/-- A write of 5, and during it a read of 5 and after that a read of 0. -/
def newThenOld : List (Operation Nat) := [⟨5, 0, 0, 9⟩, ⟨0, 1, 5, 2⟩, ⟨0, 3, 0, 4⟩]

theorem newThenOld_checked :
    ∃ fuel ok longest,
      (∀ more, checkSingle register (makeEntries sortByTime newThenOld) false (fun _ => false) (fuel + more) =
        some (.returns ok longest)) ∧
      (ok = true → register.Linearizes newThenOld) ∧
      (register.Linearizes newThenOld → (∀ t : Nat, (fun _ => false) t = false) → ok = true) :=
  checkSingle_iff_linearizes register_congruent sortByTime_sorts (by decide) false fun _ => false

theorem newThenOld_longest :
    ∃ fuel ok longest,
      (∀ more, checkSingle register (makeEntries sortByTime newThenOld) true (fun _ => false) (fuel + more) =
        some (.returns ok longest)) ∧
      longest.length = 3 ∧
      (∀ (i : Nat) (seq : List Nat), longest[i]? = some (some seq) →
        i ∈ seq ∧ register.BeginsWith newThenOld seq) ∧
      ((∀ t : Nat, (fun _ => false) t = false) → ∀ order, register.BeginsWith newThenOld order → ∀ i ∈ order,
        ∃ seq, longest[i]? = some (some seq) ∧ order.length ≤ seq.length) :=
  checkSingle_longest register_congruent sortByTime_sorts (by decide) fun _ => false

example : checkSingle register (makeEntries sortByTime newThenOld) true (fun _ => false) 30 =
    some (.returns false [some [0, 1], some [0, 1], none]) := by
  decide +kernel

end Tda596Labs.Porcupine
