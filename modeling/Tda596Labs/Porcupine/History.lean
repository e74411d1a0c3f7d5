import Tda596Labs.Lib.Linearizability
import Tda596Labs.Porcupine.Checker

/-! # Histories

A history is a list of calls and returns.  While the search is under way some of its operations are
linearized; the others are left in the list.  The operations that may be linearized next, because none of
those left precedes them, are exactly those whose calls come before the first return in what is left.
-/

namespace Tda596Labs.Porcupine

open Linearizability

/-- The call or the return of an operation. -/
inductive Mark where
  | call (id : Nat)
  | ret (id : Nat)
  deriving DecidableEq, Repr

def Mark.id : Mark → Nat
  | .call id | .ret id => id

def Mark.isCall : Mark → Bool
  | .call _ => true
  | .ret _ => false

/-- A history of the operations below `n`: each is called once and then returns once. -/
structure WellFormed (n : Nat) (marks : List Mark) : Prop where
  nodup : marks.Nodup
  call_mem : ∀ i, .call i ∈ marks ↔ i < n
  ret_mem : ∀ i, .ret i ∈ marks ↔ i < n
  ordered : ∀ i < n, [.call i, .ret i].Sublist marks

/-- Operation `i` returns before operation `j` is called. -/
def PrecedesIn (marks : List Mark) (i j : Nat) : Prop := [Mark.ret i, Mark.call j].Sublist marks

instance (marks : List Mark) (i j : Nat) : Decidable (PrecedesIn marks i j) :=
  inferInstanceAs (Decidable (List.Sublist _ _))

/-- The calls and returns left when some operations are linearized. -/
def marksLeft (marks : List Mark) (done : List Nat) : List Mark := marks.filter fun m => m.id ∉ done

/-- The operations left when some are linearized. -/
def opsLeft (n : Nat) (done : List Nat) : List Nat := (List.range n).filter (· ∉ done)

variable {n i : Nat} {marks seen rest : List Mark} {done done' : List Nat}

theorem mem_marksLeft {m : Mark} : m ∈ marksLeft marks done ↔ m ∈ marks ∧ m.id ∉ done := by
  simp [marksLeft]

theorem mem_opsLeft : i ∈ opsLeft n done ↔ i < n ∧ i ∉ done := by
  simp [opsLeft]

theorem opsLeft_nil (n : Nat) : opsLeft n [] = List.range n := by
  simp [opsLeft]

theorem marksLeft_nil (marks : List Mark) : marksLeft marks [] = marks := by
  simp [marksLeft]

theorem opsLeft_congr (same : ∀ i, i ∈ done ↔ i ∈ done') : opsLeft n done = opsLeft n done' :=
  List.filter_congr fun i _ => by simp [same i]

theorem opsLeft_cons (n i : Nat) (done : List Nat) : opsLeft n (i :: done) = (opsLeft n done).erase i := by
  have distinct : (opsLeft n done).Nodup := (List.nodup_range).filter _
  rw [distinct.erase_eq_filter, opsLeft, opsLeft, List.filter_filter]
  refine List.filter_congr fun j _ => ?_
  by_cases same : j = i <;> simp [same]

theorem length_opsLeft_cons (inside : i ∈ opsLeft n done) :
    (opsLeft n (i :: done)).length + 1 = (opsLeft n done).length := by
  rw [opsLeft_cons]
  exact List.length_erase_add_one inside

/-- In a list without repetitions, what comes before an element is in the part before it. -/
theorem mem_of_pair_sublist {α : Type*} {a b : α} {before after : List α}
    (distinct : (before ++ b :: after).Nodup) (pair : [a, b].Sublist (before ++ b :: after)) :
    a ∈ before := by
  have fresh : b ∉ after := (List.nodup_cons.mp (List.nodup_append.mp distinct).2.1).1
  obtain ⟨first, second, split, inBefore, inAfter⟩ := List.sublist_append_iff.mp pair
  cases first with
  | nil =>
    obtain rfl : [a, b] = second := split
    cases inAfter with
    | cons _ later => exact absurd (later.subset (by simp)) fresh
    | cons_cons _ later => exact absurd (later.subset (by simp)) fresh
  | cons head first =>
    obtain ⟨rfl, _⟩ := List.cons.inj split
    exact inBefore.subset List.mem_cons_self

/-- In a list without repetitions, what comes after an element is in the part after it. -/
theorem mem_of_sublist_pair {α : Type*} {a b : α} {before after : List α}
    (distinct : (before ++ a :: after).Nodup) (pair : [a, b].Sublist (before ++ a :: after)) :
    b ∈ after := by
  obtain ⟨first, second, split, inBefore, inAfter⟩ := List.sublist_append_iff.mp pair
  cases first with
  | nil =>
    obtain rfl : [a, b] = second := split
    cases inAfter with
    | cons _ later => exact later.subset (by simp)
    | cons_cons _ later => exact later.subset (by simp)
  | cons head first =>
    obtain ⟨rfl, _⟩ := List.cons.inj split
    have early := inBefore.subset List.mem_cons_self
    exact absurd rfl ((List.nodup_append.mp distinct).2.2 _ early _ List.mem_cons_self)

theorem pair_sublist_of_mem {α : Type*} {a b : α} {before after : List α} (later : b ∈ after) :
    [a, b].Sublist (before ++ a :: after) :=
  (List.Sublist.cons_cons a (List.singleton_sublist.mpr later)).trans (List.sublist_append_right ..)

/-- Two elements of a list stand in one order or the other. -/
theorem pair_or_pair {α : Type*} {a b : α} {list : List α} (ina : a ∈ list) (inb : b ∈ list)
    (different : a ≠ b) : [a, b].Sublist list ∨ [b, a].Sublist list := by
  obtain ⟨before, after, rfl⟩ := List.append_of_mem ina
  obtain early | late := List.mem_append.mp inb
  · obtain ⟨front, back, rfl⟩ := List.append_of_mem early
    right
    rw [List.append_assoc, List.cons_append]
    exact pair_sublist_of_mem (by simp)
  · exact .inl (pair_sublist_of_mem ((List.mem_cons.mp late).resolve_left (Ne.symm different)))

theorem marksLeft_sublist (marks : List Mark) (done : List Nat) : (marksLeft marks done).Sublist marks :=
  List.filter_sublist

/-- What precedes in the history precedes in what is left of it. -/
theorem pair_sublist_marksLeft {a b : Mark} (pair : [a, b].Sublist marks) (left : a.id ∉ done)
    (left' : b.id ∉ done) : [a, b].Sublist (marksLeft marks done) := by
  have filtered := pair.filter fun m => m.id ∉ done
  simpa [marksLeft, left, left'] using filtered

namespace WellFormed

theorem id_lt (wf : WellFormed n marks) {m : Mark} (inside : m ∈ marks) : m.id < n := by
  cases m with
  | call i => exact (wf.call_mem i).mp inside
  | ret i => exact (wf.ret_mem i).mp inside

theorem call_mem_left (wf : WellFormed n marks) (left : i ∈ opsLeft n done) :
    .call i ∈ marksLeft marks done :=
  mem_marksLeft.mpr ⟨(wf.call_mem i).mpr (mem_opsLeft.mp left).1, (mem_opsLeft.mp left).2⟩

theorem ret_mem_left (wf : WellFormed n marks) (left : i ∈ opsLeft n done) :
    .ret i ∈ marksLeft marks done :=
  mem_marksLeft.mpr ⟨(wf.ret_mem i).mpr (mem_opsLeft.mp left).1, (mem_opsLeft.mp left).2⟩

theorem mem_opsLeft_of_mem (wf : WellFormed n marks) {m : Mark} (left : m ∈ marksLeft marks done) :
    m.id ∈ opsLeft n done :=
  mem_opsLeft.mpr ⟨wf.id_lt (mem_marksLeft.mp left).1, (mem_marksLeft.mp left).2⟩

theorem nodup_left (wf : WellFormed n marks) (done : List Nat) : (marksLeft marks done).Nodup :=
  wf.nodup.sublist (marksLeft_sublist marks done)

/-- A call before the first return may be linearized next. -/
theorem minimal_of_call (wf : WellFormed n marks) (split : marksLeft marks done = seen ++ .call i :: rest)
    (calls : ∀ m ∈ seen, m.isCall = true) :
    i ∈ opsLeft n done ∧ ∀ j ∈ (opsLeft n done).erase i, ¬ PrecedesIn marks j i := by
  have here : Mark.call i ∈ marksLeft marks done := by simp [split]
  have mine : i ∈ opsLeft n done := wf.mem_opsLeft_of_mem here
  refine ⟨mine, fun j other precedes => ?_⟩
  have left := List.mem_of_mem_erase other
  have pair := pair_sublist_marksLeft precedes (mem_opsLeft.mp left).2 (mem_opsLeft.mp mine).2
  rw [split] at pair
  have inside := mem_of_pair_sublist (split ▸ wf.nodup_left done) pair
  exact absurd (calls _ inside) (by simp [Mark.isCall])

/-- An operation that may be linearized next is called before the first return. -/
theorem call_of_minimal (wf : WellFormed n marks) {r : Nat}
    (split : marksLeft marks done = seen ++ .ret r :: rest) (mine : i ∈ opsLeft n done)
    (minimal : ∀ j ∈ (opsLeft n done).erase i, ¬ PrecedesIn marks j i) : .call i ∈ seen := by
  have called : Mark.call i ∈ seen ++ .ret r :: rest := split ▸ wf.call_mem_left mine
  obtain before | after := List.mem_append.mp called
  · exact before
  exfalso
  have later : Mark.call i ∈ rest := by simpa using after
  have pair : [Mark.ret r, Mark.call i].Sublist (marksLeft marks done) :=
    split ▸ pair_sublist_of_mem later
  by_cases same : r = i
  · -- an operation does not return before it is called
    subst same
    have small := (mem_opsLeft.mp mine).1
    obtain ⟨front, back, parts⟩ := List.append_of_mem ((wf.ret_mem r).mpr small)
    have again := pair.trans (marksLeft_sublist marks done)
    have ordered := wf.ordered r small
    have distinct := wf.nodup
    rw [parts] at ordered again distinct
    have before := mem_of_pair_sublist distinct ordered
    have after := mem_of_sublist_pair distinct again
    exact (List.nodup_append.mp distinct).2.2 _ before _ (.tail _ after) rfl
  · have returned : Mark.ret r ∈ marksLeft marks done := by simp [split]
    have left := wf.mem_opsLeft_of_mem returned
    exact minimal r ((List.mem_erase_of_ne same).mpr left) (pair.trans (marksLeft_sublist marks done))

/-- Only calls are left only if nothing is left. -/
theorem nothing_left (wf : WellFormed n marks) (calls : ∀ m ∈ marksLeft marks done, m.isCall = true) :
    opsLeft n done = [] := by
  refine List.eq_nil_iff_forall_not_mem.mpr fun i left => ?_
  exact absurd (calls _ (wf.ret_mem_left left)) (by simp [Mark.isCall])

theorem marksLeft_eq_nil_iff (wf : WellFormed n marks) : marksLeft marks done = [] ↔ opsLeft n done = [] := by
  constructor
  · intro empty
    exact wf.nothing_left (by simp [empty])
  · intro empty
    refine List.eq_nil_iff_forall_not_mem.mpr fun m left => ?_
    have inside := wf.mem_opsLeft_of_mem left
    rw [empty] at inside
    cases inside

/-- Where the return of a call is, and what is left without the operation. -/
theorem split_call (wf : WellFormed n marks) (split : marksLeft marks done = seen ++ .call i :: rest) :
    ∃ middle last, rest = middle ++ .ret i :: last ∧
      marksLeft marks (i :: done) = seen ++ (middle ++ last) := by
  have here : Mark.call i ∈ marksLeft marks done := by simp [split]
  have mine := wf.mem_opsLeft_of_mem here
  have distinct : (seen ++ .call i :: rest).Nodup := split ▸ wf.nodup_left done
  have ordered := pair_sublist_marksLeft (wf.ordered i (mem_opsLeft.mp mine).1) (mem_opsLeft.mp mine).2
    (mem_opsLeft.mp mine).2
  have returned : Mark.ret i ∈ rest := mem_of_sublist_pair distinct (split ▸ ordered)
  obtain ⟨middle, last, rfl⟩ := List.append_of_mem returned
  refine ⟨middle, last, rfl, ?_⟩
  have narrowed : marksLeft marks (i :: done) = (marksLeft marks done).filter fun m => m.id ≠ i := by
    rw [marksLeft, marksLeft, List.filter_filter]
    refine List.filter_congr fun m _ => ?_
    by_cases same : m.id = i <;> simp [same]
  have others : ∀ m : Mark, m ≠ .call i → m ≠ .ret i → m.id ≠ i := by
    intro m notCall notRet equal
    cases m with
    | call j => exact notCall (congrArg Mark.call equal)
    | ret j => exact notRet (congrArg Mark.ret equal)
  have keep : ∀ part : List Mark, .call i ∉ part → .ret i ∉ part →
      part.filter (fun m => m.id ≠ i) = part := by
    intro part noCall noRet
    refine List.filter_eq_self.mpr fun m inside => ?_
    simpa using others m (ne_of_mem_of_not_mem inside noCall) (ne_of_mem_of_not_mem inside noRet)
  simp only [List.nodup_append, List.nodup_cons, List.mem_append, List.mem_cons] at distinct
  rw [narrowed, split, List.filter_append, List.filter_cons_of_neg (by simp [Mark.id]), List.filter_append,
    List.filter_cons_of_neg (by simp [Mark.id])]
  rw [keep seen, keep middle, keep last] <;> grind

end WellFormed

end Tda596Labs.Porcupine
