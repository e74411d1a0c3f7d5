import Tda596Labs.MapReduce.Worker
import Mathlib.Data.List.Lex
import Mathlib.Data.List.Pairwise
import Mathlib.Data.List.Perm.Basic
import Mathlib.Data.List.TakeWhile
import Mathlib.Data.List.Nodup

/-! # Grouping by key

The loops of `DoReduce` (`worker.go`) and of `mrsequential.go` that walk over a sorted list of pairs and
call `reducef` once for every run of equal keys.  Both are translated with their indices; `none` is an
index outside the list or a loop that has not ended.  `groups` says what either computes.
-/

namespace Tda596Labs.MapReduce

/-- A call of `reducef`: the key and the values. -/
abbrev Call := Bytes × List Bytes

/-- A result of `sort.Sort(ByKey(pairs))`; the sort is not stable. -/
structure SortedByKey (pairs sorted : List KeyValue) : Prop where
  perm : sorted.Perm pairs
  keys : sorted.Pairwise fun a b => a.key ≤ b.key

instance (pairs sorted : List KeyValue) : Decidable (SortedByKey pairs sorted) :=
  decidable_of_iff (sorted.Perm pairs ∧ sorted.Pairwise fun a b => a.key ≤ b.key)
    ⟨fun both => ⟨both.1, both.2⟩, fun result => ⟨result.perm, result.keys⟩⟩

/-! ## The loops -/

/-- The inner loop of `DoReduce`. -/
def collectValues (bufferedFile : List KeyValue) (i : Nat) :
    Nat → Nat → List Bytes → Option (Nat × List Bytes)
  | 0, _, _ => none
  | fuel + 1, j, values =>
    if j < bufferedFile.length then do
      let pair ← bufferedFile[j]?
      let first ← bufferedFile[i]?
      if pair.key = first.key then collectValues bufferedFile i fuel (j + 1) (values ++ [pair.value])
      else some (j, values)
    else some (j, values)

/-- The outer loop of `DoReduce`. -/
def reduceLoop (bufferedFile : List KeyValue) : Nat → Nat → List Call → Option (List Call)
  | 0, _, _ => none
  | fuel + 1, i, calls =>
    if i < bufferedFile.length then do
      let (j, values) ← collectValues bufferedFile i (bufferedFile.length + 1) i []
      let first ← bufferedFile[i]?
      reduceLoop bufferedFile fuel j (calls ++ [(first.key, values)])
    else some calls

def reduceCalls (bufferedFile : List KeyValue) : Option (List Call) :=
  reduceLoop bufferedFile (bufferedFile.length + 1) 0 []

/-- The first inner loop of `mrsequential`: the end of the run of equal keys. -/
def runEnd (intermediate : List KeyValue) (i : Nat) : Nat → Nat → Option Nat
  | 0, _ => none
  | fuel + 1, j =>
    if j < intermediate.length then do
      let pair ← intermediate[j]?
      let first ← intermediate[i]?
      if pair.key = first.key then runEnd intermediate i fuel (j + 1) else some j
    else some j

/-- The second inner loop of `mrsequential`: the values of the run. -/
def runValues (intermediate : List KeyValue) (j : Nat) : Nat → Nat → List Bytes → Option (List Bytes)
  | 0, _, _ => none
  | fuel + 1, k, values =>
    if k < j then do
      let pair ← intermediate[k]?
      runValues intermediate j fuel (k + 1) (values ++ [pair.value])
    else some values

/-- The loop of `mrsequential`. -/
def sequentialLoop (intermediate : List KeyValue) : Nat → Nat → List Call → Option (List Call)
  | 0, _, _ => none
  | fuel + 1, i, calls =>
    if i < intermediate.length then do
      let j ← runEnd intermediate i (intermediate.length + 1) (i + 1)
      let values ← runValues intermediate j (intermediate.length + 1) i []
      let first ← intermediate[i]?
      sequentialLoop intermediate fuel j (calls ++ [(first.key, values)])
    else some calls

def sequentialCalls (intermediate : List KeyValue) : Option (List Call) :=
  sequentialLoop intermediate (intermediate.length + 1) 0 []

/-- `fmt.Fprintf(ofile, "%v %v\n", key, reducef(key, values))` -/
def record (reducef : Bytes → List Bytes → Bytes) (call : Call) : Bytes :=
  call.1 ++ 32 :: (reducef call.1 call.2 ++ [10])

/-- What is written for a sequence of calls. -/
def report (reducef : Bytes → List Bytes → Bytes) (calls : List Call) : Bytes :=
  calls.flatMap (record reducef)

/-! ## What the loops compute -/

def sameKey (first pair : KeyValue) : Bool := pair.key = first.key

/-- One call for every run of equal keys. -/
def groups : List KeyValue → List Call
  | [] => []
  | first :: rest =>
    (first.key, first.value :: (rest.takeWhile (sameKey first)).map (·.value)) ::
      groups (rest.dropWhile (sameKey first))
termination_by pairs => pairs.length
decreasing_by
  have shorter := (List.dropWhile_sublist (sameKey first) (l := rest)).length_le
  simp only [List.length_cons]
  omega

/-- The head of what is left from an index on, and what is left after it. -/
theorem drop_eq_cons {pairs tail : List KeyValue} {pair : KeyValue} {j : Nat}
    (left : pairs.drop j = pair :: tail) :
    j < pairs.length ∧ pairs[j]? = some pair ∧ pairs.drop (j + 1) = tail := by
  have nonempty : 0 < (pairs.drop j).length := by simp [left]
  rw [List.length_drop] at nonempty
  have head : (pairs.drop j)[0]? = some pair := by simp [left]
  rw [List.getElem?_drop, Nat.add_zero] at head
  have after : (pairs.drop j).drop 1 = tail := by simp [left]
  rw [List.drop_drop] at after
  exact ⟨by omega, head, after⟩

theorem drop_eq_nil {pairs : List KeyValue} {j : Nat} (left : pairs.drop j = []) :
    ¬ j < pairs.length := by
  rw [List.drop_eq_nil_iff] at left
  omega

theorem collectValues_eq {pairs : List KeyValue} {i : Nat} {first : KeyValue}
    (start : pairs[i]? = some first) (tail : List KeyValue) :
    ∀ {fuel j : Nat} (values : List Bytes), pairs.drop j = tail → tail.length < fuel →
      collectValues pairs i fuel j values =
        some (j + (tail.takeWhile (sameKey first)).length,
          values ++ (tail.takeWhile (sameKey first)).map (·.value)) := by
  induction tail with
  | nil =>
    intro fuel j values left enough
    cases fuel with
    | zero => simp at enough
    | succ fuel => simp [collectValues, drop_eq_nil left]
  -- one turn of the loop for each pair of the run, and a last one that sees its end
  | cons pair tail ih =>
    intro fuel j values left enough
    obtain ⟨inside, here, after⟩ := drop_eq_cons left
    cases fuel with
    | zero => simp at enough
    | succ fuel =>
      have enough' : tail.length < fuel := by simpa using enough
      simp only [collectValues, if_pos inside, here, start, Option.bind_eq_bind, Option.bind_some]
      by_cases same : pair.key = first.key
      · have taken : sameKey first pair = true := by simp [sameKey, same]
        rw [if_pos same, ih (values ++ [pair.value]) after enough', List.takeWhile_cons, if_pos taken]
        simp [Nat.add_assoc, Nat.add_comm 1]
      · have stops : ¬ sameKey first pair = true := by simp [sameKey, same]
        rw [if_neg same, List.takeWhile_cons, if_neg stops]
        simp

theorem drop_add_takeWhile {pairs tail : List KeyValue} {j : Nat} (p : KeyValue → Bool)
    (left : pairs.drop j = tail) : pairs.drop (j + (tail.takeWhile p).length) = tail.dropWhile p := by
  rw [← List.drop_drop, left]
  calc tail.drop (tail.takeWhile p).length
      = (tail.takeWhile p ++ tail.dropWhile p).drop (tail.takeWhile p).length := by
        rw [List.takeWhile_append_dropWhile]
    _ = tail.dropWhile p := List.drop_left

theorem reduceLoop_eq {pairs : List KeyValue} (left : List KeyValue) :
    ∀ {fuel i : Nat} (calls : List Call), pairs.drop i = left → left.length < fuel →
      reduceLoop pairs fuel i calls = some (calls ++ groups left) := by
  -- follows the recursion of `groups`: one turn of the loop for each run of equal keys
  induction left using groups.induct with
  | case1 =>
    intro fuel i calls left enough
    cases fuel with
    | zero => simp at enough
    | succ fuel => simp [reduceLoop, drop_eq_nil left, groups]
  | case2 first rest ih =>
    intro fuel i calls left enough
    obtain ⟨inside, here, after⟩ := drop_eq_cons left
    have taken : sameKey first first = true := by simp [sameKey]
    -- the fuel of the inner loop is that of the whole list, which is enough for what is left
    have short : (first :: rest).length < pairs.length + 1 := by
      rw [← left, List.length_drop]
      omega
    have shorter := (List.dropWhile_sublist (sameKey first) (l := rest)).length_le
    have next := drop_add_takeWhile (sameKey first) left
    rw [List.takeWhile_cons, if_pos taken, List.dropWhile_cons, if_pos taken] at next
    cases fuel with
    | zero => simp at enough
    | succ fuel =>
      have enough' : (rest.dropWhile (sameKey first)).length < fuel := by
        simp only [List.length_cons] at enough
        omega
      simp only [reduceLoop, if_pos inside, here, collectValues_eq here _ [] left short,
        List.takeWhile_cons, if_pos taken, Option.bind_eq_bind, Option.bind_some]
      rw [ih _ next enough', groups]
      simp

/-- The loop of `DoReduce` ends, stays inside the list, and makes one call for every run of equal
keys. -/
theorem reduceCalls_eq (pairs : List KeyValue) : reduceCalls pairs = some (groups pairs) := by
  have whole : reduceLoop pairs (pairs.length + 1) 0 [] = some ([] ++ groups pairs) :=
    reduceLoop_eq pairs [] rfl (Nat.lt_succ_self _)
  simpa [reduceCalls] using whole

/-! The loop of `mrsequential` makes the same calls. -/

theorem runEnd_eq {pairs : List KeyValue} {i : Nat} {first : KeyValue}
    (start : pairs[i]? = some first) (tail : List KeyValue) :
    ∀ {fuel j : Nat}, pairs.drop j = tail → tail.length < fuel →
      runEnd pairs i fuel j = some (j + (tail.takeWhile (sameKey first)).length) := by
  induction tail with
  | nil =>
    intro fuel j left enough
    cases fuel with
    | zero => simp at enough
    | succ fuel => simp [runEnd, drop_eq_nil left]
  | cons pair tail ih =>
    intro fuel j left enough
    obtain ⟨inside, here, after⟩ := drop_eq_cons left
    cases fuel with
    | zero => simp at enough
    | succ fuel =>
      have enough' : tail.length < fuel := by simpa using enough
      simp only [runEnd, if_pos inside, here, start, Option.bind_eq_bind, Option.bind_some]
      by_cases same : pair.key = first.key
      · have taken : sameKey first pair = true := by simp [sameKey, same]
        rw [if_pos same, ih after enough', List.takeWhile_cons, if_pos taken]
        simp [Nat.add_assoc, Nat.add_comm 1]
      · have stops : ¬ sameKey first pair = true := by simp [sameKey, same]
        rw [if_neg same, List.takeWhile_cons, if_neg stops]
        simp

theorem runValues_eq {pairs : List KeyValue} (run : List KeyValue) :
    ∀ {fuel k : Nat} (values : List Bytes) {rest : List KeyValue}, pairs.drop k = run ++ rest →
      run.length < fuel →
      runValues pairs (k + run.length) fuel k values = some (values ++ run.map (·.value)) := by
  induction run with
  | nil =>
    intro fuel k values rest left enough
    cases fuel with
    | zero => simp at enough
    | succ fuel => simp [runValues]
  | cons pair run ih =>
    intro fuel k values rest left enough
    obtain ⟨_, here, after⟩ := drop_eq_cons left
    cases fuel with
    | zero => simp at enough
    | succ fuel =>
      have next := ih (values ++ [pair.value]) after (Nat.lt_of_succ_lt_succ enough)
      have before : k < k + (pair :: run).length := by simp
      have position : k + (pair :: run).length = k + 1 + run.length := by
        simp only [List.length_cons]
        omega
      simp only [runValues, if_pos before, here, Option.bind_eq_bind, Option.bind_some]
      rw [position, next]
      simp

theorem sequentialLoop_eq {pairs : List KeyValue} (left : List KeyValue) :
    ∀ {fuel i : Nat} (calls : List Call), pairs.drop i = left → left.length < fuel →
      sequentialLoop pairs fuel i calls = some (calls ++ groups left) := by
  induction left using groups.induct with
  | case1 =>
    intro fuel i calls left enough
    cases fuel with
    | zero => simp at enough
    | succ fuel => simp [sequentialLoop, drop_eq_nil left, groups]
  | case2 first rest ih =>
    intro fuel i calls left enough
    obtain ⟨inside, here, after⟩ := drop_eq_cons left
    have short : rest.length + 1 < pairs.length + 1 := by
      have total := congrArg List.length left
      simp only [List.length_drop, List.length_cons] at total
      omega
    have shorter := (List.dropWhile_sublist (sameKey first) (l := rest)).length_le
    have takenShort := (List.takeWhile_sublist (sameKey first) (l := rest)).length_le
    have next := drop_add_takeWhile (sameKey first) after
    have ends := runEnd_eq here rest after (show rest.length < pairs.length + 1 by omega)
    -- the run that the second inner loop reads is the one whose end the first has found
    have split : pairs.drop i =
        (first :: rest.takeWhile (sameKey first)) ++ rest.dropWhile (sameKey first) := by
      rw [left, List.cons_append, List.takeWhile_append_dropWhile]
    have values := runValues_eq _ [] split
      (show _ < pairs.length + 1 by simp only [List.length_cons]; omega)
    have position : i + (first :: rest.takeWhile (sameKey first)).length =
        i + 1 + (rest.takeWhile (sameKey first)).length := by
      simp only [List.length_cons]
      omega
    rw [position] at values
    cases fuel with
    | zero => simp at enough
    | succ fuel =>
      have enough' : (rest.dropWhile (sameKey first)).length < fuel := by
        simp only [List.length_cons] at enough
        omega
      simp only [sequentialLoop, if_pos inside, here, ends, values, Option.bind_eq_bind,
        Option.bind_some]
      rw [ih _ next enough', groups]
      simp

theorem sequentialCalls_eq (pairs : List KeyValue) : sequentialCalls pairs = some (groups pairs) := by
  have whole : sequentialLoop pairs (pairs.length + 1) 0 [] = some ([] ++ groups pairs) :=
    sequentialLoop_eq pairs [] rfl (Nat.lt_succ_self _)
  simpa [sequentialCalls] using whole

/-! ## Grouping a sorted list -/

/-- The values paired with a key, in the order of the list. -/
def valuesOf (key : Bytes) (pairs : List KeyValue) : List Bytes :=
  (pairs.filter fun pair => pair.key = key).map (·.value)

def groupKeys (pairs : List KeyValue) : List Bytes := (groups pairs).map (·.1)

theorem valuesOf_append (key : Bytes) (pairs pairs' : List KeyValue) :
    valuesOf key (pairs ++ pairs') = valuesOf key pairs ++ valuesOf key pairs' := by
  simp [valuesOf]

theorem valuesOf_eq_nil {key : Bytes} {pairs : List KeyValue} (absent : ∀ pair ∈ pairs, pair.key ≠ key) :
    valuesOf key pairs = [] := by
  have none : pairs.filter (fun pair => decide (pair.key = key)) = [] := by
    simpa [List.filter_eq_nil_iff] using absent
  rw [valuesOf, none, List.map_nil]

theorem valuesOf_eq_all {key : Bytes} {pairs : List KeyValue} (all : ∀ pair ∈ pairs, pair.key = key) :
    valuesOf key pairs = pairs.map (·.value) := by
  have every : pairs.filter (fun pair => decide (pair.key = key)) = pairs := by
    simpa [List.filter_eq_self] using all
  rw [valuesOf, every]

theorem valuesOf_perm {pairs pairs' : List KeyValue} (same : pairs.Perm pairs') (key : Bytes) :
    (valuesOf key pairs).Perm (valuesOf key pairs') :=
  (same.filter _).map _

theorem mem_takeWhile_sameKey {first pair : KeyValue} {rest : List KeyValue}
    (member : pair ∈ rest.takeWhile (sameKey first)) : pair.key = first.key := by
  have same := List.mem_takeWhile_imp member
  simpa [sameKey] using same

/-- In a sorted list the keys after a run of equal keys are larger. -/
theorem lt_of_mem_dropWhile {first pair : KeyValue} {rest : List KeyValue}
    (sorted : (first :: rest).Pairwise fun a b => a.key ≤ b.key)
    (member : pair ∈ rest.dropWhile (sameKey first)) : first.key < pair.key := by
  induction rest with
  | nil => simp at member
  | cons next rest ih =>
    obtain ⟨firstLe, sortedRest⟩ := List.pairwise_cons.mp sorted
    obtain ⟨nextLe, sortedLater⟩ := List.pairwise_cons.mp sortedRest
    rw [List.dropWhile_cons] at member
    by_cases same : next.key = first.key
    · have skipped : sameKey first next = true := by simp [sameKey, same]
      rw [if_pos skipped] at member
      refine ih (List.pairwise_cons.mpr ⟨fun other later => ?_, sortedLater⟩) member
      exact firstLe other (List.mem_cons_of_mem _ later)
    · have kept : ¬ sameKey first next = true := by simp [sameKey, same]
      rw [if_neg kept] at member
      have larger : first.key < next.key := lt_of_le_of_ne (firstLe next (by simp)) (Ne.symm same)
      cases List.mem_cons.mp member with
      | inl here => exact here ▸ larger
      | inr later => exact larger.trans_le (nextLe pair later)

theorem mem_groupKeys {key : Bytes} {pairs : List KeyValue} :
    key ∈ groupKeys pairs ↔ ∃ pair ∈ pairs, pair.key = key := by
  induction pairs using groups.induct with
  | case1 => simp [groupKeys, groups]
  | case2 first rest ih =>
    simp only [groupKeys] at ih
    simp only [groupKeys, groups, List.map_cons, List.mem_cons, ih]
    constructor
    · intro either
      cases either with
      | inl here => exact ⟨first, .inl rfl, here.symm⟩
      | inr later =>
        obtain ⟨pair, member, equal⟩ := later
        exact ⟨pair, .inr ((List.dropWhile_sublist _).subset member), equal⟩
    · intro ⟨pair, member, equal⟩
      cases member with
      | inl here => exact .inl (by rw [← equal, here])
      | inr later =>
        rw [← List.takeWhile_append_dropWhile (p := sameKey first) (l := rest)] at later
        cases List.mem_append.mp later with
        | inl taken => exact .inl (by rw [← equal, mem_takeWhile_sameKey taken])
        | inr dropped => exact .inr ⟨pair, dropped, equal⟩

/-- On a sorted list the keys of the calls are strictly increasing. -/
theorem groupKeys_sorted {pairs : List KeyValue} (sorted : pairs.Pairwise fun a b => a.key ≤ b.key) :
    (groupKeys pairs).Pairwise (· < ·) := by
  induction pairs using groups.induct with
  | case1 => simp [groupKeys, groups]
  | case2 first rest ih =>
    have sortedRest := (List.pairwise_cons.mp sorted).2
    have larger : ∀ key ∈ groupKeys (rest.dropWhile (sameKey first)), first.key < key := by
      intro key member
      obtain ⟨pair, dropped, rfl⟩ := mem_groupKeys.mp member
      exact lt_of_mem_dropWhile sorted dropped
    have increasing := ih (sortedRest.sublist (List.dropWhile_sublist _))
    simp only [groupKeys, groups, List.map_cons] at larger increasing ⊢
    exact List.pairwise_cons.mpr ⟨larger, increasing⟩

/-- On a sorted list every call gets all the values of its key. -/
theorem groups_values {pairs : List KeyValue} (sorted : pairs.Pairwise fun a b => a.key ≤ b.key)
    {call : Call} (member : call ∈ groups pairs) : call.2 = valuesOf call.1 pairs := by
  induction pairs using groups.induct with
  | case1 => simp [groups] at member
  | case2 first rest ih =>
    have sortedRest := (List.pairwise_cons.mp sorted).2
    have split : valuesOf call.1 (first :: rest) = valuesOf call.1 [first] ++
        (valuesOf call.1 (rest.takeWhile (sameKey first)) ++
          valuesOf call.1 (rest.dropWhile (sameKey first))) := by
      rw [← valuesOf_append, List.takeWhile_append_dropWhile, ← valuesOf_append, List.singleton_append]
    rw [groups, List.mem_cons] at member
    cases member with
    -- the first call has the values of the run, and its key does not come back
    | inl here =>
      have dropped : valuesOf first.key (rest.dropWhile (sameKey first)) = [] :=
        valuesOf_eq_nil fun pair dropped => (lt_of_mem_dropWhile sorted dropped).ne'
      have taken : valuesOf first.key (rest.takeWhile (sameKey first)) =
          (rest.takeWhile (sameKey first)).map (·.value) :=
        valuesOf_eq_all fun pair taken => mem_takeWhile_sameKey taken
      rw [split, here, dropped, taken]
      simp [valuesOf]
    -- a later call has a larger key, which the first run does not contain
    | inr later =>
      have increasing := sortedRest.sublist (List.dropWhile_sublist (sameKey first))
      have key : call.1 ∈ groupKeys (rest.dropWhile (sameKey first)) := List.mem_map_of_mem later
      obtain ⟨pair, dropped, equal⟩ := mem_groupKeys.mp key
      have larger : first.key < call.1 := equal ▸ lt_of_mem_dropWhile sorted dropped
      have head : valuesOf call.1 [first] = [] := valuesOf_eq_nil (by simpa using larger.ne)
      have taken : valuesOf call.1 (rest.takeWhile (sameKey first)) = [] :=
        valuesOf_eq_nil fun pair taken => mem_takeWhile_sameKey taken ▸ larger.ne
      rw [split, head, taken, ih increasing later]
      rfl

theorem groups_eq_map {pairs : List KeyValue} (sorted : pairs.Pairwise fun a b => a.key ≤ b.key) :
    groups pairs = (groupKeys pairs).map fun key => (key, valuesOf key pairs) := by
  rw [groupKeys, List.map_map]
  refine (List.map_id _).symm.trans (List.map_congr_left fun call member => ?_)
  exact Prod.ext rfl (groups_values sorted member)

theorem mem_groupKeys_of_perm {pairs sorted : List KeyValue} (result : SortedByKey pairs sorted)
    {key : Bytes} : key ∈ groupKeys sorted ↔ ∃ pair ∈ pairs, pair.key = key := by
  rw [mem_groupKeys]
  exact exists_congr fun pair => and_congr_left' result.perm.mem_iff

/-- On every result of the sort both loops end inside the list and make the same calls: one for each key
of the pairs, in increasing order, with the values of the key in the order of the sorted list. -/
theorem calls_of_sorted {pairs sorted : List KeyValue} (result : SortedByKey pairs sorted) :
    ∃ calls, reduceCalls sorted = some calls ∧ sequentialCalls sorted = some calls ∧
      (calls.map (·.1)).Pairwise (· < ·) ∧
      (∀ key, key ∈ calls.map (·.1) ↔ ∃ pair ∈ pairs, pair.key = key) ∧
      ∀ call ∈ calls, call.2 = valuesOf call.1 sorted := by
  refine ⟨groups sorted, reduceCalls_eq sorted, sequentialCalls_eq sorted, groupKeys_sorted result.keys,
    fun key => mem_groupKeys_of_perm result, fun call member => ?_⟩
  exact groups_values result.keys member

/-- The pairs `b 1`, `a 2`, `b 3`, sorted in one of the two ways. -/
theorem calls_of_three_pairs :
    ∃ calls, reduceCalls [⟨[97], [50]⟩, ⟨[98], [51]⟩, ⟨[98], [49]⟩] = some calls ∧
      sequentialCalls [⟨[97], [50]⟩, ⟨[98], [51]⟩, ⟨[98], [49]⟩] = some calls ∧
      (calls.map (·.1)).Pairwise (· < ·) ∧ ([98], [[51], [49]]) ∈ calls := by
  have result : SortedByKey [⟨[98], [49]⟩, ⟨[97], [50]⟩, ⟨[98], [51]⟩]
      [⟨[97], [50]⟩, ⟨[98], [51]⟩, ⟨[98], [49]⟩] := by decide
  obtain ⟨calls, reduces, same, increasing, keys, values⟩ := calls_of_sorted result
  refine ⟨calls, reduces, same, increasing, ?_⟩
  obtain ⟨call, member, isKey⟩ := List.mem_map.mp ((keys [98]).mpr ⟨⟨[98], [49]⟩, by decide, rfl⟩)
  have isValues := values call member
  rw [isKey] at isValues
  have isCall : call = ([98], [[51], [49]]) := Prod.ext isKey (isValues.trans (by decide))
  exact isCall ▸ member

/-! ## The lines of the output -/

theorem linesOf_report (reducef : Bytes → List Bytes → Bytes) (calls : List Call) :
    linesOf (report reducef calls) = calls.flatMap fun call => linesOf (record reducef call) := by
  induction calls with
  | nil => rfl
  | cons call calls ih =>
    have ended : record reducef call = (call.1 ++ 32 :: reducef call.1 call.2) ++ [10] := by
      simp [record]
    have split : report reducef (call :: calls) =
        (call.1 ++ 32 :: reducef call.1 call.2) ++ 10 :: report reducef calls := by
      simp [report, record]
    rw [split, linesOf_append, ← ended, ih, List.flatMap_cons]

/-- `reducef` does not look at the order of the values. -/
def OrderFree (reducef : Bytes → List Bytes → Bytes) : Prop :=
  ∀ key values values', values.Perm values' → reducef key values = reducef key values'

/-- The lines for the calls on a sorted list, key by key. -/
theorem linesOf_report_groups {reducef : Bytes → List Bytes → Bytes} (orderFree : OrderFree reducef)
    {pairs sorted all : List KeyValue} (result : SortedByKey pairs sorted)
    (values : ∀ key ∈ groupKeys sorted, valuesOf key pairs = valuesOf key all) :
    linesOf (report reducef (groups sorted)) =
      (groupKeys sorted).flatMap fun key => linesOf (record reducef (key, valuesOf key all)) := by
  rw [linesOf_report, groups_eq_map result.keys, List.flatMap_map]
  refine List.flatMap_congr fun key member => ?_
  have same : (valuesOf key sorted).Perm (valuesOf key all) :=
    values key member ▸ valuesOf_perm result.perm key
  simp only [record, orderFree key _ _ same]

theorem groupKeys_nodup {pairs sorted : List KeyValue} (result : SortedByKey pairs sorted) :
    (groupKeys sorted).Nodup :=
  (groupKeys_sorted result.keys).imp fun smaller => smaller.ne

theorem mem_bucket {nReduce n : Nat} {pairs : List KeyValue} {pair : KeyValue} :
    pair ∈ bucket nReduce n pairs ↔ pair ∈ pairs ∧ ihash pair.key % nReduce = n := by
  simp [bucket]

theorem valuesOf_bucket {nReduce n : Nat} {key : Bytes} (chosen : ihash key % nReduce = n)
    (pairs : List KeyValue) : valuesOf key (bucket nReduce n pairs) = valuesOf key pairs := by
  rw [valuesOf, valuesOf, bucket, List.filter_filter]
  congr 1
  refine List.filter_congr fun pair _ => ?_
  by_cases equal : pair.key = key
  · simp [equal, chosen]
  · simp [equal]

/-- Reducing the buckets one by one writes the lines that reducing the whole list writes, in another
order. -/
theorem bucket_lines_perm {reducef : Bytes → List Bytes → Bytes} (orderFree : OrderFree reducef)
    {nReduce : Nat} (positive : 0 < nReduce) {all sorted : List KeyValue} (result : SortedByKey all sorted)
    {parts : Nat → List KeyValue}
    (part : ∀ r < nReduce, SortedByKey (bucket nReduce r all) (parts r)) :
    ((List.range nReduce).flatMap fun r => linesOf (report reducef (groups (parts r)))).Perm
      (linesOf (report reducef (groups sorted))) := by
  have keyBucket : ∀ r < nReduce, ∀ key ∈ groupKeys (parts r), ihash key % nReduce = r := by
    intro r inside key member
    obtain ⟨pair, inBucket, rfl⟩ := (mem_groupKeys_of_perm (part r inside)).mp member
    exact (mem_bucket.mp inBucket).2
  have lines : ∀ r ∈ List.range nReduce, linesOf (report reducef (groups (parts r))) =
      (groupKeys (parts r)).flatMap fun key => linesOf (record reducef (key, valuesOf key all)) := by
    intro r inRange
    have inside := List.mem_range.mp inRange
    refine linesOf_report_groups orderFree (part r inside) fun key member => ?_
    exact valuesOf_bucket (keyBucket r inside key member) all
  -- both sides are now the same function of a key; the keys of the buckets are the keys of the whole
  rw [List.flatMap_congr lines, ← List.flatMap_assoc,
    linesOf_report_groups orderFree result fun _ _ => rfl]
  refine List.Perm.flatMap_right _ ((List.perm_ext_iff_of_nodup ?_ (groupKeys_nodup result)).mpr ?_)
  · rw [List.nodup_flatMap]
    constructor
    · intro r inRange
      exact groupKeys_nodup (part r (List.mem_range.mp inRange))
    · refine List.nodup_range.imp_of_mem fun {r r'} inRange inRange' different => ?_
      intro key member member'
      have first := keyBucket r (List.mem_range.mp inRange) key member
      have second := keyBucket r' (List.mem_range.mp inRange') key member'
      exact different (first.symm.trans second)
  · intro key
    rw [mem_groupKeys_of_perm result, List.mem_flatMap]
    constructor
    · intro ⟨r, inRange, member⟩
      obtain ⟨pair, inBucket, equal⟩ :=
        (mem_groupKeys_of_perm (part r (List.mem_range.mp inRange))).mp member
      exact ⟨pair, (mem_bucket.mp inBucket).1, equal⟩
    · intro ⟨pair, member, equal⟩
      have inside : ihash key % nReduce < nReduce := Nat.mod_lt _ positive
      refine ⟨ihash key % nReduce, List.mem_range.mpr inside, ?_⟩
      rw [mem_groupKeys_of_perm (part _ inside)]
      exact ⟨pair, mem_bucket.mpr ⟨member, by rw [equal]⟩, equal⟩

end Tda596Labs.MapReduce
