import Tda596Labs.Porcupine.Search

/-! # What checkSingle returns

`checkSingle` always returns, without a nil dereference or an index out of range, and it returns `true`
exactly if the history is linearizable.  If it is not, the partial results are exact as well: what is noted
for an operation is a longest beginning of a linearization that includes it.  A raised flag only makes it
return `false` early.
-/

namespace Tda596Labs.Porcupine

open LinkedList Linearizability

variable {V S : Type}

/-! ## Setting up -/

theorem WellFormed.length {n : Nat} {marks : List Mark} (wf : WellFormed n marks) : marks.length = 2 * n := by
  have calls : ((List.range n).map Mark.call).Nodup :=
    List.nodup_range.map fun _ _ same => Mark.call.inj same
  have rets : ((List.range n).map Mark.ret).Nodup := List.nodup_range.map fun _ _ same => Mark.ret.inj same
  have both : ((List.range n).map Mark.call ++ (List.range n).map Mark.ret).Nodup := by
    refine List.nodup_append.mpr ⟨calls, rets, ?_⟩
    simp only [List.mem_map]
    rintro _ ⟨i, _, rfl⟩ _ ⟨j, _, rfl⟩ same
    cases same
  have perm : marks.Perm ((List.range n).map Mark.call ++ (List.range n).map Mark.ret) := by
    refine (List.perm_ext_iff_of_nodup wf.nodup both).mpr fun m => ?_
    cases m with
    | call i => simp [wf.call_mem]
    | ret i => simp [wf.ret_mem]
  rw [perm.length_eq, List.length_append, List.length_map, List.length_map, List.length_range]
  omega

/-- The problem that a call of `checkSingle` solves. -/
def problem (model : Model V S) (congruent : model.Congruent) (entries : List (Entry V))
    (computePartial : Bool) {n : Nat} (wf : WellFormed n (entries.map Entry.mark)) (input output : Nat → V) :
    Problem V S where
  model := model
  computePartial := computePartial
  n := n
  marks := entries.map Entry.mark
  input := input
  output := output
  headEntry := entries.length
  wellFormed := wf
  congruent := congruent

/-- The search starts before all entries with nothing linearized. -/
theorem startSearch_at [Inhabited V] {model : Model V S} (congruent : model.Congruent)
    {entries : List (Entry V)} (computePartial : Bool) {n : Nat}
    (wf : WellFormed n (entries.map Entry.mark)) {input output : Nat → V}
    (carries : Carries entries input output) :
    ∃ m, startSearch model entries = some m ∧
      (problem model congruent entries computePartial wf input output).At m [] model.init
        (entries.map Entry.mark) ∧
      m.cache = (fun _ => []) ∧ m.longest = List.replicate n none := by
  obtain ⟨linking, made, linked⟩ := makeLinkedEntries_linkedUp entries
  have cells : (List.range entries.length).reverse =
      (entries.map Entry.mark).map (place (entries.map Entry.mark)) := by
    rw [map_place wf.nodup, List.length_map]
  have size : linking.heap.size = entries.length := linked.size
  have spells := linked.spells
  have counted : linking.heap.length linking.heap.size linking.root = some entries.length := by
    have whole : Spells linking.heap.toPointers ([] ++ (List.range entries.length).reverse) := spells
    have enough : (List.range entries.length).reverse.length ≤ linking.heap.size := by simp [size]
    rw [linked.root, Heap.length_eq whole enough]
    simp
  have half : entries.length / 2 = n := by
    have double := wf.length
    rw [List.length_map] at double
    omega
  have old : ∀ cell ∈ (List.range entries.length).reverse, cell < linking.heap.size := by
    intro cell inside
    rw [size]
    simpa using inside
  have inserted := Heap.insertBefore_alloc spells old default none 0
  have root := linked.root
  have laid := linked.laid wf carries
  have started : startSearch model entries = some
      { heap := { linking.heap.alloc default none 0 with
          toPointers := push linking.heap.toPointers linking.heap.size
            (List.range entries.length).reverse.head? }
        headEntry := linking.heap.size
        entry := linking.root
        linearized := newBitset (entries.length / 2)
        cache := fun _ => []
        calls := []
        state := model.init
        longest := List.replicate (entries.length / 2) none } := by
    simp only [startSearch, made, counted, Option.bind_eq_bind, Option.bind_some]
    rw [root, inserted]
    rfl
  refine ⟨_, started, ⟨⟨?_, ?_⟩, size, ?_, ?_, rfl, rfl⟩, rfl, ?_⟩
  · have pushed := spells.push fun inside => lt_irrefl _ (old _ inside)
    change Spells (push linking.heap.toPointers linking.heap.size (List.range entries.length).reverse.head?)
      (entries.length :: (marksLeft (entries.map Entry.mark) []).map (place (entries.map Entry.mark)))
    rw [marksLeft_nil, ← cells, ← size]
    rw [← size] at pushed
    exact pushed
  · have fresh : ∀ m ∈ entries.map Entry.mark, place (entries.map Entry.mark) m ≠ linking.heap.size :=
      laid.headEntry
    refine ⟨fun i small => ?_, fun i small => ?_, fun m inside => ?_, fun m inside => ?_⟩
    · have other := fresh _ ((wf.call_mem i).mpr small)
      simpa [Heap.alloc, problem, Function.update_of_ne other] using laid.call i small
    · have other := fresh _ ((wf.ret_mem i).mpr small)
      simpa [Heap.alloc, problem, Function.update_of_ne other] using laid.ret i small
    · simpa [Heap.alloc, problem, Function.update_of_ne (fresh m inside)] using laid.id m inside
    · exact fun equal => fresh m inside (equal.trans size.symm)
  · simp only [root, cells]
    rfl
  · simpa [problem, half] using Bitset.represents_new n
  · simp [half]

/-! ## Running to the end -/

theorem Search.iterate_kill (model : Model V S) (computePartial : Bool) (m : Search V S) :
    m.iterate model computePartial true = m.iterate model computePartial false ∨
      m.iterate model computePartial true = .returns false m.longest := by
  unfold Search.iterate
  cases m.heap.next m.headEntry with
  | none => exact .inl rfl
  | some _ => exact .inr rfl

theorem Search.loop_succ (model : Model V S) (computePartial : Bool) (kill : Nat → Bool) (fuel t : Nat)
    {m m' : Search V S} (iterates : m.iterate model computePartial (kill t) = .next m') :
    m.loop model computePartial kill (fuel + 1) t = m'.loop model computePartial kill fuel (t + 1) := by
  rw [Search.loop, iterates]

theorem Search.loop_returns (model : Model V S) (computePartial : Bool) (kill : Nat → Bool) (fuel t : Nat)
    {m : Search V S} {ok : Bool} {longest : List (Option (List Nat))}
    (iterates : m.iterate model computePartial (kill t) = .returns ok longest) :
    m.loop model computePartial kill (fuel + 1) t = some (.returns ok longest) := by
  rw [Search.loop, iterates]

/-- The loop comes to where it would come without the flag, or the flag is raised before and what has been noted
so far is returned. -/
theorem Problem.loop_of_reaches {p : Problem V S} {m m' : Search V S} (reaches : p.Reaches m m')
    (longestOk : p.LongestOk m'.longest) {ok : Bool} {longest : List (Option (List Nat))}
    (ends : m'.iterate p.model p.computePartial false = .returns ok longest) (kill : Nat → Bool) (t : Nat) :
    ∃ fuel ok' longest',
      (∀ more, m.loop p.model p.computePartial kill (fuel + more) t = some (.returns ok' longest')) ∧
      ((ok' = ok ∧ longest' = longest) ∨
        (ok' = false ∧ (∃ t, kill t = true) ∧ p.LongestOk longest')) := by
  induction reaches using Relation.ReflTransGen.head_induction_on generalizing t with
  | refl =>
    cases raised : kill t with
    | false =>
      refine ⟨1, ok, longest, fun more => ?_, .inl ⟨rfl, rfl⟩⟩
      rw [Nat.add_comm]
      exact Search.loop_returns _ _ _ _ _ (raised ▸ ends)
    | true =>
      obtain same | killed := m'.iterate_kill p.model p.computePartial
      · refine ⟨1, ok, longest, fun more => ?_, .inl ⟨rfl, rfl⟩⟩
        rw [Nat.add_comm]
        exact Search.loop_returns _ _ _ _ _ (raised ▸ same.trans ends)
      · refine ⟨1, false, m'.longest, fun more => ?_, .inr ⟨rfl, ⟨t, raised⟩, longestOk⟩⟩
        rw [Nat.add_comm]
        exact Search.loop_returns _ _ _ _ _ (raised ▸ killed)
  | @head m next iteration _ ih =>
    obtain ⟨longestOk, iterates⟩ := iteration
    obtain ⟨fuel, ok', longest', returns, result⟩ := ih (t + 1)
    have goesOn : m.iterate p.model p.computePartial (kill t) = .next next →
        ∀ more, m.loop p.model p.computePartial kill (fuel + 1 + more) t =
          some (.returns ok' longest') := by
      intro iterates' more
      rw [Nat.add_right_comm, Search.loop_succ _ _ _ _ _ iterates']
      exact returns more
    cases raised : kill t with
    | false => exact ⟨fuel + 1, ok', longest', goesOn (raised ▸ iterates), result⟩
    | true =>
      obtain same | killed := m.iterate_kill p.model p.computePartial
      · exact ⟨fuel + 1, ok', longest', goesOn (raised ▸ same.trans iterates), result⟩
      · refine ⟨1, false, m.longest, fun more => ?_, .inr ⟨rfl, ⟨t, raised⟩, longestOk⟩⟩
        rw [Nat.add_comm]
        exact Search.loop_returns _ _ _ _ _ (raised ▸ killed)

/-- All operations can be linearized. -/
def Problem.Linearizes (p : Problem V S) : Prop :=
  Linearizable p.step (PrecedesIn p.marks) p.model.init (List.range p.n)

/-- The answer to a problem. -/
structure Problem.Answers (p : Problem V S) (ok : Bool) (longest : List (Option (List Nat))) : Prop where
  ok_iff : ok = true ↔ p.Linearizes
  longestOk : p.LongestOk longest
  covered : p.computePartial = true → ∀ order rest, p.Begins p.model.init [] order rest → ∀ i ∈ order,
    ∃ seq, longest[i]? = some (some seq) ∧ order.length ≤ seq.length

/-- A search that has linearized everything returns its linearization as the longest beginning. -/
theorem Problem.Succeeded.answers {p : Problem V S} {m : Search V S} (success : p.Succeeded m) :
    ∃ longest, m.iterate p.model p.computePartial false = .returns true longest ∧ p.Answers true longest := by
  have linear := success.linear
  have full : p.Begins p.model.init [] m.seq [] := by
    rw [Problem.Begins, opsLeft_nil]
    exact linearization_iff_beginning.mp linear
  refine ⟨m.longest.map fun _ => some m.seq, by simp only [Search.iterate, success.ends], ?_, ?_, ?_⟩
  · exact iff_of_true rfl ⟨m.seq, linear⟩
  · refine ⟨by rw [List.length_map, success.longestOk.length], fun i seq noted => ?_⟩
    rw [List.getElem?_map, Option.map_eq_some_iff] at noted
    obtain ⟨old, found, same⟩ := noted
    obtain rfl := Option.some.inj same
    have small := (List.getElem?_eq_some_iff.mp found).1
    rw [success.longestOk.length] at small
    exact ⟨linear.perm.mem_iff.mpr (List.mem_range.mpr small), [], full⟩
  · intro _ order rest begins i inside
    have listed := begins.perm.mem_iff.mp (List.mem_append_left _ inside)
    rw [opsLeft_nil, List.mem_range] at listed
    refine ⟨m.seq, ?_, ?_⟩
    · rw [List.getElem?_map, List.getElem?_eq_getElem (by rw [success.longestOk.length]; exact listed)]
      rfl
    · have total := begins.perm.length_eq
      rw [List.length_append, opsLeft_nil] at total
      rw [linear.perm.length_eq]
      omega

/-- A search that has tried everything at the root returns `false`. -/
theorem Problem.Stuck.answers {p : Problem V S} {before m : Search V S} {s : S} {seen rest : List Mark} {r : Nat}
    (stuck : p.Stuck before m [] s seen r rest) (start : s = p.model.init) :
    ∃ longest, m.iterate p.model p.computePartial false = .returns false longest ∧ p.Answers false longest := by
  subst start
  have returned : Mark.ret r ∈ marksLeft p.marks [] := by
    have split := stuck.split
    rw [List.map_nil] at split
    simp [split]
  have small := (p.wellFormed.ret_mem r).mp (mem_marksLeft.mp returned).1
  have unmatched : m.heap.match_ (p.node (.ret r)) = none :=
    (stuck.at_.restores.spelled.laid.ret r small).1
  have finished : p.Finished m.longest [] p.model.init := finished_of_tried stuck.split stuck.tried (by simp)
  refine ⟨m.longest, ?_, ⟨?_, stuck.longestOk, fun wanted order rest begins i inside => ?_⟩⟩
  · rw [(stuck.at_.iterate_eq stuck.split).2 unmatched, Search.goBack, stuck.at_.calls]
    rfl
  · rw [Problem.Linearizes, ← opsLeft_nil]
    exact iff_of_false (by simp) finished.dead
  · obtain ⟨seq, noted, long⟩ := finished.covered wanted order rest begins i (.inr inside)
    exact ⟨seq, noted, by simpa using long⟩

/-- Whatever the flag does, `checkSingle` returns: the answer, or `false` because the flag was raised, with right
notes in both cases. -/
theorem checkSingle_answers [Inhabited V] {model : Model V S} (congruent : model.Congruent)
    {entries : List (Entry V)} (computePartial : Bool) {n : Nat}
    (wf : WellFormed n (entries.map Entry.mark)) {input output : Nat → V}
    (carries : Carries entries input output) :
    ∃ ok longest, (problem model congruent entries computePartial wf input output).Answers ok longest ∧
      ∀ kill, ∃ fuel ok' longest',
        (∀ more, checkSingle model entries computePartial kill (fuel + more) =
          some (.returns ok' longest')) ∧
        ((ok' = ok ∧ longest' = longest) ∨ (ok' = false ∧ (∃ t, kill t = true) ∧
          (problem model congruent entries computePartial wf input output).LongestOk longest')) := by
  obtain ⟨m, started, at_, cache, longest⟩ := startSearch_at congruent computePartial wf carries
  let p := problem model congruent entries computePartial wf input output
  have reached : p.Reached [] model.init := ⟨beginning_nil _ _, rfl⟩
  have cacheOk : p.CacheOk 0 m := by
    intro hash elem inside
    rw [cache] at inside
    cases inside
  have longestOk : p.LongestOk m.longest := by
    rw [longest]
    refine ⟨List.length_replicate, fun i seq noted => ?_⟩
    have nothing := List.eq_of_mem_replicate (List.mem_of_getElem? noted)
    cases nothing
  obtain ⟨m', reaches, ends⟩ := Problem.explore [] model.init [] _ m at_ reached (marksLeft_nil _) nofun nofun
    cacheOk longestOk
  have answer : p.LongestOk m'.longest ∧ ∃ ok longest,
      m'.iterate p.model p.computePartial false = .returns ok longest ∧ p.Answers ok longest := by
    obtain success | ⟨seen, r, rest, stuck⟩ := ends
    · exact ⟨success.longestOk, true, success.answers⟩
    · exact ⟨stuck.longestOk, false, stuck.answers rfl⟩
  obtain ⟨noted, ok, longest, returns, answers⟩ := answer
  refine ⟨ok, longest, answers, fun kill => ?_⟩
  simp only [checkSingle, started]
  exact Problem.loop_of_reaches reaches noted returns kill 0

/-- `checkSingle` decides a question about its entries: it returns, `true` only if the answer is yes, and
`false` only if it is no or the flag was raised. -/
def Decided [Inhabited V] (model : Model V S) (entries : List (Entry V)) (computePartial : Bool)
    (holds : Prop) : Prop :=
  ∀ kill, ∃ fuel ok longest,
    (∀ more, checkSingle model entries computePartial kill (fuel + more) = some (.returns ok longest)) ∧
      (ok = true → holds) ∧ (holds → (∀ t, kill t = false) → ok = true)

theorem checkSingle_decides [Inhabited V] {model : Model V S} (congruent : model.Congruent)
    {entries : List (Entry V)} (computePartial : Bool) {n : Nat}
    (wf : WellFormed n (entries.map Entry.mark)) {input output : Nat → V}
    (carries : Carries entries input output) :
    Decided model entries computePartial
      (problem model congruent entries computePartial wf input output).Linearizes := by
  intro kill
  obtain ⟨ok, longest, answers, runs⟩ := checkSingle_answers congruent computePartial wf carries
  obtain ⟨fuel, ok', longest', returns, ⟨rfl, rfl⟩ | ⟨rfl, ⟨t, raised⟩, _⟩⟩ := runs kill
  · exact ⟨fuel, ok', longest', returns, answers.ok_iff.mp, fun linear _ => answers.ok_iff.mpr linear⟩
  · refine ⟨fuel, false, longest', returns, nofun, fun _ never => ?_⟩
    exact absurd raised (by simp [never t])

end Tda596Labs.Porcupine
