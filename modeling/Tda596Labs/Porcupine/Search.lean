import Tda596Labs.Porcupine.Memory
import Mathlib.Logic.Relation

/-! # The search is exhaustive

The loop of `checkSingle` is a depth-first search.  It stands at a place given by the operations linearized
so far and by the part of the list that is still to be gone through (`At`).  Started at such a place it
ends in one of two ways (`explore`): everything has been linearized, or it stands at the first return that
is left, having tried every operation that can come next.  The induction is on the number of operations
left and, for one place, on what is still to be gone through.

The cache is no loss: at depth `d` the search looks up sets of `d + 1` operations, and those found are not
on the way to the present place but have been searched to their end.
-/

namespace Tda596Labs.Porcupine

open LinkedList Linearizability

variable {V S : Type}

/-- What an operation with its result does to the state. -/
def opStep (model : Model V S) (input output : Nat → V) (s : S) (i : Nat) : Option S :=
  if (model.step s (input i) (output i)).1 then some (model.step s (input i) (output i)).2 else none

/-- States that the model calls equal cannot be told apart. -/
structure Model.Congruent (model : Model V S) : Prop where
  allows : ∀ a b, model.equal a b = true → ∀ input output,
    (model.step a input output).1 = (model.step b input output).1
  steps : ∀ a b, model.equal a b = true → ∀ input output, (model.step a input output).1 = true →
    model.equal (model.step a input output).2 (model.step b input output).2 = true

theorem Model.Congruent.replay_isSome_iff {model : Model V S} (congruent : model.Congruent)
    (input output : Nat → V) {a b : S} (same : model.equal a b = true) (order : List Nat) :
    (replay (opStep model input output) a order).isSome ↔
      (replay (opStep model input output) b order).isSome := by
  induction order generalizing a b with
  | nil => exact Iff.rfl
  | cons i order ih =>
    have agree := congruent.allows a b same (input i) (output i)
    by_cases allowed : (model.step a (input i) (output i)).1 = true
    · simpa [replay, opStep, ← agree, allowed] using ih (congruent.steps a b same _ _ allowed)
    · simp [replay, opStep, ← agree, allowed]

/-- One call of `checkSingle`: the history is well formed, and the model does not tell equal states apart. -/
structure Problem (V S : Type) where
  model : Model V S
  computePartial : Bool
  /-- the number of operations, their calls and returns, and the values that these carry -/
  n : Nat
  marks : List Mark
  input : Nat → V
  output : Nat → V
  headEntry : Nat
  wellFormed : WellFormed n marks
  congruent : model.Congruent

namespace Problem

variable (p : Problem V S)

def step : S → Nat → Option S := opStep p.model p.input p.output

/-- The node of a call or return. -/
def node (m : Mark) : Nat := place p.marks m

/-- `order` begins a linearization, from some state, of the operations left. -/
abbrev Begins (s : S) (done order rest : List Nat) : Prop :=
  Beginning p.step (PrecedesIn p.marks) s (opsLeft p.n done) order rest

/-! ## Where the search stands -/

/-- The nodes of what is left, and the table of all nodes. -/
structure Spelled (h : Heap V) (done : List Nat) : Prop where
  spells : Spells h.toPointers (p.headEntry :: (marksLeft p.marks done).map p.node)
  laid : Laid h p.n p.marks p.headEntry p.input p.output

/-- The memory spells what is left when the operations of a stack, the last one first, are linearized, and
unlifting them one after the other leads to memories that do the same for the rest of the stack. -/
def Restores : Heap V → List Nat → Prop
  | h, [] => p.Spelled h []
  | h, i :: below => p.Spelled h (i :: below) ∧ ∃ h', h.unlift (p.node (.call i)) = some h' ∧ Restores h' below

/-- The search stands in state `s` before the entries `rest`; `stack` has the operations linearized so far,
the last one first, with the states before them. -/
structure At (m : Search V S) (stack : List (Nat × S)) (s : S) (rest : List Mark) : Prop where
  restores : p.Restores m.heap (stack.map (·.1))
  headEntry : m.headEntry = p.headEntry
  entry : m.entry = (rest.map p.node).head?
  linearized : m.linearized.Represents p.n (stack.map (·.1)).reverse
  calls : m.calls = stack.reverse.map fun c => ⟨p.node (.call c.1), c.2⟩
  state : m.state = s

/-- The operations linearized so far begin a linearization and lead to the state `s`. -/
structure Reached (done : List Nat) (s : S) : Prop where
  begun : p.Begins p.model.init [] done.reverse (opsLeft p.n done)
  replayed : replay p.step p.model.init done.reverse = some s

/-! ## What has been searched -/

/-- Nothing is to be found any more from here: there is no linearization of what is left, and as long a
beginning as can be reached has been noted for every operation that it includes. -/
structure Finished (longest : List (Option (List Nat))) (done : List Nat) (s : S) : Prop where
  dead : ¬ Linearizable p.step (PrecedesIn p.marks) s (opsLeft p.n done)
  covered : p.computePartial = true → ∀ order rest, p.Begins s done order rest →
    ∀ i, i ∈ done ∨ i ∈ order →
      ∃ seq, longest[i]? = some (some seq) ∧ done.length + order.length ≤ seq.length

/-- Every operation called in this part of the list has been tried in vain. -/
def Tried (longest : List (Option (List Nat))) (done : List Nat) (s : S) (seen : List Mark) : Prop :=
  ∀ i, .call i ∈ seen → ∀ t, p.step s i = some t → p.Finished longest (i :: done) t

/-- A cache entry stands for some operations. -/
structure StandsFor (elem : CacheEntry S) (done : List Nat) : Prop where
  nodup : done.Nodup
  small : ∀ i ∈ done, i < p.n
  represents : elem.linearized.Represents p.n done

/-- From what this cache entry says nothing is to be found any more. -/
def Known (longest : List (Option (List Nat))) (elem : CacheEntry S) : Prop :=
  ∃ done, p.StandsFor elem done ∧ p.Finished longest done elem.state

/-- The cache at a place of some depth. -/
def CacheOk (depth : Nat) (m : Search V S) : Prop :=
  ∀ hash, ∀ elem ∈ m.cache hash,
    (∃ done, p.StandsFor elem done ∧ done.length ≤ depth) ∨ p.Known m.longest elem

/-- Everything noted as longest is the beginning of a linearization and includes its operation. -/
structure LongestOk (longest : List (Option (List Nat))) : Prop where
  length : longest.length = p.n
  begins : ∀ i seq, longest[i]? = some (some seq) → i ∈ seq ∧ ∃ rest, p.Begins p.model.init [] seq rest

end Problem

/-- What is noted is only replaced by what is not shorter. -/
def Grows (longest longest' : List (Option (List Nat))) : Prop :=
  ∀ (i : Nat) (seq : List Nat), longest[i]? = some (some seq) →
    ∃ seq', longest'[i]? = some (some seq') ∧ seq.length ≤ seq'.length

theorem Grows.refl (longest : List (Option (List Nat))) : Grows longest longest :=
  fun _ seq noted => ⟨seq, noted, le_rfl⟩

theorem Grows.trans {a b c : List (Option (List Nat))} (first : Grows a b) (second : Grows b c) :
    Grows a c := by
  intro i seq noted
  obtain ⟨seq', noted', longer⟩ := first i seq noted
  obtain ⟨seq'', noted'', longer'⟩ := second i seq' noted'
  exact ⟨seq'', noted'', longer.trans longer'⟩

/-! ## Noting the longest sequences -/

theorem noteLongest_spec (seq : List Nat) {ids : List Nat} {longest : List (Option (List Nat))}
    (small : ∀ i ∈ ids, i < longest.length) :
    ∃ longest', noteLongest seq ids longest = some longest' ∧ longest'.length = longest.length ∧
      Grows longest longest' ∧
      (∀ i ∈ ids, ∃ seq', longest'[i]? = some (some seq') ∧ seq.length ≤ seq'.length) ∧
      ∀ i seq', longest'[i]? = some (some seq') → longest[i]? = some (some seq') ∨ (seq' = seq ∧ i ∈ ids) := by
  induction ids generalizing longest with
  | nil => exact ⟨longest, rfl, rfl, .refl _, nofun, fun i seq' noted => .inl noted⟩
  | cons id ids ih =>
    have within : id < longest.length := small id List.mem_cons_self
    have others : ∀ i ∈ ids, i < longest.length := fun i listed => small i (.tail _ listed)
    simp only [noteLongest, List.getElem?_eq_getElem within]
    generalize replaces : (longest[id]).all (fun old => decide (seq.length > old.length)) = replace
    cases replace with
    | false =>
      obtain ⟨longest', noted, length, grows, listed, origin⟩ := ih others
      refine ⟨longest', by simpa using noted, length, grows, ?_, ?_⟩
      · intro i inside
        obtain rfl | later := List.mem_cons.mp inside
        · -- what stays is not shorter
          cases old : longest[i] with
          | none => simp [old] at replaces
          | some seq' =>
            simp only [old, Option.all_some, decide_eq_false_iff_not, not_lt] at replaces
            obtain ⟨seq'', noted', longer⟩ := grows i seq' (by rw [List.getElem?_eq_getElem within, old])
            exact ⟨seq'', noted', replaces.trans longer⟩
        · exact listed i later
      · exact fun i seq' noted' => (origin i seq' noted').imp_right fun new => ⟨new.1, .tail _ new.2⟩
    | true =>
      have others' : ∀ i ∈ ids, i < (longest.set id (some seq)).length := by simpa using others
      obtain ⟨longest', noted, length, grows, listed, origin⟩ := ih others'
      rw [List.length_set] at length
      have first : Grows longest (longest.set id (some seq)) := by
        intro i seq' noted'
        by_cases same : id = i
        · subst same
          rw [List.getElem?_eq_getElem within] at noted'
          rw [Option.some.inj noted'] at replaces
          have shorter : seq'.length < seq.length := by simpa using replaces
          exact ⟨seq, by rw [List.getElem?_set_self within], shorter.le⟩
        · exact ⟨seq', by rw [List.getElem?_set_ne same, noted'], le_rfl⟩
      refine ⟨longest', by simpa using noted, length, first.trans grows, ?_, ?_⟩
      · intro i inside
        obtain rfl | later := List.mem_cons.mp inside
        · exact grows i seq (by rw [List.getElem?_set_self within])
        · exact listed i later
      · intro i seq' noted'
        obtain old | new := origin i seq' noted'
        · by_cases same : id = i
          · subst same
            rw [List.getElem?_set_self within] at old
            exact .inr ⟨(Option.some.inj (Option.some.inj old)).symm, List.mem_cons_self⟩
          · rw [List.getElem?_set_ne same] at old
            exact .inl old
        · exact .inr ⟨new.1, .tail _ new.2⟩

namespace Problem

variable {p : Problem V S} {m : Search V S} {h : Heap V} {stack : List (Nat × S)} {s t : S} {i : Nat}
  {done : List Nat} {seen rest : List Mark} {longest longest' : List (Option (List Nat))}

/-! ## Growing knowledge -/

theorem Finished.grow (finished : p.Finished longest done s) (grows : Grows longest longest') :
    p.Finished longest' done s where
  dead := finished.dead
  covered wanted order rest begins i inside := by
    obtain ⟨seq, noted, long⟩ := finished.covered wanted order rest begins i inside
    obtain ⟨seq', noted', longer⟩ := grows i seq noted
    exact ⟨seq', noted', long.trans longer⟩

theorem Tried.grow (tried : p.Tried longest done s seen) (grows : Grows longest longest') :
    p.Tried longest' done s seen := fun i called t steps => (tried i called t steps).grow grows

/-- One more call has been tried. -/
theorem Tried.snoc (tried : p.Tried longest done s seen) (grows : Grows longest longest')
    (finished : ∀ t, p.step s i = some t → p.Finished longest' (i :: done) t) :
    p.Tried longest' done s (seen ++ [.call i]) := by
  intro j called t steps
  obtain early | last := List.mem_append.mp called
  · exact (tried j early t steps).grow grows
  · obtain rfl : j = i := by simpa using last
    exact finished t steps

theorem Known.grow {elem : CacheEntry S} (known : p.Known longest elem) (grows : Grows longest longest') :
    p.Known longest' elem := by
  obtain ⟨done, stands, finished⟩ := known
  exact ⟨done, stands, finished.grow grows⟩

/-- The order in which operations were linearized does not matter. -/
theorem Finished.of_perm {done' : List Nat} (finished : p.Finished longest done s) (same : done'.Perm done) :
    p.Finished longest done' s := by
  have left : opsLeft p.n done' = opsLeft p.n done := opsLeft_congr fun i => same.mem_iff
  refine ⟨left ▸ finished.dead, fun wanted order rest begins i inside => ?_⟩
  rw [same.mem_iff] at inside
  rw [Begins, left] at begins
  rw [same.length_eq]
  exact finished.covered wanted order rest begins i inside

/-- From equal states the same is to be found. -/
theorem Finished.of_equal {s' : S} (finished : p.Finished longest done s)
    (equal : p.model.equal s' s = true) : p.Finished longest done s' := by
  have legal := p.congruent.replay_isSome_iff p.input p.output equal
  constructor
  · rintro ⟨order, linear⟩
    exact finished.dead ⟨order, linear.perm, linear.respects, (legal order).mp linear.legal⟩
  · intro wanted order rest begins i inside
    exact finished.covered wanted order rest
      ⟨begins.perm, begins.respects, begins.first, (legal order).mp begins.legal⟩ i inside

/-- All that can come next has been tried: the place itself is finished, once its own sequence is noted. -/
theorem finished_of_tried {r : Nat} (split : marksLeft p.marks done = seen ++ .ret r :: rest)
    (tried : p.Tried longest done s seen)
    (noted : p.computePartial = true → ∀ i ∈ done,
      ∃ seq, longest[i]? = some (some seq) ∧ done.length ≤ seq.length) : p.Finished longest done s := by
  have wf := p.wellFormed
  have choice : ∀ i, i ∈ opsLeft p.n done → (∀ j ∈ (opsLeft p.n done).erase i, ¬ PrecedesIn p.marks j i) →
      ∀ t, p.step s i = some t → p.Finished longest (i :: done) t :=
    fun i mine minimal t steps => tried i (wf.call_of_minimal split mine minimal) t steps
  have returned : Mark.ret r ∈ marksLeft p.marks done := by simp [split]
  have some_ : opsLeft p.n done ≠ [] := List.ne_nil_of_mem (wf.mem_opsLeft_of_mem returned)
  constructor
  · rw [linearizable_iff_choice some_]
    rintro ⟨i, mine, minimal, t, steps, linearizable⟩
    refine (choice i mine minimal t steps).dead ?_
    rw [opsLeft_cons]
    exact linearizable
  · intro wanted order rest begins i inside
    cases order with
    | nil =>
      obtain ⟨seq, found, long⟩ := noted wanted i (inside.resolve_right (by simp))
      exact ⟨seq, found, by simpa using long⟩
    | cons j order =>
      obtain ⟨mine, minimal, t, steps, begins⟩ := beginning_cons_iff.mp begins
      have begins' : p.Begins t (j :: done) order rest := by
        rw [Begins, opsLeft_cons]
        exact begins
      obtain ⟨seq, found, long⟩ := (choice j mine minimal t steps).covered wanted order rest begins' i
        (by simp only [List.mem_cons] at inside ⊢; tauto)
      refine ⟨seq, found, ?_⟩
      simp only [List.length_cons] at long ⊢
      omega

theorem Reached.nodup (reached : p.Reached done s) : done.Nodup := by
  have distinct : (done.reverse ++ opsLeft p.n done).Nodup := by
    rw [reached.begun.perm.nodup_iff, opsLeft_nil]
    exact List.nodup_range
  exact List.nodup_reverse.mp (List.nodup_append.mp distinct).1

theorem Reached.lt (reached : p.Reached done s) (inside : i ∈ done) : i < p.n := by
  have listed := reached.begun.perm.mem_iff.mp (List.mem_append_left _ (List.mem_reverse.mpr inside))
  rw [opsLeft_nil] at listed
  exact List.mem_range.mp listed

theorem Reached.push (reached : p.Reached done s) (mine : i ∈ opsLeft p.n done)
    (minimal : ∀ j ∈ (opsLeft p.n done).erase i, ¬ PrecedesIn p.marks j i) (steps : p.step s i = some t) :
    p.Reached (i :: done) t := by
  obtain ⟨begun, replayed⟩ := reached.begun.snoc mine minimal reached.replayed steps
  rw [← opsLeft_cons] at begun
  exact ⟨by rw [List.reverse_cons]; exact begun, by rw [List.reverse_cons]; exact replayed⟩

theorem CacheOk.grow {m' : Search V S} {depth : Nat} (cacheOk : p.CacheOk depth m)
    (grows : Grows m.longest m'.longest)
    (cache : ∀ hash, ∀ elem ∈ m'.cache hash, elem ∈ m.cache hash ∨ p.Known m'.longest elem) : p.CacheOk depth m' := by
  intro hash elem inside
  obtain old | known := cache hash elem inside
  · exact (cacheOk hash elem old).imp_right fun known => known.grow grows
  · exact .inr known

theorem mem_cache_of_entered {m' : Search V S} {linearized : Bitset} {elem : CacheEntry S} {hash : BitVec 64}
    (cache : m'.cache = Function.update m.cache linearized.hash (m.cache linearized.hash ++ [⟨linearized, t⟩]))
    (inside : elem ∈ m'.cache hash) : elem ∈ m.cache hash ∨ elem = ⟨linearized, t⟩ := by
  rw [cache] at inside
  by_cases same : hash = linearized.hash
  · subst same
    simpa using inside
  · rw [Function.update_of_ne same] at inside
    exact .inl inside

/-- One call deeper, the entry for the place that was entered is there as well. -/
theorem CacheOk.enter {m' : Search V S} {linearized : Bitset} {depth : Nat} (cacheOk : p.CacheOk depth m)
    (same : m'.longest = m.longest)
    (cache : m'.cache = Function.update m.cache linearized.hash (m.cache linearized.hash ++ [⟨linearized, t⟩]))
    (stands : p.StandsFor ⟨linearized, t⟩ done) (length : done.length = depth + 1) : p.CacheOk (depth + 1) m' := by
  intro hash elem inside
  obtain old | rfl := mem_cache_of_entered cache inside
  · rw [same]
    refine (cacheOk hash elem old).imp_left ?_
    rintro ⟨done', stands, shallow⟩
    exact ⟨done', stands, shallow.trans (Nat.le_succ _)⟩
  · exact .inl ⟨done, stands, length.le⟩

/-- A hit in the cache: the set looked up has one operation more than the place is deep. -/
theorem CacheOk.hit {linearized : Bitset} (cacheOk : p.CacheOk done.length m)
    (reached : p.Reached (i :: done) t) (represents : linearized.Represents p.n (i :: done).reverse)
    (contains : cacheContains p.model m.cache ⟨linearized, t⟩ = true) :
    p.Finished m.longest (i :: done) t := by
  obtain ⟨elem, inside, matches_⟩ := List.any_eq_true.mp contains
  obtain ⟨equals, equal⟩ := Bool.and_eq_true_iff.mp matches_
  have perm_of : ∀ done', p.StandsFor elem done' → (i :: done).Perm done' := by
    intro done' stands
    have same := (represents.equals_iff stands.represents
      (fun j listed => reached.lt (List.mem_reverse.mp listed)) stands.small).mp equals
    exact (List.perm_ext_iff_of_nodup reached.nodup stands.nodup).mpr fun j =>
      List.mem_reverse.symm.trans (same j)
  obtain ⟨done', stands, shallow⟩ | ⟨done', stands, finished⟩ := cacheOk _ elem inside
  · have length := (perm_of done' stands).length_eq
    simp only [List.length_cons] at length
    omega
  · exact (finished.of_perm (perm_of done' stands)).of_equal equal

/-! ## Memory at a place -/

theorem Restores.spelled (restores : p.Restores h done) : p.Spelled h done := by
  cases done with
  | nil => exact restores
  | cons i below => exact restores.1

theorem Spelled.next_headEntry (spelled : p.Spelled h done) :
    h.next p.headEntry = ((marksLeft p.marks done).map p.node).head? :=
  spelled.spells.next [] _ _ rfl

theorem Spelled.next_node {x : Mark} (spelled : p.Spelled h done)
    (split : marksLeft p.marks done = seen ++ x :: rest) : h.next (p.node x) = (rest.map p.node).head? := by
  refine spelled.spells.next (p.headEntry :: seen.map p.node) _ _ ?_
  rw [split]
  simp

/-- Lifting an operation that is left, and how it will be undone. -/
theorem Restores.lift (restores : p.Restores h done)
    (split : marksLeft p.marks done = seen ++ .call i :: rest) :
    ∃ h', h.lift (p.node (.call i)) = some h' ∧ p.Restores h' (i :: done) := by
  have spelled := restores.spelled
  obtain ⟨middle, last, rfl, left⟩ := p.wellFormed.split_call split
  have here : Mark.call i ∈ marksLeft p.marks done := by simp [split]
  have small : i < p.n := (p.wellFormed.call_mem i).mp (mem_marksLeft.mp here).1
  have spells := spelled.spells
  rw [split] at spells
  simp only [List.map_append, List.map_cons, ← List.cons_append] at spells
  have pair : h.match_ (p.node (.call i)) = some (p.node (.ret i)) := (spelled.laid.call i small).1
  refine ⟨_, Heap.lift_eq spells (by simp) pair, ⟨?_, ?_⟩, h, ?_, restores⟩
  · rw [left]
    simpa using Heap.spells_lift spells
  · exact ⟨spelled.laid.call, spelled.laid.ret, spelled.laid.id, spelled.laid.headEntry⟩
  · exact Heap.unlift_lift spells (by simp) pair

/-! ## Iterations -/

/-- The loop goes from one point to another, with right notes on its way. -/
def Reaches (p : Problem V S) : Search V S → Search V S → Prop :=
  Relation.ReflTransGen fun a b =>
    p.LongestOk a.longest ∧ a.iterate p.model p.computePartial false = .next b

theorem At.iterate_eq {x : Mark} (at_ : p.At m stack s (x :: rest))
    (split : marksLeft p.marks (stack.map (·.1)) = seen ++ x :: rest) :
    (∀ matching, m.heap.match_ (p.node x) = some matching →
      m.iterate p.model p.computePartial false = m.tryCall p.model (p.node x) matching) ∧
    (m.heap.match_ (p.node x) = none →
      m.iterate p.model p.computePartial false = m.goBack p.computePartial) := by
  have next := at_.restores.spelled.next_headEntry
  rw [← at_.headEntry, split] at next
  have some_ : ∃ first, m.heap.next m.headEntry = some first := by
    rw [next]
    cases seen <;> exact ⟨_, rfl⟩
  obtain ⟨first, isFirst⟩ := some_
  constructor
  · intro matching pair
    simp only [Search.iterate, isFirst, at_.entry, List.map_cons, List.head?_cons, Bool.false_eq_true,
      if_false, pair]
  · intro unmatched
    simp only [Search.iterate, isFirst, at_.entry, List.map_cons, List.head?_cons, Bool.false_eq_true,
      if_false, unmatched]

/-- The search goes on to the next entry. -/
theorem At.onward {x : Mark} (at_ : p.At m stack s (x :: rest))
    (split : marksLeft p.marks (stack.map (·.1)) = seen ++ x :: rest) :
    p.At { m with entry := m.heap.next (p.node x) } stack s rest where
  restores := at_.restores
  headEntry := at_.headEntry
  entry := at_.restores.spelled.next_node split
  linearized := at_.linearized
  calls := at_.calls
  state := at_.state

/-- A call before the first return is passed over if the model does not allow it or if the cache knows it,
and linearized otherwise. -/
theorem At.call (at_ : p.At m stack s (.call i :: rest))
    (split : marksLeft p.marks (stack.map (·.1)) = seen ++ .call i :: rest) :
    (p.step s i = none ∧
      m.iterate p.model p.computePartial false = .next { m with entry := m.heap.next (p.node (.call i)) }) ∨
    ∃ t linearized, p.step s i = some t ∧ linearized.Represents p.n (i :: stack.map (·.1)).reverse ∧
      ((cacheContains p.model m.cache ⟨linearized, t⟩ = true ∧
        m.iterate p.model p.computePartial false =
          .next { m with entry := m.heap.next (p.node (.call i)) }) ∨
      ∃ m', m.iterate p.model p.computePartial false = .next m' ∧ m'.longest = m.longest ∧
        m'.cache = Function.update m.cache linearized.hash
          (m.cache linearized.hash ++ [⟨linearized, t⟩]) ∧
        p.At m' ((i, s) :: stack) t (marksLeft p.marks (i :: stack.map (·.1)))) := by
  have spelled := at_.restores.spelled
  have here : Mark.call i ∈ marksLeft p.marks (stack.map (·.1)) := by simp [split]
  have inside := (mem_marksLeft.mp here).1
  have small : i < p.n := (p.wellFormed.call_mem i).mp inside
  have pair : m.heap.match_ (p.node (.call i)) = some (p.node (.ret i)) := (spelled.laid.call i small).1
  have value : m.heap.value (p.node (.call i)) = p.input i := (spelled.laid.call i small).2
  have value' : m.heap.value (p.node (.ret i)) = p.output i := (spelled.laid.ret i small).2
  have id : m.heap.id (p.node (.call i)) = i := spelled.laid.id _ inside
  obtain ⟨linearized, isSet, represents⟩ := at_.linearized.set small
  obtain ⟨heap, lifted, restores⟩ := at_.restores.lift split
  rw [(at_.iterate_eq split).1 _ pair]
  simp only [Search.tryCall, value, value', id, at_.state, isSet, lifted]
  by_cases allowed : (p.model.step s (p.input i) (p.output i)).1 = true
  · right
    refine ⟨(p.model.step s (p.input i) (p.output i)).2, linearized, ?_, ?_, ?_⟩
    · simp [step, opStep, allowed]
    · simpa using represents
    · simp only [allowed, if_true]
      by_cases contains : cacheContains p.model m.cache
          ⟨linearized, (p.model.step s (p.input i) (p.output i)).2⟩ = true
      · exact .inl ⟨contains, by simp [contains]⟩
      · rw [Bool.not_eq_true] at contains
        simp only [contains, Bool.false_eq_true, if_false]
        refine .inr ⟨_, rfl, rfl, rfl, ?_⟩
        refine ⟨restores, at_.headEntry, ?_, by simpa using represents, ?_, rfl⟩
        · rw [at_.headEntry]
          exact restores.spelled.next_headEntry
        · simp [at_.calls]
  · left
    simp [step, opStep, allowed]

/-- The ids of the calls that the search has on its stack. -/
theorem At.seq_eq (at_ : p.At m stack s rest) (reached : p.Reached (stack.map (·.1)) s) :
    m.seq = (stack.map (·.1)).reverse := by
  have laid := at_.restores.spelled.laid
  rw [Search.seq, at_.calls, List.map_map, ← List.map_reverse]
  refine List.map_congr_left fun c listed => ?_
  have small : c.1 < p.n := reached.lt (List.mem_map_of_mem (List.mem_reverse.mp listed))
  exact laid.id _ ((p.wellFormed.call_mem c.1).mpr small)

/-- At a return the search goes back to the call linearized last and on to what comes after it. -/
theorem At.back {r : Nat} {rest' : List Mark} (at_ : p.At m ((i, s) :: stack) t (.ret r :: rest'))
    (reached : p.Reached (i :: stack.map (·.1)) t)
    (left : marksLeft p.marks (i :: stack.map (·.1)) = seen ++ .ret r :: rest') {before : List Mark}
    (split : marksLeft p.marks (stack.map (·.1)) = before ++ .call i :: rest)
    (longestOk : p.LongestOk m.longest) :
    ∃ m', m.iterate p.model p.computePartial false = .next m' ∧ m'.cache = m.cache ∧ p.At m' stack s rest ∧
      Grows m.longest m'.longest ∧ p.LongestOk m'.longest ∧
      (p.computePartial = true → ∀ j ∈ i :: stack.map (·.1),
        ∃ seq, m'.longest[j]? = some (some seq) ∧ (i :: stack.map (·.1)).length ≤ seq.length) := by
  have spelled := at_.restores.spelled
  have returned : Mark.ret r ∈ marksLeft p.marks (i :: stack.map (·.1)) := by simp [left]
  have unmatched : m.heap.match_ (p.node (.ret r)) = none :=
    (spelled.laid.ret r ((p.wellFormed.ret_mem r).mp (mem_marksLeft.mp returned).1)).1
  have seq : m.seq = (i :: stack.map (·.1)).reverse := at_.seq_eq reached
  have small : i < p.n := reached.lt List.mem_cons_self
  have id : m.heap.id (p.node (.call i)) = i := spelled.laid.id _ ((p.wellFormed.call_mem i).mpr small)
  have calls : m.calls = (stack.reverse.map fun c => ⟨p.node (.call c.1), c.2⟩) ++ [⟨p.node (.call i), s⟩] := by
    simp [at_.calls]
  have top : m.calls.getLast? = some ⟨p.node (.call i), s⟩ := by simp [calls]
  have fresh : i ∉ (stack.map (·.1)).reverse := by
    rw [List.mem_reverse]
    exact (List.nodup_cons.mp reached.nodup).1
  obtain ⟨linearized, cleared, represents⟩ :=
    Bitset.Represents.clear (by simpa using at_.linearized) fresh small
  obtain ⟨_, heap, unlifted, restores⟩ := at_.restores
  have within : ∀ j ∈ m.seq, j < m.longest.length := by
    intro j listed
    rw [seq, List.mem_reverse] at listed
    rw [longestOk.length]
    exact reached.lt listed
  obtain ⟨noted, notes, length, grows, listed, origin⟩ := noteLongest_spec m.seq within
  have iterates : ∀ longest', (if p.computePartial then noteLongest m.seq m.seq m.longest
      else some m.longest) = some longest' →
      ∃ m', m.iterate p.model p.computePartial false = .next m' ∧ m'.cache = m.cache ∧
        m'.longest = longest' ∧ p.At m' stack s rest := by
    intro longest' chosen
    rw [(at_.iterate_eq left).2 unmatched]
    simp only [Search.goBack, top, chosen, id, cleared, unlifted]
    refine ⟨_, rfl, rfl, rfl, restores, at_.headEntry, restores.spelled.next_node split, represents, ?_, rfl⟩
    simp [calls]
  by_cases wanted : p.computePartial = true
  · obtain ⟨m', iterates, cache, rfl, at'⟩ := iterates noted (by rw [if_pos wanted, notes])
    refine ⟨m', iterates, cache, at', grows, ?_, fun _ j inside => ?_⟩
    · refine ⟨length.trans longestOk.length, fun j seq' found => ?_⟩
      obtain old | ⟨rfl, mine⟩ := origin j seq' found
      · exact longestOk.begins j seq' old
      · exact ⟨mine, _, seq ▸ reached.begun⟩
    · obtain ⟨seq', found, long⟩ := listed j (by rw [seq, List.mem_reverse]; exact inside)
      refine ⟨seq', found, ?_⟩
      rw [seq, List.length_reverse] at long
      exact long
  · obtain ⟨m', iterates, cache, same, at'⟩ := iterates m.longest (by rw [if_neg wanted])
    exact ⟨m', iterates, cache, at', same ▸ .refl _, same ▸ longestOk, fun yes => absurd yes wanted⟩

/-! ## The search as a whole -/

/-- Everything is linearized. -/
structure Succeeded (p : Problem V S) (m : Search V S) : Prop where
  ends : m.heap.next m.headEntry = none
  linear : Linearization p.step (PrecedesIn p.marks) p.model.init (List.range p.n) m.seq
  longestOk : p.LongestOk m.longest

/-- Everything that can come next has been tried in vain. -/
structure Stuck (p : Problem V S) (before m : Search V S) (stack : List (Nat × S)) (s : S) (seen : List Mark)
    (r : Nat) (rest : List Mark) : Prop where
  at_ : p.At m stack s (.ret r :: rest)
  split : marksLeft p.marks (stack.map (·.1)) = seen ++ .ret r :: rest
  tried : p.Tried m.longest (stack.map (·.1)) s seen
  cache : ∀ hash, ∀ elem ∈ m.cache hash, elem ∈ before.cache hash ∨ p.Known m.longest elem
  grows : Grows before.longest m.longest
  longestOk : p.LongestOk m.longest

theorem Stuck.earlier {before m' : Search V S} {r : Nat} (stuck : p.Stuck m m' stack s seen r rest)
    (cache : ∀ hash, ∀ elem ∈ m.cache hash, elem ∈ before.cache hash ∨ p.Known m.longest elem)
    (grows : Grows before.longest m.longest) : p.Stuck before m' stack s seen r rest where
  at_ := stuck.at_
  split := stuck.split
  tried := stuck.tried
  cache hash elem inside := by
    obtain old | known := stuck.cache hash elem inside
    · exact (cache hash elem old).imp_right fun known => known.grow stuck.grows
    · exact .inr known
  grows := grows.trans stuck.grows
  longestOk := stuck.longestOk

theorem explore (stack : List (Nat × S)) (s : S) (seen rest : List Mark) (m : Search V S)
    (at_ : p.At m stack s rest) (reached : p.Reached (stack.map (·.1)) s)
    (split : marksLeft p.marks (stack.map (·.1)) = seen ++ rest) (calls : ∀ x ∈ seen, x.isCall = true)
    (tried : p.Tried m.longest (stack.map (·.1)) s seen) (cacheOk : p.CacheOk stack.length m)
    (longestOk : p.LongestOk m.longest) :
    ∃ m', p.Reaches m m' ∧
      (p.Succeeded m' ∨ ∃ seen' r rest', p.Stuck m m' stack s seen' r rest') := by
  -- on the number of operations left, and for one place on what is still to be gone through
  induction left : (opsLeft p.n (stack.map (·.1))).length using Nat.strongRecOn
    generalizing stack s seen rest m with
  | _ k deeper =>
  induction rest generalizing seen m with
  | nil =>
    rw [List.append_nil] at split
    have nothing := p.wellFormed.nothing_left (split ▸ calls)
    refine ⟨m, .refl, .inl ⟨?_, ?_, longestOk⟩⟩
    · rw [at_.headEntry, at_.restores.spelled.next_headEntry, p.wellFormed.marksLeft_eq_nil_iff.mpr nothing]
      rfl
    · have begun := reached.begun
      rw [Begins, opsLeft_nil, nothing] at begun
      rw [at_.seq_eq reached, linearization_iff_beginning]
      exact begun
  | cons x rest further =>
    cases x with
    | ret r =>
      exact ⟨m, .refl, .inr ⟨seen, r, rest, at_, split, tried, fun hash elem inside => .inl inside, .refl _,
        longestOk⟩⟩
    | call i =>
      have split' : marksLeft p.marks (stack.map (·.1)) = (seen ++ [.call i]) ++ rest := by simp [split]
      have calls' : ∀ x ∈ seen ++ [Mark.call i], x.isCall = true := by
        intro x inside
        obtain early | last := List.mem_append.mp inside
        · exact calls x early
        · rw [List.mem_singleton.mp last]
          rfl
      obtain ⟨mine, minimal⟩ := p.wellFormed.minimal_of_call split calls
      -- the entry is passed over: go on behind it
      have pass : m.iterate p.model p.computePartial false =
            .next { m with entry := m.heap.next (p.node (.call i)) } →
          (∀ t, p.step s i = some t → p.Finished m.longest (i :: stack.map (·.1)) t) →
          ∃ m', p.Reaches m m' ∧
            (p.Succeeded m' ∨ ∃ seen' r rest', p.Stuck m m' stack s seen' r rest') := by
        intro iterates finished
        obtain ⟨m', reaches, ends⟩ := further (seen ++ [.call i]) _ (at_.onward split) split' calls'
          (tried.snoc (.refl _) finished) cacheOk longestOk
        refine ⟨m', .head ⟨longestOk, iterates⟩ reaches, ends.imp_right ?_⟩
        rintro ⟨seen', r, rest', stuck⟩
        exact ⟨seen', r, rest', stuck.earlier (fun hash elem inside => .inl inside) (.refl _)⟩
      obtain ⟨disallowed, iterates⟩ | ⟨t, linearized, steps, represents, hit | miss⟩ := at_.call split
      · exact pass iterates fun t steps => absurd (disallowed.symm.trans steps) (by simp)
      · refine pass hit.2 fun t' steps' => ?_
        obtain rfl := Option.some.inj (steps.symm.trans steps')
        have cacheOk' : p.CacheOk (stack.map (·.1)).length m := by simpa using cacheOk
        exact cacheOk'.hit (reached.push mine minimal steps) represents hit.1
      · obtain ⟨child, iterates, sameLongest, cache, childAt⟩ := miss
        have childReached := reached.push mine minimal steps
        have childStands : p.StandsFor ⟨linearized, t⟩ (i :: stack.map (·.1)).reverse :=
          ⟨List.nodup_reverse.mpr childReached.nodup,
            fun j listed => childReached.lt (List.mem_reverse.mp listed), represents⟩
        have childCache : p.CacheOk ((i, s) :: stack).length child :=
          cacheOk.enter sameLongest cache childStands (by simp)
        have fewer : (opsLeft p.n (((i, s) :: stack).map (·.1))).length < k := by
          have drops := length_opsLeft_cons mine
          simp only [List.map_cons]
          omega
        obtain ⟨m₁, reaches, success | ⟨seen', r, rest', stuck⟩⟩ := deeper _ fewer ((i, s) :: stack) t [] _
          child childAt childReached (by simp) nofun nofun childCache (sameLongest ▸ longestOk) rfl
        · exact ⟨m₁, .head ⟨longestOk, iterates⟩ reaches, .inl success⟩
        -- back at this place, with the child finished
        obtain ⟨m₂, returns, sameCache, at₂, grows₂, longestOk₂, noted⟩ :=
          stuck.at_.back childReached stuck.split split stuck.longestOk
        have childFinished : p.Finished m₂.longest (i :: stack.map (·.1)) t :=
          finished_of_tried stuck.split (stuck.tried.grow grows₂) noted
        have grows : Grows m.longest m₂.longest := (sameLongest ▸ stuck.grows).trans grows₂
        have cache₂ : ∀ hash, ∀ elem ∈ m₂.cache hash, elem ∈ m.cache hash ∨ p.Known m₂.longest elem := by
          intro hash elem inside
          rw [sameCache] at inside
          obtain old | known := stuck.cache hash elem inside
          · obtain older | rfl := mem_cache_of_entered cache old
            · exact .inl older
            · exact .inr ⟨_, childStands, childFinished.of_perm (List.reverse_perm _)⟩
          · exact .inr (known.grow grows₂)
        have finished : ∀ t', p.step s i = some t' → p.Finished m₂.longest (i :: stack.map (·.1)) t' := by
          intro t' steps'
          obtain rfl := Option.some.inj (steps.symm.trans steps')
          exact childFinished
        obtain ⟨m₃, reaches₃, ends⟩ := further (seen ++ [.call i]) m₂ at₂ split' calls'
          (tried.snoc grows finished) (cacheOk.grow grows cache₂) longestOk₂
        refine ⟨m₃, .head ⟨longestOk, iterates⟩ (reaches.trans (.head ⟨stuck.longestOk, returns⟩ reaches₃)),
          ends.imp_right ?_⟩
        rintro ⟨seen'', r', rest'', stuck'⟩
        exact ⟨seen'', r', rest'', stuck'.earlier cache₂ grows⟩

end Problem

end Tda596Labs.Porcupine
