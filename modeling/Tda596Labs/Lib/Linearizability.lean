import Mathlib.Data.List.Perm.Basic
import Mathlib.Data.List.Dedup
import Mathlib.Order.WithBot

/-! # Linearizations

An object is given by what an operation does to its state; an operation is taken together with the result
it was observed to have, so that there may be states in which it cannot have happened.  Which operations
precede which others is given by a relation.  A linearization puts the operations of a history into an
order that respects this relation and that the object allows.

Two general facts are used to check histories.  A linearization is found by choosing its operations one by
one, each among those that no other operation left precedes (`beginning_cons_iff`).  And when precedence
comes from intervals of time, an object that consists of independent parts may be checked part by part
(`linearizable_keyed_iff`): every operation of a linearized part gets a point inside its interval, and the
points of all parts together give an order for the whole.
-/

namespace Tda596Labs.Linearizability

variable {ι S : Type*}

/-- The operations one after the other; `none`: one of them cannot have happened. -/
def replay (step : S → ι → Option S) : S → List ι → Option S
  | s, [] => some s
  | s, i :: order => (step s i).bind fun t => replay step t order

theorem replay_append (step : S → ι → Option S) (s : S) (first second : List ι) :
    replay step s (first ++ second) = (replay step s first).bind fun t => replay step t second := by
  induction first generalizing s with
  | nil => rfl
  | cons i first ih =>
    rw [List.cons_append, replay, replay, Option.bind_assoc]
    exact Option.bind_congr fun t _ => ih t

/-- `order` begins a linearization of the operations `ops`, of which `rest` are left. -/
structure Beginning (step : S → ι → Option S) (precedes : ι → ι → Prop) (s : S)
    (ops order rest : List ι) : Prop where
  perm : (order ++ rest).Perm ops
  respects : order.Pairwise fun a b => ¬ precedes b a
  first : ∀ a ∈ order, ∀ b ∈ rest, ¬ precedes b a
  legal : (replay step s order).isSome

/-- `order` is a linearization of the operations `ops`. -/
structure Linearization (step : S → ι → Option S) (precedes : ι → ι → Prop) (s : S)
    (ops order : List ι) : Prop where
  perm : order.Perm ops
  respects : order.Pairwise fun a b => ¬ precedes b a
  legal : (replay step s order).isSome

def Linearizable (step : S → ι → Option S) (precedes : ι → ι → Prop) (s : S) (ops : List ι) : Prop :=
  ∃ order, Linearization step precedes s ops order

section Choices

variable {step : S → ι → Option S} {precedes : ι → ι → Prop} {s : S} {ops order rest : List ι}

theorem linearization_iff_beginning :
    Linearization step precedes s ops order ↔ Beginning step precedes s ops order [] := by
  constructor
  · intro linear
    exact ⟨by rw [List.append_nil]; exact linear.perm, linear.respects, nofun, linear.legal⟩
  · intro begins
    exact ⟨by rw [← List.append_nil order]; exact begins.perm, begins.respects, begins.legal⟩

theorem beginning_nil (s : S) (ops : List ι) : Beginning step precedes s ops [] ops :=
  ⟨.refl _, .nil, nofun, rfl⟩

/-- The first choice: an operation that none of the others precedes. -/
theorem beginning_cons_iff [DecidableEq ι] {i : ι} :
    Beginning step precedes s ops (i :: order) rest ↔
      i ∈ ops ∧ (∀ j ∈ ops.erase i, ¬ precedes j i) ∧
        ∃ t, step s i = some t ∧ Beginning step precedes t (ops.erase i) order rest := by
  constructor
  · intro begins
    obtain ⟨inside, left⟩ := List.cons_perm_iff_perm_erase.mp begins.perm
    obtain ⟨before, respects⟩ := List.pairwise_cons.mp begins.respects
    have legal := begins.legal
    rw [replay] at legal
    obtain ⟨t, steps⟩ := Option.isSome_iff_exists.mp (Option.isSome_of_isSome_bind legal)
    rw [steps] at legal
    refine ⟨inside, ?_, t, steps, left, respects, fun a listed => begins.first a (.tail _ listed), legal⟩
    intro j listed
    obtain earlier | later := List.mem_append.mp (left.mem_iff.mpr listed)
    · exact before j earlier
    · exact begins.first i List.mem_cons_self j later
  · rintro ⟨inside, minimal, t, steps, begins⟩
    refine ⟨List.cons_perm_iff_perm_erase.mpr ⟨inside, begins.perm⟩, ?_, ?_, ?_⟩
    · refine List.pairwise_cons.mpr ⟨fun b listed => ?_, begins.respects⟩
      exact minimal b (begins.perm.mem_iff.mp (List.mem_append_left _ listed))
    · intro a listed b left
      obtain rfl | later := List.mem_cons.mp listed
      · exact minimal b (begins.perm.mem_iff.mp (List.mem_append_right _ left))
      · exact begins.first a later b left
    · rw [replay, steps]
      exact begins.legal

/-- The next choice: one of the operations left that none of the others left precedes. -/
theorem Beginning.snoc [DecidableEq ι] (begins : Beginning step precedes s ops order rest) {i : ι}
    (inside : i ∈ rest) (minimal : ∀ j ∈ rest.erase i, ¬ precedes j i) {t u : S}
    (replayed : replay step s order = some t) (steps : step t i = some u) :
    Beginning step precedes s ops (order ++ [i]) (rest.erase i) ∧ replay step s (order ++ [i]) = some u := by
  have legal : replay step s (order ++ [i]) = some u := by
    rw [replay_append, replayed, Option.bind_some, replay, steps]
    rfl
  refine ⟨⟨?_, ?_, ?_, by rw [legal]; rfl⟩, legal⟩
  · rw [List.append_assoc]
    exact ((List.perm_cons_erase inside).symm.append_left order).trans begins.perm
  · refine List.pairwise_append.mpr ⟨begins.respects, List.pairwise_singleton _ _, ?_⟩
    intro a earlier b last
    rw [List.mem_singleton.mp last]
    exact begins.first a earlier i inside
  · intro a listed b left
    obtain earlier | last := List.mem_append.mp listed
    · exact begins.first a earlier b (List.mem_of_mem_erase left)
    · rw [List.mem_singleton.mp last]
      exact minimal b left

/-- Something is left and a linearization exists: some operation can be chosen first. -/
theorem linearizable_iff_choice [DecidableEq ι] (some_ : ops ≠ []) :
    Linearizable step precedes s ops ↔
      ∃ i ∈ ops, (∀ j ∈ ops.erase i, ¬ precedes j i) ∧
        ∃ t, step s i = some t ∧ Linearizable step precedes t (ops.erase i) := by
  constructor
  · rintro ⟨order, linear⟩
    cases order with
    | nil => exact absurd linear.perm.symm.eq_nil some_
    | cons i order =>
      obtain ⟨inside, minimal, t, steps, begins⟩ :=
        beginning_cons_iff.mp (linearization_iff_beginning.mp linear)
      exact ⟨i, inside, minimal, t, steps, order, linearization_iff_beginning.mpr begins⟩
  · rintro ⟨i, inside, minimal, t, steps, order, linear⟩
    refine ⟨i :: order, linearization_iff_beginning.mpr (beginning_cons_iff.mpr ?_)⟩
    exact ⟨inside, minimal, t, steps, linearization_iff_beginning.mp linear⟩

theorem linearizable_nil (s : S) : Linearizable step precedes s [] := ⟨[], .refl _, .nil, rfl⟩

end Choices

/-! ## Names of operations -/

/-- An order of named things is an order of their names. -/
theorem exists_perm_map_eq {ι' : Type*} (f : ι → ι') {ops : List ι} {order : List ι'}
    (perm : order.Perm (ops.map f)) : ∃ names : List ι, names.Perm ops ∧ names.map f = order := by
  generalize mapped : ops.map f = image at perm
  replace perm := perm.symm
  induction perm generalizing ops with
  | nil => exact ⟨[], by rw [List.map_eq_nil_iff.mp mapped], rfl⟩
  | cons x _ ih =>
    obtain ⟨i, rest, rfl, rfl, rfl⟩ := List.map_eq_cons_iff.mp mapped
    obtain ⟨names, same, rfl⟩ := ih rfl
    exact ⟨i :: names, same.cons i, rfl⟩
  | swap x y _ =>
    obtain ⟨i, rest, rfl, rfl, mapped'⟩ := List.map_eq_cons_iff.mp mapped
    obtain ⟨j, rest, rfl, rfl, rfl⟩ := List.map_eq_cons_iff.mp mapped'
    exact ⟨j :: i :: rest, .swap i j rest, rfl⟩
  | trans _ _ first second =>
    obtain ⟨names, same, mapped'⟩ := first mapped
    obtain ⟨names', same', mapped''⟩ := second mapped'
    exact ⟨names', same'.trans same, mapped''⟩

theorem replay_map {ι' : Type*} (f : ι → ι') (step : S → ι' → Option S) (s : S) (order : List ι) :
    replay step s (order.map f) = replay (fun s i => step s (f i)) s order := by
  induction order generalizing s with
  | nil => rfl
  | cons i order ih =>
    rw [List.map_cons, replay, replay]
    exact Option.bind_congr fun t _ => ih t

/-- It does not matter by which names operations are called. -/
theorem linearizable_map_iff {ι' : Type*} (f : ι → ι') {step : S → ι' → Option S}
    {precedes : ι' → ι' → Prop} {s : S} {ops : List ι} :
    Linearizable step precedes s (ops.map f) ↔
      Linearizable (fun s i => step s (f i)) (fun i j => precedes (f i) (f j)) s ops := by
  constructor
  · rintro ⟨order, linear⟩
    obtain ⟨names, same, rfl⟩ := exists_perm_map_eq f linear.perm
    exact ⟨names, same, List.pairwise_map.mp linear.respects, by rw [← replay_map]; exact linear.legal⟩
  · rintro ⟨names, linear⟩
    exact ⟨names.map f, linear.perm.map f, List.pairwise_map.mpr linear.respects,
      by rw [replay_map]; exact linear.legal⟩

theorem replay_congr {step step' : S → ι → Option S} {order : List ι}
    (steps : ∀ i ∈ order, ∀ s, step s i = step' s i) (s : S) : replay step s order = replay step' s order := by
  induction order generalizing s with
  | nil => rfl
  | cons i order ih =>
    rw [replay, replay, steps i List.mem_cons_self]
    exact Option.bind_congr fun t _ => ih (fun j listed => steps j (.tail _ listed)) t

theorem Beginning.congr {step step' : S → ι → Option S} {precedes precedes' : ι → ι → Prop} {s : S}
    {ops order rest : List ι} (begins : Beginning step precedes s ops order rest)
    (steps : ∀ i ∈ ops, ∀ s, step s i = step' s i)
    (orders : ∀ i ∈ ops, ∀ j ∈ ops, precedes' i j → precedes i j) :
    Beginning step' precedes' s ops order rest := by
  have inside : ∀ i ∈ order, i ∈ ops := fun i listed =>
    begins.perm.mem_iff.mp (List.mem_append_left _ listed)
  refine ⟨begins.perm, begins.respects.imp_of_mem fun ina inb free precedes => ?_,
    fun a ina b inb precedes => ?_, ?_⟩
  · exact free (orders _ (inside _ inb) _ (inside _ ina) precedes)
  · have left := begins.perm.mem_iff.mp (List.mem_append_right _ inb)
    exact begins.first a ina b inb (orders b left a (inside a ina) precedes)
  · rw [← replay_congr fun i listed => steps i (inside i listed)]
    exact begins.legal

/-- Only what the object and the order say about the operations themselves matters. -/
theorem beginning_congr {step step' : S → ι → Option S} {precedes precedes' : ι → ι → Prop} {s : S}
    {ops order rest : List ι} (steps : ∀ i ∈ ops, ∀ s, step s i = step' s i)
    (orders : ∀ i ∈ ops, ∀ j ∈ ops, precedes i j ↔ precedes' i j) :
    Beginning step precedes s ops order rest ↔ Beginning step' precedes' s ops order rest :=
  ⟨fun begins => begins.congr steps fun i ini j inj => (orders i ini j inj).mpr,
    fun begins => begins.congr (fun i ini s => (steps i ini s).symm) fun i ini j inj => (orders i ini j inj).mp⟩

theorem linearizable_congr {step step' : S → ι → Option S} {precedes precedes' : ι → ι → Prop} {s : S}
    {ops : List ι} (steps : ∀ i ∈ ops, ∀ s, step s i = step' s i)
    (orders : ∀ i ∈ ops, ∀ j ∈ ops, precedes i j ↔ precedes' i j) :
    Linearizable step precedes s ops ↔ Linearizable step' precedes' s ops := by
  refine exists_congr fun order => ?_
  rw [linearization_iff_beginning, linearization_iff_beginning, beginning_congr steps orders]

/-! ## Points in time -/

section Points

variable {T : Type*} [LinearOrder T] (call ret : ι → T)

/-- An operation precedes those that are called after it has returned. -/
def Precedes (a b : ι) : Prop := ret a < call b

/-- Every operation of an order with the latest call up to it, and not before `low`. -/
def stamp : WithBot T → List ι → List (ι × WithBot T)
  | _, [] => []
  | low, i :: order => (i, max low (call i)) :: stamp (max low (call i)) order

theorem map_fst_stamp (low : WithBot T) (order : List ι) :
    (stamp call low order).map (·.1) = order := by
  induction order generalizing low with
  | nil => rfl
  | cons i order ih => rw [stamp, List.map_cons, ih]

theorem le_of_mem_stamp {low : WithBot T} {order : List ι} {stamped : ι × WithBot T}
    (inside : stamped ∈ stamp call low order) :
    low ≤ stamped.2 ∧ (call stamped.1 : WithBot T) ≤ stamped.2 := by
  induction order generalizing low with
  | nil => cases inside
  | cons i order ih =>
    obtain rfl | later := List.mem_cons.mp inside
    · exact ⟨le_max_left _ _, le_max_right _ _⟩
    · exact ⟨(le_max_left _ _).trans (ih later).1, (ih later).2⟩

theorem stamp_sorted (low : WithBot T) (order : List ι) :
    (stamp call low order).Pairwise fun a b => a.2 ≤ b.2 := by
  induction order generalizing low with
  | nil => exact .nil
  | cons i order ih => exact List.pairwise_cons.mpr ⟨fun b later => (le_of_mem_stamp call later).1, ih _⟩

/-- In an order that respects precedence, the point of an operation is not after its return. -/
theorem stamp_le_ret {low : WithBot T} {order : List ι} (timely : ∀ i ∈ order, call i ≤ ret i)
    (respects : order.Pairwise fun a b => ¬ Precedes call ret b a)
    (above : ∀ i ∈ order, low ≤ (ret i : WithBot T)) {stamped : ι × WithBot T}
    (inside : stamped ∈ stamp call low order) : stamped.2 ≤ (ret stamped.1 : WithBot T) := by
  induction order generalizing low with
  | nil => cases inside
  | cons i order ih =>
    obtain ⟨before, respects⟩ := List.pairwise_cons.mp respects
    obtain rfl | later := List.mem_cons.mp inside
    · exact max_le (above i List.mem_cons_self) (WithBot.coe_le_coe.mpr (timely i List.mem_cons_self))
    · refine ih (fun j listed => timely j (.tail _ listed)) respects ?_ later
      intro j listed
      exact max_le (above j (.tail _ listed)) (WithBot.coe_le_coe.mpr (not_lt.mp (before j listed)))

end Points

/-! ## Putting orders together -/

section Interleave

variable {κ T : Type*} [LinearOrder T] {call : ι → T}

/-- The point of the one is not after the point of the other. -/
def notAfter (a b : ι × WithBot T) : Bool := a.2 ≤ b.2

theorem notAfter_trans (a b c : ι × WithBot T) (first : notAfter a b = true) (second : notAfter b c = true) :
    notAfter a c = true :=
  decide_eq_true ((of_decide_eq_true first).trans (of_decide_eq_true second))

theorem notAfter_total (a b : ι × WithBot T) : (notAfter a b || notAfter b a) = true := by
  simpa [notAfter] using le_total a.2 b.2

/-- The orders of several parts, put together by the points of their operations. -/
def interleave (call : ι → T) (keys : List κ) (orders : κ → List ι) : List (ι × WithBot T) :=
  (keys.flatMap fun k => stamp call ⊥ (orders k)).mergeSort notAfter

theorem interleave_sorted (keys : List κ) (orders : κ → List ι) :
    (interleave call keys orders).Pairwise fun a b => a.2 ≤ b.2 :=
  (List.pairwise_mergeSort notAfter_trans notAfter_total _).imp fun before => of_decide_eq_true before

theorem map_fst_interleave_perm (keys : List κ) (orders : κ → List ι) :
    ((interleave call keys orders).map (·.1)).Perm (keys.flatMap orders) := by
  refine ((List.mergeSort_perm _ _).map _).trans (.of_eq ?_)
  rw [List.map_flatMap]
  exact List.flatMap_congr fun k _ => map_fst_stamp call ⊥ (orders k)

/-- Sorting by points keeps the order of each part. -/
theorem sublist_interleave {keys : List κ} (orders : κ → List ι) {k : κ} (listed : k ∈ keys) :
    (orders k).Sublist ((interleave call keys orders).map (·.1)) := by
  have part : (stamp call ⊥ (orders k)).Sublist (keys.flatMap fun k => stamp call ⊥ (orders k)) := by
    rw [List.flatMap]
    exact List.sublist_flatten_of_mem (List.mem_map_of_mem listed)
  have sorted : (stamp call ⊥ (orders k)).Pairwise fun a b => notAfter a b = true :=
    (stamp_sorted call ⊥ (orders k)).imp fun before => decide_eq_true before
  have kept := List.sublist_mergeSort notAfter_trans notAfter_total sorted part
  have mapped := kept.map (·.1)
  rwa [map_fst_stamp] at mapped

end Interleave

/-! ## Independent parts -/

section Parts

variable {κ : Type*} [DecidableEq κ] (key : ι → κ)

/-- An object with a part for every key; an operation works on the part of its key. -/
def keyed (step : S → ι → Option S) (s : κ → S) (i : ι) : Option (κ → S) :=
  (step (s (key i)) i).map (Function.update s (key i))

/-- The operations on one part. -/
def onKey (k : κ) (ops : List ι) : List ι := ops.filter fun i => key i = k

variable {key} {step : S → ι → Option S}

theorem mem_onKey {k : κ} {ops : List ι} {i : ι} : i ∈ onKey key k ops ↔ i ∈ ops ∧ key i = k := by
  simp [onKey]

theorem replay_keyed_isSome_iff {s : κ → S} {order : List ι} :
    (replay (keyed key step) s order).isSome ↔ ∀ k, (replay step (s k) (onKey key k order)).isSome := by
  induction order generalizing s with
  | nil => simp [replay, onKey]
  | cons i order ih =>
    rw [replay, keyed]
    cases steps : step (s (key i)) i with
    | none =>
      refine iff_of_false (by simp) fun all => ?_
      have here := all (key i)
      simp [onKey, replay, steps] at here
    | some t =>
      rw [Option.map_some, Option.bind_some, ih]
      refine forall_congr' fun k => ?_
      by_cases same : key i = k
      · subst same
        simp [onKey, replay, steps]
      · simp [onKey, Function.update_of_ne (Ne.symm same), same]

/-- Operations sorted by their keys are all the operations. -/
theorem flatMap_onKey_perm {keys : List κ} (distinct : keys.Nodup) {ops : List ι}
    (all : ∀ i ∈ ops, key i ∈ keys) : (keys.flatMap fun k => onKey key k ops).Perm ops := by
  induction keys generalizing ops with
  | nil =>
    obtain rfl : ops = [] := List.eq_nil_iff_forall_not_mem.mpr fun i listed => nomatch all i listed
    exact .refl _
  | cons k keys ih =>
    obtain ⟨fresh, distinct⟩ := List.nodup_cons.mp distinct
    have others : (keys.flatMap fun k' => onKey key k' ops) =
        keys.flatMap fun k' => onKey key k' (ops.filter fun i => ! decide (key i = k)) := by
      refine List.flatMap_congr fun k' listed => ?_
      have different : k' ≠ k := ne_of_mem_of_not_mem listed fresh
      rw [onKey, onKey, List.filter_filter]
      refine List.filter_congr fun i _ => ?_
      by_cases same : key i = k'
      · simp [same, different]
      · simp [same]
    rw [List.flatMap_cons, others]
    refine (List.Perm.append_left _ (ih distinct ?_)).trans (List.filter_append_perm _ ops)
    intro i listed
    obtain ⟨inside, other⟩ := List.mem_filter.mp listed
    exact (List.mem_cons.mp (all i inside)).resolve_left (by simpa using other)

variable {T : Type*} [LinearOrder T] {call ret : ι → T}

/-- An object of independent parts is linearizable exactly if each of its parts is. -/
theorem linearizable_keyed_iff {s : κ → S} {ops : List ι} (timely : ∀ i ∈ ops, call i ≤ ret i) :
    Linearizable (keyed key step) (Precedes call ret) s ops ↔
      ∀ k, Linearizable step (Precedes call ret) (s k) (onKey key k ops) := by
  constructor
  · rintro ⟨order, linear⟩ k
    exact ⟨onKey key k order, linear.perm.filter _, linear.respects.filter _,
      replay_keyed_isSome_iff.mp linear.legal k⟩
  · intro parts
    choose orders linear using parts
    have onPart : ∀ k, ∀ i ∈ orders k, i ∈ ops ∧ key i = k := fun k i listed =>
      mem_onKey.mp ((linear k).perm.mem_iff.mp listed)
    let keys := (ops.map key).dedup
    have all : ∀ i ∈ ops, key i ∈ keys := fun i listed => List.mem_dedup.mpr (List.mem_map_of_mem listed)
    let whole := (interleave call keys orders).map (·.1)
    have perm : whole.Perm ops := by
      refine (map_fst_interleave_perm keys orders).trans ?_
      refine (List.Perm.flatMap_left keys fun k _ => (linear k).perm).trans ?_
      exact flatMap_onKey_perm (List.nodup_dedup _) all
    refine ⟨whole, perm, ?_, replay_keyed_isSome_iff.mpr fun k => ?_⟩
    · -- a point is between call and return, so an earlier point is not called after a later one returned
      have bounds : ∀ stamped ∈ interleave call keys orders,
          (call stamped.1 : WithBot T) ≤ stamped.2 ∧ stamped.2 ≤ (ret stamped.1 : WithBot T) := by
        intro stamped inside
        obtain ⟨k, _, inside⟩ := List.mem_flatMap.mp (List.mem_mergeSort.mp inside)
        refine ⟨(le_of_mem_stamp call inside).2, stamp_le_ret call ret ?_ (linear k).respects ?_ inside⟩
        · exact fun i listed => timely i (onPart k i listed).1
        · exact fun _ _ => bot_le
      refine List.pairwise_map.mpr ((interleave_sorted keys orders).imp_of_mem ?_)
      intro a b insideA insideB ordered preceding
      have chain := ((bounds a insideA).1.trans ordered).trans (bounds b insideB).2
      exact absurd preceding (not_lt.mpr (WithBot.coe_le_coe.mp chain))
    · have same : onKey key k whole = orders k := by
        by_cases listed : k ∈ keys
        · have inner : ((orders k).filter fun i => key i = k).Sublist (onKey key k whole) :=
            (sublist_interleave orders listed).filter _
          rw [List.filter_eq_self.mpr fun i inside => by simpa using (onPart k i inside).2] at inner
          refine (inner.eq_of_length ?_).symm
          rw [(linear k).perm.length_eq]
          exact ((perm.filter _).length_eq).symm
        · have nothing : ∀ order : List ι, order.Perm ops → onKey key k order = [] := by
            intro order same
            refine List.filter_eq_nil_iff.mpr fun i inside => ?_
            have other : key i ≠ k := fun equal => listed (equal ▸ all i (same.mem_iff.mp inside))
            simpa using other
          have empty := (linear k).perm
          rw [nothing ops (.refl _)] at empty
          rw [nothing whole perm, empty.eq_nil]
      rw [same]
      exact (linear k).legal

end Parts

end Tda596Labs.Linearizability
