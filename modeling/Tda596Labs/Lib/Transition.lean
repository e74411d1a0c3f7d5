import Mathlib.Data.List.Induction
import Mathlib.Order.Basic

/-! # Runs of event-labelled transition systems

A system is a partial step function `step : σ → ε → Option σ`: the event carries every choice the
environment makes (which goroutine moves, which message arrives), and `none` says that the event is
not enabled.  `Run` records the transitions that were taken, so that a property can be required of
every step of a run as well as of the states it reaches.
-/

namespace Tda596Labs.Transition

variable {σ ε : Type*}

/-- One transition of a run. -/
structure Taken (σ ε : Type*) where
  before : σ
  event : ε
  after : σ

/-- `Run step start taken final`: the transitions `taken`, in this order, lead from `start` to `final`. -/
inductive Run (step : σ → ε → Option σ) (start : σ) : List (Taken σ ε) → σ → Prop where
  | nil : Run step start [] start
  | snoc {taken : List (Taken σ ε)} {s t : σ} {e : ε} :
      Run step start taken s → step s e = some t → Run step start (taken ++ [⟨s, e, t⟩]) t

/-- Every transition of a list meets a condition on its event and the state before it. -/
def AllMeet (meets : σ → ε → Prop) (taken : List (Taken σ ε)) : Prop :=
  ∀ τ ∈ taken, meets τ.before τ.event

instance {meets : σ → ε → Prop} [∀ s e, Decidable (meets s e)] (taken : List (Taken σ ε)) :
    Decidable (AllMeet meets taken) :=
  inferInstanceAs (Decidable (∀ τ ∈ taken, meets τ.before τ.event))

theorem AllMeet.earlier {meets : σ → ε → Prop} {taken rest : List (Taken σ ε)}
    (all : AllMeet meets (taken ++ rest)) : AllMeet meets taken :=
  fun τ member => all τ (List.mem_append_left _ member)

theorem AllMeet.last {meets : σ → ε → Prop} {taken : List (Taken σ ε)} {s t : σ} {e : ε}
    (all : AllMeet meets (taken ++ [⟨s, e, t⟩])) : meets s e :=
  all ⟨s, e, t⟩ (by simp)

/-- The invariant rule: what holds at the start and is kept by every step that meets the condition
holds in every state such a run reaches. -/
theorem Run.invariant {step : σ → ε → Option σ} {start final : σ} {taken : List (Taken σ ε)}
    {meets : σ → ε → Prop} {Inv : σ → Prop} (run : Run step start taken final)
    (all : AllMeet meets taken) (initial : Inv start)
    (preserved : ∀ s e t, Inv s → meets s e → step s e = some t → Inv t) : Inv final := by
  induction run with
  | nil => exact initial
  | snoc _ moved ih => exact preserved _ _ _ (ih all.earlier) all.last moved

/-- The exact invariant rule: where a step keeps the invariant if and only if it meets the condition, all
states of a run have the invariant if and only if all its steps meet the condition. -/
theorem Run.invariant_iff {step : σ → ε → Option σ} {start final : σ} {taken : List (Taken σ ε)}
    {meets : σ → ε → Prop} {Inv : σ → Prop} (run : Run step start taken final) (initial : Inv start)
    (kept_iff : ∀ s e t, Inv s → step s e = some t → (Inv t ↔ meets s e)) :
    (∀ τ ∈ taken, Inv τ.after) ↔ AllMeet meets taken := by
  induction run with
  | nil => exact iff_of_true nofun nofun
  | @snoc taken s t e run moved ih =>
    have here : AllMeet meets taken → Inv s := fun all =>
      run.invariant all initial fun _ _ _ inv isMet moved => (kept_iff _ _ _ inv moved).mpr isMet
    simp only [AllMeet, List.forall_mem_append, List.forall_mem_singleton] at ih ⊢
    constructor
    · intro ⟨before, last⟩
      have all := ih.mp before
      exact ⟨all, (kept_iff s e t (here all) moved).mp last⟩
    · intro ⟨all, last⟩
      exact ⟨ih.mpr all, (kept_iff s e t (here all) moved).mpr last⟩

/-- Every transition of a run is a step from a state that a shorter run reaches. -/
theorem Run.taken_step {step : σ → ε → Option σ} {start final : σ} {taken : List (Taken σ ε)}
    (run : Run step start taken final) {τ : Taken σ ε} (member : τ ∈ taken) :
    step τ.before τ.event = some τ.after ∧
      ∃ earlier later, taken = earlier ++ later ∧ Run step start earlier τ.before := by
  induction run with
  | nil => cases member
  | @snoc taken s t e run moved ih =>
    rcases List.mem_append.mp member with inside | last
    · obtain ⟨stepped, earlier, later, split, reached⟩ := ih inside
      exact ⟨stepped, earlier, later ++ [⟨s, e, t⟩], by simp [split], reached⟩
    · rw [List.mem_singleton] at last
      subst last
      exact ⟨moved, taken, [⟨s, e, t⟩], rfl, run⟩

/-! ## Places in a run -/

/-- The first entry of a list that has a property. -/
theorem exists_first {α : Type*} {p : α → Bool} {list : List α} (some_ : 0 < list.countP p) :
    ∃ before x after, list = before ++ x :: after ∧ p x = true ∧ ∀ y ∈ before, p y = false := by
  obtain ⟨x, found⟩ := Option.isSome_iff_exists.mp (List.find?_isSome.mpr (List.countP_pos_iff.mp some_))
  obtain ⟨holds, before, after, split, none_⟩ := List.find?_eq_some_iff_append.mp found
  exact ⟨before, x, after, split, holds, by simpa using none_⟩

/-- Two entries that have a property, with none between them. -/
theorem exists_successive {α : Type*} {p : α → Bool} {list : List α} (two : 1 < list.countP p) :
    ∃ before x between y after, list = before ++ x :: (between ++ y :: after) ∧ p x = true ∧
      p y = true ∧ ∀ z ∈ between, p z = false := by
  obtain ⟨before, x, rest, rfl, holds, none_⟩ := exists_first (Nat.lt_of_succ_lt two)
  have nothing : before.countP p = 0 := List.countP_eq_zero.mpr (by simpa using none_)
  rw [List.countP_append, List.countP_cons, nothing, if_pos holds] at two
  obtain ⟨between, y, after, rfl, holds', none'⟩ := exists_first (show 0 < rest.countP p by omega)
  exact ⟨before, x, between, y, after, rfl, holds, holds', none'⟩

/-! ## Playing a list of events -/

/-- The transitions that the events take, up to the first one that is not enabled. -/
def trace (step : σ → ε → Option σ) : σ → List ε → List (Taken σ ε)
  | _, [] => []
  | s, e :: events =>
    match step s e with
    | none => []
    | some t => ⟨s, e, t⟩ :: trace step t events

/-- The state after the events, up to the first one that is not enabled. -/
def outcome (step : σ → ε → Option σ) : σ → List ε → σ
  | s, [] => s
  | s, e :: events =>
    match step s e with
    | none => s
    | some t => outcome step t events

theorem Run.cons {step : σ → ε → Option σ} {s t final : σ} {e : ε} {taken : List (Taken σ ε)}
    (moved : step s e = some t) (run : Run step t taken final) :
    Run step s (⟨s, e, t⟩ :: taken) final := by
  induction run with
  | nil => exact Run.nil.snoc moved
  | snoc _ stepped ih => exact ih.snoc stepped

theorem Run.append {step : σ → ε → Option σ} {s t final : σ} {taken later : List (Taken σ ε)}
    (run : Run step s taken t) (onward : Run step t later final) : Run step s (taken ++ later) final := by
  induction onward with
  | nil =>
    rw [List.append_nil]
    exact run
  | snoc _ stepped ih =>
    rw [← List.append_assoc]
    exact ih.snoc stepped

/-- Playing events is a run, whichever of them are enabled. -/
theorem run_trace (step : σ → ε → Option σ) (s : σ) (events : List ε) :
    Run step s (trace step s events) (outcome step s events) := by
  induction events generalizing s with
  | nil => exact .nil
  | cons e events ih =>
    cases moved : step s e with
    | none =>
      simp only [trace, outcome, moved]
      exact .nil
    | some t =>
      simp only [trace, outcome, moved]
      exact (ih t).cons moved

theorem event_mem_of_mem_trace {step : σ → ε → Option σ} {s : σ} {events : List ε} {τ : Taken σ ε}
    (member : τ ∈ trace step s events) : τ.event ∈ events := by
  induction events generalizing s with
  | nil => cases member
  | cons e events ih =>
    cases moved : step s e with
    | none => simp [trace, moved] at member
    | some t =>
      simp only [trace, moved, List.mem_cons] at member
      obtain rfl | later := member
      · exact List.mem_cons_self
      · exact List.mem_cons_of_mem _ (ih later)

theorem Run.eq_of_nil {step : σ → ε → Option σ} {start final : σ} (run : Run step start [] final) :
    final = start := by
  generalize none_ : [] = taken at run
  cases run with
  | nil => rfl
  | snoc => simp at none_

theorem Run.unsnoc {step : σ → ε → Option σ} {start final : σ} {taken : List (Taken σ ε)}
    {τ : Taken σ ε} (run : Run step start (taken ++ [τ]) final) :
    Run step start taken τ.before ∧ step τ.before τ.event = some τ.after ∧ τ.after = final := by
  generalize whole : taken ++ [τ] = all at run
  cases run with
  | nil => simp at whole
  | snoc run moved =>
    obtain ⟨rfl, last⟩ := List.append_inj' whole rfl
    cases last
    exact ⟨run, moved, rfl⟩

/-- A run of two parts passes through the state between them. -/
theorem Run.split {step : σ → ε → Option σ} {start final : σ} {taken later : List (Taken σ ε)}
    (run : Run step start (taken ++ later) final) :
    ∃ middle, Run step start taken middle ∧ Run step middle later final := by
  induction later using List.reverseRecOn generalizing final with
  | nil =>
    rw [List.append_nil] at run
    exact ⟨final, run, .nil⟩
  | append_singleton later τ ih =>
    rw [← List.append_assoc] at run
    obtain ⟨before, moved, rfl⟩ := run.unsnoc
    obtain ⟨middle, first, second⟩ := ih before
    exact ⟨middle, first, second.snoc moved⟩

theorem Run.uncons {step : σ → ε → Option σ} {start final : σ} {τ : Taken σ ε}
    {taken : List (Taken σ ε)} (run : Run step start (τ :: taken) final) :
    τ.before = start ∧ step τ.before τ.event = some τ.after ∧ Run step τ.after taken final := by
  have parts : Run step start ([τ] ++ taken) final := run
  obtain ⟨middle, first, rest⟩ := parts.split
  have single : Run step start ([] ++ [τ]) middle := first
  obtain ⟨before, moved, rfl⟩ := single.unsnoc
  exact ⟨before.eq_of_nil, moved, rest⟩

/-- A simulation carries runs over: `f` maps states, `g` maps events. -/
theorem Run.map {σ' ε' : Type*} {step : σ → ε → Option σ} {step' : σ' → ε' → Option σ'} (f : σ → σ')
    (g : σ → ε → ε') {start final : σ} {taken : List (Taken σ ε)} (run : Run step start taken final)
    (commutes : ∀ τ ∈ taken, step' (f τ.before) (g τ.before τ.event) = some (f τ.after)) :
    Run step' (f start) (taken.map fun τ => ⟨f τ.before, g τ.before τ.event, f τ.after⟩) (f final) := by
  induction run with
  | nil => exact .nil
  | @snoc taken s t e _ _ ih =>
    rw [List.map_append]
    apply (ih fun τ member => commutes τ (List.mem_append_left _ member)).snoc
    exact commutes ⟨s, e, t⟩ (List.mem_append_right _ (List.mem_singleton.mpr rfl))

/-- A part of a system that makes steps of its own, or none, along with the system: a run of the system is
a run of the part. -/
theorem Run.part {σ' ε' : Type*} {step : σ → ε → Option σ} {step' : σ' → ε' → Option σ'} (f : σ → σ')
    {Inv : σ → Prop} {meets : σ' → ε' → Prop} {start final : σ} {taken : List (Taken σ ε)}
    (run : Run step start taken final) (initial : Inv start)
    (follows : ∀ s e t, Inv s → step s e = some t →
      Inv t ∧ (f t = f s ∨ ∃ e', meets (f s) e' ∧ step' (f s) e' = some (f t))) :
    Inv final ∧ ∃ taken', Run step' (f start) taken' (f final) ∧ AllMeet meets taken' := by
  induction run with
  | nil => exact ⟨initial, [], .nil, nofun⟩
  | @snoc taken s t e run moved ih =>
    obtain ⟨inv, taken', part, all⟩ := ih
    obtain ⟨inv', same | ⟨e', meets', moved'⟩⟩ := follows s e t inv moved
    · exact ⟨inv', taken', same ▸ part, all⟩
    · refine ⟨inv', _, part.snoc moved', fun τ member => ?_⟩
      obtain old | new := List.mem_append.mp member
      · exact all τ old
      · obtain rfl := List.mem_singleton.mp new
        exact meets'

/-! ## Completion -/

/-- The waiting rule: where every step serves what is waited for or makes a measure smaller, a run of
as many steps as the measure says serves it. -/
theorem Run.served {step : σ → ε → Option σ} {start final : σ} {taken : List (Taken σ ε)}
    {meets : σ → ε → Prop} {Waiting : σ → Prop} (serves : σ → ε → Prop) (measure : σ → Nat)
    (run : Run step start taken final) (all : AllMeet meets taken) (waiting : Waiting start)
    (positive : ∀ s, Waiting s → 0 < measure s)
    (progress : ∀ s e t, Waiting s → meets s e → step s e = some t →
      serves s e ∨ Waiting t ∧ measure t < measure s)
    (enough : measure start ≤ taken.length) : ∃ τ ∈ taken, serves τ.before τ.event := by
  by_contra unserved
  push Not at unserved
  -- without service the measure has gone down in every step
  have down : Waiting final ∧ measure final + taken.length ≤ measure start := by
    clear enough
    induction run with
    | nil => exact ⟨waiting, by simp⟩
    | @snoc taken s t e _ moved ih =>
      obtain ⟨waits, less⟩ := ih all.earlier fun τ member => unserved τ (List.mem_append_left _ member)
      obtain served | ⟨waitsStill, smaller⟩ := progress s e t waits all.last moved
      · exact absurd served (unserved ⟨s, e, t⟩ (by simp))
      · refine ⟨waitsStill, ?_⟩
        simp only [List.length_append, List.length_singleton]
        omega
  have left := positive final down.1
  omega

/-- Where every step lowers a measure, a run is no longer than the measure of its start. -/
theorem Run.length_le {step : σ → ε → Option σ} {start final : σ} {taken : List (Taken σ ε)}
    {Inv : σ → Prop} (measure : σ → Nat) (run : Run step start taken final) (initial : Inv start)
    (lowers : ∀ s e t, Inv s → step s e = some t → Inv t ∧ measure t < measure s) :
    measure final + taken.length ≤ measure start := by
  have down : Inv final ∧ measure final + taken.length ≤ measure start := by
    induction run with
    | nil => exact ⟨initial, Nat.le_refl _⟩
    | @snoc taken s t e _ moved ih =>
      obtain ⟨inv, least⟩ := ih
      obtain ⟨inv', less⟩ := lowers s e t inv moved
      refine ⟨inv', ?_⟩
      rw [List.length_append, List.length_singleton]
      omega
  exact down.2

/-- The descent rule: where every state that has not reached the goal can take an allowed step that
makes a measure smaller, a run of allowed steps reaches the goal. -/
theorem exists_run_of_descent {step : σ → ε → Option σ} {allowed : ε → Prop} {Inv goal : σ → Prop}
    (measure : σ → Nat)
    (descends : ∀ s, Inv s → ¬ goal s →
      ∃ e t, allowed e ∧ step s e = some t ∧ Inv t ∧ measure t < measure s) {s : σ} (inv : Inv s) :
    ∃ taken final, Run step s taken final ∧ AllMeet (fun _ e => allowed e) taken ∧ goal final := by
  induction bound : measure s using Nat.strongRecOn generalizing s with
  | _ n ih =>
    by_cases reached : goal s
    · exact ⟨[], s, .nil, nofun, reached⟩
    · obtain ⟨e, t, isAllowed, moved, holds, smaller⟩ := descends s inv reached
      obtain ⟨taken, final, run, all, done⟩ := ih (measure t) (bound ▸ smaller) holds rfl
      refine ⟨⟨s, e, t⟩ :: taken, final, run.cons moved, fun τ member => ?_, done⟩
      rcases List.mem_cons.mp member with rfl | later
      · exact isAllowed
      · exact all τ later

/-! ## Reachability -/

/-- A run of steps that meet a condition leads from `s` to `t`. -/
def Reaches (step : σ → ε → Option σ) (meets : σ → ε → Prop) (s t : σ) : Prop :=
  ∃ taken, Run step s taken t ∧ AllMeet meets taken

theorem Reaches.refl {step : σ → ε → Option σ} {meets : σ → ε → Prop} (s : σ) : Reaches step meets s s :=
  ⟨[], .nil, fun _ listed => by cases listed⟩

theorem Reaches.trans {step : σ → ε → Option σ} {meets : σ → ε → Prop} {s t u : σ}
    (first : Reaches step meets s t) (second : Reaches step meets t u) : Reaches step meets s u := by
  obtain ⟨taken, run, all⟩ := first
  obtain ⟨later, run', all'⟩ := second
  refine ⟨taken ++ later, run.append run', fun τ listed => ?_⟩
  exact (List.mem_append.mp listed).elim (all τ) (all' τ)

theorem Reaches.cons {step : σ → ε → Option σ} {meets : σ → ε → Prop} {s t u : σ} {e : ε}
    (moved : step s e = some t) (meet : meets s e) (rest : Reaches step meets t u) : Reaches step meets s u := by
  obtain ⟨taken, run, all⟩ := rest
  exact ⟨_, run.cons moved, List.forall_mem_cons.mpr ⟨meet, all⟩⟩

/-! ## Views that follow the events -/

/-- A view of the state that every step changes in a way given by its event is, after a run, the result of the
events in their order. -/
theorem Run.view {μ : Type*} {step : σ → ε → Option σ} {start final : σ} {taken : List (Taken σ ε)}
    {meets : σ → ε → Prop} {Inv : σ → Prop} (run : Run step start taken final) (view : σ → μ)
    (act : μ → σ → ε → μ) (all : AllMeet meets taken) (initial : Inv start)
    (keeps : ∀ s e t, Inv s → meets s e → step s e = some t → Inv t)
    (follows : ∀ s e t, Inv s → meets s e → step s e = some t → view t = act (view s) s e) :
    view final = taken.foldl (fun seen τ => act seen τ.before τ.event) (view start) := by
  induction run with
  | nil => rfl
  | @snoc taken s t e run moved ih =>
    have inv : Inv s := run.invariant all.earlier initial keeps
    rw [List.foldl_append, ← ih all.earlier, follows s e t inv all.last moved]
    rfl

/-! ## Work that ends before an event

A scheduler that begins one piece of work only when the one before has ended: from the events of a run it can
be told what has been done. -/

/-- A run passes through the first of some events that it takes in this order. -/
theorem Run.split_event {step : σ → ε → Option σ} {start final : σ} {taken : List (Taken σ ε)} {e : ε}
    {events : List ε} (run : Run step start taken final)
    (inside : (e :: events).Sublist (taken.map Taken.event)) :
    ∃ before s t later, taken = before ++ ⟨s, e, t⟩ :: later ∧ Run step start before s ∧
      step s e = some t ∧ Run step t later final ∧ events.Sublist (later.map Taken.event) := by
  obtain ⟨front, back, split, here, rest⟩ := List.cons_sublist_iff.mp inside
  obtain ⟨earlier, others, rfl, rfl, rfl⟩ := List.map_eq_append_iff.mp split
  obtain ⟨τ, listed, rfl⟩ := List.mem_map.mp here
  obtain ⟨before, after, rfl⟩ := List.append_of_mem listed
  rw [List.append_assoc, List.cons_append] at run ⊢
  obtain ⟨s, first, second⟩ := run.split
  obtain ⟨rfl, moved, second⟩ := second.uncons
  refine ⟨before, τ.before, τ.after, after ++ others, rfl, first, moved, second, ?_⟩
  rw [List.map_append]
  exact rest.trans (List.sublist_append_right _ _)

/-- The completion rule: `begin_` sets work off, it stays under way or done, and where `next` is possible it is
done.  Then it is done before `next`. -/
theorem Run.completes {step : σ → ε → Option σ} {start final : σ} {taken : List (Taken σ ε)} {begin_ next : ε}
    {events : List ε} {meets : σ → ε → Prop} {Inv UnderWay Done : σ → Prop} (run : Run step start taken final)
    (all : AllMeet meets taken) (inside : (begin_ :: next :: events).Sublist (taken.map Taken.event))
    (initial : Inv start) (keeps : ∀ s e t, Inv s → meets s e → step s e = some t → Inv t)
    (begins : ∀ s t, Inv s → meets s begin_ → step s begin_ = some t → UnderWay t)
    (goesOn : ∀ s e t, Inv s → UnderWay s → meets s e → step s e = some t → UnderWay t)
    (ends : ∀ s t, Inv s → UnderWay s → step s next = some t → Done s) :
    ∃ s later, Run step s later final ∧ AllMeet meets later ∧
      (next :: events).Sublist (later.map Taken.event) ∧ Inv s ∧ Done s := by
  obtain ⟨before, s, t, later, rfl, first, moved, second, inside⟩ := run.split_event inside
  have inv : Inv s := first.invariant all.earlier initial keeps
  have meetsFirst : meets s begin_ := all ⟨s, begin_, t⟩ (by simp)
  have meetsLater : AllMeet meets later := fun τ listed => all τ (by simp [listed])
  obtain ⟨before', s', t', later', rfl, third, moved', fourth, inside'⟩ := second.split_event inside
  have kept : ∀ u e v, Inv u ∧ UnderWay u → meets u e → step u e = some v → Inv v ∧ UnderWay v :=
    fun u e v held meets moved => ⟨keeps u e v held.1 meets moved, goesOn u e v held.1 held.2 meets moved⟩
  have begun : Inv t ∧ UnderWay t := ⟨keeps s _ t inv meetsFirst moved, begins s t inv meetsFirst moved⟩
  have both : Inv s' ∧ UnderWay s' := third.invariant meetsLater.earlier begun kept
  exact ⟨s', _, fourth.cons moved', fun τ listed => meetsLater τ (List.mem_append_right _ listed),
    inside'.cons_cons next, both.1, ends s' t' both.1 both.2 moved'⟩

end Tda596Labs.Transition
