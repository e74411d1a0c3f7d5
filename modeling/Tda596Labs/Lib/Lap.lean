import Mathlib.Data.Finset.Card
import Mathlib.Data.Finset.Max
import Mathlib.Dynamics.PeriodicPts.Defs

/-! # Walks that climb and fall back

The members of a finite set stand at different heights below `2 * half`.  Below `half` a hop goes up
to the next member; from `half` on it falls back by `half`, to the first member that is not lower.
Let `peak` be the lowest member from `half` on and `foot` the member that `peak` falls back to.  Every
walk enters the members between `foot` and `peak`, and there it turns forever: each hop goes to the
next one, and from `peak` back to `foot`.
-/

namespace Tda596Labs.Lap

variable {α : Type*}

/-- The lowest member that is not below `bound`. -/
structure IsLowest (members : Finset α) (height : α → Nat) (bound : Nat) (x : α) : Prop where
  mem : x ∈ members
  reaches : bound ≤ height x
  least : ∀ z ∈ members, bound ≤ height z → height x ≤ height z

/-- What one hop does. -/
structure Hops (members : Finset α) (height : α → Nat) (half : Nat) (hop : α → α) : Prop where
  inj : Set.InjOn height members
  below : ∀ x ∈ members, height x < 2 * half
  hop_mem : ∀ x ∈ members, hop x ∈ members
  low : ∀ x ∈ members, height x < half → ∀ z ∈ members, height x < height z →
    height x < height (hop x) ∧ height (hop x) ≤ height z
  high : ∀ x ∈ members, half ≤ height x → IsLowest members height (height x - half) (hop x)

/-- The members from `foot` up to `peak`. -/
def lap [DecidableEq α] (members : Finset α) (height : α → Nat) (foot peak : α) : Finset α :=
  members.filter fun x => height foot ≤ height x ∧ height x ≤ height peak

variable {members : Finset α} {height : α → Nat} {half : Nat} {hop : α → α} {peak foot x w : α}

namespace Hops

variable (hops : Hops members height half hop)
include hops

theorem iterate_mem (member : x ∈ members) (n : Nat) : hop^[n] x ∈ members := by
  induction n with
  | zero => exact member
  | succ n ih =>
    rw [Function.iterate_succ_apply']
    exact hops.hop_mem _ ih

/-- As long as everything below `w` is low, a walk from below climbs to `w`. -/
theorem climbs (target : w ∈ members) (lower : ∀ z ∈ members, height z < height w → height z < half)
    (member : x ∈ members) (below : height x ≤ height w) : ∃ n, hop^[n] x = w := by
  -- The induction is on the height that is still missing.
  induction missing : height w - height x using Nat.strong_induction_on generalizing x with
  | _ m ih =>
    rcases Nat.eq_or_lt_of_le below with level | under
    · exact ⟨0, hops.inj member target level⟩
    · obtain ⟨up, notPast⟩ := hops.low x member (lower x member under) w target under
      obtain ⟨n, arrives⟩ := ih (height w - height (hop x)) (by omega) (hops.hop_mem x member) notPast rfl
      exact ⟨n + 1, arrives⟩

/-- Where every member is low, every walk reaches the highest one. -/
theorem climbs_to_top (low : ∀ z ∈ members, height z < half) (top : w ∈ members)
    (highest : ∀ z ∈ members, height z ≤ height w) (member : x ∈ members) : ∃ n, hop^[n] x = w :=
  hops.climbs top (fun z inside _ => low z inside) member (highest x member)

/-- A low member hops up, and not past `peak`. -/
theorem hop_of_low (isPeak : IsLowest members height half peak) (member : x ∈ members)
    (low : height x < half) : height x < height (hop x) ∧ height (hop x) ≤ height peak := by
  have peakReaches := isPeak.reaches
  exact hops.low x member low peak isPeak.mem (by omega)

/-- Up to `peak` a walk from below climbs to every member. -/
theorem climbs_below_peak (isPeak : IsLowest members height half peak) (target : w ∈ members)
    (toPeak : height w ≤ height peak) (member : x ∈ members) (below : height x ≤ height w) :
    ∃ n, hop^[n] x = w := by
  refine hops.climbs target (fun z inside under => ?_) member below
  by_contra high
  have := isPeak.least z inside (by omega)
  omega

end Hops

section Lap

variable [DecidableEq α] (hops : Hops members height half hop)
  (isPeak : IsLowest members height half peak)
  (isFoot : IsLowest members height (height peak - half) foot)
include hops isPeak isFoot

omit [DecidableEq α] hops in
theorem foot_le_peak : height foot ≤ height peak := isFoot.least peak isPeak.mem (by omega)

omit hops in
theorem peak_mem_lap : peak ∈ lap members height foot peak :=
  Finset.mem_filter.mpr ⟨isPeak.mem, foot_le_peak isPeak isFoot, Nat.le_refl _⟩

omit [DecidableEq α] in
theorem hop_peak : hop peak = foot := by
  have lands := hops.high peak isPeak.mem isPeak.reaches
  refine hops.inj lands.mem isFoot.mem ?_
  have up := lands.least foot isFoot.mem isFoot.reaches
  have down := isFoot.least _ lands.mem lands.reaches
  omega

/-- Falling back lands between `foot` and `peak`. -/
theorem hop_mem_lap_of_high (member : x ∈ members) (high : half ≤ height x) :
    hop x ∈ lap members height foot peak := by
  have lands := hops.high x member high
  have abovePeak := isPeak.least x member high
  have bound := hops.below x member
  have peakReaches := isPeak.reaches
  have fromFoot := isFoot.least _ lands.mem (by have := lands.reaches; omega)
  have toPeak := lands.least peak isPeak.mem (by omega)
  exact Finset.mem_filter.mpr ⟨lands.mem, fromFoot, toPeak⟩

theorem hop_mem_lap (inside : x ∈ lap members height foot peak) :
    hop x ∈ lap members height foot peak := by
  obtain ⟨member, fromFoot, toPeak⟩ := Finset.mem_filter.mp inside
  rcases Nat.lt_or_ge (height x) half with low | high
  · obtain ⟨up, notPast⟩ := hops.hop_of_low isPeak member low
    exact Finset.mem_filter.mpr ⟨hops.hop_mem x member, by omega, notPast⟩
  · exact hop_mem_lap_of_high hops isPeak isFoot member high

theorem iterate_mem_lap (inside : x ∈ lap members height foot peak) (n : Nat) :
    hop^[n] x ∈ lap members height foot peak := by
  induction n with
  | zero => exact inside
  | succ n ih =>
    rw [Function.iterate_succ_apply']
    exact hop_mem_lap hops isPeak isFoot ih

theorem enters_lap (member : x ∈ members) : ∃ n, hop^[n] x ∈ lap members height foot peak := by
  rcases Nat.lt_or_ge (height x) half with low | high
  · have peakReaches := isPeak.reaches
    obtain ⟨n, arrives⟩ := hops.climbs_below_peak isPeak isPeak.mem (Nat.le_refl _) member (by omega)
    exact ⟨n, by rw [arrives]; exact peak_mem_lap isPeak isFoot⟩
  · exact ⟨1, hop_mem_lap_of_high hops isPeak isFoot member high⟩

/-- Inside the lap every member is reached from every other. -/
theorem reaches_in_lap (inside : x ∈ lap members height foot peak)
    (target : w ∈ lap members height foot peak) : ∃ n, hop^[n] x = w := by
  obtain ⟨member, _, toPeak⟩ := Finset.mem_filter.mp inside
  obtain ⟨targetMember, fromFoot, targetToPeak⟩ := Finset.mem_filter.mp target
  obtain ⟨up, atPeak⟩ := hops.climbs_below_peak isPeak isPeak.mem (Nat.le_refl _) member toPeak
  obtain ⟨on, arrives⟩ := hops.climbs_below_peak isPeak targetMember targetToPeak isFoot.mem fromFoot
  refine ⟨on + 1 + up, ?_⟩
  rw [Function.iterate_add_apply, atPeak, Function.iterate_succ_apply, hop_peak hops isPeak isFoot,
    arrives]

theorem mem_periodicPts (inside : x ∈ lap members height foot peak) : x ∈ Function.periodicPts hop := by
  obtain ⟨n, back⟩ :=
    reaches_in_lap hops isPeak isFoot (hop_mem_lap hops isPeak isFoot inside) inside
  exact ⟨n + 1, Nat.succ_pos n, back⟩

/-- One turn visits every member of the lap once. -/
theorem minimalPeriod_eq_card (inside : x ∈ lap members height foot peak) :
    Function.minimalPeriod hop x = (lap members height foot peak).card := by
  have positive :=
    Function.minimalPeriod_pos_of_mem_periodicPts (mem_periodicPts hops isPeak isFoot inside)
  have visits : (Finset.range (Function.minimalPeriod hop x)).image (fun n => hop^[n] x)
      = lap members height foot peak := by
    ext w
    constructor
    · intro visited
      obtain ⟨n, _, rfl⟩ := Finset.mem_image.mp visited
      exact iterate_mem_lap hops isPeak isFoot inside n
    · intro target
      obtain ⟨n, arrives⟩ := reaches_in_lap hops isPeak isFoot inside target
      refine Finset.mem_image.mpr ⟨n % Function.minimalPeriod hop x, ?_, ?_⟩
      · exact Finset.mem_range.mpr (Nat.mod_lt n positive)
      · exact Function.iterate_mod_minimalPeriod_eq.trans arrives
  rw [← visits, Finset.card_image_of_injOn, Finset.card_range]
  simpa [Set.InjOn] using Function.iterate_injOn_Iio_minimalPeriod (f := hop) (x := x)

theorem mem_lap_of_return (member : x ∈ members) {i : Nat} (later : 0 < i) (back : hop^[i] x = x) :
    x ∈ lap members height foot peak := by
  obtain ⟨n, entered⟩ := enters_lap hops isPeak isFoot member
  -- A whole number of turns, long enough to be past the entry.
  have turns : hop^[i * n - n + n] x = x := by
    rw [Nat.sub_add_cancel (Nat.le_mul_of_pos_left n later)]
    have periodic : Function.IsPeriodicPt hop i x := back
    exact periodic.mul_const n
  rw [Function.iterate_add_apply] at turns
  rw [← turns]
  exact iterate_mem_lap hops isPeak isFoot entered _

/-- A walk comes back to its start within `limit` hops without meeting a member that knows exactly if
it starts in the lap, nobody there knows, and a turn is not longer than `limit`. -/
theorem returns_unknowing_iff {knows : α → Prop} {limit : Nat} (member : x ∈ members) :
    (∃ i, 0 < i ∧ i ≤ limit ∧ hop^[i] x = x ∧ ∀ j < i, ¬ knows (hop^[j] x)) ↔
      x ∈ lap members height foot peak ∧ (∀ w ∈ lap members height foot peak, ¬ knows w) ∧
        (lap members height foot peak).card ≤ limit := by
  constructor
  · rintro ⟨i, later, within, back, unknowing⟩
    have inside := mem_lap_of_return hops isPeak isFoot member later back
    have turn := minimalPeriod_eq_card hops isPeak isFoot inside
    have periodic : Function.IsPeriodicPt hop i x := back
    have atLeast := periodic.minimalPeriod_le later
    refine ⟨inside, fun w target => ?_, by omega⟩
    obtain ⟨n, arrives⟩ := reaches_in_lap hops isPeak isFoot inside target
    rw [← arrives, ← periodic.iterate_mod_apply n]
    exact unknowing _ (Nat.mod_lt n later)
  · rintro ⟨inside, unknowing, within⟩
    have turn := minimalPeriod_eq_card hops isPeak isFoot inside
    have positive :=
      Function.minimalPeriod_pos_of_mem_periodicPts (mem_periodicPts hops isPeak isFoot inside)
    exact ⟨(lap members height foot peak).card, by omega, within,
      turn ▸ Function.iterate_minimalPeriod,
      fun j _ => unknowing _ (iterate_mem_lap hops isPeak isFoot inside j)⟩

/-- A walk meets a member that knows exactly if there is one at its start, on its way up to `peak`, or
in the lap. -/
theorem meets_knowing_iff {knows : α → Prop} (member : x ∈ members) :
    (∃ n, knows (hop^[n] x)) ↔
      ∃ w ∈ members, knows w ∧ (w = x ∨ w ∈ lap members height foot peak ∨
        (height x ≤ height w ∧ height w ≤ height peak)) := by
  constructor
  · rintro ⟨n, holds⟩
    refine ⟨hop^[n] x, hops.iterate_mem member n, holds, ?_⟩
    clear holds
    induction n with
    | zero => exact .inl rfl
    | succ n ih =>
      rw [Function.iterate_succ_apply']
      have reached := hops.iterate_mem member n
      rcases Nat.lt_or_ge (height (hop^[n] x)) half with low | high
      · obtain ⟨up, notPast⟩ := hops.hop_of_low isPeak reached low
        rcases ih with start | inside | ⟨above, _⟩
        · rw [start] at up notPast ⊢
          exact .inr (.inr ⟨by omega, notPast⟩)
        · exact .inr (.inl (hop_mem_lap hops isPeak isFoot inside))
        · exact .inr (.inr ⟨by omega, notPast⟩)
      · exact .inr (.inl (hop_mem_lap_of_high hops isPeak isFoot reached high))
  · rintro ⟨w, target, holds, start | inside | ⟨above, notPast⟩⟩
    · exact ⟨0, start ▸ holds⟩
    · obtain ⟨n, entered⟩ := enters_lap hops isPeak isFoot member
      obtain ⟨m, arrives⟩ := reaches_in_lap hops isPeak isFoot entered inside
      exact ⟨m + n, by rw [Function.iterate_add_apply, arrives]; exact holds⟩
    · obtain ⟨n, arrives⟩ := hops.climbs_below_peak isPeak target notPast member above
      exact ⟨n, arrives ▸ holds⟩

end Lap

end Tda596Labs.Lap
