import Mathlib.Data.List.MinMax
import Mathlib.Data.List.Nodup
import Mathlib.Data.List.Perm.Subperm

/-! # Points on a circle

A circle has the points `0, …, size - 1`.  `cw size a b` is the number of clockwise steps from `a` to
`b`, and `around size a b` the same with a full turn in place of no step.  A `Ring` is a non-empty list
of members placed at different points; `successor` is the first member met clockwise from a point,
`next` and `previous` are the neighbours of a member.

Seen from a fixed point `key`, every member has its distance `cw size key`.  Distances are different,
the successor of `key` is the member with the least one, and `next` climbs from a distance to the
next larger one, until the farthest member comes back to the successor of `key`.
-/

namespace Tda596Labs.Circle

variable {size a b c d k : Nat}

/-- The clockwise steps from `a` to `b`. -/
def cw (size a b : Nat) : Nat := if a ≤ b then b - a else b + size - a

/-- The clockwise steps from `a` to `b`, at least one. -/
def around (size a b : Nat) : Nat := if a < b then b - a else b + size - a

theorem cw_eq (a b : Nat) : cw size a b = if a ≤ b then b - a else b + size - a := rfl

@[simp] theorem cw_self : cw size a a = 0 := by simp [cw]

/-- `cw size a b` steps from `a` lead to `b`, with at most one turn. -/
theorem cw_spec (ha : a < size) (hb : b < size) :
    cw size a b < size ∧ (a + cw size a b = b ∨ a + cw size a b = b + size) := by
  unfold cw
  split <;> omega

theorem around_spec (ha : a < size) (hb : b < size) :
    0 < around size a b ∧ around size a b ≤ size ∧
      (a + around size a b = b ∨ a + around size a b = b + size) := by
  unfold around
  split <;> omega

theorem cw_lt (ha : a < size) (hb : b < size) : cw size a b < size := (cw_spec ha hb).1

theorem cw_inj (ha : a < size) (hb : b < size) (hc : c < size) (same : cw size a b = cw size a c) : b = c := by
  have toB := cw_spec ha hb
  have toC := cw_spec ha hc
  omega

theorem cw_inj_left (ha : a < size) (hb : b < size) (hc : c < size) (same : cw size a c = cw size b c) : a = b := by
  have fromA := cw_spec ha hc
  have fromB := cw_spec hb hc
  omega

/-- Distances from `a` are differences of distances from any other point. -/
theorem cw_cw (ha : a < size) (hb : b < size) (hk : k < size) :
    cw size (cw size k a) (cw size k b) = cw size a b := by
  have toA := cw_spec hk ha
  have toB := cw_spec hk hb
  have moved := cw_spec toA.1 toB.1
  have direct := cw_spec ha hb
  omega

theorem around_cw (ha : a < size) (hb : b < size) (hk : k < size) :
    around size (cw size k a) (cw size k b) = around size a b := by
  have toA := cw_spec hk ha
  have toB := cw_spec hk hb
  have moved := around_spec toA.1 toB.1
  have direct := around_spec ha hb
  omega

theorem around_eq_cw (apart : a ≠ b) : around size a b = cw size a b := by
  unfold around cw
  split <;> split <;> omega

theorem around_le_add (ha : a < size) (hb : b < size) (hc : c < size) :
    around size a c ≤ around size a b + around size b c := by
  have toB := around_spec ha hb
  have onward := around_spec hb hc
  have direct := around_spec ha hc
  omega

/-- A point that is not met between `a` and `b` is met after `b`. -/
theorem around_eq_add (ha : a < size) (hb : b < size) (hc : c < size) (apart : c ≠ b)
    (outside : around size a b ≤ around size c b) :
    around size a c = around size a b + around size b c := by
  have toB := around_spec ha hb
  have back := around_spec hc hb
  have onward := around_spec hb hc
  have direct := around_spec ha hc
  omega

/-- Moving on by `d` adds `d` to the distance, up to one turn. -/
theorem cw_add_mod (ha : a < size) (hk : k < size) (hd : d < size) :
    cw size k ((a + d) % size) =
      if cw size k a + d < size then cw size k a + d else cw size k a + d - size := by
  have wraps : (a + d) % size < size ∧ ((a + d) % size = a + d ∨ (a + d) % size + size = a + d) := by
    by_cases short : a + d < size
    · rw [Nat.mod_eq_of_lt short]
      omega
    · rw [Nat.mod_eq_sub_mod (by omega), Nat.mod_eq_of_lt (by omega)]
      omega
  have toA := cw_spec hk ha
  have moved := cw_spec hk wraps.1
  split <;> omega

theorem cw_eq_emod (ha : a < size) (hb : b < size) : (cw size a b : Int) = ((b : Int) - a) % size := by
  unfold cw
  split
  · rw [Int.emod_eq_of_lt (by omega) (by omega)]
    omega
  · rw [← Int.add_emod_right, Int.emod_eq_of_lt (by omega) (by omega)]
    omega

/-- Distances stay when the circle is turned. -/
theorem cw_rotate (ha : a < size) (hb : b < size) (d : Nat) :
    cw size ((a + d) % size) ((b + d) % size) = cw size a b := by
  have positive : 0 < size := by omega
  have turned := cw_eq_emod (Nat.mod_lt (a + d) positive) (Nat.mod_lt (b + d) positive)
  have direct := cw_eq_emod ha hb
  push_cast at turned
  rw [← Int.sub_emod, Int.add_sub_add_right] at turned
  omega

/-- What is met in the order `a`, `b`, `c` from `k` on is met in this order from `a` on. -/
theorem cw_le_of_met (hk : k < size) (ha : a < size) (hb : b < size) (hc : c < size)
    (first : cw size k a ≤ cw size k b) (second : cw size k b ≤ cw size k c) :
    cw size a b ≤ cw size a c := by
  have toA := cw_spec hk ha
  have toB := cw_spec hk hb
  have toC := cw_spec hk hc
  have onB := cw_spec ha hb
  have onC := cw_spec ha hc
  omega

/-- From the closer one of `a` and `b` the point `c` is met before the other. -/
theorem cw_le_iff_closer (ha : a < size) (hb : b < size) (hc : c < size) (apart : b ≠ c) :
    cw size a c ≤ cw size a b ↔ cw size a c < cw size b c := by
  have aToC := cw_spec ha hc
  have aToB := cw_spec ha hb
  have bToC := cw_spec hb hc
  omega

/-- Two arcs with the same end and the same points begin at the same point. -/
theorem arc_start_inj (hc : c < size) (ha : a < size) (hb : b < size)
    (same : ∀ k < size, cw size k c ≤ cw size k a ↔ cw size k c ≤ cw size k b) : a = b := by
  have atA := same a ha
  have atB := same b hb
  rw [cw_self] at atA atB
  have aToC := cw_spec ha hc
  have bToC := cw_spec hb hc
  have aToB := cw_spec ha hb
  have bToA := cw_spec hb ha
  omega

/-- Going clockwise from `a`, the point `k` is met before `b`. -/
def Inside (size a k b : Nat) : Prop := a ≠ k ∧ cw size a k < cw size a b

instance : Decidable (Inside size a k b) := inferInstanceAs (Decidable (_ ∧ _))

theorem inside_iff_cw (ha : a < size) (hk : k < size) (hb : b < size) (notB : k ≠ b) :
    Inside size a k b ↔ cw size k b < cw size k a := by
  have toK := cw_spec ha hk
  have toB := cw_spec ha hb
  have onward := cw_spec hk hb
  have back := cw_spec hk ha
  unfold Inside
  omega

/-! ## Rings -/

/-- A non-empty list of members at pairwise different points of the circle. -/
structure Ring {α : Type*} (size : Nat) (position : α → Nat) where
  members : List α
  nonempty : members ≠ []
  bounded : ∀ x ∈ members, position x < size
  distinct : (members.map position).Nodup

namespace Ring

variable {α : Type*} {position : α → Nat} (ring : Ring size position) {key : Nat} {x y z : α}

/-- The member of least cost. -/
def least (cost : α → Nat) : α :=
  (ring.members.argmin cost).get (by
    rw [Option.isSome_iff_ne_none, ne_eq, List.argmin_eq_none]
    exact ring.nonempty)

theorem least_mem_argmin (cost : α → Nat) : ring.least cost ∈ ring.members.argmin cost :=
  Option.get_mem _

theorem least_mem (cost : α → Nat) : ring.least cost ∈ ring.members :=
  List.argmin_mem (ring.least_mem_argmin cost)

theorem least_le (cost : α → Nat) (member : z ∈ ring.members) : cost (ring.least cost) ≤ cost z :=
  List.le_of_mem_argmin member (ring.least_mem_argmin cost)

theorem position_inj (hx : x ∈ ring.members) (hy : y ∈ ring.members)
    (same : position x = position y) : x = y :=
  List.inj_on_of_nodup_map ring.distinct hx hy same

/-- The first member met going clockwise from the point `key`. -/
def successor (key : Nat) : α := ring.least fun x => cw size key (position x)

/-- The member after `x`, which is `x` itself when there is no other. -/
def next (x : α) : α := ring.least fun z => around size (position x) (position z)

/-- The member before `x`, which is `x` itself when there is no other. -/
def previous (x : α) : α := ring.least fun z => around size (position z) (position x)

/-- The `n` members after `x`, with wrapping. -/
def following : α → Nat → List α
  | _, 0 => []
  | x, n + 1 => ring.next x :: following (ring.next x) n

@[simp] theorem length_following (n : Nat) : (ring.following x n).length = n := by
  induction n generalizing x with
  | zero => rfl
  | succ n ih => rw [following, List.length_cons, ih]

@[simp] theorem successor_mem : ring.successor key ∈ ring.members := ring.least_mem _

@[simp] theorem next_mem : ring.next x ∈ ring.members := ring.least_mem _

@[simp] theorem previous_mem : ring.previous x ∈ ring.members := ring.least_mem _

theorem mem_of_mem_following {a : α} {n : Nat} (listed : a ∈ ring.following x n) : a ∈ ring.members := by
  induction n generalizing x with
  | zero => cases listed
  | succ n ih =>
    obtain rfl | later := List.mem_cons.mp listed
    · exact ring.next_mem
    · exact ih later

theorem take_following (m n : Nat) : (ring.following x n).take m = ring.following x (min m n) := by
  induction m generalizing x n with
  | zero => simp [following]
  | succ m ih =>
    cases n with
    | zero => simp [following]
    | succ n => rw [following, List.take_succ_cons, ih, Nat.succ_min_succ, following]

theorem successor_le (member : z ∈ ring.members) :
    cw size key (position (ring.successor key)) ≤ cw size key (position z) :=
  ring.least_le (fun x => cw size key (position x)) member

/-- Seen from one point, two members are at different distances. -/
theorem cw_position_inj (hkey : key < size) (hx : x ∈ ring.members) (hy : y ∈ ring.members)
    (same : cw size key (position x) = cw size key (position y)) : x = y :=
  ring.position_inj hx hy (cw_inj hkey (ring.bounded x hx) (ring.bounded y hy) same)

theorem eq_successor (hkey : key < size) (member : x ∈ ring.members)
    (first : ∀ z ∈ ring.members, cw size key (position x) ≤ cw size key (position z)) :
    x = ring.successor key :=
  ring.cw_position_inj hkey member ring.successor_mem
    (Nat.le_antisymm (first _ ring.successor_mem) (ring.successor_le member))

/-! ## Neighbours -/

theorem next_le (member : z ∈ ring.members) :
    around size (position x) (position (ring.next x)) ≤ around size (position x) (position z) :=
  ring.least_le (fun z => around size (position x) (position z)) member

theorem previous_le (member : z ∈ ring.members) :
    around size (position (ring.previous x)) (position x) ≤ around size (position z) (position x) :=
  ring.least_le (fun z => around size (position z) (position x)) member

theorem eq_next (hx : x ∈ ring.members) (hy : y ∈ ring.members)
    (first : ∀ z ∈ ring.members,
      around size (position x) (position y) ≤ around size (position x) (position z)) :
    y = ring.next x := by
  have least := ring.next_le (x := x) hy
  have first := first _ (ring.next_mem (x := x))
  have boundX := ring.bounded x hx
  have boundY := ring.bounded y hy
  have boundNext := ring.bounded _ (ring.next_mem (x := x))
  refine ring.position_inj hy ring.next_mem ?_
  simp only [around] at least first
  split_ifs at least first <;> omega

theorem eq_previous (hx : x ∈ ring.members) (hy : y ∈ ring.members)
    (last : ∀ z ∈ ring.members,
      around size (position y) (position x) ≤ around size (position z) (position x)) :
    y = ring.previous x := by
  have least := ring.previous_le (x := x) hy
  have last := last _ (ring.previous_mem (x := x))
  have boundX := ring.bounded x hx
  have boundY := ring.bounded y hy
  have boundPrevious := ring.bounded _ (ring.previous_mem (x := x))
  refine ring.position_inj hy ring.previous_mem ?_
  simp only [around] at least last
  split_ifs at least last <;> omega

theorem next_previous (member : x ∈ ring.members) : ring.next (ring.previous x) = x := by
  refine (ring.eq_next ring.previous_mem member fun z inside => ?_).symm
  -- A member `z` strictly between the previous member and `x` would be closer to `x`.
  have closest := ring.previous_le (x := x) inside
  have boundX := ring.bounded x member
  have boundZ := ring.bounded z inside
  have boundPrevious := ring.bounded _ (ring.previous_mem (x := x))
  simp only [around] at closest ⊢
  split_ifs at closest ⊢ <;> omega

theorem previous_next (member : x ∈ ring.members) : ring.previous (ring.next x) = x := by
  refine (ring.eq_previous ring.next_mem member fun z inside => ?_).symm
  have closest := ring.next_le (x := x) inside
  have boundX := ring.bounded x member
  have boundZ := ring.bounded z inside
  have boundNext := ring.bounded _ (ring.next_mem (x := x))
  simp only [around] at closest ⊢
  split_ifs at closest ⊢ <;> omega

/-- A member that is its own neighbour is the only one. -/
theorem eq_of_next_self (member : x ∈ ring.members) (alone : ring.next x = x)
    (inside : z ∈ ring.members) : z = x := by
  have closest := ring.next_le (x := x) inside
  rw [alone] at closest
  have boundX := ring.bounded x member
  have boundZ := ring.bounded z inside
  refine ring.position_inj inside member ?_
  simp only [around] at closest
  split_ifs at closest <;> omega

theorem next_ne (two : 2 ≤ ring.members.length) (member : x ∈ ring.members) : ring.next x ≠ x := by
  intro alone
  have single : ring.members ⊆ [x] :=
    fun z inside => List.mem_singleton.mpr (ring.eq_of_next_self member alone inside)
  have short := ((List.Nodup.of_map _ ring.distinct).subperm single).length_le
  rw [List.length_singleton] at short
  omega

/-! ## Neighbours seen from a point -/

theorem next_of_lt (hkey : key < size) (hx : x ∈ ring.members) (hz : z ∈ ring.members)
    (farther : cw size key (position x) < cw size key (position z)) :
    cw size key (position x) < cw size key (position (ring.next x)) ∧
      cw size key (position (ring.next x)) ≤ cw size key (position z) := by
  have closest := ring.next_le (x := x) hz
  have boundX := cw_lt hkey (ring.bounded x hx)
  have boundZ := cw_lt hkey (ring.bounded z hz)
  have boundNext := cw_lt hkey (ring.bounded _ (ring.next_mem (x := x)))
  rw [← around_cw (ring.bounded x hx) (ring.bounded z hz) hkey,
    ← around_cw (ring.bounded x hx) (ring.bounded _ ring.next_mem) hkey] at closest
  simp only [around] at closest
  split_ifs at closest <;> omega

/-- The farthest member is followed by the first one. -/
theorem next_of_farthest (hkey : key < size) (hx : x ∈ ring.members)
    (farthest : ∀ z ∈ ring.members, cw size key (position z) ≤ cw size key (position x)) :
    ring.next x = ring.successor key := by
  refine ring.eq_successor hkey ring.next_mem fun z inside => ?_
  have closest := ring.next_le (x := x) inside
  have boundX := cw_lt hkey (ring.bounded x hx)
  have boundZ := cw_lt hkey (ring.bounded z inside)
  have boundNext := cw_lt hkey (ring.bounded _ (ring.next_mem (x := x)))
  have belowZ := farthest z inside
  have belowNext := farthest _ (ring.next_mem (x := x))
  rw [← around_cw (ring.bounded x hx) (ring.bounded z inside) hkey,
    ← around_cw (ring.bounded x hx) (ring.bounded _ ring.next_mem) hkey] at closest
  simp only [around] at closest
  split_ifs at closest <;> omega

/-- The member before the successor of `key` is the one that is farther than its next member. -/
theorem next_eq_successor_iff (hkey : key < size) (hx : x ∈ ring.members) (other : ring.next x ≠ x) :
    ring.next x = ring.successor key ↔
      cw size key (position (ring.next x)) < cw size key (position x) := by
  constructor
  · intro first
    have least : cw size key (position (ring.successor key)) ≤ cw size key (position x) :=
      ring.successor_le hx
    rw [← first] at least
    exact lt_of_le_of_ne least fun same => other (ring.cw_position_inj hkey ring.next_mem hx same)
  · intro closer
    refine ring.next_of_farthest hkey hx fun z inside => ?_
    by_contra farther
    have climbs := (ring.next_of_lt hkey hx inside (not_le.mp farther)).1
    omega

/-- Only the successor of `key` has its previous member at no smaller distance. -/
theorem cw_le_previous_iff (hkey : key < size) (hx : x ∈ ring.members) :
    cw size key (position x) ≤ cw size key (position (ring.previous x)) ↔ x = ring.successor key := by
  have boundX := cw_lt hkey (ring.bounded x hx)
  have boundPrevious := cw_lt hkey (ring.bounded _ (ring.previous_mem (x := x)))
  constructor
  · intro before
    refine ring.eq_successor hkey hx fun z inside => ?_
    have closest := ring.previous_le (x := x) inside
    have boundZ := cw_lt hkey (ring.bounded z inside)
    rw [← around_cw (ring.bounded z inside) (ring.bounded x hx) hkey,
      ← around_cw (ring.bounded _ ring.previous_mem) (ring.bounded x hx) hkey] at closest
    simp only [around] at closest
    split_ifs at closest <;> omega
  · rintro rfl
    exact ring.successor_le ring.previous_mem

/-! ## Walking backwards -/

/-- The number of members met from `key` on before `x`. -/
def metBefore (key : Nat) (x : α) : Nat :=
  ring.members.countP fun z => cw size key (position z) < cw size key (position x)

theorem metBefore_lt (member : x ∈ ring.members) : ring.metBefore key x < ring.members.length := by
  refine lt_of_le_of_ne List.countP_le_length fun all => ?_
  have itself := List.countP_eq_length.mp all x member
  simp at itself

/-- Fewer members are met before the previous member, down to the first one. -/
theorem metBefore_previous_lt (hkey : key < size) (hx : x ∈ ring.members) (later : x ≠ ring.successor key) :
    ring.metBefore key (ring.previous x) < ring.metBefore key x := by
  have closer : cw size key (position (ring.previous x)) < cw size key (position x) :=
    not_le.mp fun before => later ((ring.cw_le_previous_iff hkey hx).mp before)
  obtain ⟨before, after, split⟩ := List.append_of_mem (ring.previous_mem (x := x))
  -- the previous member itself is met before `x` and not before itself
  have mono : ∀ part : List α,
      part.countP (fun z => cw size key (position z) < cw size key (position (ring.previous x))) ≤
        part.countP fun z => cw size key (position z) < cw size key (position x) := fun part =>
    List.countP_mono_left fun z _ nearer => by simp only [decide_eq_true_eq] at nearer ⊢; omega
  have first := mono before
  have second := mono after
  rw [metBefore, metBefore, split, List.countP_append, List.countP_append, List.countP_cons,
    List.countP_cons, if_neg (by simp), if_pos (by simpa using closer)]
  omega

/-! ## Arcs

The arc from `start` to `stop` has the points from which `stop` is met no later than `start`; it is the
whole circle if the two are the same. -/

/-- A member owns the arc from the previous member to itself: these arcs have every point once. -/
theorem existsUnique_arc (hkey : key < size) :
    ∃! x, x ∈ ring.members ∧ cw size key (position x) ≤ cw size key (position (ring.previous x)) := by
  refine ⟨ring.successor key, ⟨ring.successor_mem, ring.successor_le ring.previous_mem⟩, fun x ⟨member, owns⟩ => ?_⟩
  exact (ring.cw_le_previous_iff hkey member).mp owns

/-- Arcs that end at the members have every point once only if each begins at the previous member. -/
theorem existsUnique_arc_iff (start : α → Nat) (bounded : ∀ x ∈ ring.members, start x < size) :
    (∀ key < size, ∃! x, x ∈ ring.members ∧ cw size key (position x) ≤ cw size key (start x)) ↔
      ∀ x ∈ ring.members, start x = position (ring.previous x) := by
  constructor
  · intro unique x member
    have atEnd : ∀ y ∈ ring.members, cw size (position y) (position y) ≤ cw size (position y) (start y) := by
      intro y _
      simp
    -- the owner of a point is the first member met from it: it owns the position of that member
    have owner : ∀ key < size, ∀ y ∈ ring.members,
        cw size key (position y) ≤ cw size key (start y) → y = ring.successor key := by
      intro key hkey y inside owns
      have first : ring.successor key ∈ ring.members := ring.successor_mem
      have met := cw_le_of_met hkey (ring.bounded _ first) (ring.bounded y inside) (bounded y inside)
        (ring.successor_le inside) owns
      exact (unique _ (ring.bounded _ first)).unique ⟨inside, met⟩ ⟨first, atEnd _ first⟩
    refine arc_start_inj (ring.bounded x member) (bounded x member) (ring.bounded _ ring.previous_mem)
      fun key hkey => ?_
    rw [ring.cw_le_previous_iff hkey member]
    refine ⟨owner key hkey x member, ?_⟩
    rintro rfl
    obtain ⟨y, ⟨inside, owns⟩, _⟩ := unique key hkey
    rwa [← owner key hkey y inside owns]
  · intro starts key hkey
    obtain ⟨x, ⟨member, owns⟩, unique⟩ := ring.existsUnique_arc hkey
    refine ⟨x, ⟨member, (starts x member).symm ▸ owns⟩, fun y ⟨inside, owns'⟩ => unique y ⟨inside, ?_⟩⟩
    rwa [← starts y inside]

/-! ## Successors seen from another point -/

/-- If some member is past the point `p`, seen from `key`, then the successor of `p` is the first of
those. -/
theorem successor_of_le (hkey : key < size) {p : Nat} (hp : p < size) (hz : z ∈ ring.members)
    (past : cw size key p ≤ cw size key (position z)) :
    cw size key p ≤ cw size key (position (ring.successor p)) ∧
      cw size key (position (ring.successor p)) ≤ cw size key (position z) := by
  have first : cw size p (position (ring.successor p)) ≤ cw size p (position z) := ring.successor_le hz
  have boundZ := cw_lt hkey (ring.bounded z hz)
  have boundFirst := cw_lt hkey (ring.bounded (ring.successor p) ring.successor_mem)
  rw [← cw_cw hp (ring.bounded z hz) hkey, ← cw_cw hp (ring.bounded _ ring.successor_mem) hkey] at first
  simp only [cw_eq (cw size key p)] at first
  split_ifs at first <;> omega

/-- If every member is before the point `p`, the search from `p` goes on to `key`. -/
theorem successor_of_lt (hkey : key < size) {p : Nat} (hp : p < size)
    (before : ∀ z ∈ ring.members, cw size key (position z) < cw size key p) :
    ring.successor p = ring.successor key := by
  refine ring.eq_successor hkey ring.successor_mem fun z inside => ?_
  have first : cw size p (position (ring.successor p)) ≤ cw size p (position z) :=
    ring.successor_le inside
  have beforeZ := before z inside
  have beforeFirst := before (ring.successor p) ring.successor_mem
  have boundP := cw_lt hkey hp
  rw [← cw_cw hp (ring.bounded z inside) hkey,
    ← cw_cw hp (ring.bounded _ ring.successor_mem) hkey] at first
  simp only [cw_eq (cw size key p)] at first
  split_ifs at first <;> omega

/-! ## One more member -/

section Joined

variable {grown : Ring size position} (joined : grown.members = x :: ring.members)
include joined

theorem mem_joined (member : z ∈ ring.members) : z ∈ grown.members :=
  joined ▸ List.mem_cons_of_mem x member

theorem joiner_mem : x ∈ grown.members := joined ▸ List.mem_cons_self

theorem mem_of_joined (member : z ∈ grown.members) (other : z ≠ x) : z ∈ ring.members := by
  rw [joined] at member
  exact (List.mem_cons.mp member).resolve_left other

theorem joiner_not_mem : x ∉ ring.members := by
  have distinct := List.Nodup.of_map _ grown.distinct
  rw [joined] at distinct
  exact (List.nodup_cons.mp distinct).1

theorem two_le_joined : 2 ≤ grown.members.length := by
  have positive := List.length_pos_of_ne_nil ring.nonempty
  rw [joined, List.length_cons]
  omega

theorem next_joiner_mem : grown.next x ∈ ring.members :=
  ring.mem_of_joined joined grown.next_mem
    (grown.next_ne (ring.two_le_joined joined) (ring.joiner_mem joined))

theorem previous_joiner_mem : grown.previous x ∈ ring.members := by
  refine ring.mem_of_joined joined grown.previous_mem fun alone => ?_
  have same := grown.next_previous (ring.joiner_mem joined)
  rw [alone] at same
  exact grown.next_ne (ring.two_le_joined joined) (ring.joiner_mem joined) same

/-- The joiner is followed by the member that is the successor of its position. -/
theorem next_joiner : grown.next x = ring.successor (position x) := by
  have member := ring.joiner_mem joined
  refine ring.eq_successor (grown.bounded x member) (ring.next_joiner_mem joined) fun z inside => ?_
  have closest := grown.next_le (x := x) (ring.mem_joined joined inside)
  have apart : ∀ y ∈ ring.members, position x ≠ position y := fun y inside same =>
    ring.joiner_not_mem joined
      (grown.position_inj member (ring.mem_joined joined inside) same ▸ inside)
  rwa [around_eq_cw (apart _ (ring.next_joiner_mem joined)), around_eq_cw (apart z inside)] at closest

/-- Everybody but the member before the joiner keeps the next member. -/
theorem next_of_joined (member : z ∈ ring.members) (other : z ≠ grown.previous x) :
    grown.next z = ring.next z := by
  refine ring.eq_next member (ring.mem_of_joined joined grown.next_mem fun isJoiner => other ?_)
    fun y inside => grown.next_le (ring.mem_joined joined inside)
  rw [← isJoiner, grown.previous_next (ring.mem_joined joined member)]

/-- Everybody but the member after the joiner keeps the previous member. -/
theorem previous_of_joined (member : z ∈ ring.members) (other : z ≠ grown.next x) :
    grown.previous z = ring.previous z := by
  refine ring.eq_previous member (ring.mem_of_joined joined grown.previous_mem fun isJoiner => other ?_)
    fun y inside => grown.previous_le (ring.mem_joined joined inside)
  rw [← isJoiner, grown.next_previous (ring.mem_joined joined member)]

/-- Before the joiner came, its neighbours were neighbours of each other. -/
theorem next_previous_joiner : ring.next (grown.previous x) = grown.next x := by
  have member := ring.joiner_mem joined
  refine (ring.eq_next (ring.previous_joiner_mem joined) (ring.next_joiner_mem joined)
    fun z inside => ?_).symm
  have inGrown := ring.mem_joined joined inside
  have apart : position z ≠ position x := fun same =>
    ring.joiner_not_mem joined (grown.position_inj inGrown member same ▸ inside)
  have boundX := grown.bounded x member
  have boundZ := grown.bounded z inGrown
  have boundNext := grown.bounded _ (grown.next_mem (x := x))
  have boundPrevious := grown.bounded _ (grown.previous_mem (x := x))
  -- no member is met between the previous one and the joiner, so `z` is met after the joiner
  calc around size (position (grown.previous x)) (position (grown.next x))
      ≤ around size (position (grown.previous x)) (position x) +
          around size (position x) (position (grown.next x)) := around_le_add boundPrevious boundX boundNext
    _ ≤ around size (position (grown.previous x)) (position x) + around size (position x) (position z) :=
        Nat.add_le_add_left (grown.next_le inGrown) _
    _ = around size (position (grown.previous x)) (position z) :=
        (around_eq_add boundPrevious boundX boundZ apart (grown.previous_le inGrown)).symm

end Joined

/-! ## Fewer members -/

section Fewer

variable {rest : Ring size position} (fewer : ∀ z ∈ rest.members, z ∈ ring.members)

/-- The next member, seen from any point. -/
theorem eq_next_of_lt (boundX : position x < size) (hy : y ∈ ring.members)
    (first : ∀ z ∈ ring.members,
      around size (position x) (position y) ≤ around size (position x) (position z)) :
    y = ring.next x := by
  have least := ring.next_le (x := x) hy
  have toY := around_spec boundX (ring.bounded y hy)
  have toNext := around_spec boundX (ring.bounded _ (ring.next_mem (x := x)))
  have first := first _ (ring.next_mem (x := x))
  have boundY := ring.bounded y hy
  have boundNext := ring.bounded _ (ring.next_mem (x := x))
  exact ring.position_inj hy ring.next_mem (by omega)

include fewer

theorem next_of_fewer (member : x ∈ ring.members) (left : ring.next x ∈ rest.members) :
    rest.next x = ring.next x :=
  (rest.eq_next_of_lt (ring.bounded x member) left fun z inside => ring.next_le (fewer z inside)).symm

/-- A member that is gone is passed over. -/
theorem next_of_gone (member : x ∈ ring.members) (gone : ring.next x ∉ rest.members) :
    rest.next x = rest.next (ring.next x) := by
  have boundX := ring.bounded x member
  have boundY := ring.bounded _ (ring.next_mem (x := x))
  -- no member is met between `x` and the one that is gone
  have beyond : ∀ z ∈ rest.members, around size (position x) (position z) =
      around size (position x) (position (ring.next x)) +
        around size (position (ring.next x)) (position z) := by
    intro z inside
    have apart : position z ≠ position (ring.next x) := fun same =>
      gone (ring.position_inj (fewer z inside) ring.next_mem same ▸ inside)
    refine around_eq_add boundX boundY (rest.bounded z inside) apart ?_
    have closest := ring.previous_le (x := ring.next x) (fewer z inside)
    rwa [ring.previous_next member] at closest
  refine (rest.eq_next_of_lt boundX rest.next_mem fun z inside => ?_).symm
  rw [beyond _ rest.next_mem, beyond z inside]
  exact Nat.add_le_add_left (rest.next_le inside) _

theorem previous_of_fewer (member : x ∈ rest.members) (left : ring.previous x ∈ rest.members) :
    rest.previous x = ring.previous x := by
  have isNext := ring.next_previous (fewer x member)
  have ahead : rest.next (ring.previous x) = x := by
    rw [ring.next_of_fewer fewer ring.previous_mem (by rwa [isNext]), isNext]
  calc rest.previous x = rest.previous (rest.next (ring.previous x)) := by rw [ahead]
    _ = ring.previous x := rest.previous_next left

/-- Among the members that follow, the first one that is left is the next one. -/
theorem following_of_fewer {n : Nat} (member : x ∈ ring.members)
    (left : ∃ b ∈ ring.following x n, b ∈ rest.members) :
    ∃ gone later, ring.following x n = gone ++ rest.next x :: later ∧ ∀ b ∈ gone, b ∉ rest.members := by
  induction n generalizing x with
  | zero =>
    obtain ⟨b, listed, _⟩ := left
    cases listed
  | succ n ih =>
    by_cases first : ring.next x ∈ rest.members
    · refine ⟨[], ring.following (ring.next x) n, ?_, fun b listed => by cases listed⟩
      rw [following, ring.next_of_fewer fewer member first]
      rfl
    · have later : ∃ b ∈ ring.following (ring.next x) n, b ∈ rest.members := by
        obtain ⟨b, listed, inside⟩ := left
        obtain rfl | listed := List.mem_cons.mp listed
        · exact absurd inside first
        · exact ⟨b, listed, inside⟩
      obtain ⟨gone, later, split, allGone⟩ := ih ring.next_mem later
      refine ⟨ring.next x :: gone, later, ?_, List.forall_mem_cons.mpr ⟨first, allGone⟩⟩
      rw [following, split, ring.next_of_gone fewer member first]
      rfl

end Fewer

end Ring

end Tda596Labs.Circle
