import Mathlib.Data.List.Basic
import Mathlib.Logic.Function.Basic

/-! # Doubly linked lists

Memory is given by what the pointers of its cells hold.  `Spells` says which cells, in which order, form a
list.  A cell that is unlinked keeps its own two pointers, so linking it in again undoes the unlinking,
provided that the list is by then the same again: `relink_unlink` says so for the memory as a whole.
-/

namespace Tda596Labs.LinkedList

/-- The pointers of all cells; `none` is nil. -/
@[ext]
structure Pointers (ρ : Type*) where
  next : ρ → Option ρ
  prev : ρ → Option ρ

variable {ρ : Type*}

/-- The cells `cells` form a list, in this order. -/
structure Spells (p : Pointers ρ) (cells : List ρ) : Prop where
  nodup : cells.Nodup
  next : ∀ before cell after, cells = before ++ cell :: after → p.next cell = after.head?
  prev : ∀ before cell after, cells = before ++ cell :: after → p.prev cell = before.getLast?

theorem Spells.nil (p : Pointers ρ) : Spells p [] where
  nodup := .nil
  next before cell after split := by simp at split
  prev before cell after split := by simp at split

section Pairs

variable {p : Pointers ρ} {before after : List ρ} {cell : ρ}

theorem Spells.next_eq (spells : Spells p (before ++ cell :: after)) : p.next cell = after.head? :=
  spells.next before cell after rfl

theorem Spells.prev_eq (spells : Spells p (before ++ cell :: after)) : p.prev cell = before.getLast? :=
  spells.prev before cell after rfl

/-- The cell that a list ends with is not in a list that follows it. -/
theorem getLast?_ne_some {cells : List ρ} (disjoint : (before ++ cells).Nodup) (inside : cell ∈ cells) :
    before.getLast? ≠ some cell := fun last =>
  (List.nodup_append.mp disjoint).2.2 cell (List.mem_of_getLast? last) cell inside rfl

theorem head?_ne_some {cells : List ρ} (disjoint : (cells ++ after).Nodup) (inside : cell ∈ cells) :
    after.head? ≠ some cell := fun first =>
  (List.nodup_append.mp disjoint).2.2 cell inside cell (List.mem_of_mem_head? first) rfl

theorem Spells.getLast?_before_ne (spells : Spells p (before ++ cell :: after)) :
    before.getLast? ≠ some cell := getLast?_ne_some spells.nodup (by simp)

theorem Spells.head?_after_ne (spells : Spells p (before ++ cell :: after)) : after.head? ≠ some cell := by
  have split : before ++ cell :: after = (before ++ [cell]) ++ after := by simp
  exact head?_ne_some (split ▸ spells.nodup) (by simp)

end Pairs

variable [DecidableEq ρ]

/-- `*link = value`, if there is such a cell. -/
def assign (field : ρ → Option ρ) (link value : Option ρ) : ρ → Option ρ :=
  match link with
  | none => field
  | some cell => Function.update field cell value

theorem assign_of_ne {field : ρ → Option ρ} {link : Option ρ} {cell : ρ} (other : link ≠ some cell)
    (value : Option ρ) : assign field link value cell = field cell := by
  cases link with
  | none => rfl
  | some target =>
    have different : cell ≠ target := fun equal => other (by rw [equal])
    exact Function.update_of_ne different _ _

theorem assign_self (field : ρ → Option ρ) (cell : ρ) (value : Option ρ) :
    assign field (some cell) value cell = value :=
  Function.update_self ..

/-- The neighbours of a cell are joined. -/
def unlink (p : Pointers ρ) (cell : ρ) : Pointers ρ where
  next := assign p.next (p.prev cell) (p.next cell)
  prev := assign p.prev (p.next cell) (p.prev cell)

/-- The neighbours that a cell remembers point to it again. -/
def relink (p : Pointers ρ) (cell : ρ) : Pointers ρ where
  next := assign p.next (p.prev cell) (some cell)
  prev := assign p.prev (p.next cell) (some cell)

/-- A new cell in front of a list. -/
def push (p : Pointers ρ) (cell : ρ) (root : Option ρ) : Pointers ρ where
  next := Function.update p.next cell root
  prev := Function.update (assign p.prev root (some cell)) cell none

variable {p : Pointers ρ} {cells before after : List ρ} {cell : ρ}

theorem Spells.push (spells : Spells p cells) (fresh : cell ∉ cells) :
    Spells (push p cell cells.head?) (cell :: cells) where
  nodup := List.nodup_cons.mpr ⟨fresh, spells.nodup⟩
  next := by
    intro before first after split
    cases before with
    | nil =>
      obtain ⟨rfl, rfl⟩ := List.cons.inj split
      exact Function.update_self ..
    | cons head before =>
      obtain ⟨rfl, tail⟩ := List.cons.inj split
      have rest : cells = before ++ first :: after := tail
      have other : first ≠ cell := fun equal => fresh (by simp [rest, equal])
      exact (Function.update_of_ne other _ _).trans (spells.next before first after rest)
  prev := by
    intro before first after split
    cases before with
    | nil =>
      obtain ⟨rfl, rfl⟩ := List.cons.inj split
      exact Function.update_self ..
    | cons head before =>
      obtain ⟨rfl, tail⟩ := List.cons.inj split
      have rest : cells = before ++ first :: after := tail
      have other : first ≠ cell := fun equal => fresh (by simp [rest, equal])
      simp only [LinkedList.push, Function.update_of_ne other]
      cases before with
      | nil =>
        rw [rest]
        exact assign_self ..
      | cons second before =>
        have notHead : cells.head? ≠ some first := by
          intro equal
          have nodup := spells.nodup
          rw [rest] at nodup equal
          obtain rfl := Option.some.inj equal
          simp at nodup
        rw [assign_of_ne notHead, spells.prev _ _ _ rest]
        simp

theorem Spells.unlink (spells : Spells p (before ++ cell :: after)) :
    Spells (unlink p cell) (before ++ after) := by
  have disjoint : (before ++ after).Nodup :=
    spells.nodup.sublist (List.Sublist.append_left (List.sublist_cons_self ..) _)
  refine ⟨disjoint, ?_, ?_⟩
  · intro first other last split
    simp only [LinkedList.unlink, spells.prev_eq, spells.next_eq]
    obtain ⟨part, rfl, rfl⟩ | ⟨part, rfl, parts⟩ := List.append_eq_append_iff.mp split
    · rw [assign_of_ne (getLast?_ne_some disjoint (by simp))]
      exact spells.next (before ++ cell :: part) other last (by simp)
    · cases part with
      | nil =>
        obtain rfl : other :: last = after := parts
        rw [List.append_nil] at disjoint spells ⊢
        rw [assign_of_ne (getLast?_ne_some disjoint (by simp))]
        exact spells.next (first ++ [cell]) other last (by simp)
      | cons head part =>
        obtain ⟨rfl, rfl⟩ := List.cons.inj parts
        cases part with
        | nil =>
          rw [List.getLast?_append]
          exact assign_self ..
        | cons second part =>
          have notLast : (first ++ other :: second :: part).getLast? ≠ some other := by
            rw [List.getLast?_append, List.getLast?_cons_cons]
            intro equal
            obtain last | ⟨none_, _⟩ := Option.or_eq_some_iff.mp equal
            · have nodup := (List.nodup_append.mp (List.nodup_append.mp disjoint).1).2.1
              exact (List.nodup_cons.mp nodup).1 (List.mem_of_getLast? last)
            · simp at none_
          rw [assign_of_ne notLast]
          exact spells.next first other (second :: part ++ cell :: after) (by simp)
  · intro first other last split
    simp only [LinkedList.unlink, spells.prev_eq, spells.next_eq]
    obtain ⟨part, rfl, rfl⟩ | ⟨part, rfl, parts⟩ := List.append_eq_append_iff.mp split
    · cases part with
      | nil =>
        rw [List.append_nil]
        exact assign_self ..
      | cons head part =>
        have notHead : (head :: part ++ other :: last).head? ≠ some other := by
          intro equal
          obtain rfl := Option.some.inj equal
          have nodup := (List.nodup_append.mp disjoint).2.1
          simp at nodup
        rw [assign_of_ne notHead, spells.prev (before ++ cell :: head :: part) other last (by simp)]
        simp [List.getLast?_append]
    · cases part with
      | nil =>
        obtain rfl : other :: last = after := parts
        rw [List.append_nil]
        exact assign_self ..
      | cons head part =>
        obtain ⟨rfl, rfl⟩ := List.cons.inj parts
        rw [assign_of_ne (head?_ne_some disjoint (by simp))]
        exact spells.prev first other (part ++ cell :: after) (by simp)

/-- A cell that is unlinked keeps its pointers. -/
theorem Spells.unlink_next (spells : Spells p (before ++ cell :: after)) :
    (LinkedList.unlink p cell).next cell = p.next cell := by
  simp only [LinkedList.unlink, spells.prev_eq]
  exact assign_of_ne spells.getLast?_before_ne _

theorem Spells.unlink_prev (spells : Spells p (before ++ cell :: after)) :
    (LinkedList.unlink p cell).prev cell = p.prev cell := by
  simp only [LinkedList.unlink, spells.next_eq]
  exact assign_of_ne spells.head?_after_ne _

/-- Linking a cell in again undoes unlinking it. -/
theorem relink_unlink (spells : Spells p (before ++ cell :: after)) : relink (unlink p cell) cell = p := by
  have next := spells.next_eq
  have prev := spells.prev_eq
  refine Pointers.ext ?_ ?_
  · funext other
    simp only [relink, spells.unlink_prev, prev]
    by_cases last : before.getLast? = some other
    · rw [last, assign_self]
      obtain ⟨front, rfl⟩ := List.getLast?_eq_some_iff.mp last
      exact (spells.next front other (cell :: after) (by simp)).symm
    · rw [assign_of_ne last]
      simp only [unlink, prev]
      exact assign_of_ne last _
  · funext other
    simp only [relink, spells.unlink_next, next]
    by_cases first : after.head? = some other
    · rw [first, assign_self]
      obtain ⟨tail, rfl⟩ := List.head?_eq_some_iff.mp first
      rw [spells.prev (before ++ [cell]) other tail (by simp)]
      simp
    · rw [assign_of_ne first]
      simp only [unlink, next]
      exact assign_of_ne first _

end Tda596Labs.LinkedList
