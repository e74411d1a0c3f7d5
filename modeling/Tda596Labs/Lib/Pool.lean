import Mathlib.Algebra.GroupWithZero.Nat
import Mathlib.Data.List.Nodup

/-! # Pools

A pool is a list of running activities in which a step replaces one entry, `pool.set k b`.  The lemmas
say how a statement about all entries, some entry, or the number of entries moves with the
replacement.
-/

namespace Tda596Labs.Pool

variable {α β : Type*} {pool : List α} {k : Nat} {a b : α}

theorem mem_of_found (found : pool[k]? = some a) : a ∈ pool := List.mem_of_getElem? found

theorem mem_set_self (found : pool[k]? = some a) (b : α) : b ∈ pool.set k b := by
  obtain ⟨inside, _⟩ := List.getElem?_eq_some_iff.mp found
  exact List.mem_set inside b

theorem found_set_self (found : pool[k]? = some a) (b : α) : (pool.set k b)[k]? = some b := by
  obtain ⟨inside, _⟩ := List.getElem?_eq_some_iff.mp found
  exact List.getElem?_set_self inside

theorem set_found (found : pool[k]? = some a) : pool.set k a = pool := by
  obtain ⟨inside, rfl⟩ := List.getElem?_eq_some_iff.mp found
  exact List.set_getElem_self inside

theorem found_append (found : pool[k]? = some a) (more : List α) : (pool ++ more)[k]? = some a := by
  obtain ⟨inside, _⟩ := List.getElem?_eq_some_iff.mp found
  rw [List.getElem?_append_left inside]
  exact found

theorem found_of_append {more : List α} {i : Nat} (found : (pool ++ more)[i]? = some a) :
    pool[i]? = some a ∨ (pool.length ≤ i ∧ more[i - pool.length]? = some a) := by
  by_cases inside : i < pool.length
  · rw [List.getElem?_append_left inside] at found
    exact .inl found
  · have beyond : pool.length ≤ i := Nat.le_of_not_lt inside
    rw [List.getElem?_append_right beyond] at found
    exact .inr ⟨beyond, found⟩

theorem found_of_set {i : Nat} {x : α} (found : (pool.set k b)[i]? = some x) :
    (i = k ∧ x = b) ∨ (i ≠ k ∧ pool[i]? = some x) := by
  by_cases equal : i = k
  · subst equal
    obtain ⟨inside, _⟩ := List.getElem?_eq_some_iff.mp found
    rw [List.getElem?_set_self (by simpa using inside)] at found
    exact .inl ⟨rfl, (Option.some.inj found).symm⟩
  · rw [List.getElem?_set_ne (Ne.symm equal)] at found
    exact .inr ⟨equal, found⟩

theorem forall_set {P : α → Prop} (all : ∀ x ∈ pool, P x) (new : P b) : ∀ x ∈ pool.set k b, P x := by
  intro x member
  cases List.mem_or_eq_of_mem_set member with
  | inl old => exact all x old
  | inr equal => exact equal ▸ new

theorem exists_of_exists_set {P : α → Prop} (some_ : ∃ x ∈ pool.set k b, P x) :
    (∃ x ∈ pool, P x) ∨ P b := by
  obtain ⟨x, member, holds⟩ := some_
  cases List.mem_or_eq_of_mem_set member with
  | inl old => exact .inl ⟨x, old, holds⟩
  | inr equal => exact .inr (equal ▸ holds)

theorem mem_set_or_eq (found : pool[k]? = some a) (b : α) {x : α} (member : x ∈ pool) :
    x ∈ pool.set k b ∨ x = a := by
  obtain ⟨i, inside⟩ := List.mem_iff_getElem?.mp member
  by_cases equal : k = i
  · exact .inr (Option.some.inj (inside.symm.trans (equal ▸ found)))
  · exact .inl (List.mem_of_getElem? ((List.getElem?_set_ne equal).trans inside))

/-- What some entry satisfies, some entry still satisfies, if the replaced entry passes it on. -/
theorem exists_set {P : α → Prop} (found : pool[k]? = some a) (passes : P a → P b)
    (some_ : ∃ x ∈ pool, P x) : ∃ x ∈ pool.set k b, P x := by
  obtain ⟨x, member, holds⟩ := some_
  obtain ⟨i, inside, rfl⟩ := List.mem_iff_getElem.mp member
  by_cases equal : i = k
  · subst equal
    obtain ⟨_, same⟩ := List.getElem?_eq_some_iff.mp found
    exact ⟨b, mem_set_self found b, passes (same ▸ holds)⟩
  · refine ⟨pool[i], List.mem_iff_getElem.mpr ⟨i, by simpa using inside, ?_⟩, holds⟩
    exact List.getElem_set_ne (Ne.symm equal) _

/-- A replacement that keeps a projection keeps the list of projections. -/
theorem map_set_of_eq {f : α → β} (found : pool[k]? = some a) (same : f b = f a) :
    (pool.set k b).map f = pool.map f := by
  have entry : (pool.map f)[k]? = some (f b) := by simp [found, same]
  rw [List.map_set]
  apply List.ext_getElem?
  intro i
  by_cases equal : i = k
  · subst equal
    obtain ⟨inside, _⟩ := List.getElem?_eq_some_iff.mp entry
    rw [List.getElem?_set_self inside, entry]
  · rw [List.getElem?_set_ne (Ne.symm equal)]

theorem filterMap_set_of_eq {f : α → Option β} (found : pool[k]? = some a) (same : f b = f a) :
    (pool.set k b).filterMap f = pool.filterMap f := by
  rw [← Function.id_comp f, ← List.filterMap_map, ← List.filterMap_map, map_set_of_eq found same]

/-- Where keys are distinct, the entry with a key has one place. -/
theorem unique_key {f : α → Option β} (distinct : (pool.filterMap f).Nodup) {i j : Nat} {x y : α} {key : β}
    (found : pool[i]? = some x) (found' : pool[j]? = some y) (hasKey : f x = some key) (hasKey' : f y = some key) :
    i = j := by
  have apart := List.pairwise_iff_getElem.mp (List.pairwise_filterMap.mp distinct)
  obtain ⟨inside, rfl⟩ := List.getElem?_eq_some_iff.mp found
  obtain ⟨inside', rfl⟩ := List.getElem?_eq_some_iff.mp found'
  obtain before | same | after := Nat.lt_trichotomy i j
  · exact absurd rfl (apart i j inside inside' before key hasKey key hasKey')
  · exact same
  · exact absurd rfl (apart j i inside' inside after key hasKey' key hasKey)

/-- An entry that gets a key adds it to the keys. -/
theorem filterMap_set_perm {f : α → Option β} {key : β} (found : pool[k]? = some a) (old : f a = none)
    (new : f b = some key) : ((pool.set k b).filterMap f).Perm (key :: pool.filterMap f) := by
  induction pool generalizing k with
  | nil => simp at found
  | cons x pool ih =>
    cases k with
    | zero =>
      obtain rfl : x = a := by simpa using found
      simp [old, new]
    | succ k =>
      have rest := ih (k := k) (by simpa using found)
      simp only [List.set_cons_succ, List.filterMap_cons]
      cases f x with
      | none => exact rest
      | some other => exact (rest.cons other).trans (.swap key other _)

theorem countP_le_set {p : α → Bool} (found : pool[k]? = some a) (passes : p a = true → p b = true) :
    pool.countP p ≤ (pool.set k b).countP p := by
  obtain ⟨inside, equal⟩ := List.getElem?_eq_some_iff.mp found
  rw [List.countP_set inside, equal]
  cases old : p a with
  | false =>
    simp only [Bool.false_eq_true, if_false]
    omega
  | true =>
    have new := passes old
    simp only [new, if_true]
    omega

theorem countP_set_new {p : α → Bool} (found : pool[k]? = some a) (old : p a = false)
    (new : p b = true) : (pool.set k b).countP p = pool.countP p + 1 := by
  obtain ⟨inside, equal⟩ := List.getElem?_eq_some_iff.mp found
  rw [List.countP_set inside, equal]
  simp [old, new]

theorem countP_set_same {p : α → Bool} (found : pool[k]? = some a) (same : p b = p a) :
    (pool.set k b).countP p = pool.countP p := by
  have grows := countP_le_set (p := p) found (b := b) (by simp [same])
  have shrinks := countP_le_set (p := p) (found_set_self found b) (b := a) (by simp [same])
  rw [List.set_set, set_found found] at shrinks
  omega

theorem countP_set_old {p : α → Bool} (found : pool[k]? = some a) (old : p a = true)
    (new : p b = false) : (pool.set k b).countP p + 1 = pool.countP p := by
  have back := countP_set_new (found_set_self found b) new old
  rw [List.set_set, set_found found] at back
  exact back.symm

theorem sum_map_set (f : α → Nat) (found : pool[k]? = some a) (b : α) :
    ((pool.set k b).map f).sum + f a = (pool.map f).sum + f b := by
  induction pool generalizing k with
  | nil => simp at found
  | cons x pool ih =>
    cases k with
    | zero =>
      obtain rfl : x = a := by simpa using found
      simp only [List.set_cons_zero, List.map_cons, List.sum_cons]
      omega
    | succ k =>
      have rest := ih (k := k) (by simpa using found)
      simp only [List.set_cons_succ, List.map_cons, List.sum_cons]
      omega

end Tda596Labs.Pool
