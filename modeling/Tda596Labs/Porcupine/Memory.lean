import Tda596Labs.Porcupine.History

/-! # The linked list in memory

The pointer operations of the checker against the lists that the pointers spell: `lift` takes a call and its
return out of the list, `unlift` restores the memory exactly as it was before, and `makeLinkedEntries`
spells the entries in their order, with every call pointing to its return.
-/

namespace Tda596Labs.Porcupine

open LinkedList

variable {V : Type}

namespace Heap

variable {h : Heap V} {before middle after : List Nat} {cell entry matching : Nat}

theorem exists_last (notFirst : before ≠ []) : ∃ last, before.getLast? = some last :=
  ⟨_, List.getLast?_eq_some_getLast notFirst⟩

/-- `cell.prev.next = cell.next` for a cell that is not the first one. -/
theorem setNext_prev (spells : Spells h.toPointers (before ++ cell :: after)) (notFirst : before ≠ []) :
    h.setNext (h.prev cell) (h.next cell) =
      some { h with toPointers := ⟨(unlink h.toPointers cell).next, h.prev⟩ } := by
  obtain ⟨last, ends⟩ := exists_last notFirst
  have prev : h.prev cell = some last := spells.prev_eq.trans ends
  simp [setNext, unlink, assign, prev]

/-- The other half of unlinking: `cell.next.prev = cell.prev`, if there is a next cell. -/
theorem setPrev_next (h : Heap V) (cell : Nat) :
    (if (h.next cell).isSome then
      setPrev { h with toPointers := ⟨(unlink h.toPointers cell).next, h.prev⟩ } (h.next cell) (h.prev cell)
    else some { h with toPointers := ⟨(unlink h.toPointers cell).next, h.prev⟩ }) =
      some { h with toPointers := unlink h.toPointers cell } := by
  cases next : h.next cell with
  | none => simp [unlink, assign, next]
  | some following => simp [unlink, assign, next, setPrev]

/-- `lift` unlinks a call and then its return. -/
theorem lift_eq (spells : Spells h.toPointers (before ++ entry :: (middle ++ matching :: after)))
    (notFirst : before ≠ []) (pair : h.match_ entry = some matching) :
    h.lift entry = some { h with toPointers := unlink (unlink h.toPointers entry) matching } := by
  have unlinked := spells.unlink
  rw [← List.append_assoc] at unlinked
  have some_ : (h.next entry).isSome := by simp [spells.next_eq]
  have first := setPrev_next h entry
  rw [if_pos some_] at first
  have notFirst' : before ++ middle ≠ [] := by simp [notFirst]
  have second := setNext_prev (h := { h with toPointers := unlink h.toPointers entry }) unlinked notFirst'
  have third := setPrev_next { h with toPointers := unlink h.toPointers entry } matching
  dsimp only at second third
  simp only [lift, setNext_prev spells notFirst, Option.bind_eq_bind, Option.bind_some, spells.unlink_next,
    first, pair, second, unlinked.unlink_next, third]

theorem spells_lift (spells : Spells h.toPointers (before ++ entry :: (middle ++ matching :: after))) :
    Spells (unlink (unlink h.toPointers entry) matching) (before ++ (middle ++ after)) := by
  have unlinked := spells.unlink
  rw [← List.append_assoc] at unlinked ⊢
  exact unlinked.unlink

/-- `cell.prev.next = cell` and, if there is a next cell, `cell.next.prev = cell`. -/
theorem relink_eq {last : Nat} (prev : h.prev cell = some last) (other : last ≠ cell) :
    h.setNext (h.prev cell) cell =
      some { h with toPointers := ⟨(relink h.toPointers cell).next, h.prev⟩ } ∧
    (relink h.toPointers cell).next cell = h.next cell ∧
    (if (h.next cell).isSome then
        setPrev { h with toPointers := ⟨(relink h.toPointers cell).next, h.prev⟩ } (h.next cell) cell
      else some { h with toPointers := ⟨(relink h.toPointers cell).next, h.prev⟩ }) =
      some { h with toPointers := relink h.toPointers cell } := by
  refine ⟨by simp [setNext, relink, assign, prev], ?_, ?_⟩
  · simp only [relink, prev]
    exact assign_of_ne (by simpa using other) _
  · cases next : h.next cell with
    | none => simp [relink, assign, next]
    | some following => simp [relink, assign, next, setPrev]

/-- `unlift` undoes `lift`. -/
theorem unlift_lift (spells : Spells h.toPointers (before ++ entry :: (middle ++ matching :: after)))
    (notFirst : before ≠ []) (pair : h.match_ entry = some matching) :
    unlift { h with toPointers := unlink (unlink h.toPointers entry) matching } entry = some h := by
  have unlinked := spells.unlink
  rw [← List.append_assoc] at unlinked
  obtain ⟨last, ends⟩ := exists_last notFirst
  obtain ⟨last', ends'⟩ := exists_last (show before ++ middle ≠ [] by simp [notFirst])
  have some_ : (h.next entry).isSome := by simp [spells.next_eq]
  -- first the return is linked in again, then the call
  have back : relink (unlink (unlink h.toPointers entry) matching) matching = unlink h.toPointers entry :=
    relink_unlink unlinked
  have back' : relink (unlink h.toPointers entry) entry = h.toPointers := relink_unlink spells
  have other : last' ≠ matching := fun equal => unlinked.getLast?_before_ne (equal ▸ ends')
  have other' : last ≠ entry := fun equal => spells.getLast?_before_ne (equal ▸ ends)
  obtain ⟨first, keeps, second⟩ := relink_eq
    (h := { h with toPointers := unlink (unlink h.toPointers entry) matching })
    (unlinked.unlink_prev.trans (unlinked.prev_eq.trans ends')) other
  obtain ⟨third, keeps', fourth⟩ := relink_eq (h := { h with toPointers := unlink h.toPointers entry })
    (spells.unlink_prev.trans (spells.prev_eq.trans ends)) other'
  dsimp only at first keeps second third keeps' fourth
  rw [back] at first keeps second
  rw [back'] at third keeps' fourth
  rw [← keeps'] at fourth
  rw [if_pos some_] at fourth
  rw [← keeps] at second
  simp only [unlift, pair, Option.bind_eq_bind, Option.bind_some, first, second, third, fourth]

/-- A node allocated in front of a list. -/
theorem insertBefore_alloc {cells : List Nat} (spells : Spells h.toPointers cells)
    (old : ∀ cell ∈ cells, cell < h.size) (value : V) (match_ : Option Nat) (id : Nat) :
    (h.alloc value match_ id).insertBefore h.size cells.head? =
      some { h.alloc value match_ id with toPointers := push h.toPointers h.size cells.head? } := by
  cases cells with
  | nil => rfl
  | cons first cells =>
    have other : first ≠ h.size := (old first List.mem_cons_self).ne
    have prev : h.prev first = none := spells.prev [] first cells rfl
    have clean : Function.update h.prev h.size none first = none := by
      rw [Function.update_of_ne other, prev]
    simp [insertBefore, setPrev, setNext, alloc, clean, push, assign, Function.update_comm other]

/-- `length` counts the cells from a place in the list on. -/
theorem length_eq (spells : Spells h.toPointers (before ++ after)) {fuel : Nat} (enough : after.length ≤ fuel) :
    h.length fuel after.head? = some after.length := by
  induction after generalizing before fuel with
  | nil => simp [length]
  | cons cell after ih =>
    obtain ⟨fuel, rfl⟩ : ∃ less, fuel = less + 1 := ⟨fuel - 1, by simp at enough; omega⟩
    have split : before ++ cell :: after = (before ++ [cell]) ++ after := by simp
    have rest := ih (split ▸ spells) (Nat.le_of_succ_le_succ enough)
    simp only [List.head?_cons, length, spells.next_eq, rest, Option.map_some, List.length_cons]

end Heap

/-! ## Laying out a history -/

def Entry.mark (entry : Entry V) : Mark :=
  match entry.kind with
  | .callEntry => .call entry.id
  | .returnEntry => .ret entry.id

/-- Where `makeLinkedEntries` puts an entry: the nodes of the entries after it are allocated before. -/
def place : List Mark → Mark → Nat
  | [], _ => 0
  | m :: marks, x => if x = m then marks.length else place marks x

theorem place_append {before after : List Mark} {m : Mark} (fresh : m ∉ before) :
    place (before ++ after) m = place after m := by
  induction before with
  | nil => rfl
  | cons first before ih =>
    simp only [List.mem_cons, not_or] at fresh
    rw [List.cons_append, place, if_neg fresh.1, ih fresh.2]

theorem place_cons_self (m : Mark) (marks : List Mark) : place (m :: marks) m = marks.length := if_pos rfl

theorem place_lt {marks : List Mark} {m : Mark} (inside : m ∈ marks) : place marks m < marks.length := by
  induction marks with
  | nil => cases inside
  | cons first marks ih =>
    rw [place, List.length_cons]
    split
    · exact Nat.lt_succ_self _
    · next other => exact Nat.lt_succ_of_lt (ih ((List.mem_cons.mp inside).resolve_left other))

theorem map_place {marks : List Mark} (distinct : marks.Nodup) :
    marks.map (place marks) = (List.range marks.length).reverse := by
  induction marks with
  | nil => rfl
  | cons m marks ih =>
    obtain ⟨fresh, distinct⟩ := List.nodup_cons.mp distinct
    rw [List.map_cons, place_cons_self, List.length_cons, List.range_succ, List.reverse_append, ← ih distinct]
    refine congrArg (marks.length :: ·) (List.map_congr_left fun x inside => ?_)
    have other : x ≠ m := ne_of_mem_of_not_mem inside fresh
    rw [place, if_neg other]

/-- The return that a call is matched with when the given entries come after it. -/
def returnAmong (marks : List Mark) (id : Nat) : Option Nat :=
  if .ret id ∈ marks then some (place marks (.ret id)) else none

/-- What `makeLinkedEntries` leaves. -/
structure LinkedUp (entries : List (Entry V)) (linking : Linking V) : Prop where
  size : linking.heap.size = entries.length
  spells : Spells linking.heap.toPointers (List.range entries.length).reverse
  root : linking.root = (List.range entries.length).reverse.head?
  match_ : ∀ id, linking.match_ id = returnAmong (entries.map Entry.mark) id
  node : ∀ before elem after, entries = before ++ elem :: after →
    linking.heap.value after.length = elem.value ∧ linking.heap.id after.length = elem.id ∧
      linking.heap.match_ after.length =
        if elem.kind = .callEntry then returnAmong (after.map Entry.mark) elem.id else none

theorem LinkedUp.push {entries : List (Entry V)} {linking : Linking V} (linked : LinkedUp entries linking)
    (elem : Entry V) (match_ : Option Nat) (matches_ : Nat → Option Nat)
    (found : match_ = if elem.kind = .callEntry then returnAmong (entries.map Entry.mark) elem.id else none)
    (noted : ∀ id, matches_ id = returnAmong ((elem :: entries).map Entry.mark) id) :
    ∃ heap, (linking.heap.alloc elem.value match_ elem.id).insertBefore linking.heap.size linking.root =
      some heap ∧ LinkedUp (elem :: entries) ⟨heap, some linking.heap.size, matches_⟩ := by
  have old : ∀ cell ∈ (List.range entries.length).reverse, cell < linking.heap.size := by
    intro cell inside
    rw [linked.size]
    simpa using inside
  have cells : (List.range (elem :: entries).length).reverse =
      linking.heap.size :: (List.range entries.length).reverse := by
    rw [List.length_cons, List.range_succ, List.reverse_append, linked.size]
    rfl
  refine ⟨_, linked.root ▸ Heap.insertBefore_alloc linked.spells old elem.value match_ elem.id, ?_⟩
  refine ⟨congrArg (· + 1) linked.size, ?_, by rw [cells]; rfl, noted, ?_⟩
  · change Spells (LinkedList.push linking.heap.toPointers linking.heap.size linking.root) _
    rw [cells, linked.root]
    exact linked.spells.push fun inside => lt_irrefl _ (old _ inside)
  · intro before other after split
    cases before with
    | nil =>
      obtain ⟨rfl, rfl⟩ := List.cons.inj split
      simp [Heap.alloc, ← linked.size, found]
    | cons first before =>
      obtain ⟨rfl, tail⟩ := List.cons.inj split
      have rest : entries = before ++ other :: after := tail
      have earlier : after.length ≠ linking.heap.size := by
        rw [linked.size, rest, List.length_append, List.length_cons]
        omega
      simpa [Heap.alloc, earlier] using linked.node before other after rest

theorem makeLinkedEntries_linkedUp [Inhabited V] (entries : List (Entry V)) :
    ∃ linking, makeLinkedEntries entries = some linking ∧ LinkedUp entries linking := by
  induction entries with
  | nil =>
    refine ⟨_, rfl, rfl, Spells.nil _, rfl, fun _ => rfl, fun before elem after split => ?_⟩
    simp at split
  | cons elem entries ih =>
    obtain ⟨linking, made, linked⟩ := ih
    have step : makeLinkedEntries (elem :: entries) = linkEntry elem linking := by
      rw [makeLinkedEntries, List.foldr_cons]
      exact (congrArg (Option.bind · (linkEntry elem)) made).trans (Option.bind_some ..)
    rw [step]
    unfold linkEntry
    cases kind : elem.kind with
    | callEntry =>
      have mark : elem.mark = .call elem.id := by simp [Entry.mark, kind]
      obtain ⟨heap, inserted, pushed⟩ := linked.push elem (linking.match_ elem.id) linking.match_
        (by rw [if_pos kind, linked.match_]) fun id => by simp [linked.match_, returnAmong, mark, place]
      refine ⟨_, ?_, pushed⟩
      dsimp only
      rw [inserted]
      rfl
    | returnEntry =>
      have mark : elem.mark = .ret elem.id := by simp [Entry.mark, kind]
      have noted : ∀ id, Function.update linking.match_ elem.id (some linking.heap.size) id =
          returnAmong ((elem :: entries).map Entry.mark) id := by
        intro id
        by_cases same : id = elem.id
        · simp [same, returnAmong, mark, place, linked.size]
        · simp [same, returnAmong, mark, place, linked.match_]
      obtain ⟨heap, inserted, pushed⟩ := linked.push elem none _ (by simp [kind]) noted
      refine ⟨_, ?_, pushed⟩
      dsimp only
      rw [inserted]
      rfl

/-- The nodes of a history in memory; their pointers are not spoken of. -/
structure Laid (h : Heap V) (n : Nat) (marks : List Mark) (headEntry : Nat) (input output : Nat → V) : Prop where
  call : ∀ i < n, h.match_ (place marks (.call i)) = some (place marks (.ret i)) ∧
    h.value (place marks (.call i)) = input i
  ret : ∀ i < n, h.match_ (place marks (.ret i)) = none ∧ h.value (place marks (.ret i)) = output i
  id : ∀ m ∈ marks, h.id (place marks m) = m.id
  headEntry : ∀ m ∈ marks, place marks m ≠ headEntry

/-- The values of the calls and returns of a history. -/
def Carries (entries : List (Entry V)) (input output : Nat → V) : Prop :=
  ∀ elem ∈ entries, elem.value = if elem.kind = .callEntry then input elem.id else output elem.id

theorem LinkedUp.node_at {entries : List (Entry V)} {linking : Linking V} (linked : LinkedUp entries linking)
    {before after : List Mark} {m : Mark} (split : entries.map Entry.mark = before ++ m :: after) :
    ∃ elem ∈ entries, elem.mark = m ∧ linking.heap.value after.length = elem.value ∧
      linking.heap.id after.length = elem.id ∧ linking.heap.match_ after.length =
        if elem.kind = .callEntry then returnAmong after elem.id else none := by
  obtain ⟨front, back, rfl, rfl, split'⟩ := List.map_eq_append_iff.mp split
  obtain ⟨elem, rest, rfl, rfl, rfl⟩ := List.map_eq_cons_iff.mp split'
  refine ⟨elem, by simp, rfl, ?_⟩
  simpa using linked.node front elem rest rfl

theorem LinkedUp.laid {entries : List (Entry V)} {linking : Linking V} (linked : LinkedUp entries linking)
    {n : Nat} (wf : WellFormed n (entries.map Entry.mark)) {input output : Nat → V}
    (carries : Carries entries input output) :
    Laid linking.heap n (entries.map Entry.mark) linking.heap.size input output := by
  have at_ : ∀ {before after : List Mark} {m : Mark}, entries.map Entry.mark = before ++ m :: after →
      place (entries.map Entry.mark) m = after.length := by
    intro before after m split
    have fresh : m ∉ before := by
      have distinct := wf.nodup
      rw [split, List.nodup_append] at distinct
      exact fun inside => distinct.2.2 m inside m List.mem_cons_self rfl
    rw [split, place_append fresh, place_cons_self]
  refine ⟨fun i small => ?_, fun i small => ?_, fun m inside => ?_, fun m inside => ?_⟩
  · obtain ⟨before, after, split⟩ := List.append_of_mem ((wf.call_mem i).mpr small)
    obtain ⟨elem, inside, mark, value, _, match_⟩ := linked.node_at split
    obtain ⟨kind, rfl⟩ : elem.kind = .callEntry ∧ elem.id = i := by
      unfold Entry.mark at mark
      cases kind : elem.kind <;> simp_all
    have ordered := wf.ordered _ small
    have distinct := wf.nodup
    rw [split] at ordered distinct
    have later : Mark.ret elem.id ∈ after := mem_of_sublist_pair distinct ordered
    have fresh : Mark.ret elem.id ∉ before ++ [Mark.call elem.id] := by
      intro early
      have both : (before ++ [Mark.call elem.id] ++ after).Nodup := by simpa using distinct
      exact (List.nodup_append.mp both).2.2 _ early _ later rfl
    have same : place (entries.map Entry.mark) (.ret elem.id) = place after (.ret elem.id) := by
      have parts : before ++ .call elem.id :: after = (before ++ [.call elem.id]) ++ after := by simp
      rw [split, parts, place_append fresh]
    rw [at_ split, match_, value, carries elem inside, if_pos kind, if_pos kind, returnAmong, if_pos later,
      same]
    exact ⟨rfl, rfl⟩
  · obtain ⟨before, after, split⟩ := List.append_of_mem ((wf.ret_mem i).mpr small)
    obtain ⟨elem, inside, mark, value, _, match_⟩ := linked.node_at split
    obtain ⟨kind, rfl⟩ : elem.kind = .returnEntry ∧ elem.id = i := by
      unfold Entry.mark at mark
      cases kind : elem.kind <;> simp_all
    rw [at_ split, match_, value, carries elem inside]
    simp [kind]
  · obtain ⟨before, after, split⟩ := List.append_of_mem inside
    obtain ⟨elem, _, mark, _, id, _⟩ := linked.node_at split
    rw [at_ split, id, ← mark]
    unfold Entry.mark
    split <;> rfl
  · have small := place_lt inside
    rw [List.length_map, ← linked.size] at small
    exact small.ne

end Tda596Labs.Porcupine
