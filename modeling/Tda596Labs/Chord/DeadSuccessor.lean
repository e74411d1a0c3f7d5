import Tda596Labs.Chord.WholeCalls
import Tda596Labs.Chord.Lookup

/-! # A successor that does not answer

When its request fails, `CallStabilize` drops the first successor, read again after the request: it need not
be the node that was asked.  Nor is it always that node which comes next: after an `"X"` the list is first
shifted and then loses its new head, which nobody has asked, and with one successor only the fingers and the
predecessor that `findNewSucc` looks at never become the successor.
-/

namespace Tda596Labs.Chord

/-! ## The list without its head -/

/-- The other entries. -/
def without (address : NodeAddress) (list : List NodeAddress) : List NodeAddress :=
  list.filter (· ≠ address)

theorem length_without_le (address : NodeAddress) (list : List NodeAddress) :
    (without address list).length ≤ list.length :=
  List.length_filter_le _ _

/-- `clearDeadSucc` on the list: all that is equal to the head becomes `"X"` at the end. -/
def dropHead : List NodeAddress → List NodeAddress
  | [] => []
  | first :: rest => without first rest ++ List.replicate ((first :: rest).count first) "X"

theorem collapse_toList (successors : Successors) :
    (Successors.collapse successors).toList = dropHead successors.toList := by
  have counted : successors.toList.count successors.first =
      successors.others.count successors.first + 1 := by
    simp [Successors.toList]
  have dropped : dropHead successors.toList = without successors.first successors.others ++
      List.replicate (successors.toList.count successors.first) "X" := rfl
  unfold Successors.collapse
  dsimp only
  split
  · next none_ =>
    rw [dropped, without, none_, counted]
    rfl
  · next second later some_ =>
    rw [dropped, without, some_]
    rfl

theorem clearDeadSucc_successors (chord : Chord) :
    chord.clearDeadSucc.node.successors = Successors.collapse chord.node.successors := by
  unfold clearDeadSucc
  dsimp only
  split
  · rfl
  · exact (replaceFingers_keeps _ _ _ _).successors

theorem clearDeadSucc_toList (chord : Chord) :
    chord.clearDeadSucc.node.successors.toList = dropHead chord.node.successors.toList := by
  rw [clearDeadSucc_successors, collapse_toList]

theorem dropHead_length (list : List NodeAddress) : (dropHead list).length = list.length := by
  cases list with
  | nil => rfl
  | cons first rest =>
    have parts : (without first rest).length + rest.count first = rest.length := by
      rw [without, List.count_eq_length_filter, rest.length_eq_length_filter_add (· == first), Nat.add_comm]
      simp [beq_eq_decide]
    rw [dropHead, List.length_append, List.length_replicate, List.count_cons_self, List.length_cons]
    omega

theorem first_notMem_dropHead {first : NodeAddress} (notX : first ≠ "X") (rest : List NodeAddress) :
    first ∉ dropHead (first :: rest) := by
  simp [dropHead, without, List.mem_replicate, notX]

/-! ## What is dropped -/

/-- Of the list `before`, only `s` and `"X"` may be missing in the list `after`, and `s` is. -/
structure DropsOnly (s : NodeAddress) (before after : List NodeAddress) : Prop where
  length : after.length = before.length
  gone : s ∉ after
  kept : (before.filter fun a => a ≠ s ∧ a ≠ "X").Sublist after

/-- Dropping the head drops `s` only if the head is `s`, or if it is an `"X"` and `s` is not there. -/
theorem dropsOnly_dropHead_iff (s first : NodeAddress) (rest : List NodeAddress) :
    DropsOnly s (first :: rest) (dropHead (first :: rest)) ↔
      s ≠ "X" ∧ (first = s ∨ (first = "X" ∧ s ∉ rest)) := by
  constructor
  · intro ⟨_, gone, kept⟩
    have notX : s ≠ "X" := by
      rintro rfl
      simp [dropHead] at gone
    refine ⟨notX, ?_⟩
    by_cases isS : first = s
    · exact .inl isS
    · have isX : first = "X" := by
        by_contra other
        refine first_notMem_dropHead other rest (kept.subset ?_)
        simp [isS, other]
      refine .inr ⟨isX, fun inside => gone ?_⟩
      simp [dropHead, without, inside, Ne.symm isS]
  · intro ⟨notX, dropped⟩
    have same : (first :: rest).filter (fun a => a ≠ s ∧ a ≠ "X") =
        (without first rest).filter fun a => a ≠ s ∧ a ≠ "X" := by
      rw [without, List.filter_filter]
      obtain rfl | ⟨rfl, _⟩ := dropped
      · simp [Bool.and_right_comm]
      · simp
    refine ⟨dropHead_length _, ?_, ?_⟩
    · obtain rfl | ⟨rfl, missing⟩ := dropped
      · exact first_notMem_dropHead notX rest
      · simp [dropHead, without, missing, List.mem_replicate, notX]
    · rw [same]
      exact List.filter_sublist.trans (List.sublist_append_left _ _)

/-- What may happen at the node while it waits for the answer. -/
inductive Meanwhile where
  | join (request : Request)
  | notify (request : Request)
  /-- an own `CallNotify` comes back -/
  | notified (target : NodeAddress) (response : NotifyResponse)

def meanwhile (sha1 : String → Nat) (chord : Chord) : Meanwhile → Chord
  | .join request => (join sha1 chord request).1
  | .notify request => (notify sha1 chord request).1
  | .notified target response => if response.success then chord.accepted target else chord

theorem asked_eq_first {chord asking : Chord} {request : Request} {s : NodeAddress}
    (begins : callStabilize chord = (asking, .stabilizeCall request s)) :
    s = chord.node.successors.first := by
  unfold callStabilize at begins
  dsimp only at begins
  split at begins
  · cases begins
    rfl
  · split at begins
    · cases begins
    · cases begins
      rfl

/-- A failed request to `s` drops `s` and nothing else if and only if `s` is not the marker and the first
successor is still `s` by then, or is unknown and `s` is not in the list any more. -/
theorem clearDeadSucc_dropsOnly_iff (sha1 : String → Nat) {chord asking : Chord} {request : Request}
    {s : NodeAddress} (begins : callStabilize chord = (asking, .stabilizeCall request s))
    (window : List Meanwhile) :
    DropsOnly s (window.foldl (meanwhile sha1) asking).node.successors.toList
        (window.foldl (meanwhile sha1) asking).clearDeadSucc.node.successors.toList ↔
      chord.node.successors.first ≠ "X" ∧
        ((window.foldl (meanwhile sha1) asking).node.successors.first = s ∨
          ((window.foldl (meanwhile sha1) asking).node.successors.first = "X" ∧
            s ∉ (window.foldl (meanwhile sha1) asking).node.successors.others)) := by
  rw [clearDeadSucc_toList, ← asked_eq_first begins]
  exact dropsOnly_dropHead_iff s _ _

/-- A node that asks its first successor `localhost:1236`. -/
def asker : Chord := settledChord fourNodes 1 "localhost:1235"

theorem asker_begins : callStabilize asker = (asker, .stabilizeCall asker.request "localhost:1236") := by
  have first : asker.node.successors.first = "localhost:1236" := by decide +kernel
  have named : asker.node.nodeAddress = "localhost:1235" := rfl
  rw [callStabilize_of_other (by rw [first]; decide) (by rw [first, named]; decide), first]

/-- A `Notify` in the window does no harm. -/
theorem dropsOnly_after_notify :
    DropsOnly "localhost:1236" ([.notify joiner].foldl (meanwhile knownSha1) asker).node.successors.toList
      ([.notify joiner].foldl (meanwhile knownSha1) asker).clearDeadSucc.node.successors.toList :=
  (clearDeadSucc_dropsOnly_iff knownSha1 asker_begins [.notify joiner]).mpr
    ⟨by decide +kernel, .inl (by decide +kernel)⟩

/-- `localhost:1241` joins at `localhost:1235` while that waits for `localhost:1236`, and is dropped. -/
theorem joiner_dropped :
    ¬ ∀ (sha1 : String → Nat) (chord asking : Chord) (request : Request) (s : NodeAddress),
      callStabilize chord = (asking, .stabilizeCall request s) → ∀ window : List Meanwhile,
        DropsOnly s (window.foldl (meanwhile sha1) asking).node.successors.toList
          (window.foldl (meanwhile sha1) asking).clearDeadSucc.node.successors.toList := by
  intro always
  have dropsOnly := always knownSha1 asker asker asker.request "localhost:1236" asker_begins [.join joiner]
  have joined : "localhost:1241" ∈
      ([.join joiner].foldl (meanwhile knownSha1) asker).node.successors.toList := by decide +kernel
  have dropped : "localhost:1241" ∉
      ([.join joiner].foldl (meanwhile knownSha1) asker).clearDeadSucc.node.successors.toList := by
    decide +kernel
  exact dropped (dropsOnly.kept.subset (List.mem_filter.mpr ⟨joined, by decide⟩))

/-! ## Who is asked next -/

/-- The list after a call whose request fails. -/
def afterFailure : List NodeAddress → List NodeAddress
  | [] => []
  | [only] => dropHead [only]
  -- After `findNewSucc` the head of the shifted list is dropped in place of the marker.
  | first :: second :: later =>
    if first = "X" then dropHead (second :: later ++ ["X"]) else dropHead (first :: second :: later)

theorem findNewSucc_single {chord : Chord} (single : chord.node.successors.others = []) :
    chord.findNewSucc.node.successors.others = [] := by
  unfold findNewSucc
  rw [single]
  dsimp only
  split
  · exact single
  · rw [(fillFingers_keeps _ _ _).successors, single]

theorem dropHead_findNewSucc {chord : Chord} (isX : chord.node.successors.first = "X") :
    dropHead chord.findNewSucc.node.successors.toList = afterFailure chord.node.successors.toList := by
  cases others : chord.node.successors.others with
  | nil =>
    rw [Successors.toList, Successors.toList, findNewSucc_single others, others]
    simp [dropHead, without, afterFailure]
  | cons second later =>
    have shifted : chord.findNewSucc.node.successors = ⟨second, later ++ ["X"]⟩ := by
      rw [findNewSucc, others]
    rw [shifted, Successors.toList, Successors.toList, others, isX, afterFailure, if_pos rfl]
    rfl

theorem clearDeadSucc_of_callStabilize {chord asking : Chord} {request : Request} {s : NodeAddress}
    (begins : callStabilize chord = (asking, .stabilizeCall request s)) :
    asking.clearDeadSucc.node.successors.toList = afterFailure chord.node.successors.toList := by
  rw [clearDeadSucc_toList]
  by_cases isX : chord.node.successors.first = "X"
  · rw [callStabilize_of_X isX] at begins
    cases begins
    exact dropHead_findNewSucc isX
  · have kept : asking = chord := by
      unfold callStabilize at begins
      rw [if_neg isX] at begins
      split at begins
      · cases begins
      · cases begins
        rfl
    rw [kept, Successors.toList]
    cases chord.node.successors.others with
    | nil => rfl
    | cons second later => rw [afterFailure, if_neg isX]

/-- The addresses that come to stand first while the first successor does not answer.  An `"X"` takes the
entry behind it along, which is never asked. -/
def tried : List NodeAddress → List NodeAddress
  | [] => []
  | first :: rest =>
    if first = "X" then
      match rest with
      | [] => []
      | skipped :: later => tried (without skipped later)
    else first :: tried (without first rest)
termination_by list => list.length
decreasing_by
  · exact Nat.lt_succ_of_lt (Nat.lt_succ_of_le (length_without_le skipped later))
  · exact Nat.lt_succ_of_le (length_without_le first rest)

/-! ## Recovery -/

section Recovery

variable {sha1 : String → Nat} {me : NodeAddress} {nodes : NodeAddress → Option Chord} {chord : Chord}

/-- Some number of calls in a row leads to a first successor that is running. -/
def Recovers (sha1 : String → Nat) (me : NodeAddress) (nodes : NodeAddress → Option Chord) : Prop :=
  ∃ n after chord, stabilizeEach sha1 (List.replicate n me) nodes = some after ∧ after me = some chord ∧
    (after chord.node.successors.first).isSome

theorem recovers_of_first (found : nodes me = some chord)
    (live : (nodes chord.node.successors.first).isSome) : Recovers sha1 me nodes :=
  ⟨0, nodes, chord, rfl, found, live⟩

theorem recovers_iff_of_call {after : NodeAddress → Option Chord} (found : nodes me = some chord)
    (lost : nodes chord.node.successors.first = none) (called : stabilizeOnce sha1 me nodes = some after) :
    Recovers sha1 me nodes ↔ Recovers sha1 me after := by
  constructor
  · rintro ⟨n, last, chord', ran, found', live⟩
    cases n with
    | zero =>
      cases ran
      obtain rfl := Option.some.inj (found.symm.trans found')
      rw [lost] at live
      cases live
    | succ n =>
      rw [List.replicate_succ, stabilizeEach, called, Option.bind_some] at ran
      exact ⟨n, last, chord', ran, found', live⟩
  · rintro ⟨n, last, chord', ran, found', live⟩
    refine ⟨n + 1, last, chord', ?_, found', live⟩
    rw [List.replicate_succ, stabilizeEach, called, Option.bind_some, ran]

/-- A call whose request fails changes the list of its node only. -/
theorem stabilizeOnce_of_failure (sha1 : String → Nat) (found : nodes me = some chord)
    (named : chord.node.nodeAddress = me) (lost : nodes chord.node.successors.first = none) :
    ∃ changed, stabilizeOnce sha1 me nodes = some (Function.update nodes me (some changed)) ∧
      changed.node.nodeAddress = me ∧
      changed.node.successors.toList = afterFailure chord.node.successors.toList := by
  have other : chord.node.successors.first ≠ me := by
    intro itself
    rw [itself, found] at lost
    cases lost
  have begins : ∃ asking, callStabilize chord =
      (asking, .stabilizeCall chord.request chord.node.successors.first) ∧
      asking.node.nodeAddress = chord.node.nodeAddress := by
    by_cases isX : chord.node.successors.first = "X"
    · rw [isX]
      exact ⟨_, callStabilize_of_X isX, (findNewSucc_keeps chord).nodeAddress⟩
    · exact ⟨chord, callStabilize_of_other isX (named ▸ other), rfl⟩
  obtain ⟨asking, begins, name⟩ := begins
  refine ⟨_, stabilizeOnce_of_lost found begins other lost, ?_, clearDeadSucc_of_callStabilize begins⟩
  rw [(clearDeadSucc_keeps asking).nodeAddress, name, named]

theorem isSome_update {b : NodeAddress} {changed : Chord} (found : nodes me = some chord) :
    (Function.update nodes me (some changed) b).isSome = (nodes b).isSome := by
  by_cases here : b = me
  · rw [here, Function.update_self, found]
    rfl
  · rw [Function.update_of_ne here]

theorem afterFailure_markers (k : Nat) : afterFailure (List.replicate k "X") = List.replicate k "X" := by
  match k with
  | 0 => rfl
  | 1 => rfl
  | k + 2 =>
    have shifted : "X" :: List.replicate k "X" ++ ["X"] = List.replicate (k + 2) "X" := by
      rw [← List.replicate_succ, ← List.replicate_succ']
    rw [List.replicate_succ, List.replicate_succ, afterFailure, if_pos rfl, shifted]
    simp [List.replicate_succ, dropHead, without]

theorem afterFailure_of_ne {first : NodeAddress} (notX : first ≠ "X") (rest : List NodeAddress) :
    afterFailure (first :: rest) = dropHead (first :: rest) := by
  cases rest with
  | nil => rfl
  | cons second later => rw [afterFailure, if_neg notX]

theorem dropHead_append_markers (first : NodeAddress) (rest : List NodeAddress) (k : Nat) :
    ∃ j, dropHead (first :: (rest ++ List.replicate k "X")) =
      without first rest ++ List.replicate j "X" := by
  rw [dropHead, without, List.filter_append, List.append_assoc, List.filter_replicate]
  split
  · rw [List.replicate_append_replicate]
    exact ⟨_, rfl⟩
  · exact ⟨_, rfl⟩

theorem afterFailure_of_marker (skipped : NodeAddress) (later : List NodeAddress) (k : Nat) :
    ∃ j, afterFailure ("X" :: skipped :: (later ++ List.replicate k "X")) =
      without skipped later ++ List.replicate j "X" := by
  rw [afterFailure, if_pos rfl, List.cons_append, List.append_assoc, ← List.replicate_succ']
  exact dropHead_append_markers skipped later (k + 1)

theorem update_X (noX : nodes "X" = none) (found : nodes me = some chord) (changed : Chord) :
    Function.update nodes me (some changed) "X" = none := by
  rw [Function.update_of_ne, noX]
  rintro rfl
  rw [noX] at found
  cases found

theorem Successors.first_of_markers {successors : Successors} {k : Nat}
    (markers : successors.toList = List.replicate k "X") : successors.first = "X" := by
  have inside : successors.first ∈ successors.toList := List.mem_cons_self
  rw [markers] at inside
  exact List.eq_of_mem_replicate inside

theorem Successors.first_of_toList {successors : Successors} {first : NodeAddress} {rest : List NodeAddress}
    (list : successors.toList = first :: rest) : successors.first = first :=
  (List.cons.inj list).1

/-- A list of markers only stays one. -/
theorem not_recovers_of_markers (noX : nodes "X" = none) (found : nodes me = some chord)
    (named : chord.node.nodeAddress = me) {k : Nat}
    (markers : chord.node.successors.toList = List.replicate k "X") : ¬ Recovers sha1 me nodes := by
  rintro ⟨n, after, last, ran, foundLast, live⟩
  induction n generalizing nodes chord with
  | zero =>
    cases ran
    obtain rfl := Option.some.inj (found.symm.trans foundLast)
    rw [Successors.first_of_markers markers, noX] at live
    cases live
  | succ n ih =>
    have lost : nodes chord.node.successors.first = none := by
      rw [Successors.first_of_markers markers, noX]
    obtain ⟨changed, called, name, list⟩ := stabilizeOnce_of_failure sha1 found named lost
    rw [List.replicate_succ, stabilizeEach, called, Option.bind_some] at ran
    rw [markers, afterFailure_markers] at list
    exact ih (update_X noX found changed) (Function.update_self ..) name list ran

/-- A node whose list begins with `list`, followed by markers, recovers if and only if one of `tries` is
running. -/
def Decides (sha1 : String → Nat) (me : NodeAddress) (list tries : List NodeAddress) : Prop :=
  ∀ (nodes : NodeAddress → Option Chord) (chord : Chord) (k : Nat), nodes "X" = none →
    nodes me = some chord → chord.node.nodeAddress = me →
    chord.node.successors.toList = list ++ List.replicate k "X" →
    (Recovers sha1 me nodes ↔ ∃ b ∈ tries, (nodes b).isSome)

/-- After a call that fails the list it leaves decides. -/
theorem Decides.of_failure {shorter tries : List NodeAddress} (decides : Decides sha1 me shorter tries)
    (noX : nodes "X" = none) (found : nodes me = some chord) (named : chord.node.nodeAddress = me)
    (lost : nodes chord.node.successors.first = none)
    (leaves : ∃ j, afterFailure chord.node.successors.toList = shorter ++ List.replicate j "X") :
    Recovers sha1 me nodes ↔ ∃ b ∈ tries, (nodes b).isSome := by
  obtain ⟨j, leaves⟩ := leaves
  obtain ⟨changed, called, name, list⟩ := stabilizeOnce_of_failure sha1 found named lost
  rw [recovers_iff_of_call found lost called,
    decides _ changed j (update_X noX found changed) (Function.update_self ..) name (list.trans leaves)]
  simp only [isSome_update found]

theorem decides_tried (sha1 : String → Nat) (me : NodeAddress) (list : List NodeAddress) :
    Decides sha1 me list (tried list) := by
  induction list using tried.induct with
  | case1 =>
    intro nodes chord k noX found named markers
    rw [tried]
    exact iff_of_false (not_recovers_of_markers noX found named markers) (by simp)
  | case2 =>
    intro nodes chord k noX found named markers
    have all : ["X"] ++ List.replicate k "X" = List.replicate (k + 1) "X" := by rw [List.replicate_succ]; rfl
    rw [all] at markers
    exact iff_of_false (not_recovers_of_markers noX found named markers) (by simp [tried])
  | case3 skipped later ih =>
    intro nodes chord k noX found named list
    have lost : nodes chord.node.successors.first = none := by
      rw [Successors.first_of_toList list, noX]
    rw [tried, if_pos rfl]
    refine ih.of_failure noX found named lost ?_
    rw [list]
    exact afterFailure_of_marker skipped later k
  | case4 first rest notX ih =>
    intro nodes chord k noX found named list
    have tries : tried (first :: rest) = first :: tried (without first rest) := by
      rw [tried.eq_def]
      simp only [if_neg notX]
    rw [tries]
    have isFirst := Successors.first_of_toList list
    by_cases live : (nodes first).isSome
    · exact iff_of_true (recovers_of_first found (isFirst ▸ live)) ⟨first, List.mem_cons_self, live⟩
    · have lost : nodes chord.node.successors.first = none := by
        rwa [isFirst, ← Option.not_isSome_iff_eq_none]
      have decided := ih.of_failure noX found named lost (by
        rw [list, List.cons_append, afterFailure_of_ne notX]
        exact dropHead_append_markers first rest k)
      rw [decided]
      simp [live]

/-- A node recovers by calls of `CallStabilize` in a row if and only if one of the successors that come to
stand first is running; the fingers and the predecessor do not matter. -/
theorem recovers_iff_tried (sha1 : String → Nat) (noX : nodes "X" = none) (found : nodes me = some chord)
    (named : chord.node.nodeAddress = me) :
    (∃ n after changed, stabilizeEach sha1 (List.replicate n me) nodes = some after ∧
      after me = some changed ∧ (after changed.node.successors.first).isSome) ↔
    ∃ b ∈ tried chord.node.successors.toList, (nodes b).isSome :=
  decides_tried sha1 me _ nodes chord 0 noX found named (List.append_nil _).symm

end Recovery

/-- The ring of four nodes after `localhost:1236` has stopped. -/
def survivors (extra : Nat) : NodeAddress → Option Chord :=
  Function.update (settled fourNodes extra) "localhost:1236" none

/-- With two successors `localhost:1235` gets to the second one. -/
theorem recovers_with_two_successors :
    ∃ n after changed,
      stabilizeEach knownSha1 (List.replicate n "localhost:1235") (survivors 1) = some after ∧
      after "localhost:1235" = some changed ∧ (after changed.node.successors.first).isSome := by
  have found : survivors 1 "localhost:1235" = some (settledChord fourNodes 1 "localhost:1235") := rfl
  refine (recovers_iff_tried knownSha1 rfl found rfl).mpr ⟨"localhost:1237", ?_, rfl⟩
  decide +kernel

/-- With one successor `localhost:1235` never gets to its predecessor `localhost:1238`, which is running. -/
theorem never_recovers_with_one_successor :
    ¬ ∀ (sha1 : String → Nat) (nodes : NodeAddress → Option Chord) (me : NodeAddress) (chord : Chord),
      nodes "X" = none → nodes me = some chord → chord.node.nodeAddress = me →
      nodes chord.node.successors.first = none →
      (∃ b, b ≠ me ∧ (nodes b).isSome ∧ (b ∈ chord.node.successors.others ∨
        (∃ n, 1 ≤ n ∧ n ≤ keySize ∧ (chord.node.fingerTable n).nodeAddress = b) ∨
        b = chord.node.predecessor)) →
      ∃ n after changed, stabilizeEach sha1 (List.replicate n me) nodes = some after ∧
        after me = some changed ∧ (after changed.node.successors.first).isSome := by
  intro always
  have found : survivors 0 "localhost:1235" = some (settledChord fourNodes 0 "localhost:1235") := rfl
  have first : (settledChord fourNodes 0 "localhost:1235").node.successors.first = "localhost:1236" := by
    decide +kernel
  have previous : (settledChord fourNodes 0 "localhost:1235").node.predecessor = "localhost:1238" := by
    decide +kernel
  have recovers := always knownSha1 (survivors 0) "localhost:1235" _ rfl found rfl (first ▸ rfl)
    ⟨"localhost:1238", by decide, rfl, .inr (.inr previous.symm)⟩
  have tries : tried (settledChord fourNodes 0 "localhost:1235").node.successors.toList =
      ["localhost:1236"] := by decide +kernel
  obtain ⟨b, inside, live⟩ := (decides_tried knownSha1 "localhost:1235" _ (survivors 0) _ 0 rfl found rfl
    (List.append_nil _).symm).mp recovers
  rw [tries, List.mem_singleton] at inside
  subst inside
  cases live

end Tda596Labs.Chord
