import Tda596Labs.Chord.Lookup
import Tda596Labs.Chord.WholeCalls

/-! # Taking over from a predecessor that stopped

When `CheckPred` fails, the replicated files become the node's own: every file is moved from one directory to
the other and a copy is sent to the first successor.  With nothing in between no file is lost on the way, also
if the successor does not answer, and if it does, every file that was taken over is at two nodes again.
-/

namespace Tda596Labs.Chord

open Transition

/-! ## One entry -/

section Entry

variable {sha1 : String → Nat} {chord : Chord}

/-- `os.Rename` of a replicated file into the own directory. -/
def renamed (chord : Chord) (entry : String) : Chord :=
  match chord.duplDir.read entry with
  | none => chord
  | some content =>
    { chord with
      duplDir := chord.duplDir.remove entry
      fileDir := chord.fileDir.create entry content }

/-- The own file of a name after the replicated files of some names have been moved. -/
def afterMove (chord : Chord) (moved : List String) (name : String) : Option FileContent :=
  if name ∈ moved then (chord.duplDir.read name).or (chord.fileDir.read name) else chord.fileDir.read name

theorem takeOverEntry_good (entry : String) :
    takeOverEntry sha1 .good chord entry =
      (renamed chord entry, ((renamed chord entry).fileDir.read entry).map fun content =>
        ⟨hashString sha1 entry, entry, content, true⟩) := by
  have moved : (takeOverEntry sha1 .good chord entry).1 = renamed chord entry := by
    simp only [takeOverEntry, Disk.good, renamed]
    split <;> rfl
  rw [← moved]
  simp only [takeOverEntry, Disk.good, Disk.failsRead]
  split <;> simp_all

theorem renamed_node (entry : String) : (renamed chord entry).node = chord.node := by
  unfold renamed
  split <;> rfl

theorem renamed_lists (entry : String) :
    (renamed chord entry).files = chord.files ∧ (renamed chord entry).replicatedFiles = chord.replicatedFiles := by
  unfold renamed
  split <;> exact ⟨rfl, rfl⟩

theorem renamed_fileDir (entry name : String) :
    (renamed chord entry).fileDir.read name = afterMove chord [entry] name := by
  unfold renamed afterMove
  cases found : chord.duplDir.read entry with
  | none => by_cases same : name = entry <;> simp [same, found]
  | some content =>
    dsimp only
    rw [Directory.read_create]
    by_cases same : name = entry <;> simp [same, found]

theorem renamed_duplDir (entry name : String) :
    (renamed chord entry).duplDir.read name = if name = entry then none else chord.duplDir.read name := by
  unfold renamed
  cases found : chord.duplDir.read entry with
  | none => by_cases same : name = entry <;> simp [same, found]
  | some content => exact Directory.read_remove _ _ _

/-- Moving one entry and then the others is moving all of them. -/
theorem afterMove_renamed (entry : String) (entries : List String) (name : String) :
    afterMove (renamed chord entry) entries name = afterMove chord (entry :: entries) name := by
  unfold afterMove
  rw [renamed_fileDir, renamed_duplDir, afterMove]
  by_cases same : name = entry
  · by_cases later : entry ∈ entries <;> simp [same, later]
  · simp [same]

theorem callDuplication_node {changed : Chord} (same : changed.node = chord.node) :
    callDuplication changed = callDuplication chord := by
  simp [callDuplication, same]

end Entry

/-! ## All entries -/

/-- The pointers of the other nodes are as before. -/
def OthersKept (me : NodeAddress) (before after : NodeAddress → Option Chord) : Prop :=
  ∀ b, b ≠ me → (after b).map Chord.node = (before b).map Chord.node

/-- What the loop of `reassignDuplicatedToMe` over some entries has done when the tick ends. -/
structure TakenOver (me : NodeAddress) (entries : List String) (chord : Chord)
    (before after : NodeAddress → Option Chord) (now : Chord) : Prop where
  found : after me = some now
  node : now.node = { chord.node with predecessor := "X" }
  others : OthersKept me before after
  files : now.files = chord.files ++ chord.replicatedFiles
  replicatedFiles : now.replicatedFiles = []
  fileDir : ∀ name, now.fileDir.read name = afterMove chord entries name
  copies : ∀ succ target, callDuplication chord = some succ → before succ = some target →
    ∃ target', after succ = some target' ∧ ∀ name, target'.duplDir.read name =
      if name ∈ entries then (afterMove chord entries name).or (target.duplDir.read name)
      else target.duplDir.read name

section Loop

variable {sha1 : String → Nat} {me : NodeAddress} {chord : Chord} {nodes : NodeAddress → Option Chord}

/-- The handler `StoreFile` of a copy. -/
theorem storeFile_copy (target : Chord) {entry : String} (plain : PlainName entry) (content : FileContent) :
    (storeFile .good target ⟨hashString sha1 entry, entry, content, true⟩).1 =
      { target with
        duplDir := target.duplDir.create entry content
        replicatedFiles := target.replicatedFiles ++ [entry] } := by
  simp [storeFile, writeFile, Disk.good, plain.clean]

theorem OthersKept.trans {a b c : NodeAddress → Option Chord} (first : OthersKept me a b)
    (second : OthersKept me b c) : OthersKept me a c :=
  fun address other => (second address other).trans (first address other)

theorem othersKept_update (changed : Chord) : OthersKept me nodes (Function.update nodes me (some changed)) :=
  fun b other => by rw [Function.update_of_ne other]

theorem advance_takeOver (sha1 : String → Nat) (found : nodes me = some chord) (entries : List String) :
    advance sha1 me (.takeOver entries) nodes =
      (proceed sha1 .good chord (.takeOver entries)).map fun result =>
        (result.2.1, Function.update nodes me (some result.1)) := by
  simp [advance, Phase.awaits, Phase.site, found]

/-- When the successor does not answer, the loop goes on. -/
theorem advance_takeOverCall_of_lost (sha1 : String → Nat) (me : NodeAddress) {succ : NodeAddress}
    (lost : nodes succ = none) (entries : List String) (request : StoreFileRequest) :
    advance sha1 me (.takeOverCall entries request succ) nodes = some (.takeOver entries, nodes) := by
  simp [advance, Phase.awaits, lost, Phase.failed]

theorem advance_takeOverCall (sha1 : String → Nat) (me : NodeAddress) {succ : NodeAddress} {target : Chord}
    (asked : nodes succ = some target) {entry : String} (plain : PlainName entry) (entries : List String)
    (content : FileContent) :
    advance sha1 me (.takeOverCall entries ⟨hashString sha1 entry, entry, content, true⟩ succ) nodes =
      some (.takeOver entries, Function.update nodes succ (some { target with
        duplDir := target.duplDir.create entry content
        replicatedFiles := target.replicatedFiles ++ [entry] })) := by
  simp [advance, Phase.awaits, asked, serve, storeFile_copy _ plain]

/-- One entry: at most two steps, after which the file is the node's own and its copy at the successor. -/
theorem takeOver_entry (sha1 : String → Nat) (found : nodes me = some chord) (named : chord.node.nodeAddress = me)
    {entry : String} (plain : PlainName entry) (entries : List String) :
    ∃ steps middle, (∀ fuel, goOn sha1 me (fuel + steps) (.takeOver (entry :: entries)) nodes =
        goOn sha1 me fuel (.takeOver entries) middle) ∧ steps ≤ 2 ∧
      middle me = some (renamed chord entry) ∧ OthersKept me nodes middle ∧
      ∀ succ target, callDuplication chord = some succ → nodes succ = some target →
        ∃ target', middle succ = some target' ∧ ∀ name, target'.duplDir.read name =
          if name = entry then (afterMove chord [entry] entry).or (target.duplDir.read name)
          else target.duplDir.read name := by
  have kept : callDuplication (renamed chord entry) = callDuplication chord :=
    callDuplication_node (renamed_node entry)
  have read : (renamed chord entry).fileDir.read entry = afterMove chord [entry] entry :=
    renamed_fileDir entry entry
  have apart : ∀ {succ}, callDuplication chord = some succ → succ ≠ me := fun sends =>
    named ▸ callDuplication_ne sends
  have moves : OthersKept me nodes (Function.update nodes me (some (renamed chord entry))) :=
    othersKept_update _
  have here : Function.update nodes me (some (renamed chord entry)) me = some (renamed chord entry) :=
    Function.update_self ..
  have ran := advance_takeOver sha1 found (entry :: entries)
  simp only [proceed, takeOverEntry_good, read] at ran
  cases copied : afterMove chord [entry] entry with
  | none =>
    simp only [copied, Option.map_none, Option.map_some] at ran
    refine ⟨1, _, fun fuel => goOn_step ran, by omega, here, moves, fun succ target sends asked => ?_⟩
    exact ⟨target, (Function.update_of_ne (apart sends) ..).trans asked, by simp⟩
  | some content =>
    simp only [copied, Option.map_some, kept] at ran
    cases sends : callDuplication chord with
    | none =>
      simp only [sends, Option.map_some] at ran
      exact ⟨1, _, fun fuel => goOn_step ran, by omega, here, moves, fun _ _ sent => by cases sent⟩
    | some succ =>
      simp only [sends, Option.map_some] at ran
      have other := apart sends
      have unmoved : Function.update nodes me (some (renamed chord entry)) succ = nodes succ :=
        Function.update_of_ne other ..
      cases asked : nodes succ with
      | none =>
        have fails := advance_takeOverCall_of_lost sha1 me (unmoved.trans asked) entries
          ⟨hashString sha1 entry, entry, content, true⟩
        refine ⟨2, _, fun fuel => (goOn_step ran).trans (goOn_step fails), by omega, here,
          moves, fun succ' target sent asked' => ?_⟩
        obtain rfl := Option.some.inj sent
        rw [asked] at asked'
        cases asked'
      | some target =>
        have served := advance_takeOverCall sha1 me (unmoved.trans asked) plain entries content
        refine ⟨2, _, fun fuel => (goOn_step ran).trans (goOn_step served), by omega, ?_,
          fun b notMe => ?_, fun succ' target' sent asked' => ?_⟩
        · rw [Function.update_of_ne other.symm, here]
        · by_cases there : b = succ
          · rw [there, Function.update_self, asked]
            rfl
          · rw [Function.update_of_ne there, moves b notMe]
        · obtain rfl := Option.some.inj sent
          obtain rfl := Option.some.inj (asked.symm.trans asked')
          refine ⟨_, Function.update_self .., fun name => ?_⟩
          dsimp only
          rw [Directory.read_create, Option.some_or]

/-- The loop ends, with every file moved and every copy sent. -/
theorem takeOver_ends (sha1 : String → Nat) (found : nodes me = some chord) (named : chord.node.nodeAddress = me)
    {entries : List String} (plain : ∀ entry ∈ entries, PlainName entry) {fuel : Nat}
    (enough : 2 * entries.length + 1 ≤ fuel) :
    ∃ after now, goOn sha1 me fuel (.takeOver entries) nodes = some after ∧
      TakenOver me entries chord nodes after now := by
  induction entries generalizing nodes chord fuel with
  | nil =>
    obtain ⟨fuel, rfl⟩ := Nat.exists_eq_add_of_le' enough
    have ran := advance_takeOver sha1 found []
    simp only [proceed, Option.map_some] at ran
    refine ⟨Function.update nodes me (some (takeOverDone chord)), takeOverDone chord,
      (goOn_step ran).trans (by rw [goOn]), ?_⟩
    refine ⟨Function.update_self .., rfl, othersKept_update _, rfl, rfl, fun name => by simp [afterMove]; rfl, ?_⟩
    intro succ target sends asked
    have other : succ ≠ me := named ▸ callDuplication_ne sends
    exact ⟨target, (Function.update_of_ne other ..).trans asked, by simp⟩
  | cons entry entries ih =>
    obtain ⟨first, others⟩ := List.forall_mem_cons.mp plain
    obtain ⟨steps, middle, goes, few, here, kept, copy⟩ := takeOver_entry sha1 found named first entries
    have named' : (renamed chord entry).node.nodeAddress = me := by rw [renamed_node, named]
    rw [List.length_cons] at enough
    obtain ⟨after, now, ends, taken⟩ := ih here named' others (show 2 * entries.length + 1 ≤ fuel - steps by omega)
    refine ⟨after, now, ?_, taken.found, ?_, kept.trans taken.others, ?_, taken.replicatedFiles, ?_, ?_⟩
    · rw [← Nat.sub_add_cancel (show steps ≤ fuel by omega), goes, ends]
    · rw [taken.node, renamed_node]
    · rw [taken.files, (renamed_lists entry).1, (renamed_lists entry).2]
    · exact fun name => (taken.fileDir name).trans (afterMove_renamed entry entries name)
    · intro succ target sends asked
      obtain ⟨target', asked', copied⟩ := copy succ target sends asked
      obtain ⟨target'', asked'', last⟩ :=
        taken.copies succ target' ((callDuplication_node (renamed_node entry)).trans sends) asked'
      refine ⟨target'', asked'', fun name => ?_⟩
      rw [last, copied, afterMove_renamed]
      by_cases same : name = entry
      · subst same
        by_cases again : name ∈ entries <;> simp [again, afterMove, ← Option.or_assoc]
      · simp [same]

end Loop

/-! ## The tick -/

/-- `CheckPred` when the predecessor does not answer, with as much fuel as there are replicated files. -/
def checkPredOnce (sha1 : String → Nat) (me : NodeAddress) (nodes : NodeAddress → Option Chord) :
    Option (NodeAddress → Option Chord) :=
  (nodes me).bind fun chord =>
    wholeCall sha1 me callCheckPred (2 * chord.duplDir.names.length + 4) nodes

section Tick

variable {sha1 : String → Nat} {me : NodeAddress} {chord : Chord} {nodes : NodeAddress → Option Chord}

theorem update_found (found : nodes me = some chord) : Function.update nodes me (some chord) = nodes :=
  Function.update_eq_self_iff.mpr found.symm

theorem advance_checkRead (sha1 : String → Nat) (found : nodes me = some chord) :
    advance sha1 me .checkRead nodes = some (.checkCall chord.node.predecessor, nodes) := by
  simp [advance, Phase.awaits, Phase.site, found, proceed, update_found found]

theorem advance_checkCall_of_lost (sha1 : String → Nat) (me : NodeAddress) {predecessor : NodeAddress}
    (lost : nodes predecessor = none) :
    advance sha1 me (.checkCall predecessor) nodes = some (.checked false, nodes) := by
  simp [advance, Phase.awaits, lost, Phase.failed]

/-- The tick comes to the point at which the predecessor is given up. -/
theorem checkPred_gives_up (sha1 : String → Nat) (found : nodes me = some chord)
    (named : chord.node.nodeAddress = me) (lost : nodes chord.node.predecessor = none) (fuel : Nat) :
    ∃ more, fuel ≤ more ∧ wholeCall sha1 me callCheckPred (fuel + 2) nodes =
      goOn sha1 me more (.checked false) nodes := by
  have notMe : chord.node.predecessor ≠ chord.node.nodeAddress := by
    intro itself
    rw [itself, named, found] at lost
    cases lost
  rw [wholeCall, found, Option.bind_some]
  by_cases isX : chord.node.predecessor = "X"
  · refine ⟨fuel + 2, by omega, ?_⟩
    simp [callCheckPred, isX, update_found found]
  · refine ⟨fuel, Nat.le_refl _, ?_⟩
    simp only [callCheckPred, isX, notMe, if_false, update_found found]
    rw [goOn_step (advance_checkRead sha1 found), goOn_step (advance_checkCall_of_lost sha1 me lost)]

/-- The tick ends with the predecessor forgotten, and the replicated files taken over if there are any. -/
theorem checkPredOnce_of_lost (sha1 : String → Nat) (found : nodes me = some chord)
    (named : chord.node.nodeAddress = me) (lost : nodes chord.node.predecessor = none)
    (plain : ∀ entry ∈ chord.duplDir.names, PlainName entry) :
    ∃ after now, checkPredOnce sha1 me nodes = some after ∧ after me = some now ∧
      now.node = { chord.node with predecessor := "X" } ∧ OthersKept me nodes after ∧
      (chord.replicatedFiles ≠ [] → TakenOver me chord.duplDir.names chord nodes after now) := by
  obtain ⟨more, enough, gives⟩ := checkPred_gives_up sha1 found named lost (2 * chord.duplDir.names.length + 2)
  rw [checkPredOnce, found, Option.bind_some, gives]
  obtain ⟨more, rfl⟩ := Nat.exists_eq_add_of_le' (show 1 ≤ more by omega)
  by_cases none_ : chord.replicatedFiles = []
  · have ran : advance sha1 me (.checked false) nodes =
        some (.finished, Function.update nodes me (some (chord.setPredecessor "X"))) := by
      simp [advance, Phase.awaits, Phase.site, found, proceed, takeOverEntries, none_]
    refine ⟨_, chord.setPredecessor "X", (goOn_step ran).trans (by rw [goOn]),
      Function.update_self .., rfl, othersKept_update _, fun some_ => absurd none_ some_⟩
  · have ran : advance sha1 me (.checked false) nodes = some (.takeOver chord.duplDir.names, nodes) := by
      simp [advance, Phase.awaits, Phase.site, found, proceed, takeOverEntries, none_, Disk.good, update_found found]
    obtain ⟨after, now, ends, taken⟩ :=
      takeOver_ends sha1 found named plain (show _ ≤ more by omega)
    exact ⟨after, now, (goOn_step ran).trans ends, taken.found, taken.node, taken.others, fun _ => taken⟩

end Tick

/-! ## The tick in the network -/

namespace System

section Files

variable {sha1 : String → Nat} {me : NodeAddress} {chord : Chord} {s : System}

theorem afterMove_names (name : String) : afterMove chord chord.duplDir.names name =
    (chord.duplDir.read name).or (chord.fileDir.read name) := by
  unfold afterMove
  split
  · rfl
  · next unlisted =>
    rw [Directory.mem_names_iff, Bool.not_eq_true, Option.isSome_eq_false_iff, Option.isNone_iff_eq_none]
      at unlisted
    rw [unlisted, Option.none_or]

/-- Taking over loses no file.  Let the `CheckPred` tick of a node find the predecessor gone while there are
replicated files, with plain names as directory entries have them.  If nothing comes in between, file operations
succeed and running nodes answer, the tick ends, and whenever it has ended the node has every file of its own
directory and every replicated file, the replicated one where there are both, and lists them; and if its first
successor is running, that one has a copy of each file that was taken over. -/
theorem takeOver_keeps_files (unlocked : ∀ a, s.owner a = none) (addressed : s.Addressed)
    (idle : ¬ s.busy me .ticker) (found : s.nodes me = some chord) (joined : chord.node.joinPending = false)
    (lost : s.nodes chord.node.predecessor = none) (some_ : chord.replicatedFiles ≠ [])
    (plain : ∀ entry ∈ chord.duplDir.names, PlainName entry) :
    ∃ t, step sha1 s (.checkPred me) = some t ∧ (∃ taken final, Completes sha1 s.tasks.length t taken final) ∧
      ∀ taken final, Completes sha1 s.tasks.length t taken final →
        (∀ a, final.owner a = none) ∧ ∃ now, final.nodes me = some now ∧
          (∀ name, now.fileDir.read name = (chord.duplDir.read name).or (chord.fileDir.read name)) ∧
          now.files = chord.files ++ chord.replicatedFiles ∧
          ∀ succ target, callDuplication chord = some succ → s.nodes succ = some target →
            ∃ target', final.nodes succ = some target' ∧ ∀ name content,
              chord.duplDir.read name = some content → target'.duplDir.read name = some content := by
  obtain ⟨after, now, ran, isNow, _, _, takes⟩ :=
    checkPredOnce_of_lost sha1 found (addressed me chord found) lost plain
  have takenOver := takes some_
  rw [checkPredOnce, found, Option.bind_some] at ran
  obtain ⟨t, starts, ends, every⟩ :=
    wholeCall_completes (.checkPred me) unlocked addressed idle found joined ran
  refine ⟨t, starts, ends, fun taken final completes => ?_⟩
  obtain ⟨rfl, free⟩ := every taken final completes
  refine ⟨free, now, isNow, fun name => (takenOver.fileDir name).trans (afterMove_names name), takenOver.files, ?_⟩
  intro succ target sends asked
  obtain ⟨target', asked', copied⟩ := takenOver.copies succ target sends asked
  refine ⟨target', asked', fun name content replicated => ?_⟩
  have listed : name ∈ chord.duplDir.names := by
    rw [Directory.mem_names_iff, replicated]
    rfl
  rw [copied, if_pos listed, afterMove_names, replicated]
  rfl

end Files

/-- `localhost:1236` with a file of `localhost:1235`. -/
def replicating : Chord :=
  { settledChord fourNodes 1 "localhost:1236" with
    replicatedFiles := ["a.txt"]
    duplDir := Directory.empty.create "a.txt" [7] }

/-- The four nodes after `localhost:1235` has stopped. -/
def without1235 : System where
  nodes := Function.update (Function.update (settled fourNodes 1) "localhost:1236" (some replicating))
    "localhost:1235" none
  owner _ := none
  tasks := []

theorem without1235_addressed : without1235.Addressed := by
  intro a chord found
  by_cases is1235 : a = "localhost:1235"
  · simp [without1235, is1235] at found
  · replace found := (Function.update_of_ne is1235 _ _).symm.trans found
    by_cases is1236 : a = "localhost:1236"
    · rw [is1236, Function.update_self] at found
      rw [is1236, ← Option.some.inj found]
      rfl
    · rw [Function.update_of_ne is1236] at found
      obtain ⟨_, same⟩ := Option.ite_none_right_eq_some.mp found
      rw [← Option.some.inj same]
      rfl

theorem without1235_keeps_files :
    ∃ t taken final now target, step knownSha1 without1235 (.checkPred "localhost:1236") = some t ∧
      Run (step knownSha1) t taken final ∧ final.nodes "localhost:1236" = some now ∧
      now.fileDir.read "a.txt" = some [7] ∧ final.nodes "localhost:1237" = some target ∧
      target.duplDir.read "a.txt" = some [7] := by
  have predecessor : replicating.node.predecessor = "localhost:1235" := by decide +kernel
  have lost : without1235.nodes replicating.node.predecessor = none := by
    rw [predecessor]
    rfl
  have replicated : replicating.duplDir.read "a.txt" = some [7] := by decide +kernel
  have sends : callDuplication replicating = some "localhost:1237" := by decide +kernel
  have asked : without1235.nodes "localhost:1237" = some (settledChord fourNodes 1 "localhost:1237") := rfl
  have idle : ¬ without1235.busy "localhost:1236" .ticker := by
    rintro ⟨task, listed, _⟩
    cases listed
  obtain ⟨t, starts, ⟨taken, final, completes⟩, every⟩ :=
    @takeOver_keeps_files knownSha1 "localhost:1236" replicating without1235 (fun _ => rfl) without1235_addressed
      idle rfl rfl lost (by simp [replicating]) (by decide +kernel)
  obtain ⟨_, now, isNow, files, _, copies⟩ := every taken final completes
  obtain ⟨target, isTarget, copied⟩ := copies "localhost:1237" _ sends asked
  refine ⟨t, taken, final, now, target, starts, completes.run, isNow, ?_, isTarget, copied _ _ replicated⟩
  rw [files, replicated]
  rfl

end System

end Tda596Labs.Chord
