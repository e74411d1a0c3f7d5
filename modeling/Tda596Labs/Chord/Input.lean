import Tda596Labs.Chord.Ring
import Tda596Labs.Chord.WholeCalls

/-! # Commands

`main` reads a line from the terminal and gives it to `parseInput`, with its newline.  The line is cut at
every space, so that the newline stays with the last word.  This decides what the commands make of their
arguments: a command without an argument ends in the newline, and the byte cut off from an argument is the
newline only if nothing follows it.

A line acts as the help text says unless it is `PrintState`, with or without anything after it, or a `setpw`
with more than one argument whose first one is empty or has 17 bytes.
-/

namespace Tda596Labs.Chord

def space : UInt8 := 32

def newline : UInt8 := 10

/-- A node with the key that its commands use. -/
structure Console where
  chord : Chord
  encKey : Bytes

/-- What a line makes the node do. -/
inductive Reaction where
  | prints (text : String)
  | printHash (hash : Nat)
  | dump
  | setKey (key : Bytes)
  /-- `getFileContent` and, if it gives a content, `CallStoreFile` -/
  | storeFile (arg : Bytes)
  /-- `CallLookup` -/
  | lookup (arg : Bytes)

/-- `arg[:len(arg)-1]`; `none` is a slice out of range. -/
def withoutLast (arg : Bytes) : Option Bytes := if arg = [] then none else some arg.dropLast

def helpText : String :=
  "Commands:\n\tStoreFile <localPath>\n\tLookup <fileName>\n\tPrintState (alias d)\n\tsetpw <16 character string>"

def storeUsage : String := "Wrong usage of StoreFile: Usage: StoreFile <localFilePath>\n"

def lookupUsage : String := "Wrong usage of Lookup: Usage: Lookup <fileName>\n"

def notFound : String := "Command not found: try help to see a list of commands\n"

def invalidLength (length : Nat) : String := s!"Invalid password length: {length}\n"

/-- `none`: an index or a slice is out of range, and the process ends. -/
def parseInput (console : Console) (input : Bytes) : Option (Console × Reaction) := do
  let args := input.splitOn space
  let command ← args[0]?
  if command = ascii "help\n" then some (console, .prints helpText)
  else if command = ascii "setpw" then
    let arg ← args[1]?.bind withoutLast
    if arg.length ≠ 16 then some (console, .prints (invalidLength arg.length))
    else some ({ console with encKey := arg }, .setKey arg)
  else if command = ascii "hash\n" then some (console, .printHash console.chord.node.identifier)
  else if command = ascii "d\n" then some (console, .dump)
  else if command = ascii "StoreFile" then
    if args.length ≠ 2 then some (console, .prints storeUsage)
    else do
      let arg ← args[1]?.bind withoutLast
      some (console, .storeFile arg)
  else if command = ascii "Lookup" then
    if args.length ≠ 2 then some (console, .prints lookupUsage)
    else do
      let arg ← args[1]?.bind withoutLast
      some (console, .lookup arg)
  else if command = ascii "PrintState" then some (console, .dump)
  else some (console, .prints notFound)

section Started

variable (sha1 : String → Nat) (text : Bytes → String)
  (getFileContent : Bytes → Bytes → Option FileContent)

/-- The call that a reaction starts, with the first phase of its goroutine. -/
def Reaction.started (console : Console) : Reaction → Option Phase
  | .storeFile arg => (getFileContent arg console.encKey).map fun content =>
    (commandStoreFile sha1 (text arg) content console.chord).2
  | .lookup arg => some (commandLookup sha1 (text arg) console.chord).2
  | _ => none

/-- The call is the goroutine that the event of the command starts in the network. -/
theorem Reaction.started_step {s : System} {a : NodeAddress} {console : Console} {reaction : Reaction}
    {phase : Phase} (found : s.nodes a = some console.chord)
    (joined : console.chord.node.joinPending = false) (free : s.owner a = none) (idle : ¬ s.busy a .main)
    (starts : reaction.started sha1 text getFileContent console = some phase) :
    ∃ e t, System.step sha1 s e = some t ∧ t.tasks = s.tasks ++ [⟨a, .main, phase⟩] := by
  cases reaction with
  | storeFile arg =>
    obtain ⟨content, _, rfl⟩ := Option.map_eq_some_iff.mp starts
    exact ⟨_, _, System.start_of_starts (.storeFile a (text arg) content) found joined free idle, rfl⟩
  | lookup arg =>
    cases starts
    exact ⟨_, _, System.start_of_starts (.lookup a (text arg)) found joined free idle, rfl⟩
  | _ => cases starts

end Started

/-! ## The grammar of the help text -/

/-- `setpw <16 character string>` -/
def SetsKey (line key : Bytes) : Prop :=
  line = ascii "setpw" ++ space :: key ∧ key.length = 16 ∧ space ∉ key

/-- `StoreFile <localPath>` -/
def Stores (line name : Bytes) : Prop := line = ascii "StoreFile" ++ space :: name ∧ space ∉ name

/-- `Lookup <fileName>` -/
def LooksUp (line name : Bytes) : Prop := line = ascii "Lookup" ++ space :: name ∧ space ∉ name

/-- `PrintState (alias d)` -/
def Dumps (line : Bytes) : Prop := line = ascii "PrintState" ∨ line = ascii "d"

/-- What a line does is what the help text says. -/
structure AsDocumented (console : Console) (line : Bytes) (after : Console) (reaction : Reaction) : Prop where
  setsKey : ∀ key, reaction = .setKey key ↔ SetsKey line key
  stores : ∀ name, reaction = .storeFile name ↔ Stores line name
  looksUp : ∀ name, reaction = .lookup name ↔ LooksUp line name
  dumps : reaction = .dump ↔ Dumps line
  key : ∀ key, SetsKey line key → after = { console with encKey := key }
  others : (∀ key, ¬ SetsKey line key) → after = console
  noCall : (∀ name, ¬ Stores line name) → (∀ name, ¬ LooksUp line name) →
    ∀ sha1 text getFileContent, reaction.started sha1 text getFileContent after = none

/-- The node after a reaction. -/
def Reaction.outcome (console : Console) : Reaction → Console
  | .setKey key => { console with encKey := key }
  | _ => console

/-! ## Lines by their number of words -/

section Words

variable {word arg rest tail other : Bytes}

theorem first_word_iff (free : space ∉ word) (free' : space ∉ other) :
    word ++ space :: tail = other ++ space :: rest ↔ word = other ∧ tail = rest := by
  constructor
  · intro same
    have split := congrArg (fun line => (line.splitOn space).head?) same
    simp only [List.splitOn_append_cons_self_of_not_mem free,
      List.splitOn_append_cons_self_of_not_mem free', List.head?_cons, Option.some.injEq] at split
    subst split
    exact ⟨rfl, List.cons_inj_right space |>.mp (List.append_cancel_left same)⟩
  · rintro ⟨rfl, rfl⟩
    rfl

/-- A line has no space, one space, or an argument that is followed by a space. -/
theorem line_cases (line : Bytes) :
    space ∉ line ∨ (∃ word arg, line = word ++ space :: arg ∧ space ∉ word ∧ space ∉ arg) ∨
      ∃ word arg rest, line = word ++ space :: (arg ++ space :: rest) ∧ space ∉ word ∧ space ∉ arg := by
  by_cases one : space ∈ line
  · obtain ⟨word, tail, rfl, free⟩ := List.eq_append_cons_of_mem one
    by_cases two : space ∈ tail
    · obtain ⟨arg, rest, rfl, free'⟩ := List.eq_append_cons_of_mem two
      exact .inr (.inr ⟨word, arg, rest, rfl, free, free'⟩)
    · exact .inr (.inl ⟨word, tail, rfl, free, two⟩)
  · exact .inl one

/-- The newline is cut off from an argument that ends the line. -/
theorem withoutLast_newline (arg : Bytes) : withoutLast (arg ++ [newline]) = some arg := by
  simp [withoutLast]

/-- The last word keeps the newline. -/
theorem splitOn_last (free : space ∉ word) : (word ++ [newline]).splitOn space = [word ++ [newline]] := by
  refine List.splitOn_eq_singleton fun inside => ?_
  obtain before | last := List.mem_append.mp inside
  · exact free before
  · exact absurd last (by decide)

/-- The commands that end in the newline are not found before a space. -/
theorem before_space (one : newline ∉ word) :
    word ≠ ascii "help\n" ∧ word ≠ ascii "hash\n" ∧ word ≠ ascii "d\n" := by
  refine ⟨?_, ?_, ?_⟩ <;> exact fun same => one (same ▸ by decide)

end Words

section Parse

variable {console : Console} {line word arg rest : Bytes}

/-- What a line of one word makes the node do. -/
def alone (console : Console) (line : Bytes) : Reaction :=
  if line = ascii "help" then .prints helpText
  else if line = ascii "hash" then .printHash console.chord.node.identifier
  else if line = ascii "d" then .dump
  else .prints notFound

theorem parseInput_alone (free : space ∉ line) :
    parseInput console (line ++ [newline]) =
      some ((alone console line).outcome console, alone console line) := by
  have ends : ∀ text, line ++ [newline] = text ++ [newline] ↔ line = text := fun text => by simp
  have never : ∀ text, newline ∉ text → line ++ [newline] ≠ text := fun text without same =>
    without (same ▸ by simp)
  have help := ends (ascii "help")
  have hash := ends (ascii "hash")
  have d := ends (ascii "d")
  have setpw := never (ascii "setpw") (by decide)
  have storeFile := never (ascii "StoreFile") (by decide)
  have lookup := never (ascii "Lookup") (by decide)
  have printState := never (ascii "PrintState") (by decide)
  simp only [parseInput, splitOn_last free, List.getElem?_cons_zero, Option.bind_eq_bind, Option.bind_some,
    show ascii "help\n" = ascii "help" ++ [newline] by decide,
    show ascii "hash\n" = ascii "hash" ++ [newline] by decide,
    show ascii "d\n" = ascii "d" ++ [newline] by decide, help, hash, d, setpw, storeFile, lookup, printState,
    if_false, alone]
  split_ifs <;> rfl

/-- What `setpw` makes of the argument it has cut out. -/
def keyGiven (arg : Bytes) : Reaction :=
  if arg.length ≠ 16 then .prints (invalidLength arg.length) else .setKey arg

theorem keyGiven_outcome (arg : Bytes) :
    (if arg.length ≠ 16 then some (console, .prints (invalidLength arg.length))
      else some ({ console with encKey := arg }, .setKey arg)) =
      some ((keyGiven arg).outcome console, keyGiven arg) := by
  unfold keyGiven
  split_ifs <;> rfl

/-- What a line of two words makes the node do. -/
def withArgument (word arg : Bytes) : Reaction :=
  if word = ascii "setpw" then keyGiven arg
  else if word = ascii "StoreFile" then .storeFile arg
  else if word = ascii "Lookup" then .lookup arg
  else if word = ascii "PrintState" then .dump
  else .prints notFound

/-- What a line with more words makes the node do: the byte cut off belongs to the argument. -/
def withMore (word arg : Bytes) : Option Reaction :=
  if word = ascii "setpw" then (withoutLast arg).map keyGiven
  else if word = ascii "StoreFile" then some (.prints storeUsage)
  else if word = ascii "Lookup" then some (.prints lookupUsage)
  else if word = ascii "PrintState" then some .dump
  else some (.prints notFound)

theorem parseInput_withArgument (free : space ∉ word) (free' : space ∉ arg) (one : newline ∉ word) :
    parseInput console (word ++ space :: arg ++ [newline]) =
      some ((withArgument word arg).outcome console, withArgument word arg) := by
  have args : (word ++ space :: arg ++ [newline]).splitOn space = [word, arg ++ [newline]] := by
    rw [List.append_assoc, List.cons_append, List.splitOn_append_cons_self_of_not_mem free,
      splitOn_last free']
  obtain ⟨help, hash, d⟩ := before_space one
  simp only [parseInput, args, List.getElem?_cons_zero, List.getElem?_cons_succ, Option.bind_eq_bind,
    Option.bind_some, withoutLast_newline, List.length_cons, List.length_nil, help, hash, d, if_false,
    keyGiven_outcome, withArgument]
  -- the texts themselves are of no more use, and comparing them is slow
  generalize ascii "setpw" = setpw
  generalize ascii "StoreFile" = storeFile
  generalize ascii "Lookup" = lookup
  generalize ascii "PrintState" = printState
  split_ifs <;> first | rfl | contradiction

theorem parseInput_withMore (free : space ∉ word) (free' : space ∉ arg) (one : newline ∉ word) :
    parseInput console (word ++ space :: (arg ++ space :: rest) ++ [newline]) =
      (withMore word arg).map fun reaction => (reaction.outcome console, reaction) := by
  obtain ⟨last, more, split⟩ := List.exists_cons_of_ne_nil (List.splitOn_ne_nil space (rest ++ [newline]))
  have args : (word ++ space :: (arg ++ space :: rest) ++ [newline]).splitOn space =
      word :: arg :: last :: more := by
    rw [List.append_assoc, List.cons_append, List.splitOn_append_cons_self_of_not_mem free, List.append_assoc,
      List.cons_append, List.splitOn_append_cons_self_of_not_mem free', split]
  obtain ⟨help, hash, d⟩ := before_space one
  have three : (word :: arg :: last :: more).length ≠ 2 := by simp
  simp only [parseInput, args, List.getElem?_cons_zero, List.getElem?_cons_succ, Option.bind_eq_bind,
    Option.bind_some, help, hash, d, if_false, if_pos three, keyGiven_outcome, withMore]
  generalize ascii "setpw" = setpw
  generalize ascii "StoreFile" = storeFile
  generalize ascii "Lookup" = lookup
  generalize ascii "PrintState" = printState
  cases withoutLast arg <;> split_ifs <;> rfl

end Parse

/-! ## Which lines act as documented -/

section Documented

variable {console : Console} {reaction : Reaction} {line word arg tail rest key name : Bytes}

theorem asDocumented_iff :
    AsDocumented console line (reaction.outcome console) reaction ↔
      (∀ key, reaction = .setKey key ↔ SetsKey line key) ∧
      (∀ name, reaction = .storeFile name ↔ Stores line name) ∧
      (∀ name, reaction = .lookup name ↔ LooksUp line name) ∧ (reaction = .dump ↔ Dumps line) := by
  constructor
  · intro documented
    exact ⟨documented.setsKey, documented.stores, documented.looksUp, documented.dumps⟩
  · rintro ⟨setsKey, stores, looksUp, dumps⟩
    refine ⟨setsKey, stores, looksUp, dumps, fun key given => ?_, fun none_ => ?_, fun noStore noLookup => ?_⟩
    · rw [(setsKey key).mpr given]
      rfl
    · cases reaction with
      | setKey key => exact absurd ((setsKey key).mp rfl) (none_ key)
      | _ => rfl
    · cases reaction with
      | storeFile name => exact absurd ((stores name).mp rfl) (noStore name)
      | lookup name => exact absurd ((looksUp name).mp rfl) (noLookup name)
      | _ => exact fun _ _ _ => rfl

theorem setsKey_iff (free : space ∉ word) :
    SetsKey (word ++ space :: tail) key ↔ word = ascii "setpw" ∧ tail = key ∧ key.length = 16 ∧ space ∉ key := by
  rw [SetsKey, first_word_iff free (by decide), and_assoc]

theorem stores_iff (free : space ∉ word) :
    Stores (word ++ space :: tail) name ↔ word = ascii "StoreFile" ∧ tail = name ∧ space ∉ name := by
  rw [Stores, first_word_iff free (by decide), and_assoc]

theorem looksUp_iff (free : space ∉ word) :
    LooksUp (word ++ space :: tail) name ↔ word = ascii "Lookup" ∧ tail = name ∧ space ∉ name := by
  rw [LooksUp, first_word_iff free (by decide), and_assoc]

theorem not_dumps : ¬ Dumps (word ++ space :: tail) := by
  have inside : space ∈ word ++ space :: tail := by simp
  rintro (same | same)
  · exact absurd (same ▸ inside) (by decide)
  · exact absurd (same ▸ inside) (by decide)

theorem keyGiven_eq_setKey_iff : keyGiven arg = .setKey key ↔ arg = key ∧ key.length = 16 := by
  unfold keyGiven
  split_ifs with short
  · simp only [false_iff]
    rintro ⟨rfl, full⟩
    exact short full
  · simp only [Reaction.setKey.injEq]
    exact ⟨fun same => ⟨same, same ▸ not_not.mp short⟩, fun same => same.1⟩

theorem keyGiven_acts (arg : Bytes) :
    (∀ name, keyGiven arg ≠ .storeFile name) ∧ (∀ name, keyGiven arg ≠ .lookup name) ∧
      keyGiven arg ≠ .dump := by
  unfold keyGiven
  split_ifs <;> simp

theorem alone_eq_dump_iff : alone console line = .dump ↔ line = ascii "d" := by
  unfold alone
  split_ifs with help hash d
  · exact iff_of_false nofun (help ▸ by decide)
  · exact iff_of_false nofun (hash ▸ by decide)
  · exact iff_of_true rfl d
  · exact iff_of_false nofun d

theorem alone_acts (console : Console) (line : Bytes) :
    (∀ key, alone console line ≠ .setKey key) ∧ (∀ name, alone console line ≠ .storeFile name) ∧
      ∀ name, alone console line ≠ .lookup name := by
  unfold alone
  split_ifs <;> simp

/-- One word: only `PrintState` is not what it is said to be. -/
theorem alone_asDocumented_iff (free : space ∉ line) :
    AsDocumented console line ((alone console line).outcome console) (alone console line) ↔
      line ≠ ascii "PrintState" := by
  have without : ∀ word tail, line ≠ word ++ space :: tail := fun word tail same => free (same ▸ by simp)
  obtain ⟨noKey, noStore, noLookup⟩ := alone_acts console line
  simp only [asDocumented_iff, SetsKey, Stores, LooksUp, without, false_and, noKey, noStore, noLookup,
    implies_true, true_and, alone_eq_dump_iff, Dumps]
  constructor
  · rintro dumps rfl
    exact absurd (dumps.mpr (.inl rfl)) (by decide)
  · exact fun other => ⟨.inr, fun either => either.resolve_left other⟩

/-- The words that `parseInput` looks for before a space. -/
theorem word_cases (word : Bytes) :
    word = ascii "setpw" ∨ word = ascii "StoreFile" ∨ word = ascii "Lookup" ∨ word = ascii "PrintState" ∨
      (word ≠ ascii "setpw" ∧ word ≠ ascii "StoreFile" ∧ word ≠ ascii "Lookup" ∧ word ≠ ascii "PrintState") := by
  by_cases setpw : word = ascii "setpw"
  · exact .inl setpw
  by_cases storeFile : word = ascii "StoreFile"
  · exact .inr (.inl storeFile)
  by_cases lookup : word = ascii "Lookup"
  · exact .inr (.inr (.inl lookup))
  by_cases printState : word = ascii "PrintState"
  · exact .inr (.inr (.inr (.inl printState)))
  exact .inr (.inr (.inr (.inr ⟨setpw, storeFile, lookup, printState⟩)))

/-- Two words: only after `PrintState` something else happens than is said. -/
theorem withArgument_asDocumented_iff (free : space ∉ word) (free' : space ∉ arg) :
    AsDocumented console (word ++ space :: arg) ((withArgument word arg).outcome console)
      (withArgument word arg) ↔ word ≠ ascii "PrintState" := by
  simp only [asDocumented_iff, setsKey_iff free, stores_iff free, looksUp_iff free, not_dumps, iff_false]
  obtain rfl | rfl | rfl | rfl | ⟨noKey, noStore, noLookup, noPrint⟩ := word_cases word
  · have is : withArgument (ascii "setpw") arg = keyGiven arg := rfl
    simp +decide [is, keyGiven_eq_setKey_iff, keyGiven_acts, free']
  · have is : withArgument (ascii "StoreFile") arg = .storeFile arg := rfl
    simp +decide [is, free']
  · have is : withArgument (ascii "Lookup") arg = .lookup arg := rfl
    simp +decide [is, free']
  · have is : withArgument (ascii "PrintState") arg = .dump := rfl
    simp [is]
  · simp [withArgument, noKey, noStore, noLookup, noPrint]

/-- More words: nothing is documented, so nothing may happen. -/
theorem withMore_asDocumented_iff (console : Console) (rest : Bytes) (free : space ∉ word) :
    (∃ reaction, withMore word arg = some reaction ∧
      AsDocumented console (word ++ space :: (arg ++ space :: rest)) (reaction.outcome console) reaction) ↔
      word ≠ ascii "PrintState" ∧ (word = ascii "setpw" → arg ≠ [] ∧ arg.length ≠ 17) := by
  have tail : ∀ key, arg ++ space :: rest = key → space ∈ key := by
    rintro _ rfl
    simp
  have noKey : ∀ key, ¬ SetsKey (word ++ space :: (arg ++ space :: rest)) key := fun key given =>
    have ⟨_, same, _, without⟩ := (setsKey_iff free).mp given
    without (tail key same)
  have noStore : ∀ name, ¬ Stores (word ++ space :: (arg ++ space :: rest)) name := fun name given =>
    have ⟨_, same, without⟩ := (stores_iff free).mp given
    without (tail name same)
  have noLookup : ∀ name, ¬ LooksUp (word ++ space :: (arg ++ space :: rest)) name := fun name given =>
    have ⟨_, same, without⟩ := (looksUp_iff free).mp given
    without (tail name same)
  simp only [asDocumented_iff, noKey, noStore, noLookup, not_dumps, iff_false]
  obtain rfl | rfl | rfl | rfl | ⟨notKey, notStore, notLookup, notPrint⟩ := word_cases word
  · by_cases empty : arg = []
    · subst empty
      have is : withMore (ascii "setpw") [] = none := rfl
      simp [is]
    · have is : withMore (ascii "setpw") arg = (withoutLast arg).map keyGiven := rfl
      have positive := List.length_pos_of_ne_nil empty
      have cut : arg.length - 1 = 16 ↔ arg.length = 17 := by omega
      simp +decide [is, withoutLast, empty, keyGiven_eq_setKey_iff, keyGiven_acts, cut]
  · simp +decide [withMore]
  · simp +decide [withMore]
  · simp +decide [withMore]
  · simp [withMore, notKey, notStore, notLookup, notPrint]

/-- Neither `PrintState`, nor a `setpw` that cuts a byte off from an argument in the middle of the line and
comes to a slice out of range or a key that way. -/
structure Plain (line : Bytes) : Prop where
  notAlone : line ≠ ascii "PrintState"
  notFollowed : ∀ rest, line ≠ ascii "PrintState" ++ space :: rest
  wellCut : ∀ arg rest, line = ascii "setpw" ++ space :: (arg ++ space :: rest) → space ∉ arg →
    arg ≠ [] ∧ arg.length ≠ 17

theorem plain_alone_iff (free : space ∉ line) : Plain line ↔ line ≠ ascii "PrintState" := by
  have without : ∀ word tail, line ≠ word ++ space :: tail := fun word tail same => free (same ▸ by simp)
  exact ⟨Plain.notAlone, fun other =>
    ⟨other, fun rest => without _ _, fun arg rest same => absurd same (without _ _)⟩⟩

theorem ne_printState : word ++ space :: tail ≠ ascii "PrintState" := fun same => not_dumps (.inl same)

theorem plain_withArgument_iff (free : space ∉ word) (free' : space ∉ arg) :
    Plain (word ++ space :: arg) ↔ word ≠ ascii "PrintState" := by
  constructor
  · intro plain is
    exact plain.notFollowed arg (by rw [is])
  · intro other
    refine ⟨ne_printState, fun rest same => ?_, fun arg' rest same _ => ?_⟩
    · exact other ((first_word_iff free (by decide)).mp same).1
    · obtain ⟨_, rfl⟩ := (first_word_iff free (by decide)).mp same
      exact absurd (by simp) free'

theorem plain_withMore_iff (free : space ∉ word) (free' : space ∉ arg) :
    Plain (word ++ space :: (arg ++ space :: rest)) ↔
      word ≠ ascii "PrintState" ∧ (word = ascii "setpw" → arg ≠ [] ∧ arg.length ≠ 17) := by
  constructor
  · intro plain
    exact ⟨fun is => plain.notFollowed _ (by rw [is]), fun is => plain.wellCut arg rest (by rw [is]) free'⟩
  · rintro ⟨other, cut⟩
    refine ⟨ne_printState, fun rest' same => ?_, fun arg' rest' same without => ?_⟩
    · exact other ((first_word_iff free (by decide)).mp same).1
    · obtain ⟨is, tails⟩ := (first_word_iff free (by decide)).mp same
      obtain ⟨rfl, _⟩ := (first_word_iff free' without).mp tails
      exact cut is

end Documented

/-- `parseInput` comes to its end and acts as the help text says exactly on the plain lines. -/
theorem parseInput_asDocumented_iff (console : Console) (line : Bytes) (one : newline ∉ line) :
    (∃ after reaction, parseInput console (line ++ [newline]) = some (after, reaction) ∧
      AsDocumented console line after reaction) ↔ Plain line := by
  obtain free | ⟨word, arg, rfl, free, free'⟩ | ⟨word, arg, rest, rfl, free, free'⟩ := line_cases line
  · rw [plain_alone_iff free, parseInput_alone free]
    simpa using alone_asDocumented_iff free
  · have word' : newline ∉ word := fun inside => one (by simp [inside])
    rw [plain_withArgument_iff free free', parseInput_withArgument free free' word']
    simpa using withArgument_asDocumented_iff free free'
  · have word' : newline ∉ word := fun inside => one (by simp [inside])
    rw [plain_withMore_iff free free', parseInput_withMore free free' word']
    refine Iff.trans ?_ (withMore_asDocumented_iff console rest free)
    simp [Option.map_eq_some_iff]

/-- The node alone in its ring, with the key that `getArgs` takes by default. -/
def firstConsole : Console :=
  ⟨(initClient (hashString knownSha1 "localhost:1234") "localhost:1234" 1).create, ascii "1623456022901234"⟩

theorem storeFile_asDocumented :
    ∃ after reaction, parseInput firstConsole (ascii "StoreFile a.txt" ++ [newline]) = some (after, reaction) ∧
      AsDocumented firstConsole (ascii "StoreFile a.txt") after reaction := by
  have plain : Plain (ascii "StoreFile" ++ space :: ascii "a.txt") :=
    (plain_withArgument_iff (by decide) (by decide)).mpr (by decide)
  exact (parseInput_asDocumented_iff firstConsole (ascii "StoreFile a.txt") (by decide)).mpr plain

/-- A second space after `setpw` ends the process, and `PrintState` is not found. -/
theorem parseInput_not_asDocumented :
    (parseInput firstConsole (ascii "setpw  secret" ++ [newline])).isNone = true ∧
    ¬ ∀ (console : Console) (line : Bytes), newline ∉ line →
      ∃ after reaction, parseInput console (line ++ [newline]) = some (after, reaction) ∧
        AsDocumented console line after reaction := by
  have ends : (parseInput firstConsole (ascii "setpw  secret" ++ [newline])).isNone = true := by decide
  refine ⟨ends, fun always => ?_⟩
  obtain ⟨after, reaction, ran, _⟩ := always firstConsole (ascii "setpw  secret") (by decide)
  rw [ran] at ends
  cases ends

end Tda596Labs.Chord
