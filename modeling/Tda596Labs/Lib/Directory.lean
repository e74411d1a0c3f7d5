import Mathlib.Data.String.Basic

/-! # Directories

A directory maps names to contents and is read in the order of the names, as a directory listing is.
-/

namespace Tda596Labs

variable {α : Type*}

/-- A directory, listed in the order of the names. -/
structure Directory (α : Type*) where
  entries : List (String × α)
  sorted : entries.Pairwise fun a b => a.1 < b.1

def insertFile (name : String) (content : α) : List (String × α) → List (String × α)
  | [] => [(name, content)]
  | file :: rest =>
    if name < file.1 then (name, content) :: file :: rest
    else if name = file.1 then (name, content) :: rest
    else file :: insertFile name content rest

theorem mem_insertFile {name : String} {content : α} {entries : List (String × α)}
    (sorted : entries.Pairwise fun a b => a.1 < b.1) {file : String × α} :
    file ∈ insertFile name content entries ↔
      file = (name, content) ∨ (file ∈ entries ∧ file.1 ≠ name) := by
  induction entries with
  | nil => simp [insertFile]
  | cons first rest ih =>
    obtain ⟨before, sortedRest⟩ := List.pairwise_cons.mp sorted
    simp only [insertFile]
    by_cases smaller : name < first.1
    · have absent : ∀ other ∈ first :: rest, other.1 ≠ name := by
        intro other member
        cases List.mem_cons.mp member with
        | inl equal => exact equal ▸ smaller.ne'
        | inr later => exact (smaller.trans (before other later)).ne'
      rw [if_pos smaller, List.mem_cons]
      exact or_congr_right ⟨fun member => ⟨member, absent file member⟩, And.left⟩
    · rw [if_neg smaller]
      by_cases equal : name = first.1
      · have absent : ∀ other ∈ rest, other.1 ≠ name := fun other later =>
          equal ▸ (before other later).ne'
        rw [if_pos equal, List.mem_cons, List.mem_cons]
        constructor
        · intro either
          exact either.imp_right fun later => ⟨.inr later, absent file later⟩
        · intro either
          refine either.imp_right fun ⟨member, other⟩ => ?_
          exact member.resolve_left fun same => other (same ▸ equal.symm)
      · rw [if_neg equal, List.mem_cons, List.mem_cons, ih sortedRest]
        constructor
        · intro either
          cases either with
          | inl same => exact .inr ⟨.inl same, same ▸ Ne.symm equal⟩
          | inr later => exact later.imp_right fun ⟨member, other⟩ => ⟨.inr member, other⟩
        · intro either
          cases either with
          | inl new => exact .inr (.inl new)
          | inr old =>
            obtain ⟨member, other⟩ := old
            exact member.imp_right fun later => .inr ⟨later, other⟩

theorem insertFile_sorted {name : String} {content : α} {entries : List (String × α)}
    (sorted : entries.Pairwise fun a b => a.1 < b.1) :
    (insertFile name content entries).Pairwise fun a b => a.1 < b.1 := by
  induction entries with
  | nil => simp [insertFile]
  | cons first rest ih =>
    obtain ⟨before, sortedRest⟩ := List.pairwise_cons.mp sorted
    simp only [insertFile]
    by_cases smaller : name < first.1
    · rw [if_pos smaller, List.pairwise_cons]
      refine ⟨fun other member => ?_, sorted⟩
      cases List.mem_cons.mp member with
      | inl equal => exact equal ▸ smaller
      | inr later => exact smaller.trans (before other later)
    · rw [if_neg smaller]
      by_cases equal : name = first.1
      · rw [if_pos equal, List.pairwise_cons]
        exact ⟨fun other later => equal ▸ before other later, sortedRest⟩
      · rw [if_neg equal, List.pairwise_cons]
        refine ⟨fun other member => ?_, ih sortedRest⟩
        cases (mem_insertFile sortedRest).mp member with
        | inl new =>
          have larger : first.1 < name := lt_of_le_of_ne (not_lt.mp smaller) (Ne.symm equal)
          exact new ▸ larger
        | inr old => exact before other old.1

/-! ## Patterns

`*` stands for any run of characters other than the separator; every other character of a pattern
stands for itself. -/

/-- Some suffix of the name, reached without passing a separator, is accepted by `rest`. -/
def skips (rest : List Char → Bool) : List Char → Bool
  | [] => rest []
  | char :: chars => rest (char :: chars) || (char ≠ '/' && skips rest chars)

def matchesPattern : List Char → List Char → Bool
  | [], name => name.isEmpty
  | char :: pattern, name =>
    if char = '*' then skips (matchesPattern pattern) name
    else match name with
      | [] => false
      | first :: name => first = char && matchesPattern pattern name

theorem skips_iff {rest : List Char → Bool} {chars : List Char} :
    skips rest chars = true ↔
      ∃ skipped left, chars = skipped ++ left ∧ '/' ∉ skipped ∧ rest left = true := by
  induction chars with
  | nil =>
    simp only [skips]
    constructor
    · intro accepted
      exact ⟨[], [], rfl, by simp, accepted⟩
    · intro ⟨skipped, left, split, _, accepted⟩
      obtain ⟨_, rfl⟩ := List.append_eq_nil_iff.mp split.symm
      exact accepted
  | cons char chars ih =>
    simp only [skips, Bool.or_eq_true, Bool.and_eq_true, decide_eq_true_eq, ih]
    constructor
    · intro either
      cases either with
      | inl here => exact ⟨[], char :: chars, rfl, by simp, here⟩
      | inr later =>
        obtain ⟨plain, skipped, left, rfl, clean, accepted⟩ := later
        exact ⟨char :: skipped, left, rfl, by simp [plain.symm, clean], accepted⟩
    · intro ⟨skipped, left, split, clean, accepted⟩
      cases skipped with
      | nil => exact .inl (by rw [split]; exact accepted)
      | cons first skipped =>
        obtain ⟨rfl, rfl⟩ := List.cons.inj split
        simp only [List.mem_cons, not_or] at clean
        exact .inr ⟨Ne.symm clean.1, skipped, left, rfl, clean.2, accepted⟩

/-- The literal beginning of a pattern is the beginning of every name that matches. -/
theorem matchesPattern_append {literal pattern name : List Char} (noStar : '*' ∉ literal) :
    matchesPattern (literal ++ pattern) name = true ↔
      ∃ left, name = literal ++ left ∧ matchesPattern pattern left = true := by
  induction literal generalizing name with
  | nil => simp
  | cons char literal ih =>
    simp only [List.mem_cons, not_or] at noStar
    have plain : char ≠ '*' := Ne.symm noStar.1
    cases name with
    | nil => simp [matchesPattern, plain]
    | cons first name => simp [matchesPattern, plain, ih noStar.2, and_assoc]

/-- The names that `head*tail` matches. -/
theorem matchesPattern_star {head tail name : List Char} (noStar : '*' ∉ head) (noStar' : '*' ∉ tail) :
    matchesPattern (head ++ '*' :: tail) name = true ↔
      ∃ middle, name = head ++ (middle ++ tail) ∧ '/' ∉ middle := by
  have exact_ : ∀ left, matchesPattern tail left = true ↔ left = tail := by
    intro left
    rw [← List.append_nil tail, matchesPattern_append noStar']
    simp [matchesPattern]
  rw [matchesPattern_append noStar]
  simp only [matchesPattern, if_true, skips_iff, exact_]
  constructor
  · intro ⟨left, split, middle, last, split', clean, equal⟩
    exact ⟨middle, by rw [split, split', equal], clean⟩
  · intro ⟨middle, split, clean⟩
    exact ⟨middle ++ tail, split, middle, tail, rfl, clean, rfl⟩

namespace Directory

def empty : Directory α := ⟨[], .nil⟩

/-- `os.Create` of a file and what is written into it. -/
def create (dir : Directory α) (name : String) (content : α) : Directory α :=
  ⟨insertFile name content dir.entries, insertFile_sorted dir.sorted⟩

theorem mem_create {dir : Directory α} {name : String} {content : α} {file : String × α} :
    file ∈ (dir.create name content).entries ↔
      file = (name, content) ∨ (file ∈ dir.entries ∧ file.1 ≠ name) :=
  mem_insertFile dir.sorted

/-- `os.Remove`. -/
def remove (dir : Directory α) (name : String) : Directory α :=
  ⟨dir.entries.filter fun file => file.1 ≠ name, dir.sorted.filter _⟩

/-- The names in a directory, as `os.ReadDir` lists them. -/
def names (dir : Directory α) : List String := dir.entries.map (·.1)

/-- The content of a file. -/
def read (dir : Directory α) (name : String) : Option α :=
  (dir.entries.find? fun file => file.1 = name).map (·.2)

theorem read_eq_some_iff {dir : Directory α} {name : String} {content : α} :
    dir.read name = some content ↔ (name, content) ∈ dir.entries := by
  simp only [read, Option.map_eq_some_iff]
  constructor
  · intro ⟨file, found, equal⟩
    have named := List.find?_some found
    simp only [decide_eq_true_eq] at named
    subst named equal
    exact List.mem_of_find?_eq_some found
  · intro member
    refine ⟨(name, content), ?_, rfl⟩
    obtain ⟨before, after, split⟩ := List.append_of_mem member
    have sorted := dir.sorted
    rw [split, List.pairwise_append] at sorted
    rw [split, List.find?_append, List.find?_eq_none.mpr, Option.none_or, List.find?_cons_of_pos (by simp)]
    intro file earlier same
    simp only [decide_eq_true_eq] at same
    exact absurd same (sorted.2.2 file earlier _ List.mem_cons_self).ne

theorem read_create (dir : Directory α) (name name' : String) (content : α) :
    (dir.create name content).read name' = if name' = name then some content else dir.read name' := by
  apply Option.ext
  intro found
  rw [read_eq_some_iff, mem_create]
  by_cases same : name' = name
  · simp [same, eq_comm]
  · simp [same, read_eq_some_iff]

theorem read_remove (dir : Directory α) (name name' : String) :
    (dir.remove name).read name' = if name' = name then none else dir.read name' := by
  apply Option.ext
  intro found
  rw [read_eq_some_iff]
  by_cases same : name' = name
  · simp [remove, same]
  · simp [remove, same, read_eq_some_iff]

theorem mem_names_iff {dir : Directory α} {name : String} : name ∈ dir.names ↔ (dir.read name).isSome := by
  simp only [Option.isSome_iff_exists, read_eq_some_iff, names, List.mem_map]
  constructor
  · rintro ⟨⟨_, content⟩, member, rfl⟩
    exact ⟨content, member⟩
  · rintro ⟨content, member⟩
    exact ⟨_, member, rfl⟩

theorem mem_names_create {dir : Directory α} {name name' : String} {content : α} :
    name' ∈ (dir.create name content).names ↔ name' = name ∨ name' ∈ dir.names := by
  rw [mem_names_iff, read_create, mem_names_iff]
  by_cases same : name' = name <;> simp [same]

theorem mem_names_remove {dir : Directory α} {name name' : String} :
    name' ∈ (dir.remove name).names ↔ name' ≠ name ∧ name' ∈ dir.names := by
  rw [mem_names_iff, read_remove, mem_names_iff]
  by_cases same : name' = name <;> simp [same]

/-- `filepath.Glob`: the files whose names match, in the order of the names. -/
def glob (dir : Directory α) (pattern : String) : List (String × α) :=
  dir.entries.filter fun file => matchesPattern pattern.toList file.1.toList

theorem nodup (dir : Directory α) : dir.entries.Nodup :=
  dir.sorted.imp fun smaller equal => absurd (equal ▸ smaller) (lt_irrefl _)

end Directory

end Tda596Labs
