import Tda596Labs.MapReduce.Coordinator
import Tda596Labs.Lib.Directory

/-! # The MapReduce worker

The parts of `worker.go` that one worker computes by itself: the choice of a bucket for a key, the
bucket files `mr-<job>-<bucket>` it writes into its own directory, and the search of that directory
for the files of a bucket.
-/

namespace Tda596Labs.MapReduce

structure KeyValue where
  key : Bytes
  value : Bytes
deriving DecidableEq, Repr

/-- What the user hands to the coordinator and the workers, and the JSON coder they share.  `encode`
is one `Encode` of the encoder, `decode` the loop that decodes pairs until the first error. -/
structure Program where
  files : List String
  nReduce : Nat
  content : String → Bytes
  mapf : String → Bytes → List KeyValue
  reducef : Bytes → List Bytes → Bytes
  encode : KeyValue → Bytes
  decode : Bytes → List KeyValue

/-! ## Buckets -/

/-- `fnv.New32a` after one `Write` of all bytes. -/
def sum32 (bytes : Bytes) : Nat :=
  bytes.foldl (fun hash byte => ((hash ^^^ byte.toNat) * 16777619) % 2 ^ 32) 2166136261

def ihash (key : Bytes) : Nat := sum32 key &&& 0x7fffffff

/-- The buckets of `DoMap`, filled pair by pair. -/
def intermediate (nReduce : Nat) (pairs : List KeyValue) : List (List KeyValue) :=
  pairs.foldl (fun buckets keyValuePair =>
      buckets.modify (ihash keyValuePair.key % nReduce) (· ++ [keyValuePair]))
    (List.replicate nReduce [])

/-- The pairs that a bucket gets. -/
def bucket (nReduce n : Nat) (pairs : List KeyValue) : List KeyValue :=
  pairs.filter fun keyValuePair => ihash keyValuePair.key % nReduce = n

theorem foldl_modify_getElem? (nReduce n : Nat) (pairs : List KeyValue)
    (buckets : List (List KeyValue)) :
    (pairs.foldl (fun buckets keyValuePair =>
        buckets.modify (ihash keyValuePair.key % nReduce) (· ++ [keyValuePair])) buckets)[n]? =
      buckets[n]?.map (· ++ bucket nReduce n pairs) := by
  induction pairs generalizing buckets with
  | nil => simp [bucket]
  | cons pair pairs ih =>
    rw [List.foldl_cons, ih, List.getElem?_modify]
    by_cases chosen : ihash pair.key % nReduce = n
    · simp [bucket, chosen, Function.comp_def]
    · simp [bucket, chosen]

/-- Bucket `n` holds the pairs whose key hashes to `n`, in the order `mapf` emits them. -/
theorem intermediate_getD {nReduce n : Nat} (inside : n < nReduce) (pairs : List KeyValue) :
    (intermediate nReduce pairs).getD n [] = bucket nReduce n pairs := by
  rw [List.getD_eq_getElem?_getD, intermediate, foldl_modify_getElem?]
  simp [inside]


/-! ## File names -/

def bucketFile (jobId n : Nat) : String := s!"mr-{jobId}-{n}"

def outFile (jobId : Nat) : String := s!"mr-out-{jobId}"

/-- The pattern for the files of a bucket. -/
def bucketPattern (jobId : Nat) : String := s!"mr-*-{jobId}"

theorem bucketFile_toList (jobId n : Nat) : (bucketFile jobId n).toList =
    ['m', 'r', '-'] ++ (Nat.toDigits 10 jobId ++ '-' :: Nat.toDigits 10 n) := by
  simp only [bucketFile, String.toList_append, Nat.toString_eq_repr, Nat.toList_repr, List.append_assoc]
  rfl

theorem outFile_toList (jobId : Nat) : (outFile jobId).toList =
    ['m', 'r', '-'] ++ (['o', 'u', 't'] ++ '-' :: Nat.toDigits 10 jobId) := by
  simp only [outFile, String.toList_append, Nat.toString_eq_repr, Nat.toList_repr]
  rfl

theorem bucketPattern_toList (jobId : Nat) : (bucketPattern jobId).toList =
    ['m', 'r', '-'] ++ '*' :: ('-' :: Nat.toDigits 10 jobId) := by
  simp only [bucketPattern, String.toList_append, Nat.toString_eq_repr, Nat.toList_repr]
  rfl

theorem toDigits_inj {m n : Nat} (equal : Nat.toDigits 10 m = Nat.toDigits 10 n) : m = n := by
  have values := congrArg (Nat.ofDigitChars 10 · 0) equal
  simpa only [Nat.ofDigitChars_ten_toDigits] using values

theorem not_mem_toDigits {char : Char} (other : char.isDigit = false) (n : Nat) :
    char ∉ Nat.toDigits 10 n := by
  intro member
  have digit := Nat.isDigit_of_mem_toDigits (by decide) (by decide) member
  rw [other] at digit
  cases digit

/-- A name `mr-<middle>-<number>` whose middle has no dash matches exactly the pattern of its number. -/
theorem matches_bucketPattern_iff {name : String} {middle : List Char} {n r : Nat}
    (spelled : name.toList = ['m', 'r', '-'] ++ (middle ++ '-' :: Nat.toDigits 10 n))
    (noDash : '-' ∉ middle) (noSlash : '/' ∉ middle) :
    matchesPattern (bucketPattern r).toList name.toList = true ↔ n = r := by
  -- the only star of the pattern is the one in the middle
  have noStar : '*' ∉ '-' :: Nat.toDigits 10 r := by
    simp [not_mem_toDigits (show '*'.isDigit = false by decide) r]
  rw [bucketPattern_toList, matchesPattern_star (by decide) noStar, spelled]
  constructor
  · intro ⟨other, equal, _⟩
    -- the last dash of the name is the dash of the pattern, because no number contains one
    have split := List.append_cancel_left equal
    have noDash' := not_mem_toDigits (show '-'.isDigit = false by decide) n
    exact toDigits_inj ((List.append_cons_inj_of_notMem noDash noDash').mp split).2.2
  · intro equal
    exact ⟨middle, by rw [equal], noSlash⟩

theorem bucketFile_matches_iff {j n r : Nat} :
    matchesPattern (bucketPattern r).toList (bucketFile j n).toList = true ↔ n = r :=
  matches_bucketPattern_iff (bucketFile_toList j n) (not_mem_toDigits (by decide) j)
    (not_mem_toDigits (by decide) j)

/-- The pattern of a bucket also finds the output file of the reduce job of the same number. -/
theorem outFile_matches_iff {k r : Nat} :
    matchesPattern (bucketPattern r).toList (outFile k).toList = true ↔ k = r :=
  matches_bucketPattern_iff (outFile_toList k) (by decide) (by decide)

theorem bucketFile_inj {j n j' n' : Nat} : bucketFile j n = bucketFile j' n' ↔ j = j' ∧ n = n' := by
  constructor
  · intro equal
    have lists := congrArg String.toList equal
    rw [bucketFile_toList, bucketFile_toList] at lists
    obtain ⟨jobs, _, buckets⟩ := (List.append_cons_inj_of_notMem
      (not_mem_toDigits (show '-'.isDigit = false by decide) j)
      (not_mem_toDigits (show '-'.isDigit = false by decide) n)).mp (List.append_cancel_left lists)
    exact ⟨toDigits_inj jobs, toDigits_inj buckets⟩
  · intro ⟨jobs, buckets⟩
    rw [jobs, buckets]

theorem outFile_inj {k k' : Nat} : outFile k = outFile k' ↔ k = k' := by
  constructor
  · intro equal
    have lists := congrArg String.toList equal
    rw [outFile_toList, outFile_toList] at lists
    exact toDigits_inj (List.cons.inj (List.append_cancel_left (List.append_cancel_left lists))).2
  · intro equal
    rw [equal]

theorem bucketFile_ne_outFile (j n k : Nat) : bucketFile j n ≠ outFile k := by
  intro equal
  have lists := congrArg String.toList equal
  rw [bucketFile_toList, outFile_toList] at lists
  obtain ⟨jobs, _⟩ := (List.append_cons_inj_of_notMem
    (not_mem_toDigits (show '-'.isDigit = false by decide) j)
    (not_mem_toDigits (show '-'.isDigit = false by decide) n)).mp (List.append_cancel_left lists)
  have letter : 'o' ∈ Nat.toDigits 10 j := by simp [jobs]
  exact not_mem_toDigits (by decide) j letter

/-- `retreiveFiles` -/
def retreiveFiles (dir : Directory Bytes) (fileNamePattern : String) : Bytes :=
  (dir.glob fileNamePattern).flatMap (·.2)

/-! ## What is retrieved for a bucket -/

/-- The files in the directory of a worker: those of `DoMap` and those of `DoReduce`. -/
def WorkerFiles (dir : Directory Bytes) : Prop :=
  ∀ name ∈ dir.names, (∃ j n, name = bucketFile j n) ∨ ∃ k, name = outFile k

/-- `mr-<j>-<r>` for some map job `j`. -/
def InBucket (r : Nat) (name : String) : Prop := ∃ j, name = bucketFile j r

/-- The number that is written between the first two dashes of a name. -/
def jobOf (name : String) : Nat := Nat.ofDigitChars 10 ((name.toList.drop 3).takeWhile (· ≠ '-')) 0

theorem jobOf_bucketFile (j n : Nat) : jobOf (bucketFile j n) = j := by
  have digits : ∀ char ∈ Nat.toDigits 10 j, decide (char ≠ '-') = true := by
    intro char listed
    have other : char ≠ '-' := fun dash => not_mem_toDigits (show '-'.isDigit = false by decide) j (dash ▸ listed)
    simpa using other
  have rest : (bucketFile j n).toList.drop 3 = Nat.toDigits 10 j ++ '-' :: Nat.toDigits 10 n := by
    rw [bucketFile_toList]
    rfl
  rw [jobOf, rest, List.takeWhile_append_of_pos digits]
  simp [Nat.ofDigitChars_ten_toDigits]

theorem inBucket_iff {r : Nat} {name : String} : name = bucketFile (jobOf name) r ↔ InBucket r name := by
  constructor
  · intro named
    exact ⟨jobOf name, named⟩
  · rintro ⟨j, rfl⟩
    rw [jobOf_bucketFile]

instance instDecidableInBucket (r : Nat) (name : String) : Decidable (InBucket r name) :=
  decidable_of_iff _ inBucket_iff

/-- The files of a bucket, in the order of the directory. -/
def bucketFiles (dir : Directory Bytes) (r : Nat) : List (String × Bytes) :=
  dir.entries.filter fun file => InBucket r file.1

theorem matches_iff_of_workerFiles {dir : Directory Bytes} (worker : WorkerFiles dir) {r : Nat}
    {file : String × Bytes} (inside : file ∈ dir.entries) :
    matchesPattern (bucketPattern r).toList file.1.toList = true ↔ InBucket r file.1 ∨ file.1 = outFile r := by
  obtain ⟨j, n, named⟩ | ⟨k, named⟩ := worker file.1 (List.mem_map_of_mem inside)
  · rw [named, bucketFile_matches_iff]
    simp [InBucket, bucketFile_inj, bucketFile_ne_outFile]
  · have notBucket : ∀ j, outFile k ≠ bucketFile j r := fun j equal => bucketFile_ne_outFile j r k equal.symm
    rw [named, outFile_matches_iff]
    simp [InBucket, outFile_inj, notBucket]

theorem glob_eq_bucketFiles {dir : Directory Bytes} (worker : WorkerFiles dir) {r : Nat}
    (absent : outFile r ∉ dir.names) : dir.glob (bucketPattern r) = bucketFiles dir r := by
  refine List.filter_congr fun file inside => ?_
  have other : file.1 ≠ outFile r := fun named => absent (named ▸ List.mem_map_of_mem inside)
  rw [Bool.eq_iff_iff, matches_iff_of_workerFiles worker inside, decide_eq_true_iff, or_iff_left other]

/-- The output of a reduce job is found with the files of the bucket and is none of them. -/
theorem glob_ne_bucketFiles {dir : Directory Bytes} (worker : WorkerFiles dir) {r : Nat}
    (listed : outFile r ∈ dir.names) : dir.glob (bucketPattern r) ≠ bucketFiles dir r := by
  intro same
  obtain ⟨file, inside, named⟩ := List.mem_map.mp listed
  have found : file ∈ dir.glob (bucketPattern r) :=
    List.mem_filter.mpr ⟨inside, (matches_iff_of_workerFiles worker inside).mpr (.inr named)⟩
  rw [same] at found
  obtain ⟨j, isBucket⟩ := of_decide_eq_true (List.mem_filter.mp found).2
  exact bucketFile_ne_outFile j r r (isBucket.symm.trans named)

/-- `retreiveFiles` reads the files of the bucket, each of them once and no others, and returns their contents one
after the other, if and only if the worker has not written the output of the reduce job of the same number. -/
theorem retreiveFiles_bucket_iff {dir : Directory Bytes} (worker : WorkerFiles dir) (r : Nat) :
    (dir.glob (bucketPattern r) = bucketFiles dir r ∧
      retreiveFiles dir (bucketPattern r) = (bucketFiles dir r).flatMap (·.2)) ↔
    outFile r ∉ dir.names := by
  constructor
  · intro exactly listed
    exact glob_ne_bucketFiles worker listed exactly.1
  · intro absent
    have files := glob_eq_bucketFiles worker absent
    exact ⟨files, by rw [retreiveFiles, files]⟩

/-- A worker that has mapped job 0 into two buckets and reduced bucket 1. -/
def reducedOne : Directory Bytes :=
  ((Directory.empty.create (bucketFile 0 0) [1]).create (bucketFile 0 1) [2]).create (outFile 1) [3]

theorem reducedOne_files : WorkerFiles reducedOne := by
  intro name listed
  simp only [reducedOne, Directory.mem_names_create] at listed
  obtain rfl | rfl | rfl | none_ := listed
  · exact .inr ⟨1, rfl⟩
  · exact .inl ⟨0, 1, rfl⟩
  · exact .inl ⟨0, 0, rfl⟩
  · cases none_

theorem mem_outFile_reducedOne {r : Nat} : outFile r ∈ reducedOne.names ↔ r = 1 := by
  have others : ∀ j n, outFile r ≠ bucketFile j n := fun j n equal => bucketFile_ne_outFile j n r equal.symm
  have none_ : outFile r ∉ (Directory.empty : Directory Bytes).names := List.not_mem_nil
  simp [reducedOne, Directory.mem_names_create, outFile_inj, others, none_]

/-- Bucket 0 is retrieved as it was written. -/
theorem retreives_bucket_zero :
    reducedOne.glob (bucketPattern 0) = bucketFiles reducedOne 0 ∧
      retreiveFiles reducedOne (bucketPattern 0) = (bucketFiles reducedOne 0).flatMap (·.2) :=
  (retreiveFiles_bucket_iff reducedOne_files 0).mpr (by simp [mem_outFile_reducedOne])

/-- With bucket 1 the output `mr-out-1` is retrieved as well. -/
theorem retreives_output_with_bucket :
    ¬ ∀ (dir : Directory Bytes) (r : Nat), WorkerFiles dir →
      dir.glob (bucketPattern r) = bucketFiles dir r ∧
        retreiveFiles dir (bucketPattern r) = (bucketFiles dir r).flatMap (·.2) := by
  intro always
  exact glob_ne_bucketFiles reducedOne_files (mem_outFile_reducedOne.mpr rfl) (always reducedOne 1 reducedOne_files).1

end Tda596Labs.MapReduce
