import Tda596Labs.MapReduce.Progress

/-! # The output files

`WorkDone` marks a reduce job as completed whether or not `os.Create` of its output file has succeeded,
and it writes the file again when a second worker reports the job.  So `IsDone` can be true with a file
missing, and a file can change after that.  Neither happens if the first report of each reduce job can
create its file, and a report that is handled after `IsDone` agrees with the others of its job.
-/

namespace Tda596Labs.MapReduce.Service

open Transition

variable {program : Program} {output : Directory Bytes} {s t : Service} {e : Event}
  {r : Nat} {taken : List (Taken Service Event)} {final : Service}

/-- `./output/mr-out-r` -/
def outputOf (s : Service) (r : Nat) : Option Bytes := s.output.read (outFile r)

/-- The output file of a reduce job holds the `OutputFile` of a `WorkDone` for it that was written. -/
def Written (taken : List (Taken Service Event)) (s : Service) (r : Nat) : Prop :=
  ∃ τ ∈ taken, ∃ complete, τ.event = .workDone complete true ∧ complete.workType = .reduce ∧
    complete.jobId = r ∧ s.outputOf r = some complete.outputFile

/-- When `IsDone` is true all output files are written, and no step changes them after that. -/
structure NoEarlyExit (program : Program) (taken : List (Taken Service Event)) (final : Service) :
    Prop where
  written : final.coordinator.isDone = true → ∀ r < program.nReduce, Written taken final r
  kept : ∀ τ ∈ taken, τ.before.coordinator.isDone = true → ∀ r < program.nReduce,
    τ.after.outputOf r = τ.before.outputOf r

/-- The first report of a reduce job can create the output file. -/
def reliable (s : Service) : Event → Bool
  | .workDone complete created =>
    complete.workType ≠ .reduce ∨ created = true ∨ (s.coordinator.reduceChunk complete.jobId).completed = true
  | _ => true

/-- The output file that a report can create, and the content that it brings. -/
def reportOf : Event → Option (Nat × Bytes)
  | .workDone complete true =>
    if complete.workType = .reduce then some (complete.jobId, complete.outputFile) else none
  | _ => none

/-- A report that is handled after `IsDone` brings the same content as all other reports of its job. -/
def ReportsAgree (taken : List (Taken Service Event)) : Prop :=
  ∀ τ ∈ taken, τ.before.coordinator.isDone = true → ∀ late ∈ reportOf τ.event,
    ∀ σ ∈ taken, ∀ other ∈ reportOf σ.event, other.1 = late.1 → other.2 = late.2

instance instDecidableReportsAgree (taken : List (Taken Service Event)) : Decidable (ReportsAgree taken) :=
  inferInstanceAs (Decidable (∀ τ ∈ taken, _ → ∀ late ∈ reportOf τ.event, ∀ σ ∈ taken, _))

theorem reportOf_workDone {complete : WorkComplete} (isReduce : complete.workType = .reduce) :
    reportOf (.workDone complete true) = some (complete.jobId, complete.outputFile) := if_pos isReduce

theorem outputOf_workDone (s : Service) (complete : WorkComplete) (created : Bool) :
    (s.workDone complete created).outputOf r =
      if complete.workType = .reduce ∧ created = true ∧ complete.jobId = r then some complete.outputFile
      else s.outputOf r := by
  by_cases writes : complete.workType = .reduce ∧ created = true
  · simp only [outputOf, workDone, writes, and_self, if_true, true_and, Directory.read_create, outFile_inj,
      eq_comm]
  · have other : ¬ (complete.workType = .reduce ∧ created = true ∧ complete.jobId = r) :=
      fun all => writes ⟨all.1, all.2.1⟩
    simp only [outputOf, workDone, if_neg writes, if_neg other]

/-- Only a `WorkDone` for the job that can create the file writes an output file. -/
theorem outputOf_step (r : Nat) (moved : s.step program e = some t) :
    t.outputOf r = s.outputOf r ∨ ∃ complete, e = .workDone complete true ∧ complete.workType = .reduce ∧
      complete.jobId = r ∧ t.outputOf r = some complete.outputFile := by
  cases step_effect moved with
  | @workDone complete valid created =>
    rw [outputOf_workDone]
    by_cases writes : complete.workType = .reduce ∧ created = true ∧ complete.jobId = r
    · obtain ⟨isReduce, rfl, isJob⟩ := writes
      exact .inr ⟨complete, rfl, isReduce, isJob, by simp [isReduce, isJob]⟩
    · exact .inl (if_neg writes)
  | doSetup | getWork | workerDead | tick => exact .inl rfl

/-- A reduce job becomes completed by a `WorkDone` for it only. -/
theorem completed_step (sound : (s.coordinator.board .reduce).Sound) (moved : s.step program e = some t)
    (completed : (job .reduce r t).closed = true) :
    (job .reduce r s).closed = true ∨ ∃ complete created, e = .workDone complete created ∧
      complete.workType = .reduce ∧ complete.jobId = r := by
  have stepped := (board_moves sound moved).lease sound r
  by_cases closes : leaseEvent program .reduce s e r = .close
  · right
    have concerns := leaseEvent_concerns program .reduce s e r
    rw [closes] at concerns
    cases concerns with
    | reported created isKind isJob => exact ⟨_, created, rfl, isKind, isJob⟩
  · exact .inl (Lease.closed_of_step closes stepped completed)

theorem reliable_workDone {complete : WorkComplete} {created : Bool}
    (isReliable : reliable s (.workDone complete created) = true) (isReduce : complete.workType = .reduce) :
    created = true ∨ (job .reduce complete.jobId s).closed = true := by
  simp only [reliable, isReduce, ne_eq, not_true_eq_false, false_or, decide_eq_true_eq] at isReliable
  exact isReliable

theorem Written.snoc (written : Written taken s r) (same : t.outputOf r = s.outputOf r) :
    Written (taken ++ [⟨s, e, t⟩]) t r := by
  obtain ⟨τ, member, complete, isDone, isReduce, isJob, content⟩ := written
  exact ⟨τ, List.mem_append_left _ member, complete, isDone, isReduce, isJob, same.trans content⟩

theorem written_last {complete : WorkComplete} (isReduce : complete.workType = .reduce)
    (content : t.outputOf complete.jobId = some complete.outputFile) :
    Written (taken ++ [⟨s, .workDone complete true, t⟩]) t complete.jobId :=
  ⟨_, List.mem_append_right _ (List.mem_singleton.mpr rfl), complete, rfl, isReduce, rfl, content⟩

/-- A completed reduce job has its output file. -/
theorem written_of_completed (run : ServiceRun program output taken final)
    (isReliable : AllMeet (fun s e => reliable s e = true) taken)
    (completed : (job .reduce r final).closed = true) : Written taken final r := by
  induction run with
  | nil =>
    rw [job_start] at completed
    cases completed
  | @snoc taken s t e run moved ih =>
    obtain before | ⟨complete, created, rfl, isReduce, rfl⟩ :=
      completed_step (sound_of_run .reduce run) moved completed
    · obtain same | ⟨complete, rfl, isReduce, rfl, content⟩ := outputOf_step r moved
      · exact (ih isReliable.earlier before).snoc same
      · exact written_last isReduce content
    · cases step_effect moved
      cases created with
      | true => exact written_last isReduce (by simp [outputOf_workDone, isReduce])
      | false =>
        -- the file could not be created now, but it was by the first report
        have before := (reliable_workDone isReliable.last isReduce).resolve_left Bool.false_ne_true
        exact (ih isReliable.earlier before).snoc (by simp [outputOf_workDone])

/-- In a run in which the first report of each reduce job can create its file and late reports agree with the others
there is no early exit. -/
theorem no_early_exit (run : ServiceRun program output taken final)
    (isReliable : AllMeet (fun s e => reliable s e = true) taken) (agree : ReportsAgree taken) :
    NoEarlyExit program taken final where
  written done r inside := written_of_completed run isReliable (reduced_of_done run done inside)
  kept τ member done r inside := by
    obtain ⟨moved, earlier, later, rfl, before⟩ := run.taken_step member
    obtain same | ⟨complete, isEvent, isReduce, rfl, content⟩ := outputOf_step r moved
    · exact same
    · -- the file holds the content of an earlier report, with which this one agrees
      obtain ⟨σ, isEarlier, first, isFirst, firstReduce, sameJob, written⟩ :=
        written_of_completed before isReliable.earlier (reduced_of_done before done inside)
      have reported : reportOf τ.event = some (complete.jobId, complete.outputFile) := by
        rw [isEvent, reportOf_workDone isReduce]
      have reportedFirst : reportOf σ.event = some (first.jobId, first.outputFile) := by
        rw [isFirst, reportOf_workDone firstReduce]
      have equal : first.outputFile = complete.outputFile :=
        agree τ member done _ reported σ (List.mem_append_left _ isEarlier) _ reportedFirst sameJob
      rw [content, written, equal]

/-- Worker 1 does both jobs; its `WorkDone` for the reduce job can create the output file or not. -/
def bothJobs (created : Bool) : List Event :=
  [.doSetup "a", .getWork 1 [], .workDone ⟨.map, 0, [], 1⟩ true, .getWork 1 [1],
    .workDone ⟨.reduce, 0, [7], 1⟩ created, .tick]

/-- Worker 2 reports the reduce job as well, after `IsDone` has been set. -/
def reportedTwice : List Event := bothJobs true ++ [.workDone ⟨.reduce, 0, [7], 2⟩ true]

theorem no_early_exit_of_created :
    (outcome (step smallProgram) (start smallProgram .empty) reportedTwice).coordinator.isDone = true ∧
      NoEarlyExit smallProgram (trace (step smallProgram) (start smallProgram .empty) reportedTwice)
        (outcome (step smallProgram) (start smallProgram .empty) reportedTwice) :=
  ⟨by decide, no_early_exit (run_trace _ _ reportedTwice) (by decide) (by decide)⟩

/-- `IsDone` is set although the output file could not be created, and a second report of a reduce job
changes the output file after `IsDone` was set. -/
theorem early_exit :
    (∃ taken final, ServiceRun smallProgram .empty taken final ∧ final.coordinator.isDone = true ∧
      final.outputOf 0 = none ∧ ¬ NoEarlyExit smallProgram taken final) ∧
    ∃ taken final, ServiceRun smallProgram .empty taken final ∧
      final.coordinator.isDone = true ∧ final.outputOf 0 = some [7] ∧
      ∃ later, final.step smallProgram (.workDone ⟨.reduce, 0, [8], 2⟩ true) = some later ∧
        later.outputOf 0 = some [8] := by
  constructor
  · refine ⟨_, _, run_trace _ _ (bothJobs false), by decide, by decide, fun noExit => ?_⟩
    obtain ⟨_, _, complete, _, _, _, content⟩ := noExit.written (by decide) 0 (by decide)
    have missing : (outcome (step smallProgram) (start smallProgram .empty) (bothJobs false)).outputOf 0 =
      none := by decide
    rw [missing] at content
    cases content
  · exact ⟨_, _, run_trace _ _ (bothJobs true), by decide, by decide, _, rfl, by decide⟩

end Tda596Labs.MapReduce.Service
