import Cosmos3.Basis.Python
import Cosmos3.Orchestrator.Residency

namespace Cosmos3.Jobs

open Basis Orchestrator

abbrev JobId := Text

inductive JobStatus where
  | queued
  | running
  | succeeded
  | failed
  | cancelled
deriving DecidableEq, Repr

def JobStatus.value : JobStatus → Text
  | .queued => ascii "queued"
  | .running => ascii "running"
  | .succeeded => ascii "succeeded"
  | .failed => ascii "failed"
  | .cancelled => ascii "cancelled"

def JobStatus.isTerminal : JobStatus → Bool
  | .succeeded | .failed | .cancelled => true
  | .queued | .running => false

@[simp] theorem isTerminal_queued : JobStatus.queued.isTerminal = false := rfl

@[simp] theorem isTerminal_running : JobStatus.running.isTerminal = false := rfl

@[simp] theorem isTerminal_succeeded : JobStatus.succeeded.isTerminal = true := rfl

@[simp] theorem isTerminal_failed : JobStatus.failed.isTerminal = true := rfl

@[simp] theorem isTerminal_cancelled : JobStatus.cancelled.isTerminal = true := rfl

structure ErrorModel where
  code : Text
  message : Text

structure JobTransitionError where
  frm : JobStatus
  dest : JobStatus

def JobTransitionError.message (error : JobTransitionError) : Text :=
  ascii "illegal job transition " ++ error.frm.value ++ ascii " -> " ++ error.dest.value

structure JobRecord where
  id : JobId
  mode : Text
  plane : Plane
  status : JobStatus
  createdAt : Text
  params : Python.Dict := []
  progress : Number := .finite 0
  artifactPath : Option Text := none
  error : Option ErrorModel := none
  idempotencyFingerprint : Option Text := none
  resultMeta : Option (List (Text × Json)) := none

-- Both comparisons are false of a NaN, which is passed on as it is.
def clamp01 : Number → Number
  | .finite q => if q < 0 then .finite 0 else if 1 < q then .finite 1 else .finite q
  | .nan => .nan
  | .infinity => .finite 1
  | .negInfinity => .finite 0

section Transitions

variable (job : JobRecord)

def start : Except JobTransitionError JobRecord :=
  if job.status ≠ .queued then .error ⟨job.status, .running⟩
  else .ok { job with status := .running }

def progress (fraction : Number) : Except JobTransitionError JobRecord :=
  if job.status ≠ .running then .error ⟨job.status, .running⟩
  else .ok { job with progress := clamp01 fraction }

def succeed (artifactPath : Text) (resultMeta : List (Text × Json)) :
    Except JobTransitionError JobRecord :=
  if job.status ≠ .running then .error ⟨job.status, .succeeded⟩
  else .ok { job with
    status := .succeeded
    artifactPath := some artifactPath
    progress := .finite 1
    resultMeta := some resultMeta }

def fail (error : ErrorModel) : Except JobTransitionError JobRecord :=
  if job.status.isTerminal then .error ⟨job.status, .failed⟩
  else .ok { job with status := .failed, error := some error }

def cancel : Except JobTransitionError JobRecord :=
  if job.status.isTerminal then .error ⟨job.status, .cancelled⟩
  else .ok { job with status := .cancelled }

end Transitions

-- The changes a record can go through, one constructor for each transition.
inductive Transition : JobRecord → JobRecord → Prop
  | start {job : JobRecord} (h : job.status = .queued) :
      Transition job { job with status := .running }
  | progress {job : JobRecord} (h : job.status = .running) (fraction : Number) :
      Transition job { job with progress := clamp01 fraction }
  | succeed {job : JobRecord} (h : job.status = .running) (artifactPath : Text)
      (resultMeta : List (Text × Json)) :
      Transition job { job with
        status := .succeeded
        artifactPath := some artifactPath
        progress := .finite 1
        resultMeta := some resultMeta }
  | fail {job : JobRecord} (h : job.status.isTerminal = false) (error : ErrorModel) :
      Transition job { job with status := .failed, error := some error }
  | cancel {job : JobRecord} (h : job.status.isTerminal = false) :
      Transition job { job with status := .cancelled }

theorem ok_of_guard {c : Prop} [Decidable c] {error : JobTransitionError}
    {job updated : JobRecord} (h : (if c then Except.error error else .ok job) = .ok updated) :
    ¬c ∧ updated = job := by
  by_cases hc : c
  · rw [if_pos hc] at h
    cases h
  · rw [if_neg hc] at h
    exact ⟨hc, (Except.ok.inj h).symm⟩

theorem start_eq_ok {job updated : JobRecord} (h : start job = .ok updated) :
    job.status = .queued ∧ updated = { job with status := .running } := by
  obtain ⟨hs, rfl⟩ := ok_of_guard h
  exact ⟨not_not.mp hs, rfl⟩

theorem progress_eq_ok {job updated : JobRecord} {fraction : Number}
    (h : progress job fraction = .ok updated) :
    job.status = .running ∧ updated = { job with progress := clamp01 fraction } := by
  obtain ⟨hs, rfl⟩ := ok_of_guard h
  exact ⟨not_not.mp hs, rfl⟩

theorem succeed_eq_ok {job updated : JobRecord} {artifactPath : Text}
    {resultMeta : List (Text × Json)} (h : succeed job artifactPath resultMeta = .ok updated) :
    job.status = .running ∧ updated = { job with
      status := .succeeded
      artifactPath := some artifactPath
      progress := .finite 1
      resultMeta := some resultMeta } := by
  obtain ⟨hs, rfl⟩ := ok_of_guard h
  exact ⟨not_not.mp hs, rfl⟩

theorem fail_eq_ok {job updated : JobRecord} {error : ErrorModel}
    (h : fail job error = .ok updated) :
    job.status.isTerminal = false ∧
      updated = { job with status := .failed, error := some error } := by
  obtain ⟨hs, rfl⟩ := ok_of_guard h
  exact ⟨by simpa using hs, rfl⟩

theorem cancel_eq_ok {job updated : JobRecord} (h : cancel job = .ok updated) :
    job.status.isTerminal = false ∧ updated = { job with status := .cancelled } := by
  obtain ⟨hs, rfl⟩ := ok_of_guard h
  exact ⟨by simpa using hs, rfl⟩

end Cosmos3.Jobs
