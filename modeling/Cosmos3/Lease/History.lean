import Cosmos3.Lease.Stability
import Cosmos3.Lease.Terminal
import Cosmos3.Orchestrator.Exclusive

namespace Cosmos3.Lease

open Basis Orchestrator
open Jobs (JobId)

-- What has happened to the jobs so far, in order: put in the queue, marked running,
-- their work invoked, and a cancel completed that came before the mark.
structure Journal where
  enqueued : List JobId := []
  marked : List JobId := []
  started : List JobId := []
  withdrawn : List JobId := []

def Journal.note (j : Journal) (r : Jobs.State) (a : Jobs.Action) (r' : Jobs.State) : Journal :=
  match a with
  | .loop (.submit _) => { j with enqueued := j.enqueued ++ r'.queue.drop r.queue.length }
  | .loop .acquireReturns =>
      match r'.busy with
      | some (.appendRunning job) => { j with marked := j.marked ++ [job] }
      | _ => j
  | .nextSection =>
      match r.busy with
      | some (.appendRunning job) => { j with started := j.started ++ [job] }
      | some (.appendCancelled _ job) =>
          if job ∈ j.marked then j else { j with withdrawn := j.withdrawn ++ [job] }
      | _ => j
  | _ => j

-- A run of the system with what has happened in it. `calledFor` tells for which job
-- an acquire was called, `residentFor` which worker was resident when the job was
-- marked running, `began` which running job a cancel was called for, `evicted` the
-- workers whose eviction has completed.
structure History where
  sys : State
  journal : Journal
  calledFor : Orchestrator.TaskId → Option JobId
  residentFor : JobId → Option Worker
  began : Jobs.TaskId → Option JobId
  evicted : List Worker

namespace History

def initial : History where
  sys := Lease.initial
  journal := {}
  calledFor := fun _ => none
  residentFor := fun _ => none
  began := fun _ => none
  evicted := []

section Steps

variable (fingerprint : Text → Python.Dict → Text) (label : Python.Value → String)
  (idleTimeout : ℚ)

def note (h : History) (a : Action) (s' : State) : History :=
  match a with
  | .runner action task _ =>
      { h with
        sys := s'
        journal := h.journal.note h.sys.runner action s'.runner
        calledFor := match action with
          | .loop .leaseGranted => Function.update h.calledFor task (heldJob s'.runner.loop)
          | _ => h.calledFor
        residentFor := match action, s'.runner.busy with
          | .loop .acquireReturns, some (.appendRunning job) =>
              Function.update h.residentFor job h.sys.orch.worker
          | _, _ => h.residentFor
        began := match action with
          | .loop (.cancelCall canceller job) =>
              if h.sys.runner.store.status job = some .running then
                Function.update h.began canceller (some job)
              else h.began
          | _ => h.began }
  | .orch (.threadLeaves task (.returned _)) =>
      { h with
        sys := s'
        evicted := match h.sys.orch.tasks task with
          | .awaiting site _ => site.evicts.toList ++ h.evicted
          | _ => h.evicted }
  | _ => { h with sys := s' }

def step (h : History) (a : Action) : Option History :=
  (Lease.step fingerprint label idleTimeout h.sys a).map (h.note a)

end Steps

@[simp] theorem note_sys (h : History) (a : Action) (s' : State) : (h.note a s').sys = s' := by
  unfold note
  split <;> rfl

section Runs

variable {fingerprint : Text → Python.Dict → Text} {label : Python.Value → String} {idleTimeout : ℚ}
  {ok : History → Action → Prop} {h h' : History} {a : Action}

theorem step_eq_some (hs : step fingerprint label idleTimeout h a = some h') :
    Lease.step fingerprint label idleTimeout h.sys a = some h'.sys ∧ h' = h.note a h'.sys := by
  obtain ⟨s', hstep, rfl⟩ := Option.map_eq_some_iff.mp hs
  rw [note_sys]
  exact ⟨hstep, rfl⟩

theorem reachable_sys (hr : Path (step fingerprint label idleTimeout) ok initial h) :
    Reachable (Lease.step fingerprint label idleTimeout) Lease.initial h.sys := by
  induction hr with
  | start => exact .start
  | next _ _ hs ih => exact .next ih trivial (step_eq_some hs).1

end Runs

end History

end Cosmos3.Lease
