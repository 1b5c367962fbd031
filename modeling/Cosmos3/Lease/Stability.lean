import Cosmos3.Lease.Safe
import Cosmos3.Lease.Steps

namespace Cosmos3.Lease

open Basis Orchestrator
open Jobs (JobId sampleJob sampleFingerprint)

section Steps

variable {fingerprint : Text → Python.Dict → Text} {label : Python.Value → String} {idleTimeout : ℚ}
  {s s' : State}

-- Every run of the system is a run of the orchestrator.
theorem reachable_orch (hs : Reachable (step fingerprint label idleTimeout) initial s) :
    Reachable (Orchestrator.step idleTimeout) Orchestrator.initial s.orch := by
  induction hs with
  | start => exact .start
  | next _ _ hstep ih =>
      rcases step_orch hstep with heq | ⟨action, ho⟩
      · rw [heq]
        exact ih
      · exact .next ih trivial ho

theorem not_evictCall_leaving (site : Site) (outcome : Outcome) (worker : Worker) :
    .evictCall worker ∉ site.leaving outcome := by
  cases site <;> cases outcome <;> simp [Site.leaving]

theorem awaiting_of_phase {o : Orchestrator.State} {site : Site} {call : Call}
    (h : o.phase = some (site, call)) : ∃ u, o.tasks u = .awaiting site call := by
  unfold Orchestrator.State.phase at h
  cases howner : o.lock.owner with
  | none => simp [howner] at h
  | some u =>
      cases hpc : o.tasks u <;> simp_all
      exact ⟨u, hpc⟩

-- A thread that goes into `evict` does so for the coroutine that awaits it.
theorem evictCall_of_coreStep {c c' : Core} {lab : CoreLabel} (h : CoreStep c lab c')
    {events : List Event} {worker : Worker} (hlog : c'.log = events ++ c.log)
    (hevict : .evictCall worker ∈ events) :
    lab = .enters ∧ ∃ site, c.phase = some (site, .pending) ∧ .evictCall worker ∈ site.entering := by
  have hnone : ∀ new : List Event, c'.log = new ++ c.log → .evictCall worker ∉ new → False := by
    intro new hnew hnot
    rw [hnew] at hlog
    exact hnot (List.append_cancel_right hlog ▸ hevict)
  cases h with
  | enters hphase =>
      have heq := List.append_cancel_right hlog
      exact ⟨rfl, _, hphase, heq ▸ hevict⟩
  | leaves outcome hphase =>
      exact (hnone _ rfl (not_evictCall_leaving _ _ _)).elim
  | orphanLeaves site outcome =>
      exact (hnone _ rfl (not_evictCall_leaving _ _ _)).elim
  | hit task target _ _ _ => exact (hnone [_] rfl (by simp)).elim
  | ready task _ => exact (hnone [_] rfl (by simp)).elim
  | _ => exact (hnone [] rfl (by simp)).elim

end Steps

section Window

variable {fingerprint : Text → Python.Dict → Text} {label : Python.Value → String} {idleTimeout : ℚ}
  {s s' : State} {holder : Holder} {task : Orchestrator.TaskId} {job : Option JobId}
  {target : ResidencyId}

-- From the return of the holder's acquire to its release of the lease.
structure Window (s : State) (holder : Holder) (task : Orchestrator.TaskId) (job : Option JobId)
    (target : ResidencyId) : Prop where
  owner : s.lease.owner = some holder
  call : s.callOf holder = some (task, job)
  issued : s.issued task = some (.acquire target)
  returned : s.orch.tasks task = .finished .returned

-- What may be under way meanwhile, and what a step may do: nothing to the target
-- but an eviction issued for the holder's own job.
structure Undisturbed (s s' : State) (holder : Holder) (task : Orchestrator.TaskId)
    (job : Option JobId) (target : ResidencyId) : Prop where
  timer : s.orch.idleHandle = false ∧ s.orch.idleTask = none
  orphans : s.orch.orphans = []
  underWay : ∀ u operation, (s.orch.tasks u).operation = some operation →
    operation = .evictAll false ∧ ∃ j, job = some j ∧ s.issued u = some (.evictAll j)
  resident : s.orch.slot = some target ∨
    ∃ u j, job = some j ∧ s.issued u = some (.evictAll j) ∧ s.orch.tasks u = .finished .returned
  remains : s'.lease.owner = none ∨ Window s' holder task job target
  slot : s'.orch.slot = s.orch.slot ∨ (s'.orch.slot = none ∧
    ∃ u j, job = some j ∧ s'.issued u = some (.evictAll j) ∧
      s.orch.tasks u ≠ .finished .returned ∧ s'.orch.tasks u = .finished .returned)
  evicts : ∀ events worker, s'.orch.log = events ++ s.orch.log → .evictCall worker ∈ events →
    ∃ u j, job = some j ∧ s.issued u = some (.evictAll j) ∧
      s.orch.tasks u = .awaiting (.evictAll false worker) .pending

theorem Window.stage (h : Window s holder task job target) : s.stage = some (task, job) := by
  rw [stage_of_owner h.owner, h.call]

theorem Safe.evictions_of_job (h : Safe s) (hwindow : Window s holder task job target)
    (horch : s'.orch = s.orch ∨
      ∃ action, Orchestrator.step idleTimeout s.orch action = some s'.orch)
    {events : List Event} {worker : Worker} (hlog : s'.orch.log = events ++ s.orch.log)
    (hevict : .evictCall worker ∈ events) :
    ∃ u j, job = some j ∧ s.issued u = some (.evictAll j) ∧
      s.orch.tasks u = .awaiting (.evictAll false worker) .pending := by
  obtain ⟨-, hothers⟩ := h.stable.window task job .returned hwindow.stage hwindow.returned
  rcases horch with heq | ⟨action, ho⟩
  · rw [heq] at hlog
    have hnil : events = [] := by
      have := congrArg List.length hlog
      rw [List.length_append] at this
      exact List.length_eq_zero_iff.mp (by omega)
    rw [hnil] at hevict
    cases hevict
  · have hcore := (step_refines h.stable.consistent ho).core
    obtain ⟨-, site, hphase, hsite⟩ := evictCall_of_coreStep hcore hlog hevict
    obtain ⟨u, hpc⟩ := awaiting_of_phase hphase
    obtain ⟨hoperation, j, hjob, hfor⟩ := hothers u site.operation (by rw [hpc]; rfl)
    refine ⟨u, j, hjob, hfor, ?_⟩
    rw [hpc]
    cases site with
    | evictAll idle own =>
        cases hoperation
        simp only [Site.entering, List.mem_singleton, Event.evictCall.injEq] at hsite
        rw [hsite]
    | _ => cases hoperation

theorem lease_stable (hs : Reachable (step fingerprint label idleTimeout) initial s) {a : Action}
    (hstep : step fingerprint label idleTimeout s a = some s') (holder : Holder)
    (task : Orchestrator.TaskId) (job : Option JobId) (target : ResidencyId) :
    (s.orch.tasks task ≠ .finished .returned → Window s' holder task job target →
      s'.orch.slot = some target) ∧
    (Window s holder task job target → Undisturbed s s' holder task job target) := by
  have hsafe := reachable_safe hs
  obtain ⟨-, hfollows⟩ := step_safe hsafe hstep
  refine ⟨fun hbefore hwindow => ?_, fun hwindow => ?_⟩
  · exact hfollows.kept.acquired task job target hwindow.stage hwindow.issued hbefore hwindow.returned
  · have hstage := hwindow.stage
    obtain ⟨hhandle, hothers⟩ := hsafe.stable.window task job .returned hstage hwindow.returned
    refine ⟨⟨hhandle, hsafe.stable.idleTask_none hstage hwindow.returned⟩, hsafe.stable.orphans, hothers,
      hsafe.stable.resident task job target hstage hwindow.returned hwindow.issued, ?_,
      hfollows.kept.slot task job .returned hstage hwindow.returned,
      fun events worker => hsafe.evictions_of_job hwindow (step_orch hstep)⟩
    rcases hfollows.holder holder _ hwindow.owner hwindow.call with hreleased | ⟨howner, hcall⟩
    · exact .inl hreleased
    · refine .inr ⟨howner, hcall, ?_, hfollows.kept.finished task .returned hwindow.returned⟩
      rw [hfollows.issued task (by simp [hwindow.returned]), hwindow.issued]

end Window

def sampleLabel (_ : Python.Value) : String := ""

-- A job that runs while a cancel of it has called `evict_all`.
def sampleCancelled : List Action :=
  ([.loop .startLoop, .loop (.submit ⟨ascii "t2v", .generation, [], none, sampleJob, ascii "t0"⟩),
    .loop .dequeue, .loop .leaseGranted] : List Jobs.Action).map (.runner · 0 true) ++
  ([.threadEnters 0, .threadLeaves 0 (.returned true), .resumes 0 true, .threadEnters 0,
    .threadLeaves 0 (.returned true), .resumes 0 true] : List Orchestrator.Action).map .orch ++
  ([.loop .acquireReturns, .nextSection, .loop (.cancelCall 1 sampleJob)] : List Jobs.Action).map
    (.runner · 1 true)

theorem lease_stable_sampleCancelled :
    ∃ s s', run (step sampleFingerprint sampleLabel 0) initial sampleCancelled = some s ∧
      step sampleFingerprint sampleLabel 0 s (.orch (.threadEnters 1)) = some s' ∧
      Window s .loop 0 (some sampleJob) ⟨.generation, none⟩ ∧
      Undisturbed s s' .loop 0 (some sampleJob) ⟨.generation, none⟩ := by
  obtain ⟨s, hs⟩ : ∃ s, run (step sampleFingerprint sampleLabel 0) initial sampleCancelled =
    some s := ⟨_, rfl⟩
  obtain ⟨s', hstep, hwindow⟩ : ∃ s', step sampleFingerprint sampleLabel 0 s
      (.orch (.threadEnters 1)) = some s' ∧ Window s .loop 0 (some sampleJob) ⟨.generation, none⟩ := by
    cases hs
    exact ⟨_, rfl, rfl, rfl, rfl, rfl⟩
  exact ⟨s, s', hs, hstep, hwindow, (lease_stable (Reachable.of_run hs) hstep .loop 0 (some sampleJob)
    ⟨.generation, none⟩).2 hwindow⟩

end Cosmos3.Lease
