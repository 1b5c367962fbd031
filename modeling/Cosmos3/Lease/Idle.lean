import Cosmos3.Lease.Stability
import Cosmos3.Orchestrator.Arming

namespace Cosmos3.Lease

open Basis Orchestrator
open Jobs (JobId sampleFingerprint)

-- A worker's `evict` raises.
def evictRaises (s : State) : Action → Bool
  | .orch (.threadLeaves task .raised) =>
      match s.orch.tasks task with
      | .awaiting site _ => site.evicts.isSome
      | _ => false
  | _ => false

-- The slot is empty, or its idle eviction is pending, or somebody who will arm it
-- or empty the slot is not done yet.
structure Attending (s : State) : Prop where
  returns : EvictsReturn s.orch
  refused : ∀ id task, s.streams id = .failing task → s.orch.tasks task = .finished .raised
  attended : s.orch.slot ≠ none → Armed s.orch ∨ InUse s.orch ∨
    ∃ task job, s.stage = some (task, job) ∧ s.orch.tasks task ≠ .finished .raised

section Steps

variable {fingerprint : Text → Python.Dict → Text} {label : Python.Value → String} {idleTimeout : ℚ}
  {s s' : State} {a : Action}

theorem Effects.streams {runner : Jobs.State} {task : Orchestrator.TaskId} {made : Bool}
    {action : Jobs.Action} (he : Effects label idleTimeout s runner task made action s') :
    s'.streams = s.streams := by
  have hsettle : (settle idleTimeout { s with runner := runner }).streams = s.streams := by
    unfold settle
    split <;> rfl
  cases he with
  | acquireReturns | acquireRaises | workEnds | failureEvicted | appendSucceeded => exact hsettle
  | _ => rfl

-- The loop releases the lease when it calls `notify_idle`.
theorem Effects.releases {runner : Jobs.State} {task : Orchestrator.TaskId} {made : Bool}
    {action : Jobs.Action} (he : Effects label idleTimeout s runner task made action s')
    (howner : s.lease.owner ≠ none) (hfree : s'.lease.owner = none) :
    s'.orch = notifyIdle idleTimeout s.orch := by
  have hsettle : (settle idleTimeout { s with runner := runner }).lease.owner = none →
      (settle idleTimeout { s with runner := runner }).orch = notifyIdle idleTimeout s.orch := by
    unfold settle
    split
    · exact fun _ => rfl
    · exact fun hnone => absurd hnone howner
  cases he with
  | waits =>
      rcases s.lease.acquire_cases .loop with ⟨hnone, -⟩ | ⟨-, heq⟩
      · exact absurd hnone howner
      · rw [heq] at hfree
        exact absurd hfree howner
  | leaseGranted _ hgrant =>
      rw [(grant_eq_some hgrant).1] at hfree
      cases hfree
  | acquireReturns | acquireRaises | workEnds | failureEvicted | appendSucceeded => exact hsettle hfree
  | _ => exact absurd hfree howner

theorem step_releases (hs : step fingerprint label idleTimeout s a = some s')
    (howner : s.lease.owner ≠ none) (hfree : s'.lease.owner = none) :
    s'.orch = notifyIdle idleTimeout s.orch ∨
      (s'.orch = s.orch ∧ ∃ id task, s.streams id = .failing task) := by
  cases a with
  | runner action task made => exact .inl ((runnerStep_effects hs).2.2.releases howner hfree)
  | orch action =>
      simp only [step] at hs
      split at hs
      · obtain ⟨orch, -, rfl⟩ := Option.map_eq_some_iff.mp hs
        exact absurd hfree howner
      · cases hs
  | openStream id =>
      simp only [step] at hs
      split at hs <;> cases hs
      rcases s.lease.acquire_cases (.stream id) with ⟨hnone, -⟩ | ⟨-, heq⟩
      · exact absurd hnone howner
      · simp only [heq] at hfree
        exact absurd hfree howner
  | streamGranted id task made =>
      simp only [step] at hs
      split at hs
      · obtain ⟨lease, hgrant, hs⟩ := Option.bind_eq_some_iff.mp hs
        obtain ⟨orch, -, rfl⟩ := Option.map_eq_some_iff.mp hs
        rw [(grant_eq_some hgrant).1] at hfree
        cases hfree
      · cases hs
  | streamAcquired id =>
      simp only [step] at hs
      split at hs
      · split at hs <;> cases hs
        exact absurd hfree howner
      · cases hs
  | streamRefused id =>
      simp only [step] at hs
      split at hs
      · split at hs <;> cases hs
        exact absurd hfree howner
      · cases hs
  | closeStream id =>
      simp only [step] at hs
      split at hs
      · cases hs
        exact .inl rfl
      · rename_i task hpc
        cases hs
        exact .inr ⟨rfl, id, task, hpc⟩
      · split at hs <;> cases hs
        exact absurd hfree howner
      · cases hs

-- A holder stays until it calls `notify_idle`, or its acquire has raised.
theorem Attending.stage_step (hsafe : Safe s) (h : Attending s)
    (hs : step fingerprint label idleTimeout s a = some s') {task : Orchestrator.TaskId}
    {job : Option JobId} (hstage : s.stage = some (task, job)) :
    s'.stage = some (task, job) ∨ s'.orch = notifyIdle idleTimeout s.orch ∨
      s.orch.tasks task = .finished .raised := by
  obtain ⟨-, hfollows⟩ := step_safe hsafe hs
  obtain ⟨holder, howner, hcall⟩ := Option.bind_eq_some_iff.mp hstage
  rcases hfollows.holder holder _ howner hcall with hfree | ⟨howner', hcall'⟩
  · rcases step_releases hs (by simp [howner]) hfree with hnotifies | ⟨-, id, other, hfailing⟩
    · exact .inr (.inl hnotifies)
    · have hcallOf : s.callOf (.stream id) = some (other, none) := by
        rw [callOf_stream hfailing]
        rfl
      have hother := hsafe.stage_of_call hcallOf
      rw [hstage] at hother
      cases hother
      exact .inr (.inr (h.refused id _ hfailing))
  · exact .inl (by rw [stage_of_owner howner', hcall'])

theorem Attending.attended_step (hpos : 0 < idleTimeout) (hsafe : Safe s) (h : Attending s)
    (hs : step fingerprint label idleTimeout s a = some s') (hslot : s'.orch.slot ≠ none) :
    Armed s'.orch ∨ InUse s'.orch ∨
      ∃ task job, s'.stage = some (task, job) ∧ s'.orch.tasks task ≠ .finished .raised := by
  have hcons := hsafe.stable.consistent
  have hidle := hsafe.stable.idle
  obtain ⟨hsafe', -⟩ := step_safe hsafe hs
  have hworker : s'.orch.worker ≠ none := by
    intro hnone
    have hcoupled := hsafe'.stable.consistent.coupled
    rw [Coupled, hnone] at hcoupled
    exact hslot hcoupled
  have hnotifies : s'.orch = notifyIdle idleTimeout s.orch → Armed s'.orch := by
    intro horch
    rw [horch] at hslot ⊢
    exact (notifyIdle_armed idleTimeout hpos s.orch).resolve_right hslot
  -- an operation that goes on, or an acquire that has returned
  have hcontinues : ∀ {task operation}, Continues s'.orch task operation →
      (∀ target, operation = .acquire target → ∃ job, s'.stage = some (task, job)) →
      Armed s'.orch ∨ InUse s'.orch ∨
        ∃ task job, s'.stage = some (task, job) ∧ s'.orch.tasks task ≠ .finished .raised := by
    intro task operation hc hstage
    rcases hc with hop | ⟨target, htarget, hreturned⟩ | hempty
    · by_cases hself : operation = .evictAll true
      · refine .inl (.inr ?_)
        rw [(hsafe'.stable.idle.task task).mpr (hself ▸ hop)]
        simp
      · exact .inr (.inl ⟨task, operation, hop, hself⟩)
    · obtain ⟨job, hjob⟩ := hstage target htarget
      exact .inr (.inr ⟨task, job, hjob, by simp [hreturned]⟩)
    · exact absurd hempty hworker
  cases step_calls hs with
  | silent horch _ =>
      rw [horch] at hslot
      rcases h.attended hslot with harmed | hinUse | ⟨task, job, hstage, hraised⟩
      · exact .inl (by rw [horch]; exact harmed)
      · exact .inr (.inl (by rw [horch]; exact hinUse))
      · rcases h.stage_step hsafe hs hstage with hsame | hends | hfails
        · exact .inr (.inr ⟨task, job, hsame, by rw [horch]; exact hraised⟩)
        · exact .inl (hnotifies hends)
        · exact absurd hfails hraised
  | calls purpose hcall _ hstage =>
      refine hcontinues (call_continues hcons hcall).1 fun target htarget => ?_
      cases purpose with
      | acquire other => exact hstage other rfl
      | evictAll job => cases htarget
  | notifies horch _ => exact .inl (hnotifies horch)
  | @itself action _ hself hstep _ hsame =>
      by_cases hown : ∃ task, action.own = some task
      · obtain ⟨task, hown⟩ := hown
        rcases own_continues hcons hidle h.returns hown hstep with ⟨operation, hop, hc⟩ | hinUse
        · refine hcontinues hc fun target htarget => ?_
          obtain ⟨-, job, hstage⟩ := hsafe.stable.acquires task target (htarget ▸ hop)
          exact ⟨job, by rw [hsame, hstage]⟩
        · exact .inr (.inl hinUse)
      · cases action with
        | orphanLeaves index outcome => simp [Orchestrator.step, hsafe.stable.orphans] at hstep
        | timerFires task =>
            simp only [Orchestrator.step] at hstep
            split at hstep
            · rename_i heq
              refine .inl (.inr ?_)
              rw [← Option.some.inj hstep]
              simp [onIdleTimeout]
            · cases hstep
        | call => cases hself
        | cancelled => cases hself
        | notifyIdle => cases hself
        | _ => exact absurd ⟨_, rfl⟩ hown

theorem attending_initial : Attending initial := by
  refine ⟨fun site hphase => ?_, nofun, fun hslot => absurd rfl hslot⟩
  have hnone : initial.orch.phase = none := rfl
  rw [hnone] at hphase
  cases hphase

theorem returns_step (hcons : Consistent s.orch) (h : EvictsReturn s.orch)
    (hok : evictRaises s a = false) (hs : step fingerprint label idleTimeout s a = some s') :
    EvictsReturn s'.orch := by
  intro site hphase
  rcases (step_calls hs).done hcons hphase with hbefore | ⟨task, rfl, hpc⟩
  · exact h site hbefore
  · simpa [evictRaises, hpc] using hok

theorem refused_step (hsafe : Safe s)
    (h : ∀ id task, s.streams id = .failing task → s.orch.tasks task = .finished .raised)
    (hs : step fingerprint label idleTimeout s a = some s') {id : Nat} {task : Orchestrator.TaskId}
    (hfailing : s'.streams id = .failing task) : s'.orch.tasks task = .finished .raised := by
  have hkept : s.orch.tasks task = .finished .raised → s'.orch.tasks task = .finished .raised :=
    (step_safe hsafe hs).2.kept.finished task .raised
  have hset : ∀ {other : Nat} {pc : StreamPc}, s'.streams = Function.update s.streams other pc →
      (id = other → pc ≠ .failing task) → s.streams id = .failing task := by
    intro other pc hstreams hne
    rw [hstreams] at hfailing
    by_cases hid : id = other
    · rw [hid, Function.update_self] at hfailing
      exact absurd hfailing (hne hid)
    · rwa [Function.update_of_ne hid] at hfailing
  suffices hbefore : s.orch.tasks task = .finished .raised from hkept hbefore
  cases a with
  | runner action t made =>
      have hsame : s'.streams = s.streams := (runnerStep_effects hs).2.2.streams
      exact h id task (hsame ▸ hfailing)
  | orch action =>
      simp only [step] at hs
      split at hs
      · obtain ⟨orch, -, rfl⟩ := Option.map_eq_some_iff.mp hs
        exact h id task hfailing
      · cases hs
  | openStream other =>
      simp only [step] at hs
      split at hs <;> cases hs
      exact h id task (hset rfl (by simp))
  | streamGranted other t made =>
      simp only [step] at hs
      split at hs
      · obtain ⟨lease, -, hs⟩ := Option.bind_eq_some_iff.mp hs
        obtain ⟨orch, -, rfl⟩ := Option.map_eq_some_iff.mp hs
        exact h id task (hset rfl (by simp))
      · cases hs
  | streamAcquired other =>
      simp only [step] at hs
      split at hs
      · split at hs <;> cases hs
        exact h id task (hset rfl (by simp))
      · cases hs
  | streamRefused other =>
      simp only [step] at hs
      split at hs
      · rename_i t hpc
        split at hs <;> cases hs
        rename_i hraised
        by_cases ht : id = other ∧ t = task
        · exact ht.2 ▸ hraised
        · refine h id task (hset rfl fun hid htask => ht ⟨hid, ?_⟩)
          exact StreamPc.failing.inj htask
      · cases hs
  | closeStream other =>
      simp only [step] at hs
      split at hs
      · cases hs
        exact h id task (hset rfl (by simp))
      · cases hs
        exact h id task (hset rfl (by simp))
      · split at hs <;> cases hs
        exact h id task (hset rfl (by simp))
      · cases hs

theorem Attending.step (hpos : 0 < idleTimeout) (hsafe : Safe s) (h : Attending s)
    (hok : evictRaises s a = false) (hs : step fingerprint label idleTimeout s a = some s') :
    Attending s' where
  returns := returns_step hsafe.stable.consistent h.returns hok hs
  refused _ _ := refused_step hsafe h.refused hs
  attended := h.attended_step hpos hsafe hs

theorem reachable_attending (hpos : 0 < idleTimeout)
    (hr : Path (step fingerprint label idleTimeout) (fun s a => evictRaises s a = false) initial s) :
    Attending s := by
  refine (hr.invariant (fun s => Safe s ∧ Attending s) ⟨safe_initial, attending_initial⟩ ?_).2
  rintro s a s' ⟨hsafe, h⟩ hok hs
  exact ⟨(step_safe hsafe hs).1, h.step hpos hsafe hok hs⟩

theorem idle_eviction_armed (hpos : 0 < idleTimeout)
    (hr : Path (step fingerprint label idleTimeout) (fun s a => evictRaises s a = false) initial s)
    (hfree : s.lease.owner = none)
    (hquiet : ∀ task operation, (s.orch.tasks task).operation = some operation →
      operation = .evictAll true)
    (hslot : s.orch.slot ≠ none) : s.orch.idleHandle = true ∨ s.orch.idleTask ≠ none := by
  rcases (reachable_attending hpos hr).attended hslot with harmed | hinUse | ⟨task, job, hstage, -⟩
  · exact harmed
  · obtain ⟨task, operation, hop, hne⟩ := hinUse
    exact absurd (hquiet task operation hop) hne
  · rw [State.stage, hfree] at hstage
    cases hstage

end Steps

-- A stream is closed early at a yield, and leaves the reasoner in the slot.
def sampleClosed : List Action :=
  [.openStream 0, .streamGranted 0 0 true] ++
  ([.threadEnters 0, .threadLeaves 0 (.returned true), .resumes 0 true, .threadEnters 0,
    .threadLeaves 0 (.returned true), .resumes 0 true] : List Orchestrator.Action).map .orch ++
  [.streamAcquired 0, .closeStream 0]

theorem quiet_sampleClosed {s : State}
    (hs : run (step sampleFingerprint sampleLabel 1) initial sampleClosed = some s) :
    s.lease.owner = none ∧ s.orch.slot = some reasoner ∧
      ∀ task operation, (s.orch.tasks task).operation = some operation → operation = .evictAll true := by
  cases hs
  refine ⟨rfl, rfl, fun task operation hop => ?_⟩
  rcases task with _ | task <;> cases hop

theorem idle_eviction_armed_sampleClosed :
    ∃ s, run (step sampleFingerprint sampleLabel 1) initial sampleClosed = some s ∧
      s.orch.slot = some reasoner ∧ (s.orch.idleHandle = true ∨ s.orch.idleTask ≠ none) := by
  obtain ⟨s, hr, hrun⟩ : ∃ s,
      runWithin (step sampleFingerprint sampleLabel 1) (fun s a => evictRaises s a = false) initial
        sampleClosed = some s ∧
      run (step sampleFingerprint sampleLabel 1) initial sampleClosed = some s := ⟨_, rfl, rfl⟩
  obtain ⟨hfree, hslot, hquiet⟩ := quiet_sampleClosed hrun
  exact ⟨s, hrun, hslot, idle_eviction_armed (by decide) (Path.of_runWithin hr) hfree hquiet
    (by simp [hslot])⟩

end Cosmos3.Lease
