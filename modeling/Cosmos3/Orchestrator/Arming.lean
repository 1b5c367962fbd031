import Cosmos3.Orchestrator.Evictions

namespace Cosmos3.Orchestrator

open Basis State

-- The idle eviction is pending: its timer is armed, or has become a task.
def Armed (s : State) : Prop := s.idleHandle = true ∨ s.idleTask ≠ none

-- An operation that a user of the orchestrator called is under way.
def InUse (s : State) : Prop :=
  ∃ task operation, (s.tasks task).operation = some operation ∧ operation ≠ .evictAll true

-- A worker's `evict` has not raised.
def EvictsReturn (s : State) : Prop :=
  ∀ site, s.phase = some (site, .done .raised) → site.evicts = none

-- Where a coroutine is after a stretch of its operation: still in it, or past an
-- acquire that returned, or it has left the slot empty.
def Continues (s : State) (task : TaskId) (operation : Operation) : Prop :=
  (s.tasks task).operation = some operation ∨
    (∃ target, operation = .acquire target ∧ s.tasks task = .finished .returned) ∨ s.worker = none

section Bodies

variable {s : State} {task : TaskId} {operation : Operation}

theorem continues_toThread {site : Site} (hsite : site.operation = operation) :
    Continues (s.toThread task site) task operation :=
  .inl (by simp [State.toThread, State.setPc, hsite])

theorem acquireLoad_continues {target : ResidencyId} {plan : ResidencyPlan}
    (hempty : plan.load ≠ none → s.worker = none) (made : Bool) :
    Continues (acquireLoad s task target plan made) task (.acquire target) := by
  unfold acquireLoad
  cases hload : plan.load with
  | none => exact .inr (.inl ⟨target, rfl, by simp [acquireReturn, State.emit, State.leave, State.setPc]⟩)
  | some _ =>
      cases made with
      | true => exact continues_toThread rfl
      | false => exact .inr (.inr (hempty (by simp [hload])))

theorem acquireLocked_continues (h : Entered s task false) (target : ResidencyId) (made : Bool) :
    Continues (acquireLocked s task target made) task (.acquire target) := by
  obtain ⟨-, hcore, hslot⟩ := h.locked.cancelIdleTimer
  have hworker : (cancelIdleTimer s).worker = s.worker := congrArg Core.resident hcore
  have hcoupled : s.slot = s.worker.map Worker.target := h.coupled
  unfold acquireLocked
  simp only [hslot, hworker, hcoupled]
  cases hw : s.worker with
  | none => exact acquireLoad_continues (fun _ => hworker.trans hw) made
  | some worker =>
      by_cases ht : worker.target = target
      · subst ht
        simp only [Option.map_some, planAcquire_self]
        exact acquireLoad_continues (fun hload => absurd rfl hload) made
      · simp only [Option.map_some, planAcquire_swap ht]
        exact continues_toThread rfl

theorem evictAllLocked_continues (s : State) (task : TaskId) (idle : Bool) :
    Continues (evictAllLocked s task idle) task (.evictAll idle) := by
  unfold evictAllLocked
  dsimp only
  split
  · exact continues_toThread rfl
  · refine .inr (.inr ?_)
    cases idle <;> rfl

theorem enter_continues (h : Entered s task operation.isIdle) (made : Bool) :
    Continues (enter s task operation made) task operation := by
  cases operation with
  | acquire target => exact acquireLocked_continues h target made
  | evictAll idle => exact evictAllLocked_continues s task idle

theorem resume_continues {site : Site} {outcome : Outcome} (hfits : site.Fits s.worker)
    (hraised : outcome = .raised → site.evicts = none) (made : Bool) :
    Continues (resume s task site outcome made) task site.operation := by
  cases site with
  | swapEvict target plan worker =>
      cases outcome with
      | returned value => exact continues_toThread rfl
      | raised => cases hraised rfl
  | postEvictWait target plan =>
      cases outcome with
      | returned value =>
          cases value with
          | true => exact acquireLoad_continues (fun _ => hfits.1) made
          | false => exact .inr (.inr hfits.1)
      | raised => exact .inr (.inr hfits.1)
  | start target plan worker =>
      cases outcome with
      | returned value => exact continues_toThread rfl
      | raised => exact .inr (.inr hfits.1)
  | waitReady target plan worker =>
      cases outcome with
      | returned value =>
          cases value with
          | true =>
              exact .inr (.inl ⟨target, rfl, by
                simp [resume, acquireReturn, State.emit, State.leave, State.setPc]⟩)
          | false => exact continues_toThread rfl
      | raised => exact .inr (.inr hfits.1)
  | notReadyEvict target worker =>
      cases outcome with
      | returned value => exact .inr (.inr hfits.1)
      | raised => cases hraised rfl
  | evictAll idle worker =>
      cases outcome with
      | returned value =>
          refine .inr (.inr ?_)
          cases idle <;> rfl
      | raised => cases hraised rfl

end Bodies

section Steps

variable {idleTimeout : ℚ} {s s' : State} {task : TaskId} {operation : Operation} {a : Action}

theorem granted_continues (h : Consistent s) (hpc : s.tasks task = .lockWait operation)
    (hwoken : s.lock.woken = some task) (made : Bool) :
    Continues (enter { s with lock := s.lock.handOver } task operation made) task operation := by
  have hlocked := h.locking.handOver hpc hwoken
  obtain ⟨-, rest, -, hover⟩ := FifoLock.woken_eq_some hwoken
  rw [hover] at hlocked ⊢
  exact enter_continues ⟨hlocked, h.coupled, by simp [State.phase, hpc]⟩ made

theorem request_continues (h : Consistent s)
    (hfrom : (s.tasks task).isAwaiting = false ∧ (s.tasks task).isWaiting = false)
    (hidle : s.idleTask = some task → operation = .evictAll true) (made : Bool) :
    Continues (request s task operation made) task operation := by
  unfold request
  dsimp only
  rcases s.lock.acquire_cases task with ⟨hfree, hempty, hacq⟩ | ⟨-, hacq⟩
  · simp only [hacq, if_true]
    refine enter_continues ⟨h.locking.take hfree hempty hidle, h.coupled, ?_⟩ made
    unfold State.phase
    cases hpc : s.tasks task with
    | awaiting site call => simp [hpc] at hfrom
    | _ => simp [hpc]
  · have hself : s.lock.owner ≠ some task := fun howner =>
      Bool.false_ne_true (hfrom.1.symm.trans ((h.locking.owner task).mp howner))
    simp only [hacq, hself, if_false]
    exact .inl (by simp [State.setPc])

-- The idle task finds the mutex taken and gives up, or goes on to evict.
theorem tryIdleEvict_continues (h : Consistent s) (hidle : IdleOnce s)
    (hpc : s.tasks task = .created) :
    Continues (tryIdleEvict s task) task (.evictAll true) ∨ InUse (tryIdleEvict s task) := by
  unfold tryIdleEvict
  split
  · rename_i hlocked
    obtain ⟨owner, howner⟩ := Option.isSome_iff_exists.mp hlocked
    obtain ⟨site, call, hawaiting, -⟩ := h.locking.owner_awaiting howner
    have hne : owner ≠ task := by
      rintro rfl
      rw [hpc] at hawaiting
      cases hawaiting
    have hidleTask := (hidle.task task).mpr (by rw [hpc]; rfl)
    refine .inr ⟨owner, site.operation, by simp [State.endIdle, State.setPc, hne, hawaiting], ?_⟩
    intro hop
    have howner' := (hidle.task owner).mpr (by rw [hawaiting, operation_awaiting, hop])
    rw [hidleTask] at howner'
    exact hne (Option.some.inj howner').symm
  · exact .inl (request_continues h (by simp [hpc]) (fun _ => rfl) true)

-- A step that carries a coroutine on.
theorem own_continues (h : Consistent s) (hidle : IdleOnce s) (hreturns : EvictsReturn s)
    (hown : a.own = some task) (hs : step idleTimeout s a = some s') :
    (∃ operation, (s.tasks task).operation = some operation ∧ Continues s' task operation) ∨
      InUse s' := by
  cases a with
  | granted t made =>
      obtain rfl := Option.some.inj hown
      simp only [step] at hs
      split at hs
      · rename_i operation hpc
        split at hs <;> cases hs
        rename_i hwoken
        exact .inl ⟨operation, by simp [hpc], granted_continues h hpc hwoken made⟩
      · cases hs
  | threadEnters t =>
      obtain rfl := Option.some.inj hown
      simp only [step] at hs
      split at hs <;> cases hs
      rename_i site hpc
      exact .inl ⟨site.operation, by simp [hpc], .inl (by simp [State.emit, State.setPc])⟩
  | threadLeaves t outcome =>
      obtain rfl := Option.some.inj hown
      simp only [step] at hs
      split at hs <;> cases hs
      rename_i site hpc
      exact .inl ⟨site.operation, by simp [hpc], .inl (by simp [State.emit, State.setPc])⟩
  | resumes t made =>
      obtain rfl := Option.some.inj hown
      simp only [step] at hs
      split at hs <;> cases hs
      rename_i site outcome hpc
      have hphase := phase_eq (h.locking.lockedBy hpc).owner hpc
      refine .inl ⟨site.operation, by simp [hpc], resume_continues (h.fits _ _ hphase) ?_ made⟩
      rintro rfl
      exact hreturns site hphase
  | idleStarts t =>
      obtain rfl := Option.some.inj hown
      simp only [step] at hs
      split at hs <;> cases hs
      rename_i hpc
      exact (tryIdleEvict_continues h hidle hpc).imp_left fun hcontinues =>
        ⟨.evictAll true, by simp [hpc], hcontinues⟩
  | _ => cases hown

theorem call_continues {made : Bool} (h : Consistent s)
    (hs : step idleTimeout s (.call task operation made) = some s') :
    Continues s' task operation ∧ operation ≠ .evictAll true := by
  simp only [step] at hs
  split at hs <;> cases hs
  rename_i hcall
  refine ⟨request_continues h (by simp [hcall.1]) (fun hidle => ?_) made, hcall.2⟩
  have hplace := h.locking.idleTask task hidle
  rw [hcall.1] at hplace
  cases hplace

theorem notifyIdle_armed (idleTimeout : ℚ) (hpos : 0 < idleTimeout) (s : State) :
    Armed (notifyIdle idleTimeout s) ∨ (notifyIdle idleTimeout s).slot = none := by
  unfold notifyIdle
  dsimp only
  split
  · exact .inl (.inl rfl)
  · rename_i hunarmed
    exact .inr (not_not.mp fun hslot => hunarmed ⟨hpos, hslot⟩)

end Steps

end Cosmos3.Orchestrator
