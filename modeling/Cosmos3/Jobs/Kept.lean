import Cosmos3.Jobs.Runner

namespace Cosmos3.Jobs

open Basis

-- What a record has from its submission, which no transition touches.
def JobRecord.submitted (record : JobRecord) : JobRecord :=
  { record with
    status := .queued
    progress := .finite 0
    artifactPath := none
    error := none
    resultMeta := none }

-- The keys stay, the records stay those that were submitted, and the queue only
-- loses its head.
structure Kept (s s' : State) : Prop where
  idem : s'.store.idem = s.store.idem
  records : ∀ job, (s'.store.jobs job).map (·.submitted) = (s.store.jobs job).map (·.submitted)
  queue : s'.queue <:+ s.queue

section Steps

variable {s s' : State}

theorem Kept.refl (s : State) : Kept s s := ⟨rfl, fun _ => rfl, List.suffix_refl _⟩

theorem Kept.trans {s'' : State} (h : Kept s s') (h' : Kept s' s'') : Kept s s'' :=
  ⟨h'.idem.trans h.idem, fun job => (h'.records job).trans (h.records job), h'.queue.trans h.queue⟩

-- The store stays.
theorem Kept.control (hstore : s'.store = s.store) (hqueue : s'.queue = s.queue) : Kept s s' := by
  refine ⟨by rw [hstore], fun job => by rw [hstore], ?_⟩
  exact hqueue.symm ▸ List.suffix_refl s'.queue

theorem Kept.append (s : State) (job : JobId) (type : Text) (data : List (Text × Json)) :
    Kept s (s.append job type data) := ⟨rfl, fun _ => rfl, List.suffix_refl _⟩

theorem Kept.put {job : JobId} {record updated : JobRecord} (hget : s.store.jobs job = some record)
    (hupdated : updated.submitted = record.submitted) :
    Kept s { s with store := s.store.put job updated } := by
  refine ⟨rfl, fun other => ?_, List.suffix_refl _⟩
  by_cases hother : other = job
  · subst hother
    simp [JobStore.put, hget, hupdated]
  · simp [JobStore.put, hother]

theorem start_submitted {record updated : JobRecord} (h : start record = .ok updated) :
    updated.submitted = record.submitted := by
  rw [(start_eq_ok h).2]
  rfl

theorem progress_submitted {fraction : Number} {record updated : JobRecord}
    (h : progress record fraction = .ok updated) : updated.submitted = record.submitted := by
  rw [(progress_eq_ok h).2]
  rfl

theorem succeed_submitted {artifactPath : Text} {resultMeta : List (Text × Json)}
    {record updated : JobRecord} (h : succeed record artifactPath resultMeta = .ok updated) :
    updated.submitted = record.submitted := by
  rw [(succeed_eq_ok h).2]
  rfl

theorem fail_submitted {error : ErrorModel} {record updated : JobRecord}
    (h : fail record error = .ok updated) : updated.submitted = record.submitted := by
  rw [(fail_eq_ok h).2]
  rfl

theorem cancel_submitted {record updated : JobRecord} (h : cancel record = .ok updated) :
    updated.submitted = record.submitted := by
  rw [(cancel_eq_ok h).2]
  rfl

theorem storeUpdate_eq_ok {store store' : JobStore} {job : JobId}
    {fn : JobRecord → Except JobTransitionError JobRecord} {updated : JobRecord}
    (h : store.update job fn = .ok (store', updated)) :
    ∃ record, store.jobs job = some record ∧ fn record = .ok updated ∧
      store' = store.put job updated := by
  unfold JobStore.update at h
  split at h
  · cases h
  · rename_i record hget
    split at h
    · cases h
    · rename_i hfn
      simp only [Except.ok.injEq, Prod.mk.injEq] at h
      obtain ⟨rfl, rfl⟩ := h
      exact ⟨record, hget, hfn, rfl⟩

theorem Kept.update {job : JobId} {fn : JobRecord → Except JobTransitionError JobRecord}
    (hfn : ∀ record updated, fn record = .ok updated → updated.submitted = record.submitted)
    {returned raised : State → State} (hreturned : ∀ m, Kept m (returned m))
    (hraised : ∀ m, Kept m (raised m)) : Kept s (s.update job fn returned raised) := by
  unfold State.update
  split
  · rename_i store updated hupdate
    obtain ⟨record, hget, hok, rfl⟩ := storeUpdate_eq_ok hupdate
    exact (Kept.put hget (hfn record updated hok)).trans (hreturned _)
  · exact hraised s

theorem kept_finish (s : State) (job : JobId) : Kept s (s.finish job) := .control rfl rfl

theorem kept_acquired (s : State) (job : JobId) : Kept s (acquired s job) := by
  unfold acquired
  split
  · exact kept_finish s job
  · exact .update (fun _ _ => start_submitted) (fun _ => .control rfl rfl) fun m => kept_finish m job

theorem kept_failJob (s : State) (job : JobId) (exc : Raised) : Kept s (failJob s job exc) := by
  unfold failJob
  split
  · exact kept_finish s job
  · exact .update (fun _ _ => fail_submitted) (fun _ => .control rfl rfl) fun m => kept_finish m job

theorem kept_worked (s : State) (job : JobId) (outcome : WorkOutcome) :
    Kept s (worked s job outcome) := by
  cases outcome with
  | raised exc => exact kept_failJob s job exc
  | returned artifactPath resultMeta =>
      unfold worked
      dsimp only
      split
      · exact kept_finish s job
      · exact .update (fun _ _ => succeed_submitted) (fun _ => .control rfl rfl) fun m =>
          kept_finish m job

theorem kept_cancelUpdate (s : State) (task : TaskId) (job : JobId) :
    Kept s (cancelUpdate s task job) :=
  .update (fun _ _ => cancel_submitted) (fun _ => .control rfl rfl) fun _ => .control rfl rfl

theorem kept_cancelCall (s : State) (task : TaskId) (job : JobId) :
    Kept s (cancelCall s task job) := by
  unfold cancelCall
  split
  · exact .control rfl rfl
  · dsimp only
    split
    · exact .control rfl rfl
    · split <;> exact .control rfl rfl

theorem kept_dequeue {job : JobId} {queue : List JobId} (hqueue : s.queue = job :: queue) :
    Kept s (dequeue s job queue) := by
  have htail : Kept s { s with queue := queue } :=
    ⟨rfl, fun _ => rfl, hqueue ▸ List.suffix_cons job queue⟩
  unfold dequeue
  dsimp only
  split
  · exact htail.trans (.control rfl rfl)
  · split
    · exact htail
    · split
      · exact htail
      · exact htail.trans (.control rfl rfl)

theorem kept_runSection (s : State) (part : Section) : Kept s (runSection s part) := by
  cases part with
  | appendRunning job => exact (Kept.append s job _ _).trans (.control rfl rfl)
  | appendFailed job message => exact (Kept.append s job _ _).trans (.control rfl rfl)
  | appendSucceeded job resultMeta => exact (Kept.append s job _ _).trans (.control rfl rfl)
  | cancelUpdate task job => exact kept_cancelUpdate s task job
  | appendCancelled task job => exact (Kept.append s job _ _).trans (.control rfl rfl)

theorem kept_stopLoop (s : State) : Kept s (stopLoop s) := by
  unfold stopLoop
  split <;> exact .control rfl rfl

theorem kept_report (s : State) (job : JobId) (fraction : Number) : Kept s (report s job fraction) := by
  unfold report
  split
  · exact .refl s
  · rename_i store updated hupdate
    obtain ⟨record, hget, hok, rfl⟩ := storeUpdate_eq_ok hupdate
    have hput : Kept s { s with store := s.store.put job updated } := by
      refine .put hget ?_
      split at hok
      · exact progress_submitted hok
      · obtain rfl := Except.ok.inj hok
        rfl
    dsimp only
    split
    · exact hput.trans (.control rfl rfl)
    · exact hput

end Steps

section Step

variable {fingerprint : Text → Python.Dict → Text} {s s' : State}

theorem loopStep_kept {action : LoopAction} (hsubmit : ∀ submission, action ≠ .submit submission)
    (hs : loopStep fingerprint s action = some s') : Kept s s' := by
  cases action with
  | submit submission => exact absurd rfl (hsubmit submission)
  | stopLoop =>
      cases hs
      exact kept_stopLoop s
  | startLoop =>
      simp only [loopStep] at hs
      split at hs <;> cases hs
      exact .control rfl rfl
  | dequeue =>
      simp only [loopStep] at hs
      split at hs <;> cases hs
      rename_i hqueue
      exact kept_dequeue hqueue
  | leaseGranted =>
      simp only [loopStep] at hs
      split at hs <;> cases hs
      exact .control rfl rfl
  | acquireReturns =>
      simp only [loopStep] at hs
      split at hs <;> cases hs
      exact kept_acquired s _
  | acquireRaises exc =>
      simp only [loopStep] at hs
      split at hs <;> cases hs
      exact kept_failJob s _ exc
  | workEnds =>
      simp only [loopStep] at hs
      split at hs
      · split at hs <;> cases hs
        exact kept_worked s _ _
      · cases hs
  | failureEvicted =>
      simp only [loopStep] at hs
      split at hs <;> cases hs
      exact kept_finish s _
  | cancelCall task job =>
      simp only [loopStep] at hs
      split at hs <;> cases hs
      exact kept_cancelCall s task job
  | cancelEvicted task returned =>
      simp only [loopStep] at hs
      split at hs <;> cases hs
      split
      · exact kept_cancelUpdate s task _
      · exact .control rfl rfl

-- Whatever else the runner does, what was submitted stays.
theorem step_kept {a : Action} (hsubmit : ∀ submission, a ≠ .loop (.submit submission))
    (hs : step fingerprint s a = some s') : Kept s s' := by
  cases a with
  | loop action =>
      simp only [step] at hs
      split at hs
      · exact loopStep_kept (fun submission h => hsubmit submission (by rw [h])) hs
      · cases hs
  | nextSection =>
      obtain ⟨part, -, rfl⟩ := Option.map_eq_some_iff.mp hs
      exact kept_runSection s part
  | thread job action =>
      simp only [step] at hs
      cases action with
      | report fraction =>
          simp only [threadStep] at hs
          split at hs <;> cases hs
          exact kept_report s job fraction
      | append =>
          simp only [threadStep] at hs
          split at hs <;> cases hs
          exact (Kept.append s job _ _).trans (.control rfl rfl)
      | ends outcome =>
          simp only [threadStep] at hs
          split at hs <;> cases hs
          exact .control rfl rfl

end Step

end Cosmos3.Jobs
