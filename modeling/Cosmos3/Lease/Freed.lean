import Cosmos3.Lease.Withdrawn

namespace Cosmos3.Lease

open Basis Orchestrator
open Jobs (JobId JobStatus JobStore LoopPc sampleFingerprint sampleJob)

-- The eviction of the worker that was resident for the job has completed.
def History.freed (h : History) (job : JobId) : Bool :=
  match h.residentFor job with
  | some worker => worker ∈ h.evicted
  | none => false

-- A cancel that does not evict is called for a running job whose worker is not
-- evicted yet: `_process` is over by then, and another cancel is still evicting.
def leavesResident (h : History) : Action → Bool
  | .runner (.loop (.cancelCall _ job)) _ _ =>
      h.sys.runner.store.status job = some .running ∧ h.sys.runner.current ≠ some job ∧
        h.freed job = false
  | _ => false

theorem freed_iff {h : History} {job : JobId} :
    h.freed job = true ↔ ∃ worker, h.residentFor job = some worker ∧ worker ∈ h.evicted := by
  unfold History.freed
  cases hresident : h.residentFor job with
  | none => simp
  | some worker => simp

section Notes

variable {h : History} {a : Action} {s' : State}

theorem note_residentFor_other (h : History) (s' : State)
    (hother : ∀ task made, a ≠ .runner (.loop .acquireReturns) task made) :
    (h.note a s').residentFor = h.residentFor := by
  unfold History.note
  split
  · dsimp only
    split
    · exact absurd rfl (hother _ _)
    · rfl
  · rfl
  · rfl

theorem note_residentFor {job : JobId} {worker : Worker}
    (hafter : (h.note a s').residentFor job = some worker) :
    h.residentFor job = some worker ∨ (h.sys.orch.worker = some worker ∧
      s'.runner.busy = some (.appendRunning job) ∧
      ∃ task made, a = .runner (.loop .acquireReturns) task made) := by
  by_cases hacquired : ∃ task made, a = .runner (.loop .acquireReturns) task made
  · obtain ⟨task, made, rfl⟩ := hacquired
    simp only [History.note] at hafter
    cases hbusy : s'.runner.busy with
    | none =>
        rw [hbusy] at hafter
        exact .inl hafter
    | some part =>
        rw [hbusy] at hafter
        cases part with
        | appendRunning other =>
            dsimp only at hafter
            by_cases hjob : job = other
            · rw [hjob, Function.update_self] at hafter
              exact .inr ⟨hafter, by rw [hjob], task, made, rfl⟩
            · rw [Function.update_of_ne hjob] at hafter
              exact .inl hafter
        | _ => exact .inl hafter
  · rw [note_residentFor_other h s' fun task made ha => hacquired ⟨task, made, ha⟩] at hafter
    exact .inl hafter

theorem note_evicted (h : History) (a : Action) (s' : State) {worker : Worker}
    (hbefore : worker ∈ h.evicted) : worker ∈ (h.note a s').evicted := by
  unfold History.note
  split
  · exact hbefore
  · dsimp only
    split
    · exact List.mem_append_right _ hbefore
    · exact hbefore
  · exact hbefore

theorem note_evicted_leaves {task : Orchestrator.TaskId} {value : Bool} {site : Site} {call : Call}
    {worker : Worker} (hpc : h.sys.orch.tasks task = .awaiting site call)
    (hevicts : site.evicts = some worker) :
    worker ∈ (h.note (.orch (.threadLeaves task (.returned value))) s').evicted := by
  simp [History.note, hpc, hevicts]

theorem note_began {canceller : Jobs.TaskId} {job : JobId}
    (hafter : (h.note a s').began canceller = some job) :
    h.began canceller = some job ∨ (h.sys.runner.store.status job = some .running ∧
      ∃ task made, a = .runner (.loop (.cancelCall canceller job)) task made) := by
  unfold History.note at hafter
  split at hafter
  · rename_i action task made
    dsimp only at hafter
    split at hafter
    · rename_i other started
      split at hafter
      · rename_i hrunning
        by_cases hcanceller : canceller = other
        · rw [hcanceller, Function.update_self] at hafter
          cases hafter
          exact .inr ⟨hrunning, task, made, by rw [hcanceller]⟩
        · rw [Function.update_of_ne hcanceller] at hafter
          exact .inl hafter
      · exact .inl hafter
    · exact .inl hafter
  · exact .inl hafter
  · exact .inl hafter

end Notes

section Jobs

variable {fingerprint : Text → Python.Dict → Text} {r r' : Jobs.State} {a : Jobs.Action}

-- A record is running from the end of its acquire on.
theorem Performs.running (hs : Performs fingerprint r a r') {job : JobId}
    (hafter : r'.store.status job = some .running) :
    r.store.status job = some .running ∨
      (a = .loop .acquireReturns ∧ r.store.status job = some .queued ∧
        r'.busy = some (.appendRunning job)) := by
  have hput : ∀ {other : JobId} {record : Jobs.JobRecord} {store : JobStore},
      record.status ≠ .running → store = r.store.put other record →
      store.status job = some .running → r.store.status job = some .running := by
    rintro other record store hne rfl hstatus
    rw [JobStore.status_put] at hstatus
    split at hstatus
    · exact absurd (Option.some.inj hstatus) hne
    · exact hstatus
  have hproceeds : ∀ {other : JobId} {allowed : JobStatus → Prop} {part : Jobs.Section}
      {status : JobStatus}, status ≠ .running → Proceeds r other allowed part status r' →
      r.store.status job = some .running := by
    intro other allowed part status hne hp
    cases hp with
    | drops _ heq => simpa [heq] using hafter
    | refused _ _ heq => simpa [heq] using hafter
    | updates _ _ _ hupdated heq => exact hput (hupdated ▸ hne) (by rw [heq]) hafter
  have hcancels : ∀ {task : Jobs.TaskId} {other : JobId}, Cancels r task other r' →
      r.store.status job = some .running := by
    intro task other hc
    cases hc with
    | refused _ heq => simpa [heq] using hafter
    | @updates before _ _ updated hupdated heq =>
        have hne : updated.status ≠ .running := by
          rw [hupdated]
          nofun
        exact hput hne (by rw [heq]) hafter
  cases hs with
  | create submission hfresh =>
      rw [JobStore.status_create] at hafter
      split at hafter
      · cases hafter
      · exact .inl hafter
  | @acquireReturns other record _ hloop hp =>
      cases hp with
      | drops _ heq => exact .inl (by simpa [heq] using hafter)
      | refused _ _ heq => exact .inl (by simpa [heq] using hafter)
      | @updates _ before hbefore hqueued updated hupdated heq =>
          subst heq
          rw [JobStore.status_put] at hafter
          split at hafter
          · rename_i hjob
            exact .inr ⟨rfl, by rw [hjob, hbefore, hqueued], by rw [hjob]⟩
          · exact .inl hafter
  | acquireRaises _ _ hp => exact .inl (hproceeds (by simp) hp)
  | workRaises _ _ hp => exact .inl (hproceeds (by simp) hp)
  | workReturns _ _ hp => exact .inl (hproceeds (by simp) hp)
  | cancelEvicted _ hc => exact .inl (hcancels hc)
  | cancelUpdate _ hc => exact .inl (hcancels hc)
  | thread hsame => exact .inl (by rw [← congrFun hsame job]; exact hafter)
  | appendRunning => exact .inl (by simpa using hafter)
  | appendFailed => exact .inl (by simpa using hafter)
  | appendSucceeded => exact .inl (by simpa using hafter)
  | appendCancelled => exact .inl (by simpa using hafter)
  | _ => exact .inl hafter

-- The record that `acquire` was called for is queued when it is marked running.
theorem Performs.marks (hs : Performs fingerprint r (.loop .acquireReturns) r') (hbusy : r.busy = none)
    {job : JobId} (hafter : r'.busy = some (.appendRunning job)) :
    r.store.status job = some .queued ∧ r'.store.status job = some .running ∧
      ∃ record, r.loop = .acquiring job record := by
  cases hs with
  | acquireReturns hloop hp =>
      cases hp with
      | drops _ heq => simp [heq, hbusy] at hafter
      | refused _ _ heq => simp [heq, hbusy] at hafter
      | updates _ hbefore hqueued hupdated heq =>
          subst heq
          cases hafter
          exact ⟨by rw [hbefore, hqueued], by rw [JobStore.status_put, if_pos rfl, hupdated], _, hloop⟩

theorem Performs.failing (hs : Performs fingerprint r a r') {job : JobId} {message : Text}
    (hafter : r'.busy = some (.appendFailed job message)) :
    r.busy = some (.appendFailed job message) ∨ r'.store.status job = some .failed := by
  have hproceeds : ∀ {other : JobId} {allowed : JobStatus → Prop} {part : Jobs.Section}
      {status : JobStatus}, (part = .appendFailed job message → other = job ∧ status = .failed) →
      Proceeds r other allowed part status r' → r.busy = some (.appendFailed job message) ∨
        r'.store.status job = some .failed := by
    intro other allowed part status hpart hp
    cases hp with
    | drops _ heq =>
        rw [heq] at hafter
        exact .inl hafter
    | refused _ _ heq =>
        rw [heq] at hafter
        exact .inl hafter
    | updates _ _ _ hupdated heq =>
        subst heq
        obtain ⟨rfl, rfl⟩ := hpart (Option.some.inj hafter)
        exact .inr (by rw [JobStore.status_put, if_pos rfl, hupdated])
  have hcancels : ∀ {task : Jobs.TaskId} {other : JobId}, ¬Cancels r task other r' := by
    intro task other hc
    cases hc with
    | refused _ heq => simp [heq] at hafter
    | updates _ _ _ heq => simp [heq] at hafter
  cases hs with
  | acquireReturns _ hp => exact hproceeds (by simp) hp
  | acquireRaises _ _ hp => exact hproceeds (by simp +contextual) hp
  | workRaises _ _ hp => exact hproceeds (by simp +contextual) hp
  | workReturns _ _ hp => exact hproceeds (by simp) hp
  | cancelEvicted _ hc => exact absurd hc hcancels
  | cancelUpdate _ hc => exact absurd hc hcancels
  | cancelMarks => cases hafter
  | appendRunning => cases hafter
  | appendFailed => cases hafter
  | appendSucceeded => cases hafter
  | appendCancelled => cases hafter
  | _ => exact .inl hafter

-- A call of `cancel` is about to update the record, or to report that it has.
def Withdrawing (r : Jobs.State) (canceller : Jobs.TaskId) (job : JobId) : Prop :=
  r.busy = some (.cancelUpdate canceller job) ∨ r.busy = some (.appendCancelled canceller job)

-- What a step of the runner is for one call of `cancel`.
inductive Attempts (r : Jobs.State) (a : Jobs.Action) (r' : Jobs.State) (canceller : Jobs.TaskId) :
    Prop
  | other (ha : ∀ job, a ≠ .loop (.cancelCall canceller job))
      (hpc : r'.cancels canceller = r.cancels canceller)
      (hpart : ∀ job, Withdrawing r' canceller job ↔ Withdrawing r canceller job)
  | evicts {job : JobId} (ha : a = .loop (.cancelCall canceller job))
      (habsent : r.cancels canceller = .absent) (hpc : r'.cancels canceller = .evicting job)
      (hpart : ∀ other, ¬Withdrawing r' canceller other)
  | marks {job : JobId} (ha : a = .loop (.cancelCall canceller job))
      (habsent : r.cancels canceller = .absent) (hpc : r'.cancels canceller = .absent)
      (hpart : ∀ other, Withdrawing r' canceller other ↔ other = job)
      (hcurrent : r.store.status job = some .running → r.current ≠ some job)
  | updates {job : JobId} (ha : a = .loop (.cancelEvicted canceller true))
      (hevicting : r.cancels canceller = .evicting job)
      (hpc : r'.cancels canceller = .evicting job)
      (hpart : ∀ other, Withdrawing r' canceller other → other = job)
  | fails (hpc : r'.cancels canceller = .finished false)
      (hpart : ∀ other, ¬Withdrawing r' canceller other)
  | returns {job : JobId} (hbefore : Withdrawing r canceller job)
      (hpc : r'.cancels canceller = .finished true) (hpart : ∀ other, ¬Withdrawing r' canceller other)

theorem withdrawing_none (hbusy : r.busy = none) (canceller : Jobs.TaskId) (job : JobId) :
    ¬Withdrawing r canceller job := by
  simp [Withdrawing, hbusy]

-- The loop goes on, or a thread does.
theorem attempts_other {canceller : Jobs.TaskId} (ha : ∀ job, a ≠ .loop (.cancelCall canceller job))
    (hpc : r'.cancels canceller = r.cancels canceller)
    (hbefore : ∀ job, ¬Withdrawing r canceller job) (hafter : ∀ job, ¬Withdrawing r' canceller job) :
    Attempts r a r' canceller :=
  .other ha hpc fun job => ⟨fun h => absurd h (hafter job), fun h => absurd h (hbefore job)⟩

theorem Proceeds.attempts {canceller : Jobs.TaskId} {job : JobId} {allowed : JobStatus → Prop}
    {part : Jobs.Section} {status : JobStatus} (hbusy : r.busy = none)
    (ha : ∀ job, a ≠ .loop (.cancelCall canceller job)) (hpart : loopJob part = some job)
    (hp : Proceeds r job allowed part status r') : Attempts r a r' canceller := by
  have hnone := withdrawing_none hbusy canceller
  cases hp with
  | drops _ heq =>
      subst heq
      exact attempts_other ha rfl hnone hnone
  | refused _ _ heq =>
      subst heq
      exact attempts_other ha rfl hnone hnone
  | updates _ _ _ _ heq =>
      subst heq
      refine attempts_other ha rfl hnone fun other hwithdrawing => ?_
      rcases hwithdrawing with heq | heq <;> cases heq <;> cases hpart

theorem Cancels.attempts {canceller : Jobs.TaskId} {task : Jobs.TaskId} {job : JobId}
    (ha : ∀ job, a ≠ .loop (.cancelCall canceller job))
    (hfrom : (r.cancels task = .evicting job ∧ a = .loop (.cancelEvicted task true) ∧ r.busy = none) ∨
      r.busy = some (.cancelUpdate task job))
    (hc : Cancels r task job r') : Attempts r a r' canceller := by
  have hothers : canceller ≠ task → ∀ other, ¬Withdrawing r canceller other := by
    intro hne other hwithdrawing
    rcases hfrom with ⟨-, -, hbusy⟩ | hbusy
    · exact withdrawing_none hbusy canceller other hwithdrawing
    · simp [Withdrawing, hbusy, Ne.symm hne] at hwithdrawing
  cases hc with
  | refused _ heq =>
      subst heq
      by_cases htask : canceller = task
      · subst htask
        exact .fails (by simp) (by simp [Withdrawing])
      · exact attempts_other ha (by simp [htask]) (hothers htask) (by simp [Withdrawing])
  | updates _ _ _ heq =>
      subst heq
      by_cases htask : canceller = task
      · subst htask
        rcases hfrom with ⟨hevicting, haction, -⟩ | hbusy
        · exact .updates haction hevicting hevicting (by simp +contextual [Withdrawing])
        · exact .other ha rfl (by simp [Withdrawing, hbusy])
      · exact attempts_other ha rfl (hothers htask) (by simp [Withdrawing, Ne.symm htask])

theorem Performs.attempts (hs : Performs fingerprint r a r')
    (hloop : ∀ action, a = .loop action → r.busy = none) (canceller : Jobs.TaskId) :
    Attempts r a r' canceller := by
  have hidle : ∀ action, a = .loop action → ∀ job, ¬Withdrawing r canceller job :=
    fun action ha => withdrawing_none (hloop action ha) canceller
  cases hs with
  | acquireReturns _ hp => exact hp.attempts (hloop _ rfl) (by simp) rfl
  | acquireRaises _ _ hp => exact hp.attempts (hloop _ rfl) (by simp) rfl
  | workRaises _ _ hp => exact hp.attempts (hloop _ rfl) (by simp) rfl
  | workReturns _ _ hp => exact hp.attempts (hloop _ rfl) (by simp) rfl
  | cancelRefused task job habsent =>
      by_cases htask : canceller = task
      · subst htask
        exact .fails (by simp) (hidle _ rfl)
      · refine attempts_other (fun other ha => htask ?_) (by simp [htask]) (hidle _ rfl) (hidle _ rfl)
        cases ha
        rfl
  | cancelEvicts task habsent hrunning hcurrent =>
      by_cases htask : canceller = task
      · subst htask
        exact .evicts rfl habsent (by simp) (hidle _ rfl)
      · refine attempts_other (fun other ha => htask ?_) (by simp [htask]) (hidle _ rfl) (hidle _ rfl)
        cases ha
        rfl
  | @cancelMarks task job before habsent hstatus _ hother =>
      by_cases htask : canceller = task
      · subst htask
        refine .marks rfl habsent habsent (by simp [Withdrawing, eq_comm]) fun hrunning hcurrent => ?_
        rw [hstatus] at hrunning
        exact hother ⟨Option.some.inj hrunning, hcurrent⟩
      · refine attempts_other (fun other ha => htask ?_) rfl (hidle _ rfl)
          (by simp [Withdrawing, Ne.symm htask])
        cases ha
        rfl
  | cancelEvicted hevicting hc => exact hc.attempts (by simp) (.inl ⟨hevicting, rfl, hloop _ rfl⟩)
  | @cancelRaises task job hevicting =>
      by_cases htask : canceller = task
      · subst htask
        exact .fails (by simp) (hidle _ rfl)
      · exact attempts_other (by simp) (by simp [htask]) (hidle _ rfl) (hidle _ rfl)
  | appendRunning hbusy =>
      exact attempts_other (by simp) rfl (by simp [Withdrawing, hbusy]) (by simp [Withdrawing])
  | appendFailed hbusy =>
      exact attempts_other (by simp) rfl (by simp [Withdrawing, hbusy]) (by simp [Withdrawing])
  | appendSucceeded hbusy =>
      exact attempts_other (by simp) rfl (by simp [Withdrawing, hbusy]) (by simp [Withdrawing])
  | cancelUpdate hbusy hc => exact hc.attempts (by simp) (.inr hbusy)
  | @appendCancelled task job _ hbusy =>
      by_cases htask : canceller = task
      · subst htask
        exact .returns (.inr hbusy) (by simp) (by simp [Withdrawing])
      · exact attempts_other (by simp) (by simp [htask]) (by simp [Withdrawing, hbusy, Ne.symm htask])
          (by simp [Withdrawing])
  | _ => exact .other (by simp) rfl fun _ => Iff.rfl

end Jobs

section Issues

variable {fingerprint : Text → Python.Dict → Text} {label : Python.Value → String} {idleTimeout : ℚ}
  {s s' : State} {a : Action}

theorem step_stays (hs : step fingerprint label idleTimeout s a = some s') :
    Stays s.runner s'.runner := by
  by_cases hrunner : ∃ action task made, a = .runner action task made
  · obtain ⟨action, task, made, rfl⟩ := hrunner
    exact (step_runner hs).1.stays
  · rw [(step_other hs fun action task made ha => hrunner ⟨action, task, made, ha⟩).1]
    exact stays_refl rfl

-- What the calls of the orchestrator were made for.
structure Issues (s : State) : Prop where
  acquires : ∀ job record, s.runner.loop = .acquiring job record →
    ∃ target, s.issued s.loopAcquire = some (.acquire target)
  evicts : ∀ task job, s.issued task = some (.evictAll job) →
    (s.orch.tasks task).operation = some (.evictAll false) ∨
      ∃ result, s.orch.tasks task = .finished result
  begun : ∀ task job, s.issued task = some (.evictAll job) →
    ∃ status, s.runner.store.status job = some status ∧ status ≠ .queued
  failing : ∀ job message, s.runner.busy = some (.appendFailed job message) →
    ∃ status, s.runner.store.status job = some status ∧ status ≠ .queued

theorem issues_initial : Issues initial := ⟨nofun, nofun, nofun, nofun⟩

-- An eviction is called for a running job, or for one that has just failed.
theorem Effects.evictAll {runner : Jobs.State} {task u : Orchestrator.TaskId} {made : Bool}
    {action : Jobs.Action} (he : Effects label idleTimeout s runner task made action s')
    (hs : Performs fingerprint s.runner action runner) {job : JobId}
    (hafter : s'.issued u = some (.evictAll job)) :
    s.issued u = some (.evictAll job) ∨ s.runner.store.status job = some .running ∨
      ∃ message, s.runner.busy = some (.appendFailed job message) := by
  have hsettle := (settle_frame idleTimeout { s with runner := runner }).2.2.1
  cases he with
  | leaseGranted =>
      by_cases hu : u = task
      · simp [hu] at hafter
      · exact .inl (by simpa [hu] using hafter)
  | @cancelEvicts canceller other _ _ hcancel =>
      by_cases hu : u = task
      · simp only [hu, Function.update_self, Option.some.injEq, Purpose.evictAll.injEq] at hafter
        subst hafter
        cases hs with
        | cancelRefused => simp at hcancel
        | cancelEvicts _ _ hrunning => exact .inr (.inl hrunning)
        | cancelMarks _ habsent => simp [habsent] at hcancel
      · exact .inl (by simpa [hu] using hafter)
  | @appendFailed other message _ hbusy =>
      by_cases hu : u = task
      · simp only [hu, Function.update_self, Option.some.injEq, Purpose.evictAll.injEq] at hafter
        exact .inr (.inr ⟨message, hafter ▸ hbusy⟩)
      · exact .inl (by simpa [hu] using hafter)
  | acquireReturns => exact .inl (by rw [hsettle] at hafter; exact hafter)
  | acquireRaises => exact .inl (by rw [hsettle] at hafter; exact hafter)
  | workEnds => exact .inl (by rw [hsettle] at hafter; exact hafter)
  | failureEvicted => exact .inl (by rw [hsettle] at hafter; exact hafter)
  | appendSucceeded => exact .inl (by rw [hsettle] at hafter; exact hafter)
  | _ => exact .inl hafter

theorem step_issued_other (hs : step fingerprint label idleTimeout s a = some s')
    (hother : ∀ action task made, a ≠ .runner action task made) {u : Orchestrator.TaskId}
    {job : JobId} (hafter : s'.issued u = some (.evictAll job)) :
    s.issued u = some (.evictAll job) := by
  cases a with
  | runner action task made => exact absurd rfl (hother action task made)
  | orch action =>
      simp only [step] at hs
      split at hs
      · obtain ⟨orch, -, rfl⟩ := Option.map_eq_some_iff.mp hs
        exact hafter
      · cases hs
  | openStream id =>
      simp only [step] at hs
      split at hs <;> cases hs
      exact hafter
  | streamGranted id task made =>
      simp only [step] at hs
      split at hs
      · obtain ⟨lease, -, hs⟩ := Option.bind_eq_some_iff.mp hs
        obtain ⟨orch, -, rfl⟩ := Option.map_eq_some_iff.mp hs
        by_cases hu : u = task
        · simp [hu] at hafter
        · simpa [hu, State.setStream] using hafter
      · cases hs
  | streamAcquired id =>
      simp only [step] at hs
      split at hs
      · split at hs <;> cases hs
        exact hafter
      · cases hs
  | streamRefused id =>
      simp only [step] at hs
      split at hs
      · split at hs <;> cases hs
        exact hafter
      · cases hs
  | closeStream id =>
      simp only [step] at hs
      split at hs
      · cases hs
        exact hafter
      · cases hs
        exact hafter
      · split at hs <;> cases hs
        exact hafter
      · cases hs

theorem Effects.granted_issued {runner : Jobs.State} {task : Orchestrator.TaskId} {made : Bool}
    (he : Effects label idleTimeout s runner task made (.loop .leaseGranted) s') :
    ∃ target, s'.issued s'.loopAcquire = some (.acquire target) := by
  cases he
  exact ⟨_, Function.update_self _ _ _⟩

-- The holder's acquire is a task of the orchestrator, and known to it.
theorem Safe.called_held (h : Safe s) {job : JobId} (hheld : heldJob s.runner.loop = some job) :
    s.stage = some (s.loopAcquire, some job) ∧ s.orch.tasks s.loopAcquire ≠ .absent := by
  have hstage := h.stage_of_call (callOf_loop hheld)
  refine ⟨hstage, fun habsent => ?_⟩
  rcases h.stable.called _ _ hstage with ⟨target, hop⟩ | ⟨result, hfinished⟩
  · rw [habsent] at hop
    cases hop
  · rw [habsent] at hfinished
    cases hfinished

theorem Issues.acquires_step (hsafe : Safe s) (h : Issues s)
    (hs : step fingerprint label idleTimeout s a = some s') {job : JobId} {record : Jobs.JobRecord}
    (hloop : s'.runner.loop = .acquiring job record) :
    ∃ target, s'.issued s'.loopAcquire = some (.acquire target) := by
  obtain ⟨-, hfollows⟩ := step_safe hsafe hs
  have hkept : s.runner.loop = .acquiring job record → s'.loopAcquire = s.loopAcquire →
      ∃ target, s'.issued s'.loopAcquire = some (.acquire target) := by
    intro hbefore hsame
    rw [hsame, hfollows.issued _ (hsafe.called_held (by rw [hbefore]; rfl)).2]
    exact h.acquires job record hbefore
  by_cases hrunner : ∃ action task made, a = .runner action task made
  · obtain ⟨action, task, made, rfl⟩ := hrunner
    obtain ⟨hperforms, -, heffects⟩ := step_runner hs
    by_cases hgrant : action = .loop .leaseGranted
    · subst hgrant
      exact heffects.granted_issued
    · refine hkept ?_ (heffects.loopAcquire hgrant)
      exact (hperforms.acquiring hloop).resolve_left hgrant
  · obtain ⟨hsame, hcall, -⟩ := step_other hs fun action task made ha =>
      hrunner ⟨action, task, made, ha⟩
    exact hkept (hsame ▸ hloop) hcall

theorem Issues.evicts_step (hsafe : Safe s) (h : Issues s)
    (hs : step fingerprint label idleTimeout s a = some s') {u : Orchestrator.TaskId} {job : JobId}
    (hissued : s'.issued u = some (.evictAll job)) :
    (s'.orch.tasks u).operation = some (.evictAll false) ∨
      ∃ result, s'.orch.tasks u = .finished result := by
  have hcons := hsafe.stable.consistent
  have hidle := hsafe.stable.idle
  have hkept : s.issued u = some (.evictAll job) →
      (∃ action, Orchestrator.step idleTimeout s.orch action = some s'.orch) →
      (s'.orch.tasks u).operation = some (.evictAll false) ∨
        ∃ result, s'.orch.tasks u = .finished result := by
    rintro hbefore ⟨action, hstep⟩
    rcases h.evicts u job hbefore with hop | ⟨result, hfinished⟩
    · exact step_operation hcons hidle hstep hop
    · exact .inr ⟨result, (step_safe hsafe hs).2.kept.finished u result hfinished⟩
  cases step_calls hs with
  | silent horch hsame =>
      rw [horch]
      exact h.evicts u job (by rw [← hsame, hissued])
  | @calls task made purpose hcall hsame =>
      rw [hsame] at hissued
      by_cases hu : u = task
      · rw [hu, Function.update_self, Option.some.injEq] at hissued
        subst hissued
        rw [hu]
        exact call_operation hcons hidle hcall
      · rw [Function.update_of_ne hu] at hissued
        exact hkept hissued ⟨_, hcall⟩
  | notifies horch hsame => exact hkept (by rw [← hsame, hissued]) ⟨.notifyIdle, by rw [horch]; rfl⟩
  | itself _ _ hstep hsame => exact hkept (by rw [← hsame, hissued]) ⟨_, hstep⟩

theorem Issues.step (hsafe : Safe s) (h : Issues s)
    (hs : step fingerprint label idleTimeout s a = some s') : Issues s' := by
  have hstays := step_stays hs
  refine ⟨fun job record => h.acquires_step hsafe hs, fun task job => h.evicts_step hsafe hs,
    fun u job hissued => ?_, fun job message hbusy => ?_⟩
  · by_cases hrunner : ∃ action task made, a = .runner action task made
    · obtain ⟨action, task, made, rfl⟩ := hrunner
      obtain ⟨hperforms, -, heffects⟩ := step_runner hs
      apply hstays.started
      rcases heffects.evictAll hperforms hissued with hbefore | hrunning | ⟨m, hfailing⟩
      · exact h.begun u job hbefore
      · exact ⟨_, hrunning, by simp⟩
      · exact h.failing job m hfailing
    · have hother : ∀ action task made, a ≠ .runner action task made :=
        fun action task made ha => hrunner ⟨action, task, made, ha⟩
      apply hstays.started
      exact h.begun u job (step_issued_other hs hother hissued)
  · by_cases hrunner : ∃ action task made, a = .runner action task made
    · obtain ⟨action, task, made, rfl⟩ := hrunner
      rcases (step_runner hs).1.failing hbusy with hbefore | hfailed
      · exact hstays.started (h.failing job message hbefore)
      · exact ⟨_, hfailed, by simp⟩
    · have hsame := (step_other hs fun action task made ha => hrunner ⟨action, task, made, ha⟩).1
      rw [hsame] at hbusy ⊢
      exact h.failing job message hbusy

end Issues

section Calls

variable {label : Python.Value → String} {idleTimeout : ℚ} {s s' : State} {a : Action}

theorem Effects.cancelEvict_called {runner : Jobs.State} {task : Orchestrator.TaskId} {made : Bool}
    {canceller : Jobs.TaskId} {job other : JobId}
    (he : Effects label idleTimeout s runner task made (.loop (.cancelCall canceller job)) s')
    (hevicting : runner.cancels canceller = .evicting other) :
    s'.issued (s'.cancelEvict canceller) = some (.evictAll job) := by
  cases he with
  | cancelEvicts => simp
  | cancelCall _ _ hcancel => exact absurd hevicting (hcancel other)

theorem Effects.cancelEvict {runner : Jobs.State} {task : Orchestrator.TaskId} {made : Bool}
    {action : Jobs.Action} {canceller : Jobs.TaskId}
    (he : Effects label idleTimeout s runner task made action s')
    (hne : ∀ job, action ≠ .loop (.cancelCall canceller job)) :
    s'.cancelEvict canceller = s.cancelEvict canceller := by
  have hsettle := (settle_frame idleTimeout { s with runner := runner }).2.2.2
  cases he with
  | @cancelEvicts other job =>
      refine Function.update_of_ne ?_ _ _
      rintro rfl
      exact hne job rfl
  | acquireReturns => rw [hsettle]
  | acquireRaises => rw [hsettle]
  | workEnds => rw [hsettle]
  | failureEvicted => rw [hsettle]
  | appendSucceeded => rw [hsettle]
  | _ => rfl

theorem Effects.evicted {runner : Jobs.State} {task : Orchestrator.TaskId} {made : Bool}
    {canceller : Jobs.TaskId}
    (he : Effects label idleTimeout s runner task made (.loop (.cancelEvicted canceller true)) s') :
    s.orch.tasks (s.cancelEvict canceller) = .finished .returned := by
  generalize haction : Jobs.Action.loop (.cancelEvicted canceller true) = action at he
  cases he with
  | @cancelEvicted _ result hfinished =>
      simp only [Jobs.Action.loop.injEq, Jobs.LoopAction.cancelEvicted.injEq] at haction
      obtain ⟨rfl, hresult⟩ := haction
      rw [hfinished, of_decide_eq_true hresult.symm]
  | _ => cases haction

end Calls

-- The worker that was resident for a job is in the slot until its eviction has
-- completed.
structure Vacated (h : History) : Prop where
  resident : ∀ job worker, h.residentFor job = some worker →
    h.sys.orch.worker = some worker ∨ worker ∈ h.evicted
  evicting : ∀ site value worker, h.sys.orch.phase = some (site, .done (.returned value)) →
    site.evicts = some worker → worker ∈ h.evicted

-- A job that was marked running has had a worker, which is evicted when an
-- eviction for the job has returned.
structure Marked (h : History) : Prop where
  marked : ∀ job, h.sys.runner.store.status job = some .running →
    ∃ worker, h.residentFor job = some worker
  started : ∀ job worker, h.residentFor job = some worker →
    ∃ status, h.sys.runner.store.status job = some status ∧ status ≠ .queued
  emptied : ∀ task job worker, h.sys.issued task = some (.evictAll job) →
    h.sys.orch.tasks task = .finished .returned → h.residentFor job = some worker →
    worker ∈ h.evicted

-- How far a cancel that was called for a running job has come.
structure Frees (h : History) (canceller : Jobs.TaskId) (job : JobId) : Prop where
  resident : ∃ worker, h.residentFor job = some worker
  opened : h.sys.runner.cancels canceller = .absent →
    ∃ other, Withdrawing h.sys.runner canceller other
  evicting : ∀ other, h.sys.runner.cancels canceller = .evicting other →
    other = job ∧ h.sys.issued (h.sys.cancelEvict canceller) = some (.evictAll job)
  withdrawing : ∀ other, Withdrawing h.sys.runner canceller other →
    other = job ∧ h.freed job = true
  finished : h.sys.runner.cancels canceller = .finished true → h.freed job = true

def Freeing (h : History) : Prop :=
  ∀ canceller job, h.began canceller = some job → Frees h canceller job

section Runs

variable {fingerprint : Text → Python.Dict → Text} {label : Python.Value → String} {idleTimeout : ℚ}
  {h h' : History} {a : Action}

theorem vacated_initial : Vacated .initial := by
  refine ⟨nofun, fun site value worker hphase => ?_⟩
  have hnone : History.initial.sys.orch.phase = none := rfl
  rw [hnone] at hphase
  cases hphase

theorem evicted_grows (hs : History.step fingerprint label idleTimeout h a = some h')
    {worker : Worker} (hbefore : worker ∈ h.evicted) : worker ∈ h'.evicted := by
  rw [(History.step_eq_some hs).2]
  exact note_evicted h a h'.sys hbefore

theorem Vacated.step (hcons : Consistent h.sys.orch) (hv : Vacated h)
    (hs : History.step fingerprint label idleTimeout h a = some h') : Vacated h' := by
  obtain ⟨hstep, heq⟩ := History.step_eq_some hs
  have hcalls := step_calls hstep
  refine ⟨fun job worker hresident => ?_, fun site value worker hphase hevicts => ?_⟩
  · have hbefore : h.sys.orch.worker = some worker ∨ worker ∈ h.evicted := by
      rw [heq] at hresident
      rcases note_residentFor hresident with hbefore | ⟨hworker, -⟩
      · exact hv.resident job worker hbefore
      · exact .inl hworker
    rcases hbefore with hworker | hevicted
    · rcases hcalls.resident hcons hworker with hstays | ⟨site, value, hphase, hevicts⟩
      · exact .inl hstays
      · exact .inr (evicted_grows hs (hv.evicting site value worker hphase hevicts))
    · exact .inr (evicted_grows hs hevicted)
  · rcases hcalls.done hcons hphase with hbefore | ⟨task, ha, hpc⟩
    · exact evicted_grows hs (hv.evicting site value worker hbefore hevicts)
    · rw [heq, ha]
      exact note_evicted_leaves hpc hevicts

theorem marked_initial : Marked .initial := ⟨nofun, nofun, nofun⟩

-- Who was resident for a job is settled when it is marked running.
theorem Marked.keeps (hm : Marked h) (hs : History.step fingerprint label idleTimeout h a = some h')
    {job : JobId} {worker : Worker} (hresident : h.residentFor job = some worker) :
    h'.residentFor job = some worker := by
  obtain ⟨hstep, heq⟩ := History.step_eq_some hs
  by_cases hacquired : ∃ task made, a = .runner (.loop .acquireReturns) task made
  · obtain ⟨task, made, rfl⟩ := hacquired
    obtain ⟨hperforms, hidle, -⟩ := step_runner hstep
    rw [heq]
    simp only [History.note]
    cases hbusy : h'.sys.runner.busy with
    | none => exact hresident
    | some part =>
        cases part with
        | appendRunning other =>
            have hne : job ≠ other := by
              rintro rfl
              obtain ⟨status, hstatus, hqueued⟩ := hm.started job worker hresident
              rw [(hperforms.marks (hidle _ rfl) hbusy).1] at hstatus
              exact hqueued (Option.some.inj hstatus).symm
            dsimp only
            rw [Function.update_of_ne hne]
            exact hresident
        | _ => exact hresident
  · rw [heq, note_residentFor_other h h'.sys fun task made ha => hacquired ⟨task, made, ha⟩]
    exact hresident

-- No eviction was issued for a queued job, so its acquire has left its target.
theorem Issues.resident_acquired {s : State} (hsafe : Safe s) (hi : Issues s) {job : JobId}
    {record : Jobs.JobRecord} (hloop : s.runner.loop = .acquiring job record)
    (hqueued : s.runner.store.status job = some .queued)
    (hreturned : s.orch.tasks s.loopAcquire = .finished .returned) :
    ∃ worker, s.orch.worker = some worker := by
  have hstage := (hsafe.called_held (by rw [hloop]; rfl)).1
  obtain ⟨target, hissued⟩ := hi.acquires job record hloop
  rcases hsafe.stable.resident _ _ target hstage hreturned hissued with
    hslot | ⟨u, other, hother, hevict, -⟩
  · have hcoupled := hsafe.stable.consistent.coupled
    rw [Coupled, hslot] at hcoupled
    obtain ⟨worker, hworker, -⟩ := Option.map_eq_some_iff.mp hcoupled.symm
    exact ⟨worker, hworker⟩
  · cases hother
    obtain ⟨status, hstatus, hne⟩ := hi.begun u job hevict
    rw [hqueued] at hstatus
    exact absurd (Option.some.inj hstatus).symm hne

theorem note_residentFor_marked {s' : State} {task : Orchestrator.TaskId} {made : Bool} {job : JobId}
    (hbusy : s'.runner.busy = some (.appendRunning job)) :
    (h.note (.runner (.loop .acquireReturns) task made) s').residentFor job = h.sys.orch.worker := by
  simp [History.note, hbusy]

theorem Marked.marked_step (hsafe : Safe h.sys) (hi : Issues h.sys) (hm : Marked h)
    (hs : History.step fingerprint label idleTimeout h a = some h') {job : JobId}
    (hrunning : h'.sys.runner.store.status job = some .running) :
    ∃ worker, h'.residentFor job = some worker := by
  obtain ⟨hstep, heq⟩ := History.step_eq_some hs
  have hkept : h.sys.runner.store.status job = some .running →
      ∃ worker, h'.residentFor job = some worker := by
    intro hbefore
    obtain ⟨worker, hworker⟩ := hm.marked job hbefore
    exact ⟨worker, hm.keeps hs hworker⟩
  by_cases hrunner : ∃ action task made, a = .runner action task made
  · obtain ⟨action, task, made, rfl⟩ := hrunner
    obtain ⟨hperforms, hidle, heffects⟩ := step_runner hstep
    rcases hperforms.running hrunning with hbefore | ⟨rfl, hqueued, hbusy⟩
    · exact hkept hbefore
    · obtain ⟨-, -, record, hloop⟩ := hperforms.marks (hidle _ rfl) hbusy
      obtain ⟨worker, hworker⟩ := hi.resident_acquired hsafe hloop hqueued heffects.acquired
      exact ⟨worker, by rw [heq, note_residentFor_marked hbusy, hworker]⟩
  · rw [(step_other hstep fun action task made ha => hrunner ⟨action, task, made, ha⟩).1] at hrunning
    exact hkept hrunning

theorem Marked.started_step (hm : Marked h)
    (hs : History.step fingerprint label idleTimeout h a = some h') {job : JobId} {worker : Worker}
    (hresident : h'.residentFor job = some worker) :
    ∃ status, h'.sys.runner.store.status job = some status ∧ status ≠ .queued := by
  obtain ⟨hstep, heq⟩ := History.step_eq_some hs
  rw [heq] at hresident
  rcases note_residentFor hresident with hbefore | ⟨-, hbusy, task, made, rfl⟩
  · exact (step_stays hstep).started (hm.started job worker hbefore)
  · obtain ⟨hperforms, hidle, -⟩ := step_runner hstep
    obtain ⟨-, hrunning, -⟩ := hperforms.marks (hidle _ rfl) hbusy
    exact ⟨_, hrunning, by simp⟩

-- The worker is gone when an eviction for its job has returned.
theorem Marked.emptied_step (hsafe : Safe h.sys) (hi : Issues h.sys) (hv' : Vacated h')
    (hm : Marked h) (hs : History.step fingerprint label idleTimeout h a = some h')
    {task : Orchestrator.TaskId} {job : JobId} {worker : Worker}
    (hissued : h'.sys.issued task = some (.evictAll job))
    (hreturned : h'.sys.orch.tasks task = .finished .returned)
    (hresident : h'.residentFor job = some worker) : worker ∈ h'.evicted := by
  obtain ⟨hstep, heq⟩ := History.step_eq_some hs
  have hcons := hsafe.stable.consistent
  have hgone : h'.sys.orch.worker = none → worker ∈ h'.evicted := by
    intro hnone
    rcases hv'.resident job worker hresident with hworker | hevicted
    · rw [hnone] at hworker
      cases hworker
    · exact hevicted
  -- the job had its worker when the eviction was issued
  have hbefore : h.sys.issued task = some (.evictAll job) → h.residentFor job = some worker := by
    intro hissued
    obtain ⟨status, hstatus, hqueued⟩ := hi.begun task job hissued
    rw [heq] at hresident
    rcases note_residentFor hresident with hbefore | ⟨-, hbusy, t, made, rfl⟩
    · exact hbefore
    · obtain ⟨hperforms, hidle, -⟩ := step_runner hstep
      rw [(hperforms.marks (hidle _ rfl) hbusy).1] at hstatus
      exact absurd (Option.some.inj hstatus).symm hqueued
  have hdone : h.sys.issued task = some (.evictAll job) →
      h.sys.orch.tasks task = .finished .returned → worker ∈ h'.evicted := fun hissued hfinished =>
    evicted_grows hs (hm.emptied task job worker hissued hfinished (hbefore hissued))
  have hstepped : h.sys.issued task = some (.evictAll job) →
      (∃ action, Orchestrator.step idleTimeout h.sys.orch action = some h'.sys.orch) →
      worker ∈ h'.evicted := by
    rintro hissued ⟨action, hact⟩
    rcases hi.evicts task job hissued with hop | ⟨result, hfinished⟩
    · exact hgone (step_evictAll_returned hcons hsafe.stable.idle hact hop hreturned)
    · have hstill := (step_safe hsafe hstep).2.kept.finished task result hfinished
      rw [hreturned] at hstill
      cases hstill
      exact hdone hissued hfinished
  cases step_calls hstep with
  | silent horch hsame =>
      rw [hsame] at hissued
      rw [horch] at hreturned
      exact hdone hissued hreturned
  | @calls t made purpose hcall hsame =>
      rw [hsame] at hissued
      by_cases ht : task = t
      · subst ht
        rw [Function.update_self, Option.some.injEq] at hissued
        subst hissued
        exact hgone (call_evictAll_returned hcall hreturned)
      · rw [Function.update_of_ne ht] at hissued
        exact hstepped hissued ⟨_, hcall⟩
  | notifies horch hsame => exact hstepped (by rw [← hsame, hissued]) ⟨.notifyIdle, by rw [horch]; rfl⟩
  | itself _ _ hact hsame => exact hstepped (by rw [← hsame, hissued]) ⟨_, hact⟩

theorem Marked.step (hsafe : Safe h.sys) (hi : Issues h.sys) (hv' : Vacated h') (hm : Marked h)
    (hs : History.step fingerprint label idleTimeout h a = some h') : Marked h' where
  marked _ := hm.marked_step hsafe hi hs
  started _ _ := hm.started_step hs
  emptied _ _ _ := hm.emptied_step hsafe hi hv' hs

theorem freeing_initial : Freeing .initial := nofun

theorem Marked.freed_kept (hm : Marked h) (hs : History.step fingerprint label idleTimeout h a = some h')
    {job : JobId} (hfreed : h.freed job = true) : h'.freed job = true := by
  obtain ⟨worker, hresident, hevicted⟩ := freed_iff.mp hfreed
  exact freed_iff.mpr ⟨worker, hm.keeps hs hresident, evicted_grows hs hevicted⟩

-- The eviction that a cancel waits for was issued before the step.
theorem issued_kept (hsafe : Safe h.sys) (hi : Issues h.sys)
    (hs : History.step fingerprint label idleTimeout h a = some h') {canceller : Jobs.TaskId}
    {job : JobId} (hissued : h.sys.issued (h.sys.cancelEvict canceller) = some (.evictAll job))
    (hsame : h'.sys.cancelEvict canceller = h.sys.cancelEvict canceller) :
    h'.sys.issued (h'.sys.cancelEvict canceller) = some (.evictAll job) := by
  obtain ⟨-, hfollows⟩ := step_safe hsafe (History.step_eq_some hs).1
  rw [hsame, hfollows.issued _ ?_, hissued]
  intro habsent
  rcases hi.evicts _ job hissued with hop | ⟨result, hfinished⟩
  · rw [habsent] at hop
    cases hop
  · rw [habsent] at hfinished
    cases hfinished

-- The runner's step for a call of `cancel` that has begun before.
theorem Frees.attempts (hsafe : Safe h.sys) (hi : Issues h.sys) (hm : Marked h)
    {canceller : Jobs.TaskId} {job : JobId} (hf : Frees h canceller job)
    {action : Jobs.Action} {task : Orchestrator.TaskId} {made : Bool}
    (hs : History.step fingerprint label idleTimeout h (.runner action task made) = some h') :
    Frees h' canceller job := by
  obtain ⟨hstep, -⟩ := History.step_eq_some hs
  obtain ⟨hperforms, hidle, heffects⟩ := step_runner hstep
  obtain ⟨worker, hresident⟩ := hf.resident
  have hkept : h.freed job = true → h'.freed job = true := hm.freed_kept hs
  -- a call that is just made has not begun before
  have hfresh : ∀ other, action = .loop (.cancelCall canceller other) →
      h.sys.runner.cancels canceller = .absent → False := by
    intro other haction habsent
    obtain ⟨started, hstarted⟩ := hf.opened habsent
    exact withdrawing_none (hidle _ haction) canceller started hstarted
  have hcancel : (∀ other, action ≠ .loop (.cancelCall canceller other)) →
      h'.sys.cancelEvict canceller = h.sys.cancelEvict canceller := heffects.cancelEvict
  have hkeeps := hm.keeps hs hresident
  cases hperforms.attempts hidle canceller with
  | other ha hpc hpart =>
      refine ⟨⟨worker, hkeeps⟩, fun habsent => ?_, fun other hevicting => ?_,
        fun other hwithdrawing => ?_, fun hfinished => ?_⟩
      · obtain ⟨other, hother⟩ := hf.opened (hpc ▸ habsent)
        exact ⟨other, (hpart other).mpr hother⟩
      · obtain ⟨rfl, hissued⟩ := hf.evicting other (hpc ▸ hevicting)
        exact ⟨rfl, issued_kept hsafe hi hs hissued (hcancel ha)⟩
      · obtain ⟨rfl, hfreed⟩ := hf.withdrawing other ((hpart other).mp hwithdrawing)
        exact ⟨rfl, hkept hfreed⟩
      · exact hkept (hf.finished (hpc ▸ hfinished))
  | evicts ha habsent => exact (hfresh _ ha habsent).elim
  | marks ha habsent => exact (hfresh _ ha habsent).elim
  | @updates evicted ha hevicting hpc hpart =>
      subst ha
      obtain ⟨rfl, hissued⟩ := hf.evicting evicted hevicting
      have hfreed : h.freed evicted = true := freed_iff.mpr
        ⟨worker, hresident, hm.emptied _ _ worker hissued heffects.evicted hresident⟩
      refine ⟨⟨worker, hkeeps⟩, by simp [hpc], fun other hother => ?_,
        fun other hwithdrawing => ?_, by simp [hpc]⟩
      · rw [hpc] at hother
        cases hother
        exact ⟨rfl, issued_kept hsafe hi hs hissued (hcancel (by simp))⟩
      · exact ⟨hpart other hwithdrawing, hkept hfreed⟩
  | fails hpc hpart =>
      exact ⟨⟨worker, hkeeps⟩, by simp [hpc], by simp [hpc],
        fun other hother => absurd hother (hpart other), by simp [hpc]⟩
  | @returns withdrawn hbefore hpc hpart =>
      obtain ⟨rfl, hfreed⟩ := hf.withdrawing withdrawn hbefore
      exact ⟨⟨worker, hkeeps⟩, by simp [hpc], by simp [hpc],
        fun other hother => absurd hother (hpart other), fun _ => hkept hfreed⟩

-- A call of `cancel` begins for a running job.
theorem frees_begins (hm : Marked h) {canceller : Jobs.TaskId} {job : JobId}
    {task : Orchestrator.TaskId} {made : Bool}
    (hrunning : h.sys.runner.store.status job = some .running)
    (hok : leavesResident h (.runner (.loop (.cancelCall canceller job)) task made) = false)
    (hs : History.step fingerprint label idleTimeout h
      (.runner (.loop (.cancelCall canceller job)) task made) = some h') :
    Frees h' canceller job := by
  obtain ⟨hstep, -⟩ := History.step_eq_some hs
  obtain ⟨hperforms, hidle, heffects⟩ := step_runner hstep
  obtain ⟨worker, hresident⟩ := hm.marked job hrunning
  have hkeeps := hm.keeps hs hresident
  cases hperforms.attempts hidle canceller with
  | other ha => exact absurd rfl (ha job)
  | evicts ha habsent hpc hpart =>
      cases ha
      refine ⟨⟨worker, hkeeps⟩, by simp [hpc], fun other hother => ?_,
        fun other hother => absurd hother (hpart other), by simp [hpc]⟩
      rw [hpc] at hother
      cases hother
      exact ⟨rfl, heffects.cancelEvict_called hpc⟩
  | marks ha habsent hpc hpart hcurrent =>
      cases ha
      have hfreed : h.freed job = true := by
        simpa [leavesResident, hrunning, hcurrent hrunning] using hok
      exact ⟨⟨worker, hkeeps⟩, fun _ => ⟨job, (hpart job).mpr rfl⟩, by simp [hpc],
        fun other hother => ⟨(hpart other).mp hother, hm.freed_kept hs hfreed⟩, by simp [hpc]⟩
  | updates ha => cases ha
  | fails hpc hpart =>
      exact ⟨⟨worker, hkeeps⟩, by simp [hpc], by simp [hpc],
        fun other hother => absurd hother (hpart other), by simp [hpc]⟩
  | returns hbefore => exact absurd hbefore (withdrawing_none (hidle _ rfl) canceller _)

theorem Freeing.step (hsafe : Safe h.sys) (hi : Issues h.sys) (hm : Marked h) (hf : Freeing h)
    (hok : leavesResident h a = false)
    (hs : History.step fingerprint label idleTimeout h a = some h') : Freeing h' := by
  intro canceller job hbegan
  obtain ⟨hstep, heq⟩ := History.step_eq_some hs
  have hcases := note_began (heq ▸ hbegan)
  by_cases hrunner : ∃ action task made, a = .runner action task made
  · obtain ⟨action, task, made, rfl⟩ := hrunner
    rcases hcases with hold | ⟨hrunning, t, made', ha⟩
    · exact (hf canceller job hold).attempts hsafe hi hm hs
    · cases ha
      exact frees_begins hm hrunning hok hs
  · have hother : ∀ action task made, a ≠ .runner action task made :=
      fun action task made ha => hrunner ⟨action, task, made, ha⟩
    have hold : h.began canceller = some job := by
      rcases hcases with hold | ⟨-, t, made, ha⟩
      · exact hold
      · exact absurd ha (hother _ _ _)
    obtain ⟨⟨worker, hresident⟩, hopened, hevicting, hwithdrawing, hfinished⟩ := hf canceller job hold
    obtain ⟨hsame, -, hcancel⟩ := step_other hstep hother
    refine ⟨⟨worker, hm.keeps hs hresident⟩, by rw [hsame]; exact hopened, fun other hother => ?_,
      fun other hother => ?_, fun hdone => ?_⟩
    · obtain ⟨rfl, hissued⟩ := hevicting other (hsame ▸ hother)
      exact ⟨rfl, issued_kept hsafe hi hs hissued (congrFun hcancel canceller)⟩
    · obtain ⟨rfl, hfreed⟩ := hwithdrawing other (hsame ▸ hother)
      exact ⟨rfl, hm.freed_kept hs hfreed⟩
    · exact hm.freed_kept hs (hfinished (hsame ▸ hdone))

structure Freed (h : History) : Prop where
  safe : Safe h.sys
  issues : Issues h.sys
  vacated : Vacated h
  marked : Marked h
  freeing : Freeing h

theorem reachable_freed
    (hr : Path (History.step fingerprint label idleTimeout) (fun h a => leavesResident h a = false)
      .initial h) : Freed h := by
  refine hr.invariant Freed
    ⟨safe_initial, issues_initial, vacated_initial, marked_initial, freeing_initial⟩ ?_
  rintro h a h' ⟨hsafe, hi, hv, hm, hf⟩ hok hs
  obtain ⟨hstep, -⟩ := History.step_eq_some hs
  have hv' := hv.step hsafe.stable.consistent hs
  exact ⟨(step_safe hsafe hstep).1, hi.step hsafe hstep, hv', hm.step hsafe hi hv' hs,
    hf.step hsafe hi hm hok hs⟩

theorem cancel_frees
    (hr : Path (History.step fingerprint label idleTimeout) (fun h a => leavesResident h a = false)
      .initial h)
    {canceller : Jobs.TaskId} {job : JobId} (hbegan : h.began canceller = some job)
    (hreturned : h.sys.runner.cancels canceller = .finished true) :
    ∃ worker, h.residentFor job = some worker ∧ worker ∈ h.evicted :=
  freed_iff.mp (((reachable_freed hr).freeing canceller job hbegan).finished hreturned)

end Runs

-- The eviction that a cancel of the running job waits for completes.
def sampleFreed : List Action :=
  sampleCancelled ++
  ([.threadEnters 1, .threadLeaves 1 (.returned true), .resumes 1 true] :
    List Orchestrator.Action).map .orch ++
  ([.loop (.cancelEvicted 1 true), .nextSection] : List Jobs.Action).map (.runner · 1 true)

theorem cancel_frees_sampleFreed :
    ∃ h, run (History.step sampleFingerprint sampleLabel 0) .initial sampleFreed = some h ∧
      h.began 1 = some sampleJob ∧ h.sys.runner.cancels 1 = .finished true ∧
      ∃ worker, h.residentFor sampleJob = some worker ∧ worker ∈ h.evicted := by
  obtain ⟨h, hr, hrun, hbegan, hreturned⟩ : ∃ h,
      runWithin (History.step sampleFingerprint sampleLabel 0) (fun h a => leavesResident h a = false)
        .initial sampleFreed = some h ∧
      run (History.step sampleFingerprint sampleLabel 0) .initial sampleFreed = some h ∧
      h.began 1 = some sampleJob ∧ h.sys.runner.cancels 1 = .finished true := ⟨_, rfl, rfl, rfl, rfl⟩
  exact ⟨h, hrun, hbegan, hreturned, cancel_frees (Path.of_runWithin hr) hbegan hreturned⟩

-- The work ends before the eviction does, and a second cancel is called.
def sampleOvertaken : List Action :=
  sampleCancelled ++
  ([.thread sampleJob (.ends (.returned (ascii "o") [])), .loop .workEnds,
    .loop (.cancelCall 2 sampleJob), .nextSection, .nextSection] : List Jobs.Action).map
    (.runner · 2 true)

theorem cancel_overtakes_eviction :
    ¬∀ h canceller job, Reachable (History.step sampleFingerprint sampleLabel 0) .initial h →
      h.began canceller = some job → h.sys.runner.cancels canceller = .finished true →
      ∃ worker, h.residentFor job = some worker ∧ worker ∈ h.evicted := by
  intro hfrees
  obtain ⟨h, hr, hbegan, hreturned, hnone⟩ : ∃ h,
      run (History.step sampleFingerprint sampleLabel 0) .initial sampleOvertaken = some h ∧
      h.began 2 = some sampleJob ∧ h.sys.runner.cancels 2 = .finished true ∧
      h.evicted = [] := ⟨_, rfl, rfl, rfl, rfl⟩
  obtain ⟨worker, -, hevicted⟩ := hfrees h 2 sampleJob (Reachable.of_run hr) hbegan hreturned
  rw [hnone] at hevicted
  cases hevicted

end Cosmos3.Lease
