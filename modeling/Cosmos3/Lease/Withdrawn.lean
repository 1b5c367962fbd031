import Cosmos3.Lease.Order

namespace Cosmos3.Lease

open Basis Orchestrator
open Jobs (JobId JobStatus JobStore LoopPc sampleFingerprint sampleJob)

-- A cancel is called for the job that waits for the lease.
def cancelsWaiting (h : History) : Action → Bool
  | .runner (.loop (.cancelCall _ job)) _ _ =>
      match h.sys.runner.loop with
      | .leaseWait waiting _ => waiting = job
      | _ => false
  | _ => false

-- The job that waits for the lease is queued, as it was when it left the queue.
structure Untouched (r : Jobs.State) : Prop where
  waiting : ∀ job record, r.loop = .leaseWait job record → r.store.status job = some .queued
  evicting : ∀ task job, r.cancels task = .evicting job →
    ∃ status, r.store.status job = some status ∧ status ≠ .queued
  cancelling : ∀ task job record, r.busy = some (.cancelUpdate task job) →
    r.loop ≠ .leaseWait job record

section Steps

variable {fingerprint : Text → Python.Dict → Text} {r r' : Jobs.State} {a : Jobs.Action}

theorem untouched_initial : Untouched Jobs.initial := ⟨nofun, nofun, nofun⟩

-- A step after which no job waits.
theorem Untouched.noneWaits (h : Untouched r) (hstays : Stays r r')
    (hloop : ∀ job record, r'.loop ≠ .leaseWait job record) (hcancels : r'.cancels = r.cancels) :
    Untouched r' where
  waiting job record hwait := absurd hwait (hloop job record)
  evicting task job hevicting := hstays.started (h.evicting task job (hcancels ▸ hevicting))
  cancelling _ job record _ := hloop job record

-- A step that leaves the loop where it is, and the record of the job that waits there.
theorem Untouched.keeps (h : Untouched r) (hstays : Stays r r') (hloop : r'.loop = r.loop)
    (hstatus : ∀ job record, r.loop = .leaseWait job record →
      r'.store.status job = r.store.status job)
    (hcancels : ∀ task job, r'.cancels task = .evicting job → r.cancels task = .evicting job)
    (hbusy : ∀ task job, r'.busy = some (.cancelUpdate task job) →
      r.busy = some (.cancelUpdate task job)) : Untouched r' where
  waiting job record hwait := by
    rw [hloop] at hwait
    rw [hstatus job record hwait, h.waiting job record hwait]
  evicting task job hevicting := hstays.started (h.evicting task job (hcancels task job hevicting))
  cancelling task job record hpart := by
    rw [hloop]
    exact h.cancelling task job record (hbusy task job hpart)

theorem Untouched.proceeds (h : Untouched r) (hstays : Stays r r') {job : JobId}
    {allowed : JobStatus → Prop} {part : Jobs.Section} {status : JobStatus}
    (hturn : ∀ other record, r.loop ≠ .leaseWait other record)
    (hp : Proceeds r job allowed part status r') : Untouched r' := by
  have hcancels : r'.cancels = r.cancels := by
    cases hp with
    | drops _ heq => rw [heq]
    | refused _ _ heq => rw [heq]
    | updates _ _ _ _ heq => rw [heq]
  refine h.noneWaits hstays (fun other record => ?_) hcancels
  rcases hp.control with ⟨hidle, -⟩ | ⟨hsame, -⟩
  · simp [hidle]
  · rw [hsame]
    exact hturn other record

theorem Untouched.cancels (h : Untouched r) (hstays : Stays r r') {task : Jobs.TaskId} {job : JobId}
    (hnot : ∀ record, r.loop ≠ .leaseWait job record) (hc : Cancels r task job r') :
    Untouched r' := by
  cases hc with
  | refused _ heq =>
      subst heq
      exact h.keeps hstays rfl (fun _ _ _ => rfl) (fun _ _ => evicting_of_finished) nofun
  | updates _ _ _ heq =>
      subst heq
      refine h.keeps hstays rfl (fun other record hloop => ?_) (fun _ _ => id) (by simp)
      rw [JobStore.status_put, if_neg]
      rintro rfl
      exact hnot record hloop

theorem Untouched.performs (h : Untouched r) (hbusy : ∀ action, a = .loop action → r.busy = none)
    (hok : ∀ task job record, a = .loop (.cancelCall task job) → r.loop ≠ .leaseWait job record)
    (hs : Performs fingerprint r a r') : Untouched r' := by
  have hstays : Stays r r' := hs.stays
  have hloop : ∀ {loop : LoopPc}, r.loop = loop → (∀ job record, loop ≠ .leaseWait job record) →
      ∀ job record, r.loop ≠ .leaseWait job record := fun heq hne job record => heq ▸ hne job record
  cases hs with
  | startLoop heq => exact h.noneWaits hstays (by simp) rfl
  | replay => exact h
  | create submission hfresh =>
      refine h.keeps hstays rfl (fun job record hwait => ?_) (fun _ _ => id) fun _ _ => id
      rw [JobStore.status_create, if_neg]
      rintro rfl
      have hqueued := h.waiting _ record hwait
      simp [JobStore.status, hfresh] at hqueued
  | passesCancelled heq => exact h.keeps hstays rfl (fun _ _ _ => rfl) (fun _ _ => id) fun _ _ => id
  | passes heq => exact h.keeps hstays rfl (fun _ _ _ => rfl) (fun _ _ => id) fun _ _ => id
  | @takes job queue record heq hqueue hcancelled hget hqueued =>
      have hidle := hbusy _ rfl
      refine ⟨fun other record' hwait => ?_, fun task other hcancel => h.evicting task other hcancel,
        fun task other record' hpart => ?_⟩
      · cases hwait
        simp [JobStore.status, hget, hqueued]
      · rw [hidle] at hpart
        cases hpart
  | leaseGranted heq => exact h.noneWaits hstays (by simp) rfl
  | acquireReturns heq hp => exact h.proceeds hstays (hloop heq (by simp)) hp
  | acquireRaises _ heq hp => exact h.proceeds hstays (hloop heq (by simp)) hp
  | workRaises heq _ hp => exact h.proceeds hstays (hloop heq (by simp)) hp
  | workReturns heq _ hp => exact h.proceeds hstays (hloop heq (by simp)) hp
  | failureEvicted heq => exact h.noneWaits hstays (by simp) rfl
  | cancelRefused task job hcancel =>
      exact h.keeps hstays rfl (fun _ _ _ => rfl) (fun _ _ => evicting_of_finished) fun _ _ => id
  | @cancelEvicts task job hcancel hrunning =>
      refine ⟨fun other record hwait => h.waiting other record hwait, fun t other hevicting => ?_,
        fun t other record hpart => h.cancelling t other record hpart⟩
      by_cases ht : t = task
      · simp only [ht, Function.update_self, Jobs.CancelPc.evicting.injEq] at hevicting
        exact hevicting ▸ ⟨_, hrunning, by simp⟩
      · exact h.evicting t other (by simpa [ht] using hevicting)
  | @cancelMarks task job _ hcancel =>
      refine ⟨fun other record hwait => h.waiting other record hwait,
        fun t other hevicting => h.evicting t other hevicting, fun t other record hpart hwait => ?_⟩
      cases hpart
      exact hok task job record rfl hwait
  | @cancelEvicted task job _ hcancel hc =>
      refine h.cancels hstays (fun record hwait => ?_) hc
      obtain ⟨status, hstatus, hne⟩ := h.evicting task job hcancel
      rw [h.waiting job record hwait] at hstatus
      cases hstatus
      exact hne rfl
  | @cancelRaises task job hcancel =>
      exact h.keeps hstays rfl (fun _ _ _ => rfl) (fun _ _ => evicting_of_finished) fun _ _ => id
  | appendRunning => exact h.noneWaits hstays (by simp) rfl
  | appendFailed => exact h.noneWaits hstays (by simp) rfl
  | appendSucceeded => exact h.noneWaits hstays (by simp) rfl
  | @cancelUpdate task job _ hpart hc =>
      exact h.cancels hstays (fun record => h.cancelling task job record hpart) hc
  | @appendCancelled task job history hpart =>
      exact h.keeps hstays rfl (fun _ _ _ => rfl) (fun _ _ => evicting_of_finished) (by simp)
  | thread hsame =>
      exact h.keeps hstays rfl (fun job _ _ => congrFun hsame job) (fun _ _ => id) fun _ _ => id

theorem Performs.granted (hs : Performs fingerprint r (.loop .leaseGranted) r') :
    ∃ job record, r.loop = .leaseWait job record ∧ r'.loop = .acquiring job record := by
  cases hs with
  | @leaseGranted job record hloop => exact ⟨job, record, hloop, rfl⟩

end Steps

section Runs

variable {fingerprint : Text → Python.Dict → Text} {label : Python.Value → String} {idleTimeout : ℚ}
  {h h' : History} {a : Action}

theorem reachable_untouched
    (hr : Path (History.step fingerprint label idleTimeout) (fun h a => cancelsWaiting h a = false)
      .initial h) :
    Untouched h.sys.runner := by
  refine hr.invariant (fun h => Untouched h.sys.runner) untouched_initial ?_
  intro h a h' huntouched hok hs
  obtain ⟨hstep, -⟩ := History.step_eq_some hs
  by_cases hrunner : ∃ action task made, a = .runner action task made
  · obtain ⟨action, task, made, rfl⟩ := hrunner
    obtain ⟨hstop, hrun, -⟩ := runnerStep_effects hstep
    refine huntouched.performs ?_ ?_ (step_performs hstop hrun)
    · rintro action rfl
      exact (step_loop hrun).1
    · rintro t job record rfl hwait
      simp [cancelsWaiting, hwait] at hok
  · rw [(step_other hstep fun action task made ha => hrunner ⟨action, task, made, ha⟩).1]
    exact huntouched

-- An acquire is called for a job when the job's turn for the lease comes.
theorem calledFor_cases (hs : History.step fingerprint label idleTimeout h a = some h')
    {task : Orchestrator.TaskId} {job : JobId} (hbefore : h.calledFor task ≠ some job)
    (hafter : h'.calledFor task = some job) : ∃ record, h.sys.runner.loop = .leaseWait job record := by
  obtain ⟨hstep, heq⟩ := History.step_eq_some hs
  by_cases hgrant : ∃ t made, a = .runner (.loop .leaseGranted) t made
  · obtain ⟨t, made, rfl⟩ := hgrant
    obtain ⟨hstop, hrun, -⟩ := runnerStep_effects hstep
    obtain ⟨other, record, hwait, hloop⟩ := (step_performs hstop hrun).granted
    rw [heq] at hafter
    simp only [History.note, hloop, heldJob] at hafter
    by_cases ht : task = t
    · rw [ht, Function.update_self] at hafter
      cases hafter
      exact ⟨record, hwait⟩
    · rw [Function.update_of_ne ht] at hafter
      exact absurd hafter hbefore
  · have hsame := note_calledFor h h'.sys fun t made ha => hgrant ⟨t, made, ha⟩
    rw [heq, hsame] at hafter
    exact absurd hafter hbefore

theorem withdrawn_never_acquires
    (hr : Path (History.step fingerprint label idleTimeout) (fun h a => cancelsWaiting h a = false)
      .initial h)
    (hs : History.step fingerprint label idleTimeout h a = some h') {task : Orchestrator.TaskId}
    {job : JobId} (hbefore : h.calledFor task ≠ some job) (hafter : h'.calledFor task = some job) :
    job ∉ h.journal.withdrawn := by
  intro hwithdrawn
  obtain ⟨record, hloop⟩ := calledFor_cases hs hbefore hafter
  obtain ⟨-, status, hstatus, hterminal⟩ := (reachable_recorded hr).ordered.withdrawn job hwithdrawn
  rw [(reachable_untouched hr).waiting job record hloop] at hstatus
  cases hstatus
  cases hterminal

end Runs

-- A stream holds the lease while a job comes to the head of the queue; then the
-- job is cancelled, and the stream is closed.
def sampleStream : List Action :=
  [.openStream 0, .streamGranted 0 0 true] ++
  ([.threadEnters 0, .threadLeaves 0 (.returned true), .resumes 0 true, .threadEnters 0,
    .threadLeaves 0 (.returned true), .resumes 0 true] : List Orchestrator.Action).map .orch ++
  [.streamAcquired 0] ++
  ([.loop .startLoop, .loop (.submit ⟨ascii "t2v", .generation, [], none, sampleJob, ascii "t0"⟩),
    .loop .dequeue] : List Jobs.Action).map (.runner · 1 true)

def sampleLateCancel : List Action :=
  sampleStream ++
  ([.loop (.cancelCall 0 sampleJob), .nextSection, .nextSection] : List Jobs.Action).map
    (.runner · 1 true) ++ [.closeStream 0]

theorem acquires_withdrawn :
    ¬∀ h h' a task job, Reachable (History.step sampleFingerprint sampleLabel 0) .initial h →
      History.step sampleFingerprint sampleLabel 0 h a = some h' → h.calledFor task ≠ some job →
      h'.calledFor task = some job → job ∉ h.journal.withdrawn := by
  intro hnever
  obtain ⟨h, hr, hwithdrawn, hnone⟩ : ∃ h,
      run (History.step sampleFingerprint sampleLabel 0) .initial sampleLateCancel = some h ∧
      h.journal.withdrawn = [sampleJob] ∧ h.calledFor 1 = none := ⟨_, rfl, rfl, rfl⟩
  obtain ⟨h', hs, hcalled⟩ : ∃ h', History.step sampleFingerprint sampleLabel 0 h
      (.runner (.loop .leaseGranted) 1 true) = some h' ∧ h'.calledFor 1 = some sampleJob := by
    cases hr
    exact ⟨_, rfl, rfl⟩
  refine hnever h h' _ 1 sampleJob (Reachable.of_run hr) hs (by simp [hnone]) hcalled ?_
  simp [hwithdrawn]

-- Of two jobs the first is cancelled in the queue; the second acquires its plane.
theorem withdrawn_never_acquires_sampleWithdrawn :
    ∃ h h', run (History.step sampleFingerprint sampleLabel 0) .initial
        (sampleWithdrawn.take 8) = some h ∧
      History.step sampleFingerprint sampleLabel 0 h (.runner (.loop .leaseGranted) 0 true) =
        some h' ∧ h.journal.withdrawn = [sampleJob] ∧ h'.calledFor 0 = some secondJob ∧
      secondJob ∉ h.journal.withdrawn := by
  obtain ⟨h, hr, hrun, hwithdrawn, hbefore⟩ : ∃ h,
      runWithin (History.step sampleFingerprint sampleLabel 0) (fun h a => cancelsWaiting h a = false)
        .initial (sampleWithdrawn.take 8) = some h ∧
      run (History.step sampleFingerprint sampleLabel 0) .initial (sampleWithdrawn.take 8) = some h ∧
      h.journal.withdrawn = [sampleJob] ∧ h.calledFor 0 = none := ⟨_, rfl, rfl, rfl, rfl⟩
  obtain ⟨h', hs, hcalled⟩ : ∃ h', History.step sampleFingerprint sampleLabel 0 h
      (.runner (.loop .leaseGranted) 0 true) = some h' ∧ h'.calledFor 0 = some secondJob := by
    cases hrun
    exact ⟨_, rfl, rfl⟩
  exact ⟨h, h', hrun, hs, hwithdrawn, hcalled,
    withdrawn_never_acquires (Path.of_runWithin hr) hs (by simp [hbefore]) hcalled⟩

end Cosmos3.Lease
