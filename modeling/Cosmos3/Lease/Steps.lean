import Cosmos3.Lease.Safe
import Cosmos3.Orchestrator.Evictions

namespace Cosmos3.Lease

open Basis Jobs

-- What `_process` does when one of its awaits is over and `part` is the section
-- of the update that comes next, for a record whose status is `allowed`.
inductive Proceeds (r : Jobs.State) (job : JobId) (allowed : JobStatus → Prop) (part : Section)
    (status : JobStatus) (r' : Jobs.State) : Prop
  | drops (hcancelled : job ∈ r.cancelled) (heq : r' = { r with
      cancelled := r.cancelled.filter (· ≠ job), current := none, loop := .idle })
  | refused (hcancelled : job ∉ r.cancelled)
      (hstatus : ∀ before, r.store.status job = some before → ¬allowed before)
      (heq : r' = { r with
        cancelled := r.cancelled.filter (· ≠ job), current := none, loop := .idle })
  | updates (hcancelled : job ∉ r.cancelled) {before : JobStatus}
      (hstatus : r.store.status job = some before) (hallowed : allowed before)
      {updated : JobRecord} (hupdated : updated.status = status)
      (heq : r' = { r with store := r.store.put job updated, busy := some part })

-- The update of `cancel`, which is refused when the record is terminal by then.
inductive Cancels (r : Jobs.State) (task : Jobs.TaskId) (job : JobId) (r' : Jobs.State) : Prop
  | refused (hstatus : ∀ before, r.store.status job = some before → before.isTerminal = true)
      (heq : r' = { r with
        busy := none, cancels := Function.update r.cancels task (.finished false) })
  | updates {before : JobStatus} (hstatus : r.store.status job = some before)
      (hactive : before.isTerminal = false) {updated : JobRecord}
      (hupdated : updated.status = .cancelled)
      (heq : r' = { r with
        store := r.store.put job updated, busy := some (.appendCancelled task job) })

-- The runner's steps without `stop`, by what they do.
inductive Performs (fingerprint : Text → Python.Dict → Text) (r : Jobs.State) :
    Jobs.Action → Jobs.State → Prop
  | startLoop (hloop : r.loop = .stopped) :
      Performs fingerprint r (.loop .startLoop) { r with loop := .idle }
  | replay (submission : Submission) : Performs fingerprint r (.loop (.submit submission)) r
  | create (submission : Submission) (hfresh : r.store.jobs submission.id = none) :
      Performs fingerprint r (.loop (.submit submission)) { r with
        store := r.store.create fingerprint submission
        queue := r.queue ++ [submission.id]
        history := Function.update r.history submission.id [⟨1, JobStatus.queued.value, []⟩] }
  | passesCancelled {job : JobId} {queue : List JobId} (hloop : r.loop = .idle)
      (hqueue : r.queue = job :: queue) (hcancelled : job ∈ r.cancelled) :
      Performs fingerprint r (.loop .dequeue)
        { r with queue := queue, cancelled := r.cancelled.filter (· ≠ job) }
  | passes {job : JobId} {queue : List JobId} (hloop : r.loop = .idle)
      (hqueue : r.queue = job :: queue) (hstatus : r.store.status job ≠ some .queued) :
      Performs fingerprint r (.loop .dequeue) { r with queue := queue }
  | takes {job : JobId} {queue : List JobId} {record : JobRecord} (hloop : r.loop = .idle)
      (hqueue : r.queue = job :: queue) (hcancelled : job ∉ r.cancelled)
      (hget : r.store.jobs job = some record) (hstatus : record.status = .queued) :
      Performs fingerprint r (.loop .dequeue)
        { r with queue := queue, current := some job, loop := .leaseWait job record }
  | leaseGranted {job : JobId} {record : JobRecord} (hloop : r.loop = .leaseWait job record) :
      Performs fingerprint r (.loop .leaseGranted) { r with loop := .acquiring job record }
  | acquireReturns {job : JobId} {record : JobRecord} {r' : Jobs.State}
      (hloop : r.loop = .acquiring job record)
      (hp : Proceeds r job (· = .queued) (.appendRunning job) .running r') :
      Performs fingerprint r (.loop .acquireReturns) r'
  | acquireRaises {job : JobId} {record : JobRecord} (exc : Raised) {r' : Jobs.State}
      (hloop : r.loop = .acquiring job record)
      (hp : Proceeds r job (·.isTerminal = false) (.appendFailed job (errorOf exc).message) .failed
        r') : Performs fingerprint r (.loop (.acquireRaises exc)) r'
  | workRaises {job : JobId} {exc : Raised} {r' : Jobs.State} (hloop : r.loop = .working job)
      (hthread : r.threads job = .finished (.raised exc))
      (hp : Proceeds r job (·.isTerminal = false) (.appendFailed job (errorOf exc).message) .failed
        r') : Performs fingerprint r (.loop .workEnds) r'
  | workReturns {job : JobId} {artifactPath : Text} {resultMeta : List (Text × Json)}
      {r' : Jobs.State} (hloop : r.loop = .working job)
      (hthread : r.threads job = .finished (.returned artifactPath resultMeta))
      (hp : Proceeds r job (· = .running) (.appendSucceeded job resultMeta) .succeeded r') :
      Performs fingerprint r (.loop .workEnds) r'
  | failureEvicted {job : JobId} (hloop : r.loop = .failEvicting job) :
      Performs fingerprint r (.loop .failureEvicted) { r with
        cancelled := r.cancelled.filter (· ≠ job), current := none, loop := .idle }
  | cancelRefused (task : Jobs.TaskId) (job : JobId) (hcancel : r.cancels task = .absent)
      (hstatus : ∀ before, r.store.status job = some before → before.isTerminal = true) :
      Performs fingerprint r (.loop (.cancelCall task job))
        { r with cancels := Function.update r.cancels task (.finished false) }
  | cancelEvicts (task : Jobs.TaskId) {job : JobId} (hcancel : r.cancels task = .absent)
      (hstatus : r.store.status job = some .running) (hcurrent : r.current = some job) :
      Performs fingerprint r (.loop (.cancelCall task job))
        { r with
          cancelled := job :: r.cancelled
          cancels := Function.update r.cancels task (.evicting job) }
  | cancelMarks (task : Jobs.TaskId) {job : JobId} {before : JobStatus}
      (hcancel : r.cancels task = .absent)
      (hstatus : r.store.status job = some before) (hactive : before.isTerminal = false)
      (hother : ¬(before = .running ∧ r.current = some job)) :
      Performs fingerprint r (.loop (.cancelCall task job))
        { r with cancelled := job :: r.cancelled, busy := some (.cancelUpdate task job) }
  | cancelEvicted {task : Jobs.TaskId} {job : JobId} {r' : Jobs.State}
      (hcancel : r.cancels task = .evicting job) (hc : Cancels r task job r') :
      Performs fingerprint r (.loop (.cancelEvicted task true)) r'
  | cancelRaises {task : Jobs.TaskId} {job : JobId} (hcancel : r.cancels task = .evicting job) :
      Performs fingerprint r (.loop (.cancelEvicted task false))
        { r with cancels := Function.update r.cancels task (.finished false) }
  | appendRunning {job : JobId} {history : JobId → List JobEvent}
      (hbusy : r.busy = some (.appendRunning job)) :
      Performs fingerprint r .nextSection { r with
        store := r.store.appendEvent job JobStatus.running.value []
        history := history
        busy := none
        loop := .working job
        threads := Function.update r.threads job .working }
  | appendFailed {job : JobId} {message : Text} {history : JobId → List JobEvent}
      (hbusy : r.busy = some (.appendFailed job message)) :
      Performs fingerprint r .nextSection { r with
        store := r.store.appendEvent job JobStatus.failed.value [(ascii "message", .string message)]
        history := history
        busy := none
        loop := .failEvicting job }
  | appendSucceeded {job : JobId} {resultMeta : List (Text × Json)}
      {history : JobId → List JobEvent} (hbusy : r.busy = some (.appendSucceeded job resultMeta)) :
      Performs fingerprint r .nextSection { r with
        store := r.store.appendEvent job JobStatus.succeeded.value resultMeta
        history := history
        busy := none
        cancelled := r.cancelled.filter (· ≠ job)
        current := none
        loop := .idle }
  | cancelUpdate {task : Jobs.TaskId} {job : JobId} {r' : Jobs.State}
      (hbusy : r.busy = some (.cancelUpdate task job)) (hc : Cancels r task job r') :
      Performs fingerprint r .nextSection r'
  | appendCancelled {task : Jobs.TaskId} {job : JobId} {history : JobId → List JobEvent}
      (hbusy : r.busy = some (.appendCancelled task job)) :
      Performs fingerprint r .nextSection { r with
        store := r.store.appendEvent job JobStatus.cancelled.value []
        history := history
        busy := none
        cancels := Function.update r.cancels task (.finished true) }
  | thread {job : JobId} {action : ThreadAction} {store : JobStore} {threads : JobId → ThreadPc}
      {history : JobId → List JobEvent} (hstatus : store.status = r.store.status)
      (hflight : (r.threads job).isResting = false)
      (hthreads : ∀ other, other ≠ job → threads other = r.threads other) :
      Performs fingerprint r (.thread job action)
        { r with store := store, threads := threads, history := history }

section Steps

-- A call of `cancel` is over: the others evict on.
theorem evicting_of_finished {cancels : Jobs.TaskId → CancelPc} {task other : Jobs.TaskId}
    {returned : Bool} {job : JobId}
    (h : Function.update cancels task (.finished returned) other = .evicting job) :
    cancels other = .evicting job := by
  rw [Function.update_apply] at h
  split at h
  · cases h
  · exact h

variable {fingerprint : Text → Python.Dict → Text} {r r' : Jobs.State} {a : Jobs.Action}

theorem status_put_self {store : JobStore} {job : JobId} {record updated : JobRecord}
    (hget : store.jobs job = some record) (hstatus : updated.status = record.status) :
    (store.put job updated).status = store.status := by
  funext other
  rw [JobStore.status_put]
  split
  · rename_i hj
    rw [hj, hstatus, JobStore.status, hget, Option.map_some]
  · rfl

theorem proceeds_update {job : JobId} (hcancelled : job ∉ r.cancelled)
    {fn : JobRecord → Except JobTransitionError JobRecord} {allowed : JobStatus → Prop}
    {status : JobStatus} (part : Section)
    (hok : ∀ record updated, fn record = .ok updated →
      allowed record.status ∧ updated.status = status)
    (herror : ∀ record error, fn record = .error error → ¬allowed record.status) :
    Proceeds r job allowed part status
      (r.update job fn (fun s => { s with busy := some part }) fun s => s.finish job) := by
  unfold State.update JobStore.update
  cases hget : r.store.jobs job with
  | none => exact .refused hcancelled (by simp [JobStore.status, hget]) rfl
  | some record =>
      cases hfn : fn record with
      | error error =>
          refine .refused hcancelled ?_ (by simp only [hfn]; rfl)
          intro before hbefore
          simp only [JobStore.status, hget, Option.map_some, Option.some.injEq] at hbefore
          exact hbefore ▸ herror record error hfn
      | ok updated =>
          obtain ⟨hallowed, hstatus⟩ := hok record updated hfn
          exact .updates hcancelled (by simp [JobStore.status, hget]) hallowed hstatus
            (by simp only [hfn])

theorem proceeds_acquired (r : Jobs.State) (job : JobId) :
    Proceeds r job (· = .queued) (.appendRunning job) .running (acquired r job) := by
  unfold acquired
  split
  · rename_i hcancelled
    exact .drops hcancelled rfl
  · rename_i hcancelled
    refine proceeds_update hcancelled _ (fun record updated hfn => ?_) fun record error hfn => ?_
    · obtain ⟨hqueued, rfl⟩ := start_eq_ok hfn
      exact ⟨hqueued, rfl⟩
    · intro hqueued
      simp [start, hqueued] at hfn

theorem proceeds_failJob (r : Jobs.State) (job : JobId) (exc : Raised) :
    Proceeds r job (·.isTerminal = false) (.appendFailed job (errorOf exc).message) .failed
      (failJob r job exc) := by
  unfold failJob
  split
  · rename_i hcancelled
    exact .drops hcancelled rfl
  · rename_i hcancelled
    refine proceeds_update hcancelled _ (fun record updated hfn => ?_) fun record error hfn => ?_
    · obtain ⟨hactive, rfl⟩ := fail_eq_ok hfn
      exact ⟨hactive, rfl⟩
    · intro hactive
      simp [fail, hactive] at hfn

theorem proceeds_worked (r : Jobs.State) (job : JobId) (artifactPath : Text)
    (resultMeta : List (Text × Json)) :
    Proceeds r job (· = .running) (.appendSucceeded job resultMeta) .succeeded
      (worked r job (.returned artifactPath resultMeta)) := by
  unfold worked
  dsimp only
  split
  · rename_i hcancelled
    exact .drops hcancelled rfl
  · rename_i hcancelled
    refine proceeds_update hcancelled _ (fun record updated hfn => ?_) fun record error hfn => ?_
    · obtain ⟨hrunning, rfl⟩ := succeed_eq_ok hfn
      exact ⟨hrunning, rfl⟩
    · intro hrunning
      simp [succeed, hrunning] at hfn

theorem cancels_cancelUpdate (r : Jobs.State) (task : Jobs.TaskId) (job : JobId) :
    Cancels r task job (cancelUpdate r task job) := by
  unfold cancelUpdate State.update JobStore.update
  cases hget : r.store.jobs job with
  | none => exact .refused (by simp [JobStore.status, hget]) rfl
  | some record =>
      have hstatus : r.store.status job = some record.status := by simp [JobStore.status, hget]
      cases hfn : cancel record with
      | error error =>
          refine .refused (fun before hbefore => ?_) (by simp only [hfn]; rfl)
          rw [hstatus] at hbefore
          cases hbefore
          by_contra hactive
          simp [cancel, hactive] at hfn
      | ok updated =>
          obtain ⟨hactive, hupdated⟩ := cancel_eq_ok hfn
          have hcancelled : updated.status = .cancelled := by rw [hupdated]
          exact .updates hstatus hactive hcancelled (by simp only [hfn])

theorem performs_dequeue {job : JobId} {queue : List JobId} (hloop : r.loop = .idle)
    (hqueue : r.queue = job :: queue) :
    Performs fingerprint r (.loop .dequeue) (dequeue r job queue) := by
  unfold dequeue
  dsimp only
  split
  · rename_i hcancelled
    exact .passesCancelled hloop hqueue hcancelled
  · rename_i hcancelled
    cases hget : r.store.jobs job with
    | none =>
        simp only [JobStore.tryGet, hget]
        exact .passes hloop hqueue (by simp [JobStore.status, hget])
    | some record =>
        simp only [JobStore.tryGet, hget]
        split
        · rename_i hstatus
          exact .passes hloop hqueue (by simpa [JobStore.status, hget] using hstatus)
        · rename_i hstatus
          exact .takes hloop hqueue hcancelled hget (not_not.mp hstatus)

theorem performs_cancelCall {task : Jobs.TaskId} (hcancel : r.cancels task = .absent) (job : JobId) :
    Performs fingerprint r (.loop (.cancelCall task job)) (cancelCall r task job) := by
  unfold cancelCall
  cases hget : r.store.jobs job with
  | none =>
      simp only [JobStore.tryGet, hget]
      exact .cancelRefused task job hcancel (by simp [JobStore.status, hget])
  | some record =>
      have hstatus : r.store.status job = some record.status := by simp [JobStore.status, hget]
      simp only [JobStore.tryGet, hget]
      split
      · rename_i hterminal
        refine .cancelRefused task job hcancel fun before hbefore => ?_
        rw [hstatus] at hbefore
        cases hbefore
        exact hterminal
      · rename_i hactive
        split
        · rename_i hrunning
          exact .cancelEvicts task hcancel (by rw [hstatus, hrunning.1]) hrunning.2
        · rename_i hother
          exact .cancelMarks task hcancel hstatus (by simpa using hactive) hother

theorem loopStep_performs {action : LoopAction} (hstop : action ≠ .stopLoop)
    (hs : loopStep fingerprint r action = some r') : Performs fingerprint r (.loop action) r' := by
  cases action with
  | stopLoop => exact absurd rfl hstop
  | startLoop =>
      simp only [loopStep] at hs
      split at hs <;> cases hs
      rename_i hloop
      exact .startLoop hloop
  | submit submission =>
      simp only [loopStep] at hs
      split at hs <;> cases hs
      rename_i hfresh
      rcases @submit_cases fingerprint r submission with heq | heq
      · rw [heq]
        exact .replay submission
      · rw [heq]
        exact .create submission (Option.isNone_iff_eq_none.mp hfresh)
  | dequeue =>
      simp only [loopStep] at hs
      split at hs <;> cases hs
      rename_i hloop hqueue
      exact performs_dequeue hloop hqueue
  | leaseGranted =>
      simp only [loopStep] at hs
      split at hs <;> cases hs
      rename_i hloop
      exact .leaseGranted hloop
  | acquireReturns =>
      simp only [loopStep] at hs
      split at hs <;> cases hs
      rename_i hloop
      exact .acquireReturns hloop (proceeds_acquired r _)
  | acquireRaises exc =>
      simp only [loopStep] at hs
      split at hs <;> cases hs
      rename_i hloop
      exact .acquireRaises exc hloop (proceeds_failJob r _ exc)
  | workEnds =>
      simp only [loopStep] at hs
      split at hs
      · rename_i job hloop
        split at hs <;> cases hs
        rename_i outcome hthread
        cases outcome with
        | returned artifactPath resultMeta =>
            exact .workReturns hloop hthread (proceeds_worked r job artifactPath resultMeta)
        | raised exc => exact .workRaises hloop hthread (proceeds_failJob r job exc)
      · cases hs
  | failureEvicted =>
      simp only [loopStep] at hs
      split at hs <;> cases hs
      rename_i hloop
      exact .failureEvicted hloop
  | cancelCall task job =>
      simp only [loopStep] at hs
      split at hs <;> cases hs
      rename_i hcancel
      exact performs_cancelCall hcancel job
  | cancelEvicted task returned =>
      simp only [loopStep] at hs
      split at hs <;> cases hs
      rename_i job hcancel
      cases returned with
      | true => exact .cancelEvicted hcancel (cancels_cancelUpdate r task job)
      | false => exact .cancelRaises hcancel

theorem threadStep_performs {job : JobId} {action : ThreadAction}
    (hs : threadStep r job action = some r') :
    Performs fingerprint r (.thread job action) r' := by
  have hset : ∀ pc other, other ≠ job → Function.update r.threads job pc other = r.threads other :=
    fun pc other hother => Function.update_of_ne hother _ _
  cases hthread : r.threads job <;> cases action <;> simp [threadStep, hthread] at hs
  all_goals
    subst hs
    have hflight : (r.threads job).isResting = false := by rw [hthread]; rfl
  · unfold report JobStore.update
    cases hget : r.store.jobs job with
    | none => exact .thread rfl hflight fun _ _ => rfl
    | some record =>
        by_cases hrunning : record.status = .running
        · simp only [hrunning, if_true, progress, ne_eq, not_true_eq_false, if_false]
          exact .thread (status_put_self hget hrunning.symm) hflight (hset _)
        · simp only [hrunning, if_false]
          exact .thread (status_put_self hget rfl) hflight fun _ _ => rfl
  · exact .thread rfl hflight (hset _)
  · exact .thread rfl hflight (hset _)

-- A step on the event loop's thread waits for the section in progress.
theorem step_loop {action : LoopAction} (hs : Jobs.step fingerprint r (.loop action) = some r') :
    r.busy = none ∧ loopStep fingerprint r action = some r' := by
  rw [Jobs.step] at hs
  cases hbusy : r.busy with
  | none => exact ⟨rfl, by simpa [hbusy] using hs⟩
  | some part => simp [hbusy] at hs

theorem step_performs (hstop : a ≠ .loop .stopLoop)
    (hs : Jobs.step fingerprint r a = some r') : Performs fingerprint r a r' := by
  cases a with
  | loop action =>
      exact loopStep_performs (fun heq => hstop (by rw [heq])) (step_loop hs).2
  | nextSection =>
      rw [Jobs.step] at hs
      obtain ⟨part, hbusy, rfl⟩ := Option.map_eq_some_iff.mp hs
      cases part with
      | appendRunning job => exact .appendRunning hbusy
      | appendFailed job message => exact .appendFailed hbusy
      | appendSucceeded job resultMeta => exact .appendSucceeded hbusy
      | cancelUpdate task job => exact .cancelUpdate hbusy (cancels_cancelUpdate r task job)
      | appendCancelled task job => exact .appendCancelled hbusy
  | thread job action => exact threadStep_performs hs

theorem Proceeds.control {job : JobId} {allowed : JobStatus → Prop} {part : Section}
    {status : JobStatus} (hp : Proceeds r job allowed part status r') :
    r'.loop = .idle ∧ r'.busy = r.busy ∨ r'.loop = r.loop ∧ r'.busy = some part := by
  cases hp with
  | drops _ heq => exact .inl (by rw [heq]; exact ⟨rfl, rfl⟩)
  | refused _ _ heq => exact .inl (by rw [heq]; exact ⟨rfl, rfl⟩)
  | updates _ _ _ _ heq => exact .inr (by rw [heq]; exact ⟨rfl, rfl⟩)

theorem Proceeds.threads {job : JobId} {allowed : JobStatus → Prop} {part : Section}
    {status : JobStatus} (hp : Proceeds r job allowed part status r') : r'.threads = r.threads := by
  cases hp with
  | drops _ heq => rw [heq]
  | refused _ _ heq => rw [heq]
  | updates _ _ _ _ heq => rw [heq]

theorem Cancels.control {task : Jobs.TaskId} {job : JobId} (hc : Cancels r task job r') :
    r'.threads = r.threads ∧ r'.loop = r.loop ∧ r'.queue = r.queue ∧
      ∀ part, r'.busy = some part → loopJob part = none := by
  cases hc with
  | refused _ heq =>
      rw [heq]
      exact ⟨rfl, rfl, rfl, nofun⟩
  | updates _ _ _ heq =>
      rw [heq]
      refine ⟨rfl, rfl, rfl, fun part hpart => ?_⟩
      cases hpart
      rfl

-- A record stays, and its status changes away from `queued` and never from a
-- terminal one.
def Stays (r r' : Jobs.State) : Prop :=
  ∀ job status, r.store.status job = some status → ∃ after, r'.store.status job = some after ∧
    (after = status ∨ (status.isTerminal = false ∧ after ≠ .queued))

theorem Stays.terminal (h : Stays r r') {job : JobId}
    (hover : ∃ status, r.store.status job = some status ∧ status.isTerminal = true) :
    ∃ status, r'.store.status job = some status ∧ status.isTerminal = true := by
  obtain ⟨status, hstatus, hterminal⟩ := hover
  obtain ⟨after, hafter, rfl | ⟨hactive, -⟩⟩ := h job status hstatus
  · exact ⟨after, hafter, hterminal⟩
  · rw [hterminal] at hactive
    cases hactive

theorem Stays.started (h : Stays r r') {job : JobId}
    (hstarted : ∃ status, r.store.status job = some status ∧ status ≠ .queued) :
    ∃ status, r'.store.status job = some status ∧ status ≠ .queued := by
  obtain ⟨status, hstatus, hne⟩ := hstarted
  obtain ⟨after, hafter, rfl | ⟨-, hqueued⟩⟩ := h job status hstatus
  · exact ⟨after, hafter, hne⟩
  · exact ⟨after, hafter, hqueued⟩

theorem stays_refl (hsame : r'.store.status = r.store.status) : Stays r r' :=
  fun job status hstatus => ⟨status, by rw [hsame, hstatus], .inl rfl⟩

theorem stays_put {job : JobId} {before : JobStatus} {updated : JobRecord}
    (hbefore : r.store.status job = some before) (hactive : before.isTerminal = false)
    (hupdated : updated.status ≠ .queued) (hstore : r'.store = r.store.put job updated) :
    Stays r r' := by
  intro other status hstatus
  rw [hstore, JobStore.status_put]
  by_cases hother : other = job
  · subst hother
    rw [hstatus] at hbefore
    cases hbefore
    exact ⟨updated.status, if_pos rfl, .inr ⟨hactive, hupdated⟩⟩
  · exact ⟨status, by rw [if_neg hother, hstatus], .inl rfl⟩

theorem Proceeds.stays {job : JobId} {allowed : JobStatus → Prop} {part : Section}
    {status : JobStatus} (hallowed : ∀ before, allowed before → before.isTerminal = false)
    (hqueued : status ≠ .queued) (hp : Proceeds r job allowed part status r') : Stays r r' := by
  cases hp with
  | drops _ heq => exact stays_refl (by rw [heq])
  | refused _ _ heq => exact stays_refl (by rw [heq])
  | updates _ hbefore hal hupdated heq =>
      exact stays_put hbefore (hallowed _ hal) (hupdated ▸ hqueued) (by rw [heq])

theorem Cancels.stays {task : Jobs.TaskId} {job : JobId} (hc : Cancels r task job r') :
    Stays r r' := by
  cases hc with
  | refused _ heq => exact stays_refl (by rw [heq])
  | updates hbefore hactive hupdated heq =>
      refine stays_put hbefore hactive (fun hqueued => ?_) (by rw [heq])
      rw [hupdated] at hqueued
      cases hqueued

theorem Performs.stays (hs : Performs fingerprint r a r') : Stays r r' := by
  cases hs with
  | create submission hfresh =>
      intro job status hstatus
      have hne : job ≠ submission.id := by
        rintro rfl
        simp [JobStore.status, hfresh] at hstatus
      exact ⟨status, by rw [JobStore.status_create, if_neg hne, hstatus], .inl rfl⟩
  | acquireReturns _ hp => exact hp.stays (by rintro _ rfl; rfl) (by simp)
  | acquireRaises _ _ hp => exact hp.stays (fun _ hactive => hactive) (by simp)
  | workRaises _ _ hp => exact hp.stays (fun _ hactive => hactive) (by simp)
  | workReturns _ _ hp => exact hp.stays (by rintro _ rfl; rfl) (by simp)
  | cancelEvicted _ hc => exact hc.stays
  | cancelUpdate _ hc => exact hc.stays
  | thread hsame _ _ => exact stays_refl hsame
  | _ => exact stays_refl rfl

end Steps

section System

open Orchestrator

-- The operation that is called for a purpose.
def Purpose.operation : Purpose → Operation
  | .acquire target => .acquire target
  | .evictAll _ => .evictAll false

variable (label : Python.Value → String) (idleTimeout : ℚ) (s : State) (runner : Jobs.State)
  (task : Orchestrator.TaskId) (made : Bool)

-- What a step of the runner, to `runner`, is for the rest of the system.
inductive Effects : Jobs.Action → State → Prop
  | startLoop : Effects (.loop .startLoop) { s with runner := runner }
  | submit (submission : Submission) : Effects (.loop (.submit submission)) { s with runner := runner }
  | waits {job : JobId} {record : JobRecord} (hloop : runner.loop = .leaseWait job record) :
      Effects (.loop .dequeue) { s with runner := runner, lease := s.lease.acquire .loop }
  | passes (hloop : ∀ job record, runner.loop ≠ .leaseWait job record) :
      Effects (.loop .dequeue) { s with runner := runner }
  | leaseGranted {job : JobId} {record : JobRecord} {lease : FifoLock Holder}
      {orch : Orchestrator.State} (hloop : runner.loop = .acquiring job record)
      (hgrant : grant s.lease .loop = some lease)
      (hcall : Orchestrator.step idleTimeout s.orch
        (.call task (.acquire (residencyOf label record)) made) = some orch) :
      Effects (.loop .leaseGranted) { s with
        runner := runner
        lease := lease
        loopAcquire := task
        orch := orch
        issued := Function.update s.issued task (some (.acquire (residencyOf label record))) }
  | acquireReturns (hfinished : s.orch.tasks s.loopAcquire = .finished .returned) :
      Effects (.loop .acquireReturns) (settle idleTimeout { s with runner := runner })
  | acquireRaises (exc : Raised) (hfinished : s.orch.tasks s.loopAcquire = .finished .raised) :
      Effects (.loop (.acquireRaises exc)) (settle idleTimeout { s with runner := runner })
  | workEnds : Effects (.loop .workEnds) (settle idleTimeout { s with runner := runner })
  | failureEvicted {result : Result} (hfinished : s.orch.tasks s.loopEvict = .finished result) :
      Effects (.loop .failureEvicted) (settle idleTimeout { s with runner := runner })
  | cancelEvicts {canceller : Jobs.TaskId} (job : JobId) {other : JobId} {orch : Orchestrator.State}
      (hcancel : runner.cancels canceller = .evicting other)
      (hcall : Orchestrator.step idleTimeout s.orch (.call task (.evictAll false) made) = some orch) :
      Effects (.loop (.cancelCall canceller job)) { s with
        runner := runner
        cancelEvict := Function.update s.cancelEvict canceller task
        orch := orch
        issued := Function.update s.issued task (some (.evictAll job)) }
  | cancelCall (canceller : Jobs.TaskId) (job : JobId)
      (hcancel : ∀ other, runner.cancels canceller ≠ .evicting other) :
      Effects (.loop (.cancelCall canceller job)) { s with runner := runner }
  | cancelEvicted (canceller : Jobs.TaskId) {result : Result}
      (hfinished : s.orch.tasks (s.cancelEvict canceller) = .finished result) :
      Effects (.loop (.cancelEvicted canceller (decide (result = .returned))))
        { s with runner := runner }
  | appendFailed {job : JobId} {message : Text} {orch : Orchestrator.State}
      (hbusy : s.runner.busy = some (.appendFailed job message))
      (hcall : Orchestrator.step idleTimeout s.orch (.call task (.evictAll false) made) = some orch) :
      Effects .nextSection { s with
        runner := runner
        loopEvict := task
        orch := orch
        issued := Function.update s.issued task (some (.evictAll job)) }
  | appendSucceeded {job : JobId} {resultMeta : List (Text × Json)}
      (hbusy : s.runner.busy = some (.appendSucceeded job resultMeta)) :
      Effects .nextSection (settle idleTimeout { s with runner := runner })
  | nextSection (hfailed : ∀ job message, s.runner.busy ≠ some (.appendFailed job message))
      (hsucceeded : ∀ job resultMeta, s.runner.busy ≠ some (.appendSucceeded job resultMeta)) :
      Effects .nextSection { s with runner := runner }
  | thread (job : JobId) (action : ThreadAction) :
      Effects (.thread job action) { s with runner := runner }

variable {fingerprint : Text → Python.Dict → Text} {label idleTimeout s runner task made}
  {s₀ : State}

theorem runnerStep_effects {action : Jobs.Action} {s' : State}
    (hs : runnerStep fingerprint label idleTimeout s action task made = some s') :
    action ≠ .loop .stopLoop ∧ Jobs.step fingerprint s.runner action = some s'.runner ∧
      Effects label idleTimeout s s'.runner task made action s' := by
  obtain ⟨runner, hrunner, hs⟩ := Option.bind_eq_some_iff.mp hs
  suffices h : action ≠ .loop .stopLoop ∧ s'.runner = runner ∧
      Effects label idleTimeout s runner task made action s' by
    rw [h.2.1]
    exact ⟨h.1, hrunner, h.2.2⟩
  have hsettle : (settle idleTimeout { s with runner := runner }).runner = runner := by
    unfold settle
    split <;> rfl
  cases action with
  | thread job action =>
      cases hs
      exact ⟨nofun, rfl, .thread job action⟩
  | nextSection =>
      dsimp only at hs
      split at hs
      · rename_i hbusy
        obtain ⟨orch, hcall, rfl⟩ := Option.map_eq_some_iff.mp hs
        exact ⟨nofun, rfl, .appendFailed hbusy hcall⟩
      · rename_i hbusy
        cases hs
        exact ⟨nofun, hsettle, .appendSucceeded hbusy⟩
      · rename_i hfailed hsucceeded
        cases hs
        exact ⟨nofun, rfl, .nextSection hfailed hsucceeded⟩
  | loop action =>
      cases action with
      | stopLoop => cases hs
      | startLoop =>
          cases hs
          exact ⟨nofun, rfl, .startLoop⟩
      | submit submission =>
          cases hs
          exact ⟨nofun, rfl, .submit submission⟩
      | dequeue =>
          dsimp only at hs
          split at hs <;> cases hs
          · rename_i hloop
            exact ⟨nofun, rfl, .waits hloop⟩
          · rename_i hloop
            exact ⟨nofun, rfl, .passes hloop⟩
      | leaseGranted =>
          dsimp only at hs
          split at hs
          · rename_i hloop
            obtain ⟨lease, hgrant, hs⟩ := Option.bind_eq_some_iff.mp hs
            obtain ⟨orch, hcall, rfl⟩ := Option.map_eq_some_iff.mp hs
            exact ⟨nofun, rfl, .leaseGranted hloop hgrant hcall⟩
          · cases hs
      | acquireReturns =>
          dsimp only at hs
          split at hs <;> cases hs
          rename_i hfinished
          exact ⟨nofun, hsettle, .acquireReturns hfinished⟩
      | acquireRaises exc =>
          dsimp only at hs
          split at hs <;> cases hs
          rename_i hfinished
          exact ⟨nofun, hsettle, .acquireRaises exc hfinished⟩
      | workEnds =>
          cases hs
          exact ⟨nofun, hsettle, .workEnds⟩
      | failureEvicted =>
          dsimp only at hs
          split at hs <;> cases hs
          rename_i hfinished
          exact ⟨nofun, hsettle, .failureEvicted hfinished⟩
      | cancelCall canceller job =>
          dsimp only at hs
          split at hs
          · rename_i hcancel
            obtain ⟨orch, hcall, rfl⟩ := Option.map_eq_some_iff.mp hs
            exact ⟨nofun, rfl, .cancelEvicts job hcancel hcall⟩
          · rename_i hcancel
            cases hs
            exact ⟨nofun, rfl, .cancelCall canceller job hcancel⟩
      | cancelEvicted canceller returned =>
          dsimp only at hs
          split at hs
          · rename_i hfinished
            split at hs <;> cases hs
            rename_i hreturned
            rw [hreturned]
            exact ⟨nofun, rfl, .cancelEvicted canceller hfinished⟩
          · cases hs

theorem step_runner {action : Jobs.Action} {s' : State}
    (hs : step fingerprint label idleTimeout s (.runner action task made) = some s') :
    Performs fingerprint s.runner action s'.runner ∧
      (∀ loopAction, action = .loop loopAction → s.runner.busy = none) ∧
      Effects label idleTimeout s s'.runner task made action s' := by
  obtain ⟨hstop, hrun, heffects⟩ := runnerStep_effects hs
  refine ⟨step_performs hstop hrun, ?_, heffects⟩
  rintro loopAction rfl
  exact (step_loop hrun).1

theorem settle_frame (idleTimeout : ℚ) (s : State) :
    (settle idleTimeout s).runner = s.runner ∧ (settle idleTimeout s).loopAcquire = s.loopAcquire ∧
      (settle idleTimeout s).issued = s.issued ∧ (settle idleTimeout s).cancelEvict = s.cancelEvict := by
  unfold settle
  split <;> exact ⟨rfl, rfl, rfl, rfl⟩

-- The loop calls acquire when the lease is granted to it, and at no other time.
theorem Effects.loopAcquire {action : Jobs.Action} {s' : State}
    (he : Effects label idleTimeout s runner task made action s') (hne : action ≠ .loop .leaseGranted) :
    s'.loopAcquire = s.loopAcquire := by
  have hsettle := (settle_frame idleTimeout { s with runner := runner }).2.1
  cases he with
  | leaseGranted => exact absurd rfl hne
  | acquireReturns | acquireRaises | workEnds | failureEvicted | appendSucceeded => exact hsettle
  | _ => rfl

theorem Effects.granted {s' : State}
    (he : Effects label idleTimeout s runner task made (.loop .leaseGranted) s') :
    s'.loopAcquire = task := by
  cases he
  rfl

theorem Effects.acquired {s' : State}
    (he : Effects label idleTimeout s runner task made (.loop .acquireReturns) s') :
    s.orch.tasks s.loopAcquire = .finished .returned := by
  cases he with
  | acquireReturns hfinished => exact hfinished

-- What a step of the system is for the orchestrator: nothing, a call, the end of a
-- holder, or a step of its own.
inductive Calls (idleTimeout : ℚ) (s : State) (a : Action) (s' : State) : Prop
  | silent (horch : s'.orch = s.orch) (hissued : s'.issued = s.issued)
  | calls {task : Orchestrator.TaskId} {made : Bool} (purpose : Purpose)
      (hcall : Orchestrator.step idleTimeout s.orch (.call task purpose.operation made) = some s'.orch)
      (hissued : s'.issued = Function.update s.issued task (some purpose))
      (hstage : ∀ target, purpose = .acquire target → ∃ job, s'.stage = some (task, job))
  | notifies (horch : s'.orch = notifyIdle idleTimeout s.orch) (hissued : s'.issued = s.issued)
  | itself {action : Orchestrator.Action} (ha : a = .orch action) (hself : ofItself action = true)
      (hstep : Orchestrator.step idleTimeout s.orch action = some s'.orch)
      (hissued : s'.issued = s.issued) (hstage : s'.stage = s.stage)

theorem settle_calls (a : Action) (hs : s.orch = s₀.orch) (hissued : s.issued = s₀.issued) :
    Calls idleTimeout s₀ a (settle idleTimeout s) := by
  unfold settle
  split
  · exact .notifies (congrArg (notifyIdle idleTimeout) hs) hissued
  · exact .silent hs hissued

theorem Effects.calls {action : Jobs.Action} {s' : State}
    (he : Effects label idleTimeout s runner task made action s') :
    Calls idleTimeout s (.runner action task made) s' := by
  cases he with
  | @leaseGranted job _ _ _ hloop hgrant hcall =>
      refine .calls (.acquire _) hcall rfl fun _ _ => ⟨some job, ?_⟩
      rw [stage_of_owner (grant_eq_some hgrant).1]
      exact callOf_loop (by rw [hloop]; rfl)
  | cancelEvicts job _ hcall => exact .calls (.evictAll job) hcall rfl nofun
  | @appendFailed job _ _ _ hcall => exact .calls (.evictAll job) hcall rfl nofun
  | acquireReturns => exact settle_calls _ rfl rfl
  | acquireRaises => exact settle_calls _ rfl rfl
  | workEnds => exact settle_calls _ rfl rfl
  | failureEvicted => exact settle_calls _ rfl rfl
  | appendSucceeded => exact settle_calls _ rfl rfl
  | _ => exact .silent rfl rfl

theorem step_calls {a : Action} {s' : State} (hs : step fingerprint label idleTimeout s a = some s') :
    Calls idleTimeout s a s' := by
  cases a with
  | runner action task made => exact (runnerStep_effects hs).2.2.calls
  | orch action =>
      simp only [step] at hs
      split at hs
      · rename_i hself
        obtain ⟨orch, horch, rfl⟩ := Option.map_eq_some_iff.mp hs
        exact .itself rfl hself horch rfl rfl
      · cases hs
  | openStream id =>
      simp only [step] at hs
      split at hs <;> cases hs
      exact .silent rfl rfl
  | streamGranted id task made =>
      simp only [step] at hs
      split at hs
      · obtain ⟨lease, hgrant, hs⟩ := Option.bind_eq_some_iff.mp hs
        obtain ⟨orch, hcall, rfl⟩ := Option.map_eq_some_iff.mp hs
        refine .calls (.acquire reasoner) hcall rfl fun _ _ => ⟨none, ?_⟩
        rw [stage_of_owner (grant_eq_some hgrant).1]
        exact callOf_setStream s id (.acquiring task)
      · cases hs
  | streamAcquired id =>
      simp only [step] at hs
      split at hs
      · split at hs <;> cases hs
        exact .silent rfl rfl
      · cases hs
  | streamRefused id =>
      simp only [step] at hs
      split at hs
      · split at hs <;> cases hs
        exact .silent rfl rfl
      · cases hs
  | closeStream id =>
      simp only [step] at hs
      split at hs
      · cases hs
        exact .notifies rfl rfl
      · cases hs
        exact .silent rfl rfl
      · split at hs <;> cases hs
        exact .silent rfl rfl
      · cases hs

theorem step_orch {a : Action} {s' : State} (hs : step fingerprint label idleTimeout s a = some s') :
    s'.orch = s.orch ∨ ∃ action, Orchestrator.step idleTimeout s.orch action = some s'.orch := by
  cases step_calls hs with
  | silent horch => exact .inl horch
  | calls purpose hcall => exact .inr ⟨_, hcall⟩
  | notifies horch => exact .inr ⟨.notifyIdle, by rw [horch]; rfl⟩
  | itself _ _ hstep => exact .inr ⟨_, hstep⟩

-- A step of the system is one of the abstract machine, and only a thread's end
-- ends a function handed to it.
theorem Calls.core {a : Action} {s' : State} (h : Consistent s.orch) (hc : Calls idleTimeout s a s') :
    ∃ lab, CoreStep s.orch.core lab s'.orch.core ∧ ∀ outcome, lab = .leaves outcome →
      ∃ task, a = .orch (.threadLeaves task outcome) ∧
        Orchestrator.step idleTimeout s.orch (.threadLeaves task outcome) = some s'.orch := by
  cases hc with
  | silent horch => exact ⟨.internal, horch ▸ .stutter _, nofun⟩
  | calls purpose hcall => exact ⟨_, (step_refines h hcall).core, nofun⟩
  | notifies horch =>
      refine ⟨_, (horch ▸ notifyIdle_refines idleTimeout h).core, fun outcome hlabel => ?_⟩
      obtain ⟨task, htask⟩ := label_leaves hlabel
      cases htask
  | itself ha _ hstep =>
      refine ⟨_, (step_refines h hstep).core, fun outcome hlabel => ?_⟩
      obtain ⟨task, rfl⟩ := label_leaves hlabel
      exact ⟨task, ha, hstep⟩

theorem threadLeaves_running {o o' : Orchestrator.State} {task : Orchestrator.TaskId}
    {outcome : Outcome} (h : Locking o)
    (hs : Orchestrator.step idleTimeout o (.threadLeaves task outcome) = some o') {site : Site}
    (hphase : o.phase = some (site, .running)) : o.tasks task = .awaiting site .running := by
  simp only [Orchestrator.step] at hs
  split at hs
  · rename_i other hpc
    have howner := phase_eq (h.lockedBy hpc).owner hpc
    rw [hphase] at howner
    cases howner
    exact hpc
  · cases hs

theorem Calls.resident {a : Action} {s' : State} (h : Consistent s.orch)
    (hc : Calls idleTimeout s a s') {worker : Worker}
    (hresident : s.orch.worker = some worker) : s'.orch.worker = some worker ∨
      ∃ site value, s.orch.phase = some (site, .done (.returned value)) ∧
        site.evicts = some worker := by
  obtain ⟨lab, hcore, -⟩ := hc.core h
  exact hcore.resident_stays h.fits hresident

theorem Calls.done {a : Action} {s' : State} (h : Consistent s.orch)
    (hc : Calls idleTimeout s a s') {site : Site} {outcome : Outcome} (hphase : s'.orch.phase = some (site, .done outcome)) :
    s.orch.phase = some (site, .done outcome) ∨
      ∃ task, a = .orch (.threadLeaves task outcome) ∧
        s.orch.tasks task = .awaiting site .running := by
  obtain ⟨lab, hcore, hleaves⟩ := hc.core h
  rcases hcore.done_cases hphase with hbefore | ⟨hrunning, hlabel⟩
  · exact .inl hbefore
  · obtain ⟨task, ha, hleft⟩ := hleaves outcome hlabel
    exact .inr ⟨task, ha, threadLeaves_running h.locking hleft hrunning⟩

-- The steps in which the runner takes no part.
theorem step_other {a : Action} {s' : State} (hs : step fingerprint label idleTimeout s a = some s')
    (hother : ∀ action task made, a ≠ .runner action task made) :
    s'.runner = s.runner ∧ s'.loopAcquire = s.loopAcquire ∧ s'.cancelEvict = s.cancelEvict := by
  cases a with
  | runner action task made => exact absurd rfl (hother action task made)
  | orch action =>
      simp only [step] at hs
      split at hs
      · obtain ⟨orch, -, rfl⟩ := Option.map_eq_some_iff.mp hs
        exact ⟨rfl, rfl, rfl⟩
      · cases hs
  | openStream id =>
      simp only [step] at hs
      split at hs <;> cases hs
      exact ⟨rfl, rfl, rfl⟩
  | streamGranted id task made =>
      simp only [step] at hs
      split at hs
      · obtain ⟨lease, -, hs⟩ := Option.bind_eq_some_iff.mp hs
        obtain ⟨orch, -, rfl⟩ := Option.map_eq_some_iff.mp hs
        exact ⟨rfl, rfl, rfl⟩
      · cases hs
  | streamAcquired id =>
      simp only [step] at hs
      split at hs
      · split at hs <;> cases hs
        exact ⟨rfl, rfl, rfl⟩
      · cases hs
  | streamRefused id =>
      simp only [step] at hs
      split at hs
      · split at hs <;> cases hs
        exact ⟨rfl, rfl, rfl⟩
      · cases hs
  | closeStream id =>
      simp only [step] at hs
      split at hs
      · cases hs
        exact ⟨rfl, rfl, rfl⟩
      · cases hs
        exact ⟨rfl, rfl, rfl⟩
      · split at hs <;> cases hs
        exact ⟨rfl, rfl, rfl⟩
      · cases hs

end System

end Cosmos3.Lease
