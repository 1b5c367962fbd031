import Cosmos3.Basis.Runs
import Cosmos3.Jobs.Runner

namespace Cosmos3.Jobs

open Basis

-- What concerns one job alone: its record, the event that the event loop's
-- thread is about to append for it, its worker thread, and its events so far.
structure Life where
  record : JobRecord
  owed : Option (Text × List (Text × Json))
  thread : ThreadPc
  history : List JobEvent

-- The event a section is about to append for the job.
def Section.owed (job : JobId) : Section → Option (Text × List (Text × Json))
  | .appendRunning job' => if job' = job then some (JobStatus.running.value, []) else none
  | .appendFailed job' message =>
      if job' = job then some (JobStatus.failed.value, [(ascii "message", .string message)])
      else none
  | .appendSucceeded job' resultMeta =>
      if job' = job then some (JobStatus.succeeded.value, resultMeta) else none
  | .cancelUpdate _ _ => none
  | .appendCancelled _ job' =>
      if job' = job then some (JobStatus.cancelled.value, []) else none

def State.owed (s : State) (job : JobId) : Option (Text × List (Text × Json)) :=
  s.busy.bind (Section.owed job)

def State.life (s : State) (job : JobId) : Option Life :=
  (s.store.jobs job).map fun record => ⟨record, s.owed job, s.threads job, s.history job⟩

def ThreadPc.isResting : ThreadPc → Bool
  | .absent | .finished _ => true
  | .working | .appending _ => false

namespace Life

def event (life : Life) (type : Text) (data : List (Text × Json)) : JobEvent :=
  ⟨life.history.length + 1, type, data⟩

end Life

-- The fraction reported for the job in a step.
def Action.reported (a : Action) (job : JobId) : Option Number :=
  match a with
  | .thread job' (.report fraction) => if job' = job then some fraction else none
  | _ => none

-- The steps of one job's life, given the fraction that its worker thread reports
-- in the step, if it does. A terminal update by the runner finds the thread
-- at rest; one by `cancel` finds it anywhere.
inductive LifeStep (reported : Option Number) (life : Life) : Life → Prop
  | starts (hq : life.record.status = .queued) (ho : life.owed = none)
      (ht : life.thread = .absent) :
      LifeStep reported life { life with
        record := { life.record with status := .running }
        owed := some (JobStatus.running.value, []) }
  | fails (hs : life.record.status.isTerminal = false) (ho : life.owed = none)
      (ht : life.thread.isResting = true) (error : ErrorModel) :
      LifeStep reported life { life with
        record := { life.record with status := .failed, error := some error }
        owed := some (JobStatus.failed.value, [(ascii "message", .string error.message)]) }
  | succeeds (hs : life.record.status = .running) (ho : life.owed = none)
      (ht : life.thread.isResting = true) (artifactPath : Text)
      (resultMeta : List (Text × Json)) :
      LifeStep reported life { life with
        record := { life.record with
          status := .succeeded
          artifactPath := some artifactPath
          progress := .finite 1
          resultMeta := some resultMeta }
        owed := some (JobStatus.succeeded.value, resultMeta) }
  | cancels (hs : life.record.status.isTerminal = false) (ho : life.owed = none) :
      LifeStep reported life { life with
        record := { life.record with status := .cancelled }
        owed := some (JobStatus.cancelled.value, []) }
  | appendsRunning (ho : life.owed = some (JobStatus.running.value, [])) :
      LifeStep reported life { life with
        owed := none
        thread := .working
        history := life.history ++ [life.event JobStatus.running.value []] }
  | appendsTerminal {type : Text} {data : List (Text × Json)} (ho : life.owed = some (type, data))
      (ht : type ≠ JobStatus.running.value) :
      LifeStep reported life { life with owed := none, history := life.history ++ [life.event type data] }
  | reports (hs : life.record.status = .running) (ht : life.thread = .working)
      {fraction : Number} (hf : reported = some fraction) :
      LifeStep reported life { life with
        record := { life.record with progress := clamp01 fraction }
        thread := .appending (clamp01 fraction) }
  | appendsProgress {progress : Number} (ht : life.thread = .appending progress) :
      LifeStep reported life { life with
        thread := .working
        history := life.history ++
          [life.event progressType [(ascii "progress", .number progress)]] }
  | ends (ht : life.thread = .working) (outcome : WorkOutcome) :
      LifeStep reported life { life with thread := .finished outcome }

-- What a step of the runner is for one job.
inductive LifeChange (reported : Option Number) : Option Life → Option Life → Prop
  | same (life : Option Life) : LifeChange reported life life
  | created (record : JobRecord) (hq : record.status = .queued) (hp : record.progress = .finite 0)
      (ha : record.artifactPath = none) (he : record.error = none) :
      LifeChange reported none (some ⟨record, none, .absent, [⟨1, JobStatus.queued.value, []⟩]⟩)
  | step {life life' : Life} (h : LifeStep reported life life') : LifeChange reported (some life) (some life')

-- What holds between the parts of the runner: the log is the end of the
-- history, and a job whose turn has not come yet has no worker thread.
structure Serial (s : State) : Prop where
  seq : ∀ job, s.store.seq job = (s.history job).length
  log : ∀ job, s.store.events job = JobStore.bounded (s.history job)
  unknown : ∀ job, s.store.jobs job = none → s.threads job = .absent
  queued : ∀ job record, s.store.jobs job = some record → record.status = .queued →
    s.threads job = .absent
  waiting : ∀ job record, s.loop = .leaseWait job record ∨ s.loop = .acquiring job record →
    s.threads job = .absent
  starting : ∀ job, s.busy = some (.appendRunning job) →
    (∃ record, s.loop = .acquiring job record) ∧
      ∃ record, s.store.jobs job = some record ∧ record.status = .running

theorem serial_initial : Serial initial := by
  constructor <;> simp [initial, JobStore.empty, JobStore.bounded]

theorem life_congr {s s' : State} {job : JobId} (hjobs : s'.store.jobs job = s.store.jobs job)
    (howed : s'.owed job = s.owed job) (hthread : s'.threads job = s.threads job)
    (hhistory : s'.history job = s.history job) : s'.life job = s.life job := by
  rw [State.life, State.life, hjobs, howed, hthread, hhistory]

theorem owed_none {s : State} (h : s.busy = none) (job : JobId) : s.owed job = none := by
  rw [State.owed, h]
  rfl

section Serial

variable {s : State}

theorem bounded_append (history : List JobEvent) (event : JobEvent) :
    JobStore.bounded (JobStore.bounded history ++ [event]) =
      JobStore.bounded (history ++ [event]) := by
  unfold JobStore.bounded
  generalize eventLogBound = bound
  by_cases h : history.length ≤ bound
  · rw [Nat.sub_eq_zero_of_le h, List.drop_zero]
  · rw [← List.drop_append_of_le_length (by omega), List.drop_drop]
    congr 1
    simp only [List.length_drop, List.length_append, List.length_singleton]
    omega

-- Changes outside the store, the threads and the history.
theorem Serial.control {s' : State} (h : Serial s) (hstore : s'.store = s.store)
    (hthreads : s'.threads = s.threads) (hhistory : s'.history = s.history)
    (hwaiting : ∀ job record, s'.loop = .leaseWait job record ∨ s'.loop = .acquiring job record →
      s.threads job = .absent)
    (hstarting : ∀ job, s'.busy ≠ some (.appendRunning job)) : Serial s' where
  seq := by rw [hstore, hhistory]; exact h.seq
  log := by rw [hstore, hhistory]; exact h.log
  unknown := by rw [hstore, hthreads]; exact h.unknown
  queued := by rw [hstore, hthreads]; exact h.queued
  waiting := by rw [hthreads]; exact hwaiting
  starting job hbusy := absurd hbusy (hstarting job)

theorem Serial.append (h : Serial s) (job : JobId) (type : Text) (data : List (Text × Json)) :
    Serial (s.append job type data) where
  seq job' := by
    by_cases hj : job' = job
    · subst hj
      simp [State.append, JobStore.appendEvent, h.seq]
    · simp [State.append, JobStore.appendEvent, hj, h.seq]
  log job' := by
    by_cases hj : job' = job
    · subst hj
      simp [State.append, JobStore.appendEvent, h.log, bounded_append]
    · simp [State.append, JobStore.appendEvent, hj, h.log]
  unknown := h.unknown
  queued := h.queued
  waiting := h.waiting
  starting := h.starting

-- A record may be replaced when it stays out of the queue.
theorem Serial.put (h : Serial s) {job : JobId} {record : JobRecord}
    (hstatus : record.status ≠ .queued)
    (hstarting : s.busy ≠ some (.appendRunning job) ∨ record.status = .running) :
    Serial { s with store := s.store.put job record } where
  seq := h.seq
  log := h.log
  unknown job' hnone := by
    by_cases hj : job' = job
    · subst hj
      simp [JobStore.put] at hnone
    · exact h.unknown job' (by simpa [JobStore.put, hj] using hnone)
  queued job' record' hsome hq := by
    by_cases hj : job' = job
    · subst hj
      obtain rfl : record = record' := by simpa [JobStore.put] using hsome
      exact absurd hq hstatus
    · exact h.queued job' record' (by simpa [JobStore.put, hj] using hsome) hq
  waiting := h.waiting
  starting job' hbusy := by
    obtain ⟨hloop, record', hget, hrunning⟩ := h.starting job' hbusy
    refine ⟨hloop, ?_⟩
    by_cases hj : job' = job
    · subst hj
      refine ⟨record, by simp [JobStore.put], ?_⟩
      exact hstarting.resolve_left (not_not.mpr hbusy)
    · exact ⟨record', by simpa [JobStore.put, hj] using hget, hrunning⟩

-- Threads that are not absent belong to jobs that have left the queue.
theorem Serial.setThread (h : Serial s) {job : JobId} (pc : ThreadPc)
    (hrecord : ∃ record, s.store.jobs job = some record ∧ record.status ≠ .queued)
    (hwaiting : ∀ record, s.loop ≠ .leaseWait job record ∧ s.loop ≠ .acquiring job record) :
    Serial (s.setThread job pc) where
  seq := h.seq
  log := h.log
  unknown job' hnone := by
    obtain ⟨record, hget, -⟩ := hrecord
    have hj : job' ≠ job := by
      rintro rfl
      exact absurd (hget.symm.trans hnone) (by simp)
    simpa [State.setThread, hj] using h.unknown job' hnone
  queued job' record' hsome hq := by
    obtain ⟨record, hget, hstatus⟩ := hrecord
    have hj : job' ≠ job := by
      rintro rfl
      obtain rfl := Option.some.inj (hget.symm.trans hsome)
      exact hstatus hq
    simpa [State.setThread, hj] using h.queued job' record' hsome hq
  waiting job' record' hloop := by
    have hj : job' ≠ job := by
      rintro rfl
      rcases hloop with hloop | hloop
      · exact (hwaiting record').1 hloop
      · exact (hwaiting record').2 hloop
    simpa [State.setThread, hj] using h.waiting job' record' hloop
  starting := h.starting

end Serial

section Steps

def Moves (reported : JobId → Option Number) (s s' : State) : Prop :=
  Serial s' ∧ ∀ job, LifeChange (reported job) (s.life job) (s'.life job)

variable {reported : JobId → Option Number} {s : State}

theorem Moves.refl (h : Serial s) : Moves reported s s := ⟨h, fun _ => .same _⟩

-- A step after which every job's life is what it was.
theorem Moves.control {s' : State} (h : Serial s) (hstore : s'.store = s.store)
    (hthreads : s'.threads = s.threads) (hhistory : s'.history = s.history)
    (howed : ∀ job, s'.owed job = s.owed job)
    (hwaiting : ∀ job record, s'.loop = .leaseWait job record ∨ s'.loop = .acquiring job record →
      s.threads job = .absent)
    (hstarting : ∀ job, s'.busy ≠ some (.appendRunning job)) : Moves reported s s' := by
  refine ⟨h.control hstore hthreads hhistory hwaiting hstarting, fun job => ?_⟩
  rw [life_congr (by rw [hstore]) (howed job) (by rw [hthreads]) (by rw [hhistory])]
  exact .same _

-- A store update with the event it owes from then on.
theorem Moves.owes (h : Serial s) (howed : ∀ job, s.owed job = none) {job : JobId}
    {record updated : JobRecord} (hget : s.store.jobs job = some record) (part : Section)
    (hother : ∀ job', job' ≠ job → part.owed job' = none)
    (hlife : LifeStep (reported job) ⟨record, none, s.threads job, s.history job⟩
      ⟨updated, part.owed job, s.threads job, s.history job⟩)
    (hstatus : updated.status ≠ .queued)
    (hstarting : ∀ job', part = .appendRunning job' → job' = job ∧ updated.status = .running ∧
      ∃ record, s.loop = .acquiring job record) :
    Moves reported s { s with store := s.store.put job updated, busy := some part } := by
  have hidle : s.busy ≠ some (.appendRunning job) := by
    intro hbusy
    have := howed job
    simp [State.owed, hbusy, Section.owed] at this
  have hput : Serial { s with store := s.store.put job updated } := h.put hstatus (.inl hidle)
  refine ⟨{ hput with starting := ?_ }, fun job' => ?_⟩
  · intro job' hbusy
    obtain ⟨rfl, hrunning, hloop⟩ := hstarting job' (Option.some.inj hbusy)
    exact ⟨hloop, updated, by simp [JobStore.put], hrunning⟩
  · by_cases hj : job' = job
    · subst hj
      have hbefore : s.life job' = some ⟨record, none, s.threads job', s.history job'⟩ := by
        rw [State.life, hget, Option.map_some, howed job']
      have hafter : { s with store := s.store.put job' updated, busy := some part }.life job' =
          some ⟨updated, part.owed job', s.threads job', s.history job'⟩ := by
        simp [State.life, JobStore.put, State.owed]
      rw [hbefore, hafter]
      exact .step hlife
    · have hsame : { s with store := s.store.put job updated, busy := some part }.life job' =
          s.life job' :=
        life_congr (by simp [JobStore.put, hj]) ((hother job' hj).trans (howed job').symm) rfl rfl
      rw [hsame]
      exact .same _

theorem update_cases (s : State) (job : JobId)
    (fn : JobRecord → Except JobTransitionError JobRecord) (returned raised : State → State) :
    (∃ record updated, s.store.jobs job = some record ∧ fn record = .ok updated ∧
      s.update job fn returned raised = returned { s with store := s.store.put job updated }) ∨
    s.update job fn returned raised = raised s := by
  unfold State.update JobStore.update
  cases hget : s.store.jobs job with
  | none => exact .inr rfl
  | some record =>
      cases hfn : fn record with
      | error error => right; simp only [hfn]
      | ok updated => exact .inl ⟨record, updated, rfl, hfn, by simp only [hfn]⟩

theorem finish_moves (h : Serial s) (hbusy : s.busy = none) (job : JobId) :
    Moves reported s (s.finish job) :=
  .control h rfl rfl rfl (fun _ => rfl) (by simp [State.finish])
    (by simp [State.finish, State.discard, hbusy])

theorem dequeue_moves (h : Serial s) (hbusy : s.busy = none) (hloop : s.loop = .idle)
    (job : JobId) (queue : List JobId) : Moves reported s (dequeue s job queue) := by
  unfold dequeue
  dsimp only
  split
  · exact .control h rfl rfl rfl (fun _ => rfl) (by simp [State.discard, hloop])
      (by simp [State.discard, hbusy])
  · cases hget : s.store.tryGet job with
    | none => exact .control h rfl rfl rfl (fun _ => rfl) (by simp [hloop]) (by simp [hbusy])
    | some record =>
        dsimp only
        split
        · exact .control h rfl rfl rfl (fun _ => rfl) (by simp [hloop]) (by simp [hbusy])
        · rename_i hstatus
          refine .control h rfl rfl rfl (fun _ => rfl) ?_ (by simp [hbusy])
          rintro job' record' (hwait | hwait)
          · obtain ⟨rfl, rfl⟩ := LoopPc.leaseWait.inj hwait
            exact h.queued job record hget (not_not.mp hstatus)
          · cases hwait

theorem Section.owed_ne {job job' : JobId} (h : job' ≠ job) {part : Section}
    (hpart : part = .appendRunning job ∨ (∃ message, part = .appendFailed job message) ∨
      (∃ resultMeta, part = .appendSucceeded job resultMeta) ∨
      ∃ task, part = .appendCancelled task job) : part.owed job' = none := by
  rcases hpart with rfl | ⟨message, rfl⟩ | ⟨resultMeta, rfl⟩ | ⟨task, rfl⟩ <;>
    simp [Section.owed, Ne.symm h]

theorem acquired_moves (h : Serial s) (hbusy : s.busy = none) {job : JobId} {record : JobRecord}
    (hloop : s.loop = .acquiring job record) : Moves reported s (acquired s job) := by
  unfold acquired
  split
  · exact finish_moves h hbusy job
  · rcases update_cases s job start _ _ with ⟨record', updated, hget, hfn, hs⟩ | hs
    · rw [hs]
      obtain ⟨hq, rfl⟩ := start_eq_ok hfn
      refine .owes h (owed_none hbusy) hget (.appendRunning job)
        (fun job' hj => Section.owed_ne hj (.inl rfl)) ?_ (by simp) ?_
      · have hstep : LifeStep (reported job) ⟨record', none, s.threads job, s.history job⟩ _ :=
          .starts hq rfl (h.waiting job record (.inr hloop))
        simpa [Section.owed] using hstep
      · intro job' hpart
        obtain rfl := Section.appendRunning.inj hpart
        exact ⟨rfl, rfl, record, hloop⟩
    · rw [hs]
      exact finish_moves h hbusy job

theorem failJob_moves (h : Serial s) (hbusy : s.busy = none) {job : JobId}
    (hthread : (s.threads job).isResting = true) (exc : Raised) :
    Moves reported s (failJob s job exc) := by
  unfold failJob
  split
  · exact finish_moves h hbusy job
  · rcases update_cases s job (fail · (errorOf exc)) _ _ with ⟨record, updated, hget, hfn, hs⟩ | hs
    · rw [hs]
      obtain ⟨hactive, rfl⟩ := fail_eq_ok hfn
      refine .owes h (owed_none hbusy) hget (.appendFailed job (errorOf exc).message)
        (fun job' hj => Section.owed_ne hj (.inr (.inl ⟨_, rfl⟩))) ?_ (by simp) (by simp)
      have hstep : LifeStep (reported job) ⟨record, none, s.threads job, s.history job⟩ _ :=
        .fails hactive rfl hthread (errorOf exc)
      simpa [Section.owed] using hstep
    · rw [hs]
      exact finish_moves h hbusy job

theorem worked_moves (h : Serial s) (hbusy : s.busy = none) {job : JobId} {outcome : WorkOutcome}
    (hthread : s.threads job = .finished outcome) : Moves reported s (worked s job outcome) := by
  have hresting : (s.threads job).isResting = true := by rw [hthread]; rfl
  cases outcome with
  | raised exc => exact failJob_moves h hbusy hresting exc
  | returned artifactPath resultMeta =>
      rw [worked]
      split
      · exact finish_moves h hbusy job
      · rcases update_cases s job (succeed · artifactPath resultMeta) _ _ with
          ⟨record, updated, hget, hfn, hs⟩ | hs
        · rw [hs]
          obtain ⟨hrunning, rfl⟩ := succeed_eq_ok hfn
          refine .owes h (owed_none hbusy) hget (.appendSucceeded job resultMeta)
            (fun job' hj => Section.owed_ne hj (.inr (.inr (.inl ⟨_, rfl⟩)))) ?_ (by simp) (by simp)
          have hstep : LifeStep (reported job) ⟨record, none, s.threads job, s.history job⟩ _ :=
            .succeeds hrunning rfl hresting artifactPath resultMeta
          simpa [Section.owed] using hstep
        · rw [hs]
          exact finish_moves h hbusy job

theorem cancelUpdate_moves (h : Serial s) (howed : ∀ job, s.owed job = none) (task : TaskId)
    (job : JobId) : Moves reported s (cancelUpdate s task job) := by
  unfold cancelUpdate
  rcases update_cases s job cancel _ _ with ⟨record, updated, hget, hfn, hs⟩ | hs
  · rw [hs]
    obtain ⟨hactive, rfl⟩ := cancel_eq_ok hfn
    refine .owes h howed hget (.appendCancelled task job)
      (fun job' hj => Section.owed_ne hj (.inr (.inr (.inr ⟨_, rfl⟩)))) ?_ (by simp) (by simp)
    have hstep : LifeStep (reported job) ⟨record, none, s.threads job, s.history job⟩ _ := .cancels hactive rfl
    simpa [Section.owed] using hstep
  · rw [hs]
    exact .control h rfl rfl rfl (fun job' => (howed job').symm) h.waiting
      (by simp [State.setCancel])

theorem cancelCall_moves (h : Serial s) (hbusy : s.busy = none) (task : TaskId) (job : JobId) :
    Moves reported s (cancelCall s task job) := by
  have hset : ∀ pc, Moves reported s (s.setCancel task pc) := fun pc =>
    .control h rfl rfl rfl (fun _ => rfl) h.waiting (by simp [State.setCancel, hbusy])
  unfold cancelCall
  split
  · exact hset _
  · split
    · exact hset _
    · dsimp only
      split
      · exact .control h rfl rfl rfl (fun _ => rfl) h.waiting (by simp [State.setCancel, hbusy])
      · exact .control h rfl rfl rfl (fun job' => (owed_none hbusy job').symm) h.waiting (by simp)

-- The append that a section still owes, with the threads and the loop as they
-- are from then on.
theorem Moves.pays {s' : State} (h : Serial s') {job : JobId} {type : Text}
    {data : List (Text × Json)} (howed : s.owed job = some (type, data))
    (hother : ∀ job', job' ≠ job → s.owed job' = none)
    (hbusy : s'.busy = none) (hjobs : s'.store.jobs = s.store.jobs)
    (hhistory : s'.history = (s.append job type data).history)
    (hseq : s.store.seq job = (s.history job).length)
    (hthreads : ∀ job', job' ≠ job → s'.threads job' = s.threads job')
    (hlife : ∀ record, LifeStep (reported job) ⟨record, some (type, data), s.threads job, s.history job⟩
      ⟨record, none, s'.threads job, s.history job ++ [⟨(s.history job).length + 1, type, data⟩]⟩) :
    Moves reported s s' := by
  refine ⟨h, fun job' => ?_⟩
  by_cases hj : job' = job
  · subst hj
    rw [State.life, State.life, hjobs, howed, owed_none hbusy]
    cases s.store.jobs job' with
    | none => exact .same none
    | some record =>
        have hevents : s'.history job' =
            s.history job' ++ [⟨(s.history job').length + 1, type, data⟩] := by
          simp [hhistory, State.append, JobStore.nextEvent, hseq]
        rw [hevents]
        exact .step (hlife record)
  · rw [life_congr (by rw [hjobs]) ((owed_none hbusy job').trans (hother job' hj).symm)
      (hthreads job' hj) (by simp [hhistory, State.append, hj])]
    exact .same _

theorem Moves.paysTerminal {s' : State} (h : Serial s) {part : Section}
    (hpart : s.busy = some part) {job : JobId} {type : Text} {data : List (Text × Json)}
    (howed : part.owed job = some (type, data))
    (hother : ∀ job', job' ≠ job → part.owed job' = none) (htype : type ≠ JobStatus.running.value)
    (hbusy : s'.busy = none) (hstore : s'.store = (s.append job type data).store)
    (hhistory : s'.history = (s.append job type data).history)
    (hthreads : s'.threads = s.threads)
    (hwaiting : ∀ job record, s'.loop = .leaseWait job record ∨ s'.loop = .acquiring job record →
      s.threads job = .absent) : Moves reported s s' := by
  have hpays : ∀ job, s.owed job = part.owed job := fun job => by rw [State.owed, hpart]; rfl
  have hserial : Serial s' :=
    (h.append job type data).control hstore hthreads hhistory hwaiting (by simp [hbusy])
  refine .pays hserial ((hpays job).trans howed) (fun job' hj => (hpays job').trans (hother job' hj))
    hbusy (by rw [hstore]; rfl) hhistory (h.seq job) (fun job' _ => by rw [hthreads]) ?_
  intro record
  rw [hthreads]
  exact .appendsTerminal rfl htype

theorem runSection_moves (h : Serial s) {part : Section} (hbusy : s.busy = some part) :
    Moves reported s (runSection s part) := by
  have howed : ∀ job, s.owed job = part.owed job := fun job => by rw [State.owed, hbusy]; rfl
  cases part with
  | appendRunning job =>
      obtain ⟨⟨record, hloop⟩, record', hget, hrunning⟩ := h.starting job hbusy
      have hserial : Serial (runSection s (.appendRunning job)) := by
        have happend := h.append job JobStatus.running.value []
        have hidle : Serial { s.append job JobStatus.running.value [] with
            busy := none, loop := .working job } :=
          happend.control rfl rfl rfl (by simp) (by simp)
        exact hidle.setThread .working ⟨record', hget, by simp [hrunning]⟩ (by simp)
      refine .pays hserial (howed job ▸ by simp [Section.owed]) ?_ rfl rfl rfl (h.seq job) ?_ ?_
      · exact fun job' hj => (howed job').trans (Section.owed_ne hj (.inl rfl))
      · intro job' hj
        simp [runSection, State.setThread, State.append, hj]
      · intro record
        have hstep : LifeStep (reported job) ⟨record, some (JobStatus.running.value, []), s.threads job,
            s.history job⟩ _ := .appendsRunning rfl
        simpa [runSection, State.setThread, Life.event] using hstep
  | appendFailed job message =>
      exact .paysTerminal h hbusy (by simp [Section.owed])
        (fun job' hj => Section.owed_ne hj (.inr (.inl ⟨_, rfl⟩))) (by decide) rfl rfl rfl rfl
        (by simp [runSection])
  | appendSucceeded job resultMeta =>
      exact .paysTerminal h hbusy (by simp [Section.owed])
        (fun job' hj => Section.owed_ne hj (.inr (.inr (.inl ⟨_, rfl⟩)))) (by decide) rfl rfl rfl rfl
        (by simp [runSection, State.finish])
  | cancelUpdate task job => exact cancelUpdate_moves h howed task job
  | appendCancelled task job =>
      exact .paysTerminal h hbusy (by simp [Section.owed])
        (fun job' hj => Section.owed_ne hj (.inr (.inr (.inr ⟨_, rfl⟩)))) (by decide) rfl rfl rfl rfl
        h.waiting

theorem stopLoop_moves (h : Serial s) (hbusy : s.busy = none) : Moves reported s (stopLoop s) := by
  unfold stopLoop
  split <;>
    exact .control h rfl rfl rfl (fun _ => rfl) (by simp)
      (by simp [State.finish, State.discard, hbusy])

theorem put_self {store : JobStore} {job : JobId} {record : JobRecord}
    (h : store.jobs job = some record) : store.put job record = store := by
  rw [JobStore.put, ← h, Function.update_eq_self]

-- A thread that has begun belongs to a job that has left the queue.
theorem Serial.thread_record (h : Serial s) {job : JobId} (hthread : s.threads job ≠ .absent) :
    (∃ record, s.store.jobs job = some record ∧ record.status ≠ .queued) ∧
      ∀ record, s.loop ≠ .leaseWait job record ∧ s.loop ≠ .acquiring job record := by
  constructor
  · cases hget : s.store.jobs job with
    | none => exact absurd (h.unknown job hget) hthread
    | some record => exact ⟨record, rfl, fun hq => hthread (h.queued job record hget hq)⟩
  · intro record
    exact ⟨fun hloop => hthread (h.waiting job record (.inl hloop)),
      fun hloop => hthread (h.waiting job record (.inr hloop))⟩

-- A step of one worker thread that leaves the store's other jobs alone.
theorem Moves.thread {s' : State} (h : Serial s') {job : JobId} {life life' : Life}
    (hbefore : s.life job = some life) (hafter : s'.life job = some life')
    (hlife : LifeStep (reported job) life life')
    (hother : ∀ job', job' ≠ job → s'.life job' = s.life job') : Moves reported s s' := by
  refine ⟨h, fun job' => ?_⟩
  by_cases hj : job' = job
  · subst hj
    rw [hbefore, hafter]
    exact .step hlife
  · rw [hother job' hj]
    exact .same _

theorem report_moves (h : Serial s) {job : JobId} (hthread : s.threads job = .working)
    {fraction : Number} (hreported : reported job = some fraction) : Moves reported s (report s job fraction) := by
  obtain ⟨⟨record, hget, hstatus⟩, hloop⟩ := h.thread_record (by simp [hthread] : s.threads job ≠ _)
  by_cases hrunning : record.status = .running
  · have hprogress : progress record fraction = .ok { record with progress := clamp01 fraction } := by
      simp [progress, hrunning]
    have hs : report s job fraction =
        { s with store := s.store.put job { record with progress := clamp01 fraction } }.setThread
          job (.appending (clamp01 fraction)) := by
      simp [report, JobStore.update, hget, hrunning, hprogress]
    rw [hs]
    have hput : Serial { s with
        store := s.store.put job { record with progress := clamp01 fraction } } :=
      h.put (by simpa using hstatus) (.inr hrunning)
    have hbefore : s.life job = some ⟨record, s.owed job, .working, s.history job⟩ := by
      rw [State.life, hget, ← hthread]
      rfl
    have hserial := hput.setThread (.appending (clamp01 fraction))
      ⟨{ record with progress := clamp01 fraction }, by simp [JobStore.put], hstatus⟩ hloop
    refine .thread hserial hbefore ?_ (.reports hrunning rfl hreported) fun job' hj => ?_
    · simp [State.life, State.setThread, JobStore.put, State.owed]
    · exact life_congr (by simp [State.setThread, JobStore.put, hj]) rfl
        (by simp [State.setThread, hj]) rfl
  · have hs : report s job fraction = s := by
      simp [report, JobStore.update, hget, hrunning, put_self hget]
    rw [hs]
    exact .refl h

variable {fingerprint : Text → Python.Dict → Text}

theorem submit_cases (s : State) (submission : Submission) :
    submit fingerprint s submission = s ∨
      submit fingerprint s submission =
        { s with
          store := s.store.create fingerprint submission
          queue := s.queue ++ [submission.id]
          history := Function.update s.history submission.id
            [⟨1, JobStatus.queued.value, []⟩] } := by
  unfold submit JobStore.submit
  cases submission.key.bind fun key => (s.store.idem key).bind s.store.jobs with
  | none => exact .inr rfl
  | some existing =>
      left
      dsimp only
      split_ifs <;> rfl

theorem submit_moves (h : Serial s) (hbusy : s.busy = none) {submission : Submission}
    (hfresh : s.store.jobs submission.id = none) :
    Moves reported s (submit fingerprint s submission) := by
  rcases submit_cases s submission with hs | hs
  · rw [hs]
    exact .refl h
  · rw [hs]
    have habsent := h.unknown submission.id hfresh
    refine ⟨⟨fun job => ?_, fun job => ?_, fun job hnone => ?_, fun job record hsome hq => ?_,
      h.waiting, fun job hstart => by simp [hbusy] at hstart⟩, fun job => ?_⟩
    · by_cases hj : job = submission.id
      · subst hj
        simp [JobStore.create, JobStore.appendEvent]
      · simp [JobStore.create, JobStore.appendEvent, JobStore.put, hj, h.seq]
    · by_cases hj : job = submission.id
      · subst hj
        simp [JobStore.create, JobStore.appendEvent, JobStore.nextEvent]
      · simp [JobStore.create, JobStore.appendEvent, JobStore.put, hj, h.log]
    · by_cases hj : job = submission.id
      · subst hj
        simp [JobStore.create, JobStore.appendEvent, JobStore.put] at hnone
      · exact h.unknown job (by simpa [JobStore.create, JobStore.appendEvent, JobStore.put, hj]
          using hnone)
    · by_cases hj : job = submission.id
      · exact hj ▸ habsent
      · exact h.queued job record (by simpa [JobStore.create, JobStore.appendEvent, JobStore.put, hj]
          using hsome) hq
    · by_cases hj : job = submission.id
      · subst hj
        have hbefore : s.life submission.id = none := by rw [State.life, hfresh]; rfl
        rw [hbefore]
        have hafter : State.life { s with
            store := s.store.create fingerprint submission
            queue := s.queue ++ [submission.id]
            history := Function.update s.history submission.id
              [⟨1, JobStatus.queued.value, []⟩] } submission.id =
            some ⟨JobStore.newRecord fingerprint submission, none, .absent,
              [⟨1, JobStatus.queued.value, []⟩]⟩ := by
          simp [State.life, JobStore.create, JobStore.appendEvent, JobStore.put, habsent,
            State.owed, hbusy]
        rw [hafter]
        exact .created _ rfl rfl rfl rfl
      · have hsame : State.life { s with
            store := s.store.create fingerprint submission
            queue := s.queue ++ [submission.id]
            history := Function.update s.history submission.id
              [⟨1, JobStatus.queued.value, []⟩] } job = s.life job :=
          life_congr (by simp [JobStore.create, JobStore.appendEvent, JobStore.put, hj]) rfl rfl
            (by simp [hj])
        rw [hsame]
        exact .same _

theorem threadStep_moves (h : Serial s) {job : JobId} {action : ThreadAction} {s' : State}
    (hs : threadStep s job action = some s') :
    Moves (Action.thread job action).reported s s' := by
  cases hthread : s.threads job with
  | absent => cases action <;> simp [threadStep, hthread] at hs
  | finished outcome => cases action <;> simp [threadStep, hthread] at hs
  | working =>
      obtain ⟨⟨record, hget, hstatus⟩, hloop⟩ :=
        h.thread_record (by simp [hthread] : s.threads job ≠ _)
      cases action with
      | report fraction =>
          obtain rfl : report s job fraction = s' := by simpa [threadStep, hthread] using hs
          exact report_moves h hthread (by simp [Action.reported])
      | append => simp [threadStep, hthread] at hs
      | ends outcome =>
          obtain rfl : s.setThread job (.finished outcome) = s' := by
            simpa [threadStep, hthread] using hs
          have hbefore : s.life job = some ⟨record, s.owed job, .working, s.history job⟩ := by
            rw [State.life, hget, ← hthread]
            rfl
          refine .thread (h.setThread _ ⟨record, hget, hstatus⟩ hloop) hbefore ?_
            (.ends rfl outcome) fun job' hj => ?_
          · simp [State.life, State.setThread, State.owed, hget]
          · exact life_congr rfl rfl (by simp [State.setThread, hj]) rfl
  | appending progress =>
      obtain ⟨⟨record, hget, hstatus⟩, hloop⟩ :=
        h.thread_record (by simp [hthread] : s.threads job ≠ _)
      cases action with
      | report fraction => simp [threadStep, hthread] at hs
      | append =>
          obtain rfl : (s.append job progressType [(ascii "progress", .number progress)]).setThread
              job .working = s' := by
            simpa [threadStep, hthread] using hs
          have hbefore : s.life job =
              some ⟨record, s.owed job, .appending progress, s.history job⟩ := by
            rw [State.life, hget, ← hthread]
            rfl
          refine .thread ((h.append job _ _).setThread _ ⟨record, hget, hstatus⟩ hloop) hbefore ?_
            (.appendsProgress rfl) fun job' hj => ?_
          · simp [State.life, State.setThread, State.owed, State.append, JobStore.appendEvent,
              JobStore.nextEvent, Life.event, hget, h.seq]
          · exact life_congr rfl rfl (by simp [State.setThread, State.append, hj])
              (by simp [State.setThread, State.append, hj])
      | ends outcome => simp [threadStep, hthread] at hs

theorem loopStep_moves (h : Serial s) (hbusy : s.busy = none) {action : LoopAction} {s' : State}
    (hs : loopStep fingerprint s action = some s') : Moves reported s s' := by
  cases action with
  | startLoop =>
      simp only [loopStep] at hs
      split at hs
      · cases hs
        exact .control h rfl rfl rfl (fun _ => rfl) (by simp) (by simp [hbusy])
      · cases hs
  | stopLoop =>
      cases hs
      exact stopLoop_moves h hbusy
  | submit submission =>
      simp only [loopStep] at hs
      split at hs
      · rename_i hfresh
        cases hs
        exact submit_moves h hbusy (Option.isNone_iff_eq_none.mp hfresh)
      · cases hs
  | dequeue =>
      simp only [loopStep] at hs
      split at hs
      · rename_i hloop hqueue
        cases hs
        exact dequeue_moves h hbusy hloop _ _
      · cases hs
  | leaseGranted =>
      simp only [loopStep] at hs
      split at hs
      · rename_i job record hloop
        cases hs
        refine .control h rfl rfl rfl (fun _ => rfl) ?_ (by simp [hbusy])
        rintro job' record' (hwait | hwait)
        · cases hwait
        · obtain ⟨rfl, rfl⟩ := LoopPc.acquiring.inj hwait
          exact h.waiting job record (.inl hloop)
      · cases hs
  | acquireReturns =>
      simp only [loopStep] at hs
      split at hs
      · rename_i hloop
        cases hs
        exact acquired_moves h hbusy hloop
      · cases hs
  | acquireRaises exc =>
      simp only [loopStep] at hs
      split at hs
      · rename_i job record hloop
        cases hs
        exact failJob_moves h hbusy (by rw [h.waiting job record (.inr hloop)]; rfl) exc
      · cases hs
  | workEnds =>
      simp only [loopStep] at hs
      split at hs
      · split at hs
        · rename_i hthread
          cases hs
          exact worked_moves h hbusy hthread
        · cases hs
      · cases hs
  | failureEvicted =>
      simp only [loopStep] at hs
      split at hs
      · cases hs
        exact finish_moves h hbusy _
      · cases hs
  | cancelCall task job =>
      simp only [loopStep] at hs
      split at hs
      · cases hs
        exact cancelCall_moves h hbusy task job
      · cases hs
  | cancelEvicted task returned =>
      simp only [loopStep] at hs
      split at hs
      · cases hs
        split
        · exact cancelUpdate_moves h (owed_none hbusy) task _
        · exact .control h rfl rfl rfl (fun _ => rfl) h.waiting (by simp [State.setCancel, hbusy])
      · cases hs

theorem step_moves (h : Serial s) {a : Action} {s' : State}
    (hs : step fingerprint s a = some s') : Moves a.reported s s' := by
  cases a with
  | loop action =>
      rw [step] at hs
      cases hbusy : s.busy with
      | none => exact loopStep_moves h hbusy (by simpa [hbusy] using hs)
      | some part => simp [hbusy] at hs
  | nextSection =>
      rw [step] at hs
      obtain ⟨part, hbusy, rfl⟩ := Option.map_eq_some_iff.mp hs
      exact runSection_moves h hbusy
  | thread job action => exact threadStep_moves h hs

-- Where a job's life after a step comes from.
theorem step_life (h : Serial s) {a : Action} {s' : State}
    (hs : step fingerprint s a = some s') {job : JobId} {life' : Life}
    (hlife' : s'.life job = some life') :
    (s.life job = none ∧ ∃ record : JobRecord, record.status = .queued ∧
      record.progress = .finite 0 ∧ record.artifactPath = none ∧ record.error = none ∧
      life' = ⟨record, none, .absent, [⟨1, JobStatus.queued.value, []⟩]⟩) ∨
    s.life job = some life' ∨
    ∃ life, s.life job = some life ∧ LifeStep (a.reported job) life life' := by
  have hchange := (step_moves h hs).2 job
  rw [hlife'] at hchange
  cases hlife : s.life job with
  | none =>
      rw [hlife] at hchange
      cases hchange with
      | created record hq hp ha he => exact .inl ⟨rfl, record, hq, hp, ha, he, rfl⟩
  | some life =>
      rw [hlife] at hchange
      cases hchange with
      | same => exact .inr (.inl rfl)
      | step hstep => exact .inr (.inr ⟨life, rfl, hstep⟩)

theorem step_life_isSome (h : Serial s) {a : Action} {s' : State}
    (hs : step fingerprint s a = some s') {job : JobId} (hlife : (s.life job).isSome = true) :
    (s'.life job).isSome = true := by
  have hchange := (step_moves h hs).2 job
  obtain ⟨life, heq⟩ := Option.isSome_iff_exists.mp hlife
  rw [heq] at hchange
  cases hlife' : s'.life job with
  | none => rw [hlife'] at hchange; cases hchange
  | some life' => rfl

-- What is so at a job's creation and survives the steps of its life.
theorem step_lives {P : Life → Prop} (h : Serial s) {a : Action} {s' : State}
    (hs : step fingerprint s a = some s')
    (hcreated : ∀ record : JobRecord, record.status = .queued → record.progress = .finite 0 →
      record.artifactPath = none → record.error = none →
      P ⟨record, none, .absent, [⟨1, JobStatus.queued.value, []⟩]⟩)
    (hstep : ∀ job life life', s.life job = some life → s'.life job = some life' →
      LifeStep (a.reported job) life life' → P life → P life')
    (hP : ∀ job life, s.life job = some life → P life) :
    ∀ job life, s'.life job = some life → P life := by
  intro job life' hlife'
  rcases step_life h hs hlife' with ⟨-, record, hq, hp, ha, he, rfl⟩ | hsame | ⟨life, hlife, hl⟩
  · exact hcreated record hq hp ha he
  · exact hP job life' hsame
  · exact hstep job life life' hlife hlife' hl (hP job life hlife)

-- A step leaves a job's history or appends the next event to it.
theorem LifeStep.history_cases {reported : Option Number} {life life' : Life}
    (h : LifeStep reported life life') :
    life'.history = life.history ∨
      ∃ type data, life'.history = life.history ++ [life.event type data] := by
  cases h with
  | appendsRunning ho => exact .inr ⟨_, _, rfl⟩
  | appendsTerminal ho ht => exact .inr ⟨_, _, rfl⟩
  | appendsProgress ht => exact .inr ⟨_, _, rfl⟩
  | _ => exact .inl rfl

-- The ids of a history are 1, 2, 3, ...
def Life.Numbered (life : Life) : Prop :=
  life.history.map (·.id) = List.range' 1 life.history.length

theorem LifeStep.numbered {reported : Option Number} {life life' : Life}
    (h : LifeStep reported life life') (hnum : life.Numbered) : life'.Numbered := by
  unfold Life.Numbered at hnum ⊢
  rcases h.history_cases with heq | ⟨type, data, heq⟩
  · rw [heq]
    exact hnum
  · rw [heq, List.map_append, hnum, List.length_append, List.length_singleton,
      List.range'_concat]
    simp [Life.event, Nat.add_comm]

theorem step_numbered (h : Serial s) {a : Action} {s' : State}
    (hs : step fingerprint s a = some s')
    (hnum : ∀ job life, s.life job = some life → life.Numbered) :
    ∀ job life, s'.life job = some life → life.Numbered :=
  step_lives h hs (fun _ _ _ _ _ => rfl) (fun _ _ _ _ _ hstep => hstep.numbered) hnum

end Steps

end Cosmos3.Jobs
