import Cosmos3.Jobs.Records
import Cosmos3.Lease.Terminal
import Mathlib.Data.Set.Card

namespace Cosmos3.Lease

open Basis Jobs

-- The status that `_process` gives the record of a job whose work has ended.
def outcomeStatus : WorkOutcome → JobStatus
  | .returned _ _ => .succeeded
  | .raised _ => .failed

-- The label `metered_work` counts it under.
def outcomeLabel : WorkOutcome → Text
  | .returned _ _ => ascii "succeeded"
  | .raised _ => ascii "failed"

-- The runner with its work metered: the mode each call of the wrapped work has read
-- from its record, and the counter by its two labels.
structure Metered where
  runner : Jobs.State
  modes : JobId → Text
  jobTerminal : Text → Text → Nat

namespace Metered

def initial : Metered := ⟨Jobs.initial, fun _ => [], fun _ _ => 0⟩

def inc (jobTerminal : Text → Text → Nat) (mode outcome : Text) : Text → Text → Nat :=
  Function.update jobTerminal mode
    (Function.update (jobTerminal mode) outcome (jobTerminal mode outcome + 1))

-- `wrapped` reads the mode when it is called, and counts when `inner` is over.
def note (m : Metered) (a : Jobs.Action) (r' : Jobs.State) : Metered :=
  match a with
  | .nextSection =>
      match m.runner.busy with
      | some (.appendRunning job) =>
          { m with
            runner := r'
            modes := match m.runner.store.jobs job with
              | some record => Function.update m.modes job record.mode
              | none => m.modes }
      | _ => { m with runner := r' }
  | .thread job (.ends outcome) =>
      { m with
        runner := r'
        jobTerminal := inc m.jobTerminal (m.modes job) (outcomeLabel outcome) }
  | _ => { m with runner := r' }

def step (fingerprint : Text → Python.Dict → Text) (m : Metered) (a : Jobs.Action) :
    Option Metered :=
  (Jobs.step fingerprint m.runner a).map (m.note a)

end Metered

section Threads

variable {fingerprint : Text → Python.Dict → Text} {r r' : Jobs.State} {a : Jobs.Action}

-- What a step is for the thread that runs one job's work.
inductive ThreadMove (r : Jobs.State) (a : Jobs.Action) (r' : Jobs.State) (job : JobId) : Prop
  | same (hthread : r'.threads job = r.threads job)
  | starts (ha : a = .nextSection) (hbusy : r.busy = some (.appendRunning job))
      (hthread : r'.threads job = .working)
  | goesOn {action : ThreadAction} (ha : a = .thread job action)
      (hends : ∀ outcome, action ≠ .ends outcome) (hbefore : (r.threads job).isResting = false)
      (hafter : (r'.threads job).isResting = false)
  | ends {outcome : WorkOutcome} (ha : a = .thread job (.ends outcome))
      (hbefore : r.threads job = .working) (hthread : r'.threads job = .finished outcome)

theorem report_isResting {job : JobId} (hworking : r.threads job = .working) (fraction : Number) :
    ((report r job fraction).threads job).isResting = false := by
  unfold report
  split
  · rw [hworking]
    rfl
  · dsimp only
    split
    · simp [State.setThread, ThreadPc.isResting]
    · rw [hworking]
      rfl

theorem threadMove_threadStep {job : JobId} {action : ThreadAction}
    (hs : threadStep r job action = some r') : ThreadMove r (.thread job action) r' job := by
  cases action with
  | report fraction =>
      simp only [threadStep] at hs
      split at hs
      · rename_i hworking
        cases hs
        exact .goesOn rfl (by simp) (by rw [hworking]; rfl) (report_isResting hworking fraction)
      · cases hs
  | append =>
      simp only [threadStep] at hs
      split at hs
      · rename_i hthread
        cases hs
        exact .goesOn rfl (by simp) (by rw [hthread]; rfl) (by simp [State.setThread, ThreadPc.isResting])
      · cases hs
  | ends outcome =>
      simp only [threadStep] at hs
      split at hs
      · rename_i hworking
        cases hs
        exact .ends rfl hworking (by simp [State.setThread])
      · cases hs

theorem ends_eq_some {job : JobId} {ended : WorkOutcome}
    (hs : Jobs.step fingerprint r (.thread job (.ends ended)) = some r') :
    r.threads job = .working ∧ r' = r.setThread job (.finished ended) := by
  simp only [Jobs.step, threadStep] at hs
  split at hs
  · rename_i hworking
    cases hs
    exact ⟨hworking, rfl⟩
  · cases hs

theorem step_threadMove (hstop : a ≠ .loop .stopLoop) (hs : Jobs.step fingerprint r a = some r')
    (job : JobId) : ThreadMove r a r' job := by
  have hperforms := step_performs hstop hs
  cases hperforms with
  | @appendRunning job' history hbusy =>
      by_cases hj : job = job'
      · subst hj
        exact .starts rfl hbusy (by simp)
      · exact .same (by simp [hj])
  | @thread job' action store threads history hstatus hflight hthreads =>
      by_cases hj : job = job'
      · subst hj
        exact threadMove_threadStep hs
      · exact .same (hthreads job hj)
  | acquireReturns hloop hp => exact .same (congrFun hp.threads job)
  | acquireRaises exc hloop hp => exact .same (congrFun hp.threads job)
  | workRaises hloop hthread hp => exact .same (congrFun hp.threads job)
  | workReturns hloop hthread hp => exact .same (congrFun hp.threads job)
  | cancelEvicted hcancel hc => exact .same (congrFun hc.control.1 job)
  | cancelUpdate hbusy hc => exact .same (congrFun hc.control.1 job)
  | _ => exact .same rfl

end Threads

-- A job's work has ended, and `wrapped` counted it under these labels.
def Metered.HasEnded (m : Metered) (mode outcome : Text) (job : JobId) : Prop :=
  ∃ ended, m.runner.threads job = .finished ended ∧ m.modes job = mode ∧
    outcomeLabel ended = outcome

-- The counter counts the work that has ended, and the mode read for it is its record's.
structure Metered.Tallied (m : Metered) : Prop where
  count : ∀ mode outcome,
    {job | m.HasEnded mode outcome job}.encard = m.jobTerminal mode outcome
  modes : ∀ job record, m.runner.store.jobs job = some record →
    m.runner.threads job ≠ .absent → m.modes job = record.mode

section Tally

variable {fingerprint : Text → Python.Dict → Text} {m m' : Metered} {a : Jobs.Action}

theorem Metered.step_eq_some (hs : Metered.step fingerprint m a = some m') :
    Jobs.step fingerprint m.runner a = some m'.runner ∧ m' = m.note a m'.runner := by
  obtain ⟨r', hr', rfl⟩ := Option.map_eq_some_iff.mp hs
  have hrunner : (m.note a r').runner = r' := by
    unfold Metered.note
    split
    · split <;> rfl
    · rfl
    · rfl
  rw [hrunner]
  exact ⟨hr', rfl⟩

theorem tallied_initial : Metered.initial.Tallied := by
  constructor
  · intro mode outcome
    simp [Metered.initial, Metered.HasEnded, Jobs.initial]
  · simp [Metered.initial, Jobs.initial, JobStore.empty]

theorem inc_apply (jobTerminal : Text → Text → Nat) (mode outcome mode' outcome' : Text) :
    Metered.inc jobTerminal mode outcome mode' outcome' =
      jobTerminal mode' outcome' + if mode' = mode ∧ outcome' = outcome then 1 else 0 := by
  unfold Metered.inc
  by_cases hmode : mode' = mode
  · subst hmode
    by_cases houtcome : outcome' = outcome
    · simp [houtcome]
    · simp [houtcome]
  · simp [hmode]

-- What a step is for the meter.
inductive Noted (m : Metered) (a : Jobs.Action) (m' : Metered) : Prop
  | starts {job : JobId} {record : JobRecord} (ha : a = .nextSection)
      (hbusy : m.runner.busy = some (.appendRunning job))
      (hget : m.runner.store.jobs job = some record)
      (hmodes : m'.modes = Function.update m.modes job record.mode)
      (hcounter : m'.jobTerminal = m.jobTerminal)
  | ends {job : JobId} {ended : WorkOutcome} (ha : a = .thread job (.ends ended))
      (hmodes : m'.modes = m.modes)
      (hcounter : m'.jobTerminal = Metered.inc m.jobTerminal (m.modes job) (outcomeLabel ended))
  | same (hends : ∀ job ended, a ≠ .thread job (.ends ended))
      (hstarts : a = .nextSection → ∀ job, m.runner.busy ≠ some (.appendRunning job))
      (hmodes : m'.modes = m.modes) (hcounter : m'.jobTerminal = m.jobTerminal)

theorem noted_note (hserial : Serial m.runner) (a : Jobs.Action) (r' : Jobs.State) :
    Noted m a (m.note a r') := by
  unfold Metered.note
  split
  · split
    · rename_i job hbusy
      obtain ⟨-, record, hget, -⟩ := hserial.starting job hbusy
      exact .starts rfl hbusy hget (by simp only [hget]) rfl
    · rename_i hbusy
      exact .same (by simp) (fun _ => hbusy) rfl rfl
  · exact .ends rfl rfl rfl
  · rename_i hsection hends
    exact .same hends (fun ha => absurd ha hsection) rfl rfl

-- Only the end of a job's work counts, and it counts that job.
theorem Metered.Tallied.ends (h : m.Tallied) {job : JobId} {ended : WorkOutcome}
    (hbefore : m.runner.threads job = .working)
    (hthreads : ∀ other, other ≠ job → m'.runner.threads other = m.runner.threads other)
    (hafter : m'.runner.threads job = .finished ended) (hmodes : m'.modes = m.modes)
    (hcounter : m'.jobTerminal = Metered.inc m.jobTerminal (m.modes job) (outcomeLabel ended))
    (mode outcome : Text) :
    {other | m'.HasEnded mode outcome other}.encard = m'.jobTerminal mode outcome := by
  have hother : ∀ other, other ≠ job →
      (m'.HasEnded mode outcome other ↔ m.HasEnded mode outcome other) := by
    intro other hne
    rw [Metered.HasEnded, Metered.HasEnded, hthreads other hne, hmodes]
  have hnot : ¬m.HasEnded mode outcome job := by
    rintro ⟨earlier, hthread, -⟩
    simp [hbefore] at hthread
  rw [hcounter, inc_apply]
  by_cases hlabels : mode = m.modes job ∧ outcome = outcomeLabel ended
  · have hself : m'.HasEnded mode outcome job :=
      ⟨ended, hafter, by rw [hmodes, hlabels.1], hlabels.2.symm⟩
    have hset : {other | m'.HasEnded mode outcome other} =
        insert job {other | m.HasEnded mode outcome other} := by
      ext other
      by_cases hne : other = job
      · simp [hne, hself]
      · simp [hne, hother other hne]
    rw [hset, Set.encard_insert_of_notMem (by simpa using hnot), h.count, if_pos hlabels]
    simp
  · have hself : ¬m'.HasEnded mode outcome job := by
      rintro ⟨later, hthread, hmode, houtcome⟩
      rw [hafter] at hthread
      cases hthread
      exact hlabels ⟨by rw [← hmode, hmodes], houtcome.symm⟩
    have hset : {other | m'.HasEnded mode outcome other} =
        {other | m.HasEnded mode outcome other} := by
      ext other
      by_cases hne : other = job
      · simp [hne, hself, hnot]
      · simp [hother other hne]
    rw [hset, h.count, if_neg hlabels]
    simp

-- A job about to be marked running has no thread yet.
theorem threads_absent (h : Serial m.runner) {job : JobId}
    (hbusy : m.runner.busy = some (.appendRunning job)) : m.runner.threads job = .absent := by
  obtain ⟨⟨record, hloop⟩, -⟩ := h.starting job hbusy
  exact h.waiting job record (.inr hloop)

theorem finished_iff (h : Serial m.runner) (hends : ∀ job ended, a ≠ .thread job (.ends ended))
    {job : JobId} (hmove : ThreadMove m.runner a m'.runner job) (ended : WorkOutcome) :
    m'.runner.threads job = .finished ended ↔ m.runner.threads job = .finished ended := by
  rcases hmove with hsame | ⟨-, hbusy, hworking⟩ | ⟨-, -, hbefore, hafter⟩ | ⟨ha, -, -⟩
  · rw [hsame]
  · rw [hworking, threads_absent h hbusy]
    simp
  · constructor <;> intro hthread <;> simp [hthread, ThreadPc.isResting] at hbefore hafter
  · exact absurd ha (hends job _)

theorem Metered.Tallied.count_note (h : m.Tallied) (hserial : Serial m.runner)
    (hstop : a ≠ .loop .stopLoop) (hs : Jobs.step fingerprint m.runner a = some m'.runner)
    (hnoted : Noted m a m') (mode outcome : Text) :
    {job | m'.HasEnded mode outcome job}.encard = m'.jobTerminal mode outcome := by
  have hsame : (∀ job ended, a ≠ .thread job (.ends ended)) →
      (∀ job ended, m.runner.threads job = .finished ended → m'.modes job = m.modes job) →
      {job | m'.HasEnded mode outcome job} = {job | m.HasEnded mode outcome job} := by
    intro hends hmodes
    ext job
    refine exists_congr fun ended => ?_
    rw [finished_iff hserial hends (step_threadMove hstop hs job)]
    refine and_congr_right fun hfinished => ?_
    rw [hmodes job ended hfinished]
  cases hnoted with
  | @starts job record ha hbusy hget hmodes hcounter =>
      rw [hcounter, ← h.count mode outcome, hsame (by simp [ha])]
      intro other ended hfinished
      have hne : other ≠ job := by
        rintro rfl
        simp [threads_absent hserial hbusy] at hfinished
      simp [hmodes, hne]
  | @ends job ended ha hmodes hcounter =>
      subst ha
      obtain ⟨hbefore, hafter⟩ := ends_eq_some hs
      refine h.ends hbefore (fun other hother => ?_) ?_ hmodes hcounter mode outcome
      · rw [hafter]
        simp [State.setThread, hother]
      · rw [hafter]
        simp [State.setThread]
  | same hends hstarts hmodes hcounter =>
      rw [hcounter, ← h.count mode outcome, hsame hends]
      intro other ended _
      rw [hmodes]

theorem lifeStep_mode {reported : Option Number} {life life' : Life}
    (hl : LifeStep reported life life') : life'.record.mode = life.record.mode := by
  cases hl <;> rfl

theorem Metered.Tallied.modes_note (h : m.Tallied) (hserial : Serial m.runner)
    (hstop : a ≠ .loop .stopLoop) (hs : Jobs.step fingerprint m.runner a = some m'.runner)
    (hnoted : Noted m a m') {job : JobId} {record : JobRecord}
    (hget : m'.runner.store.jobs job = some record) (hthread : m'.runner.threads job ≠ .absent) :
    m'.modes job = record.mode := by
  obtain ⟨life', hlife', rfl⟩ := life_isSome hget
  have hthread' : life'.thread = m'.runner.threads job := by
    obtain ⟨record', -, rfl⟩ := Option.map_eq_some_iff.mp hlife'
    rfl
  -- The record was there before, with the mode it has now.
  obtain ⟨before, hbefore, hmode⟩ : ∃ before, m.runner.store.jobs job = some before ∧
      life'.record.mode = before.mode := by
    rcases step_life hserial hs hlife' with
      ⟨-, record, -, -, -, -, rfl⟩ | hsame | ⟨life, hlife, hl⟩
    · exact absurd hthread'.symm hthread
    · exact ⟨life'.record, life_record hsame, rfl⟩
    · exact ⟨life.record, life_record hlife, lifeStep_mode hl⟩
  rw [hmode]
  have hbegun : m.runner.threads job ≠ .absent ∨
      a = .nextSection ∧ m.runner.busy = some (.appendRunning job) := by
    rcases step_threadMove hstop hs job with
      hsame | ⟨ha, hbusy, -⟩ | ⟨-, -, hflight, -⟩ | ⟨-, hworking, -⟩
    · exact .inl (hsame ▸ hthread)
    · exact .inr ⟨ha, hbusy⟩
    · refine .inl fun habsent => ?_
      simp [habsent, ThreadPc.isResting] at hflight
    · exact .inl (by simp [hworking])
  cases hnoted with
  | @starts started record ha hbusy hrecord hmodes _ =>
      by_cases hj : job = started
      · subst hj
        obtain rfl : before = record := by simpa [hbefore] using hrecord
        simp [hmodes]
      · have hother := hbegun.resolve_right fun hboth => hj (by simpa [hbusy] using hboth.2.symm)
        simpa [hmodes, hj] using h.modes job before hbefore hother
  | ends ha hmodes _ =>
      have hrunning := hbegun.resolve_right (by simp [ha])
      simpa [hmodes] using h.modes job before hbefore hrunning
  | same _ hstarts hmodes _ =>
      have hrunning := hbegun.resolve_right fun hboth => hstarts hboth.1 job hboth.2
      simpa [hmodes] using h.modes job before hbefore hrunning

theorem step_tallied (h : m.Tallied) (hserial : Serial m.runner) (hstop : a ≠ .loop .stopLoop)
    (hs : Metered.step fingerprint m a = some m') : m'.Tallied := by
  obtain ⟨hstep, hnote⟩ := Metered.step_eq_some hs
  have hnoted : Noted m a m' := hnote ▸ noted_note hserial a m'.runner
  exact ⟨h.count_note hserial hstop hstep hnoted, fun _ _ => h.modes_note hserial hstop hstep hnoted⟩

end Tally

-- An acquire that raises, and a cancel of a job that is not over, end a job without
-- the end of its work.
def plain (r : Jobs.State) : Jobs.Action → Bool
  | .loop .stopLoop | .loop (.acquireRaises _) => false
  | .loop (.cancelCall _ job) => (r.store.status job).all (·.isTerminal)
  | _ => true

-- Without those steps, a job's record is terminal once the end of its work is dealt
-- with, and not before.
structure Settles (r : Jobs.State) : Prop where
  cancelled : r.cancelled = []
  cancels : ∀ task job, r.cancels task ≠ .evicting job
  sections : ∀ part, r.busy = some part → loopJob part ≠ none
  working : ∀ job, (r.threads job).isResting = false → r.loop = .working job ∧ r.busy = none
  ended : ∀ job outcome, r.threads job = .finished outcome →
    r.store.status job = some (outcomeStatus outcome) ∨ r.loop = .working job ∧ r.busy = none
  terminal : ∀ job status, r.store.status job = some status → status.isTerminal = true →
    ∃ outcome, r.threads job = .finished outcome

theorem settles_initial : Settles Jobs.initial := by
  constructor <;> simp [Jobs.initial, JobStore.empty, JobStore.status, ThreadPc.isResting]

section Settled

variable {fingerprint : Text → Python.Dict → Text} {r r' : Jobs.State} {a : Jobs.Action}

theorem Settles.strands (h : Settles r) (task : Jobs.TaskId) : ¬strands r task := by
  rintro ⟨job, -, hevicting, -⟩
  exact h.cancels task job hevicting

-- The work of the job that the loop awaits is over, and its record becomes terminal.
theorem Settles.worked (h : Settles r) (htended : Tended r) {job : JobId} {outcome : WorkOutcome}
    {allowed : JobStatus → Prop} {part : Section} (hbusy : r.busy = none)
    (hloop : r.loop = .working job) (hthread : r.threads job = .finished outcome)
    (hallowed : allowed .running) (hpart : loopJob part ≠ none)
    (hp : Proceeds r job allowed part (outcomeStatus outcome) r') : Settles r' := by
  have hrunning : ∃ status, r.store.status job = some status ∧ status = .running := by
    have hturn : turnOf r.loop = some job := by rw [hloop]; rfl
    obtain ⟨status, hstatus⟩ := Option.ne_none_iff_exists'.mp (htended.known job (.inr hturn))
    refine ⟨status, hstatus, ?_⟩
    rcases htended.turn job status hturn (by simp [h.cancelled]) hstatus with hawaited | ⟨part, hpart, -⟩
    · rwa [hloop] at hawaited
    · simp [hbusy] at hpart
  obtain ⟨_, hstatus, rfl⟩ := hrunning
  cases hp with
  | drops hcancelled => simp [h.cancelled] at hcancelled
  | refused _ hrefused => exact absurd hallowed (hrefused .running hstatus)
  | @updates _ before hbefore _ updated hupdated heq =>
      subst heq
      have hother : ∀ other, r.loop = .working other → other = job := by
        intro other hworking
        simpa [hloop] using hworking.symm
      refine ⟨h.cancelled, h.cancels, by simpa using hpart, fun other hflight => ?_,
        fun other ended hfinished => .inl ?_, fun other status hs hterminal => ?_⟩
      · obtain rfl := hother other (h.working other hflight).1
        simp [hthread, ThreadPc.isResting] at hflight
      · rw [JobStore.status_put]
        by_cases hj : other = job
        · subst hj
          obtain rfl : outcome = ended := by simpa [hthread] using hfinished
          rw [if_pos rfl, hupdated]
        · rw [if_neg hj]
          exact (h.ended other ended hfinished).resolve_right fun hworking =>
            hj (hother other hworking.1)
      · rw [JobStore.status_put] at hs
        by_cases hj : other = job
        · exact ⟨outcome, hj ▸ hthread⟩
        · rw [if_neg hj] at hs
          exact h.terminal other status hs hterminal

-- The loop moves on where no work is under way.
theorem Settles.control (h : Settles r) (hidle : ∀ job, ¬(r.loop = .working job ∧ r.busy = none))
    (hstatus : r'.store.status = r.store.status) (hcancelled : r'.cancelled = [])
    (hcancels : r'.cancels = r.cancels) (hthreads : r'.threads = r.threads)
    (hbusy : r'.busy = none) : Settles r' := by
  refine ⟨hcancelled, by simpa only [hcancels] using h.cancels, by simp [hbusy],
    fun job hflight => ?_, fun job outcome hfinished => ?_, ?_⟩
  · rw [hthreads] at hflight
    exact absurd (h.working job hflight) (hidle job)
  · rw [hthreads] at hfinished
    rw [hstatus]
    exact .inl ((h.ended job outcome hfinished).resolve_right (hidle job))
  · simpa only [hstatus, hthreads] using h.terminal

theorem Settles.create (h : Settles r) (hserial : Serial r) (hbusy : r.busy = none)
    {submission : Submission} (hfresh : r.store.jobs submission.id = none)
    (hstore : r'.store = r.store.create fingerprint submission) (hcancelled : r'.cancelled = [])
    (hcancels : r'.cancels = r.cancels) (hthreads : r'.threads = r.threads)
    (hbusy' : r'.busy = none) (hloop : r'.loop = r.loop) : Settles r' := by
  refine ⟨hcancelled, by simpa only [hcancels] using h.cancels, by simp [hbusy'],
    fun job hflight => ?_, fun job outcome hfinished => ?_, fun job status hs hterminal => ?_⟩
  · rw [hthreads] at hflight
    rw [hloop, hbusy']
    exact ⟨(h.working job hflight).1, rfl⟩
  · rw [hthreads] at hfinished
    rw [hstore, JobStore.status_create, hloop, hbusy']
    by_cases hj : job = submission.id
    · have habsent := hserial.unknown job (hj ▸ hfresh)
      simp [hfinished] at habsent
    · rw [if_neg hj]
      simpa [hbusy] using h.ended job outcome hfinished
  · rw [hstore, JobStore.status_create] at hs
    rw [hthreads]
    by_cases hj : job = submission.id
    · rw [if_pos hj] at hs
      cases hs
      cases hterminal
    · rw [if_neg hj] at hs
      exact h.terminal job status hs hterminal

-- The job taken from the queue is marked running.
theorem Settles.acquired (h : Settles r) (hserial : Serial r) (hbusy : r.busy = none) {job : JobId}
    {record : JobRecord} (hloop : r.loop = .acquiring job record)
    (hp : Proceeds r job (· = .queued) (.appendRunning job) .running r') : Settles r' := by
  have hidle : ∀ other, ¬(r.loop = .working other ∧ r.busy = none) := by simp [hloop]
  cases hp with
  | drops hcancelled => simp [h.cancelled] at hcancelled
  | refused _ _ heq => exact heq ▸ h.control hidle rfl (by simp [h.cancelled]) rfl rfl hbusy
  | @updates _ before hbefore hqueued updated hupdated heq =>
      subst heq hqueued
      have habsent : r.threads job = .absent := by
        obtain ⟨record, hget, hstatus⟩ := JobStore.status_eq_some.mp hbefore
        exact hserial.queued job record hget hstatus
      refine ⟨h.cancelled, h.cancels, by simp [loopJob], fun other hflight => ?_,
        fun other ended hfinished => .inl ?_, fun other status hs hterminal => ?_⟩
      · exact absurd (h.working other hflight) (hidle other)
      · have hj : other ≠ job := by
          rintro rfl
          simp [habsent] at hfinished
        rw [JobStore.status_put, if_neg hj]
        exact (h.ended other ended hfinished).resolve_right (hidle other)
      · rw [JobStore.status_put] at hs
        by_cases hj : other = job
        · rw [if_pos hj, hupdated] at hs
          cases hs
          cases hterminal
        · rw [if_neg hj] at hs
          exact h.terminal other status hs hterminal

theorem Settles.starts (h : Settles r) (hserial : Serial r) {job : JobId}
    (hbusy : r.busy = some (.appendRunning job)) (hstatus : r'.store.status = r.store.status)
    (hcancelled : r'.cancelled = []) (hcancels : r'.cancels = r.cancels)
    (hthreads : r'.threads = Function.update r.threads job .working) (hbusy' : r'.busy = none)
    (hloop : r'.loop = .working job) : Settles r' := by
  have hidle : ∀ other, ¬(r.loop = .working other ∧ r.busy = none) := by simp [hbusy]
  obtain ⟨⟨before, hacquiring⟩, record, hget, hrunning⟩ := hserial.starting job hbusy
  refine ⟨hcancelled, by simpa only [hcancels] using h.cancels, by simp [hbusy'],
    fun other hflight => ?_, fun other ended hfinished => .inl ?_,
    fun other status hs hterminal => ?_⟩
  · by_cases hj : other = job
    · exact ⟨hj ▸ hloop, hbusy'⟩
    · rw [hthreads, Function.update_of_ne hj] at hflight
      exact absurd (h.working other hflight) (hidle other)
  · have hj : other ≠ job := by
      rintro rfl
      simp [hthreads] at hfinished
    rw [hthreads, Function.update_of_ne hj] at hfinished
    rw [hstatus]
    exact (h.ended other ended hfinished).resolve_right (hidle other)
  · rw [hstatus] at hs
    have hj : other ≠ job := by
      rintro rfl
      rw [JobStore.status, hget, Option.map_some, hrunning] at hs
      cases hs
      cases hterminal
    rw [hthreads, Function.update_of_ne hj]
    exact h.terminal other status hs hterminal

-- The thread that the loop awaits goes on or ends.
theorem Settles.thread (h : Settles r) {job : JobId} (hflight : (r.threads job).isResting = false)
    (hstatus : r'.store.status = r.store.status) (hcancelled : r'.cancelled = r.cancelled)
    (hcancels : r'.cancels = r.cancels) (hbusy : r'.busy = r.busy) (hloop : r'.loop = r.loop)
    (hother : ∀ other, other ≠ job → r'.threads other = r.threads other) : Settles r' := by
  have hworking := h.working job hflight
  refine ⟨hcancelled.trans h.cancelled, by simpa only [hcancels] using h.cancels,
    by simpa only [hbusy] using h.sections, fun other hflight' => ?_,
    fun other ended hfinished => ?_, fun other status hs hterminal => ?_⟩
  · rw [hloop, hbusy]
    by_cases hj : other = job
    · exact hj ▸ hworking
    · exact h.working other (hother other hj ▸ hflight')
  · rw [hstatus, hloop, hbusy]
    by_cases hj : other = job
    · exact .inr (hj ▸ hworking)
    · exact h.ended other ended (hother other hj ▸ hfinished)
  · rw [hstatus] at hs
    obtain ⟨outcome, hfinished⟩ := h.terminal other status hs hterminal
    have hj : other ≠ job := by
      rintro rfl
      simp [hfinished, ThreadPc.isResting] at hflight
    exact ⟨outcome, (hother other hj).trans hfinished⟩

theorem Settles.performs (h : Settles r) (hserial : Serial r) (htended : Tended r)
    (hloopBusy : ∀ action, a = .loop action → r.busy = none) (hplain : plain r a = true)
    (hp : Performs fingerprint r a r') : Settles r' := by
  cases hp with
  | startLoop hloop =>
      have hbusy := hloopBusy _ rfl
      exact h.control (by simp [hloop]) rfl h.cancelled rfl rfl hbusy
  | replay => exact h
  | create submission hfresh =>
      have hbusy := hloopBusy _ rfl
      exact h.create hserial hbusy hfresh rfl h.cancelled rfl rfl hbusy rfl
  | passesCancelled hloop hqueue hcancelled => simp [h.cancelled] at hcancelled
  | passes hloop hqueue hstatus =>
      have hbusy := hloopBusy _ rfl
      exact h.control (by simp [hloop]) rfl h.cancelled rfl rfl hbusy
  | takes hloop hqueue hcancelled hget hstatus =>
      have hbusy := hloopBusy _ rfl
      exact h.control (by simp [hloop]) rfl h.cancelled rfl rfl hbusy
  | leaseGranted hloop =>
      have hbusy := hloopBusy _ rfl
      exact h.control (by simp [hloop]) rfl h.cancelled rfl rfl hbusy
  | acquireReturns hloop hproceeds => exact h.acquired hserial (hloopBusy _ rfl) hloop hproceeds
  | acquireRaises exc hloop hproceeds => cases hplain
  | workRaises hloop hthread hproceeds =>
      exact h.worked htended (hloopBusy _ rfl) hloop hthread (by rfl) (by simp [loopJob]) hproceeds
  | workReturns hloop hthread hproceeds =>
      exact h.worked htended (hloopBusy _ rfl) hloop hthread (by rfl) (by simp [loopJob]) hproceeds
  | failureEvicted hloop =>
      have hbusy := hloopBusy _ rfl
      exact h.control (by simp [hloop]) rfl (by simp [h.cancelled]) rfl rfl hbusy
  | cancelRefused task job hcancel hstatus =>
      refine ⟨h.cancelled, fun other job' => ?_, h.sections, h.working, h.ended, h.terminal⟩
      by_cases hother : other = task
      · simp [hother]
      · simpa [hother] using h.cancels other job'
  | cancelEvicts task hcancel hstatus hcurrent => simp [plain, hstatus] at hplain
  | cancelMarks task hcancel hstatus hactive hother => simp [plain, hstatus, hactive] at hplain
  | cancelEvicted hcancel hcancels => exact absurd hcancel (h.cancels _ _)
  | cancelRaises hcancel => exact absurd hcancel (h.cancels _ _)
  | appendRunning hpart => exact h.starts hserial hpart rfl h.cancelled rfl rfl rfl rfl
  | appendFailed hpart => exact h.control (by simp [hpart]) rfl h.cancelled rfl rfl rfl
  | appendSucceeded hpart =>
      exact h.control (by simp [hpart]) rfl (by simp [h.cancelled]) rfl rfl rfl
  | cancelUpdate hpart hcancels => exact absurd rfl (h.sections _ hpart)
  | appendCancelled hpart => exact absurd rfl (h.sections _ hpart)
  | thread hstatus hflight hother => exact h.thread hflight hstatus rfl rfl rfl rfl hother

end Settled

section Runs

variable {fingerprint : Text → Python.Dict → Text} {m : Metered}

theorem reachable_tallied
    (hr : Path (Metered.step fingerprint) (fun m a => plain m.runner a = true) Metered.initial m) :
    m.Tallied ∧ Placed m.runner ∧ Tended m.runner ∧ Settles m.runner := by
  refine hr.invariant
    (fun m => m.Tallied ∧ Placed m.runner ∧ Tended m.runner ∧ Settles m.runner)
    ⟨tallied_initial, placed_initial, tended_initial, settles_initial⟩ ?_
  rintro m a m' ⟨htallied, hplaced, htended, hsettles⟩ hplain hs
  have hstop : a ≠ .loop .stopLoop := by
    rintro rfl
    cases hplain
  have hstep := (Metered.step_eq_some hs).1
  have hperforms := step_performs hstop hstep
  have hbusy : ∀ action, a = .loop action → m.runner.busy = none := by
    rintro action rfl
    exact (step_loop hstep).1
  exact ⟨step_tallied htallied hplaced.serial hstop hs, (step_effect hplaced hstop hstep).1,
    htended.performs hplaced hbusy (fun task _ => hsettles.strands task) hperforms,
    hsettles.performs hplaced.serial htended hbusy hplain hperforms⟩

theorem outcomeLabel_eq (outcome : WorkOutcome) : outcomeLabel outcome = (outcomeStatus outcome).value := by
  cases outcome <;> rfl

theorem job_terminal_of_plain
    (hr : Path (Metered.step fingerprint) (fun m a => plain m.runner a = true) Metered.initial m)
    (hquiet : Quiet m.runner) (mode : Text) {status : JobStatus}
    (hterminal : status.isTerminal = true) :
    {job | ∃ record, m.runner.store.jobs job = some record ∧ record.mode = mode ∧
      record.status = status}.encard = m.jobTerminal mode status.value := by
  obtain ⟨htallied, -, -, hsettles⟩ := reachable_tallied hr
  have hended : ∀ job outcome, m.runner.threads job = .finished outcome →
      m.runner.store.status job = some (outcomeStatus outcome) := by
    intro job outcome hfinished
    refine (hsettles.ended job outcome hfinished).resolve_right fun hworking => ?_
    simpa [hworking.1, turnOf] using hquiet.loop
  rw [← htallied.count]
  congr 1
  ext job
  constructor
  · rintro ⟨record, hget, rfl, rfl⟩
    have hstatus : m.runner.store.status job = some record.status := by simp [JobStore.status, hget]
    obtain ⟨outcome, hfinished⟩ := hsettles.terminal job _ hstatus hterminal
    have hsame : record.status = outcomeStatus outcome :=
      Option.some.inj (hstatus.symm.trans (hended job outcome hfinished))
    have hmode := htallied.modes job record hget (by simp [hfinished])
    exact ⟨outcome, hfinished, hmode, by rw [outcomeLabel_eq, hsame]⟩
  · rintro ⟨outcome, hfinished, rfl, hlabel⟩
    obtain ⟨record, hget, hstatus⟩ := JobStore.status_eq_some.mp (hended job outcome hfinished)
    have hmode := htallied.modes job record hget (by simp [hfinished])
    rw [outcomeLabel_eq] at hlabel
    exact ⟨record, hget, hmode.symm, hstatus.trans (value_injective hlabel)⟩

end Runs

theorem job_terminal_of_plain_sampleSuccess :
    ∃ m, runWithin (Metered.step sampleFingerprint) (fun m a => plain m.runner a = true)
        Metered.initial sampleSuccess = some m ∧
      {job | ∃ record, m.runner.store.jobs job = some record ∧ record.mode = ascii "t2v" ∧
        record.status = .succeeded}.encard = m.jobTerminal (ascii "t2v") JobStatus.succeeded.value := by
  obtain ⟨m, hm⟩ : ∃ m, runWithin (Metered.step sampleFingerprint)
      (fun m a => plain m.runner a = true) Metered.initial sampleSuccess = some m := ⟨_, rfl⟩
  have hcancels : m.runner.cancels = fun _ => .absent := by
    cases hm
    rfl
  have hquiet : Quiet m.runner :=
    ⟨by cases hm; rfl, by cases hm; rfl, by cases hm; rfl, by simp [hcancels]⟩
  exact ⟨m, hm, job_terminal_of_plain (Path.of_runWithin hm) hquiet (ascii "t2v") rfl⟩

-- A job that is cancelled while it waits in the queue, and is then passed over.
def samplePassedOver : List Jobs.Action :=
  [.loop .startLoop, .loop (.submit ⟨ascii "t2v", .generation, [], none, sampleJob, ascii "t0"⟩),
    .loop (.cancelCall 0 sampleJob), .nextSection, .nextSection, .loop .dequeue]

theorem cancelled_uncounted :
    ¬∀ m, Path (Metered.step sampleFingerprint) (fun _ a => a ≠ .loop .stopLoop) Metered.initial m →
      Quiet m.runner → ∀ mode status, status.isTerminal = true →
        {job | ∃ record, m.runner.store.jobs job = some record ∧ record.mode = mode ∧
          record.status = status}.encard = m.jobTerminal mode status.value := by
  intro h
  obtain ⟨m, hm⟩ : ∃ m, runWithin (Metered.step sampleFingerprint)
      (fun _ a => goesOn true a = true) Metered.initial samplePassedOver = some m := ⟨_, rfl⟩
  have hpath : Path (Metered.step sampleFingerprint) (fun _ a => a ≠ .loop .stopLoop)
      Metered.initial m := by
    refine (Path.of_runWithin hm).mono fun _ a hgoes => ?_
    rintro rfl
    cases hgoes
  have hcancels : m.runner.cancels = Function.update (fun _ => .absent) 0 (.finished true) := by
    cases hm
    rfl
  have hquiet : Quiet m.runner := by
    refine ⟨by cases hm; rfl, by cases hm; rfl, by cases hm; rfl, fun task job => ?_⟩
    by_cases htask : task = 0
    · simp [hcancels, htask]
    · simp [hcancels, htask]
  have hempty := h m hpath hquiet (ascii "t2v") .cancelled rfl
  have hzero : m.jobTerminal (ascii "t2v") JobStatus.cancelled.value = 0 := by
    cases hm
    rfl
  obtain ⟨record, hget, hmode, hstatus⟩ : ∃ record, m.runner.store.jobs sampleJob = some record ∧
      record.mode = ascii "t2v" ∧ record.status = .cancelled := by
    cases hm
    exact ⟨_, rfl, rfl, rfl⟩
  rw [hzero, Nat.cast_zero, Set.encard_eq_zero] at hempty
  exact Set.eq_empty_iff_forall_notMem.mp hempty sampleJob ⟨record, hget, hmode, hstatus⟩

end Cosmos3.Lease
