import Cosmos3.Lease.History
import Mathlib.Data.List.Nodup

namespace Cosmos3.Lease

open Basis Orchestrator
open Jobs (JobId JobStatus JobStore LoopPc sampleFingerprint sampleJob)

-- The job that has left the queue and whose work has not been invoked.
def pending : LoopPc → List JobId
  | .leaseWait job _ | .acquiring job _ => [job]
  | .stopped | .idle | .working _ | .failEvicting _ => []

-- The job's worker thread is inside `work`.
def InFlight (r : Jobs.State) (job : JobId) : Prop := (r.threads job).isResting = false

-- Work is under way for the job that the loop waits for, and for no other.
def Attended (r : Jobs.State) : Prop :=
  ∀ job, InFlight r job → r.loop = .working job ∧
    ∀ part, r.busy = some part → loopJob part = none

section Steps

variable {fingerprint : Text → Python.Dict → Text} {r r' : Jobs.State} {a : Jobs.Action}

theorem attended_initial : Attended Jobs.initial := by
  intro job hflight
  cases hflight

theorem Attended.resting (h : Attended r) (hloop : ∀ job, r.loop ≠ .working job) (job : JobId) :
    ¬InFlight r job := fun hflight => hloop job (h job hflight).1

theorem attended_of_resting (h : ∀ job, ¬InFlight r job) (hthreads : r'.threads = r.threads) :
    Attended r' := by
  intro job hflight
  rw [InFlight, hthreads] at hflight
  exact absurd hflight (h job)

-- The loop stays where it is, and cancels go on.
theorem Attended.congr (h : Attended r) (hthreads : r'.threads = r.threads) (hloop : r'.loop = r.loop)
    (hbusy : ∀ part, r'.busy = some part → r.busy = some part ∨ loopJob part = none) :
    Attended r' := by
  intro job hflight
  rw [InFlight, hthreads] at hflight
  obtain ⟨hworking, hpart⟩ := h job hflight
  refine ⟨hloop ▸ hworking, fun part hp => ?_⟩
  rcases hbusy part hp with hsame | hnone
  · exact hpart part hsame
  · exact hnone

theorem Attended.performs (hp : Placed r) (h : Attended r) (hs : Performs fingerprint r a r') :
    Attended r' := by
  have hloop : ∀ {loop : LoopPc}, r.loop = loop → (∀ job, loop ≠ .working job) →
      ∀ job, ¬InFlight r job := fun heq hne => h.resting fun job hw => hne job (heq ▸ hw)
  -- a section of the loop runs when no work is under way
  have hsection : ∀ part job, r.busy = some part → loopJob part = some job →
      ∀ other, ¬InFlight r other := by
    intro part job hpart hjob other hflight
    rw [(h other hflight).2 part hpart] at hjob
    cases hjob
  have hover : ∀ {job : JobId} {outcome : Jobs.WorkOutcome}, r.loop = .working job →
      r.threads job = .finished outcome → ∀ other, ¬InFlight r other := by
    intro job outcome hworking hthread other hflight
    have heq := (h other hflight).1
    rw [hworking] at heq
    cases heq
    rw [InFlight, hthread] at hflight
    cases hflight
  cases hs with
  | startLoop heq => exact attended_of_resting (hloop heq nofun) rfl
  | replay => exact h
  | create => exact h.congr rfl rfl fun _ hpart => .inl hpart
  | passesCancelled heq => exact attended_of_resting (hloop heq nofun) rfl
  | passes heq => exact attended_of_resting (hloop heq nofun) rfl
  | takes heq => exact attended_of_resting (hloop heq nofun) rfl
  | leaseGranted heq => exact attended_of_resting (hloop heq nofun) rfl
  | acquireReturns heq hproceeds => exact attended_of_resting (hloop heq nofun) hproceeds.threads
  | acquireRaises _ heq hproceeds => exact attended_of_resting (hloop heq nofun) hproceeds.threads
  | workRaises heq hthread hproceeds => exact attended_of_resting (hover heq hthread) hproceeds.threads
  | workReturns heq hthread hproceeds => exact attended_of_resting (hover heq hthread) hproceeds.threads
  | failureEvicted heq => exact attended_of_resting (hloop heq nofun) rfl
  | cancelRefused => exact h.congr rfl rfl fun _ hpart => .inl hpart
  | cancelEvicts => exact h.congr rfl rfl fun _ hpart => .inl hpart
  | cancelMarks =>
      refine h.congr rfl rfl fun part hpart => .inr ?_
      cases hpart
      rfl
  | cancelEvicted _ hc =>
      obtain ⟨hthreads, hsame, -, hpart⟩ := hc.control
      exact h.congr hthreads hsame fun part hp => .inr (hpart part hp)
  | cancelRaises => exact h.congr rfl rfl fun _ hpart => .inl hpart
  | @appendRunning job history hpart =>
      obtain ⟨⟨record, hacquiring⟩, -⟩ := hp.serial.starting job hpart
      have hnone := hloop hacquiring nofun
      intro other hflight
      by_cases hother : other = job
      · exact ⟨by rw [hother], nofun⟩
      · simp only [InFlight, Function.update_of_ne hother] at hflight
        exact absurd hflight (hnone other)
  | @appendFailed job _ _ hpart => exact attended_of_resting (hsection _ job hpart rfl) rfl
  | @appendSucceeded job _ _ hpart => exact attended_of_resting (hsection _ job hpart rfl) rfl
  | cancelUpdate _ hc =>
      obtain ⟨hthreads, hsame, -, hpart⟩ := hc.control
      exact h.congr hthreads hsame fun part hp => .inr (hpart part hp)
  | appendCancelled => exact h.congr rfl rfl fun _ hpart => nomatch hpart
  | @thread job action store threads history _ hthread hothers =>
      intro other hflight
      by_cases hother : other = job
      · exact hother ▸ h job hthread
      · simp only [InFlight, hothers other hother] at hflight
        exact h other hflight

-- Work gets under way in the section that appends the running event, and nowhere else.
theorem Performs.inFlight (hs : Performs fingerprint r a r') {job : JobId} (hafter : InFlight r' job) :
    InFlight r job ∨ (a = .nextSection ∧ r.busy = some (.appendRunning job)) := by
  cases hs with
  | acquireReturns _ hp => exact .inl (by rwa [InFlight, hp.threads] at hafter)
  | acquireRaises _ _ hp => exact .inl (by rwa [InFlight, hp.threads] at hafter)
  | workRaises _ _ hp => exact .inl (by rwa [InFlight, hp.threads] at hafter)
  | workReturns _ _ hp => exact .inl (by rwa [InFlight, hp.threads] at hafter)
  | cancelEvicted _ hc => exact .inl (by rwa [InFlight, hc.control.1] at hafter)
  | cancelUpdate _ hc => exact .inl (by rwa [InFlight, hc.control.1] at hafter)
  | @appendRunning other history hpart =>
      by_cases hother : job = other
      · exact .inr ⟨rfl, hother ▸ hpart⟩
      · simp only [InFlight, Function.update_of_ne hother] at hafter
        exact .inl hafter
  | @thread other action store threads history _ hthread hothers =>
      by_cases hother : job = other
      · exact .inl (hother ▸ hthread)
      · simp only [InFlight, hothers job hother] at hafter
        exact .inl hafter
  | _ => exact .inl hafter

-- The order of the queue, and what has become of the jobs that left it.
structure Ordered (r : Jobs.State) (j : Journal) : Prop where
  line : ∃ front, j.enqueued = front ++ (pending r.loop ++ r.queue) ∧ j.started.Sublist front
  nodup : j.enqueued.Nodup
  known : ∀ job ∈ j.enqueued, r.store.status job ≠ none
  started : ∀ job ∈ j.started, job ∈ j.marked
  starting : ∀ job, r.busy = some (.appendRunning job) → job ∈ j.marked
  ending : ∀ task job, r.busy = some (.appendCancelled task job) →
    ∃ status, r.store.status job = some status ∧ status.isTerminal = true
  withdrawn : ∀ job ∈ j.withdrawn, job ∉ j.marked ∧
    ∃ status, r.store.status job = some status ∧ status.isTerminal = true

theorem ordered_initial : Ordered Jobs.initial {} := by
  constructor <;> simp [Jobs.initial, pending]

theorem Ordered.known_after {j : Journal} (h : Ordered r j) (hstays : Stays r r') :
    ∀ job ∈ j.enqueued, r'.store.status job ≠ none := by
  intro job hjob
  obtain ⟨status, hstatus⟩ := Option.ne_none_iff_exists'.mp (h.known job hjob)
  obtain ⟨after, hafter, -⟩ := hstays job status hstatus
  simp [hafter]

theorem Ordered.withdrawn_after {j : Journal} (h : Ordered r j) (hstays : Stays r r') :
    ∀ job ∈ j.withdrawn, job ∉ j.marked ∧
      ∃ status, r'.store.status job = some status ∧ status.isTerminal = true := by
  intro job hjob
  obtain ⟨hmarked, hover⟩ := h.withdrawn job hjob
  exact ⟨hmarked, hstays.terminal hover⟩

-- Jobs leave the line at its front.
theorem Ordered.advance {j : Journal} (h : Ordered r j) (hstays : Stays r r') (skipped : List JobId)
    (hline : pending r.loop ++ r.queue = skipped ++ (pending r'.loop ++ r'.queue))
    (hbusy : r'.busy = r.busy ∨ (∀ job, r'.busy ≠ some (.appendRunning job)) ∧
      ∀ task job, r'.busy = some (.appendCancelled task job) →
        ∃ status, r'.store.status job = some status ∧ status.isTerminal = true) : Ordered r' j where
  line := by
    obtain ⟨front, hqueue, hstarted⟩ := h.line
    refine ⟨front ++ skipped, ?_, hstarted.trans (List.sublist_append_left front skipped)⟩
    rw [hqueue, hline, List.append_assoc]
  nodup := h.nodup
  known := h.known_after hstays
  started := h.started
  starting job hpart := by
    rcases hbusy with hsame | ⟨hne, -⟩
    · exact h.starting job (hsame ▸ hpart)
    · exact absurd hpart (hne job)
  ending task job hpart := by
    rcases hbusy with hsame | ⟨-, hover⟩
    · exact hstays.terminal (h.ending task job (hsame ▸ hpart))
    · exact hover task job hpart
  withdrawn := h.withdrawn_after hstays

theorem Ordered.create {j : Journal} (h : Ordered r j) (hstays : Stays r r')
    {submission : Jobs.Submission} (hfresh : r.store.jobs submission.id = none)
    (hstatus : r'.store.status submission.id ≠ none) (hloop : r'.loop = r.loop)
    (hqueue : r'.queue = r.queue ++ [submission.id]) (hbusy : r'.busy = r.busy) :
    Ordered r' { j with enqueued := j.enqueued ++ [submission.id] } where
  line := by
    obtain ⟨front, hline, hstarted⟩ := h.line
    exact ⟨front, by simp [hline, hloop, hqueue], hstarted⟩
  nodup := by
    refine h.nodup.append (List.nodup_singleton _) (List.disjoint_singleton.mpr fun hmem => ?_)
    exact h.known _ hmem (by simp [JobStore.status, hfresh])
  known job hjob := by
    rcases List.mem_append.mp hjob with hmem | hmem
    · exact h.known_after hstays job hmem
    · exact List.mem_singleton.mp hmem ▸ hstatus
  started := h.started
  starting job hpart := h.starting job (hbusy ▸ hpart)
  ending task job hpart := hstays.terminal (h.ending task job (hbusy ▸ hpart))
  withdrawn := h.withdrawn_after hstays

-- A job is marked running when its record is queued.
theorem Ordered.marks {j : Journal} (h : Ordered r j) (hstays : Stays r r') {job : JobId}
    (hqueued : r.store.status job = some .queued) (hloop : r'.loop = r.loop)
    (hqueue : r'.queue = r.queue) (hbusy : r'.busy = some (.appendRunning job)) :
    Ordered r' { j with marked := j.marked ++ [job] } where
  line := by
    rw [hloop, hqueue]
    exact h.line
  nodup := h.nodup
  known := h.known_after hstays
  started other hother := List.mem_append_left _ (h.started other hother)
  starting other hother := by
    rw [hbusy] at hother
    cases hother
    simp
  ending task other hother := by simp [hbusy] at hother
  withdrawn other hother := by
    obtain ⟨hmarked, hafter⟩ := h.withdrawn_after hstays other hother
    refine ⟨fun hmem => ?_, hafter⟩
    rcases List.mem_append.mp hmem with hmem | hmem
    · exact hmarked hmem
    · obtain rfl := List.mem_singleton.mp hmem
      obtain ⟨-, status, hstatus, hterminal⟩ := h.withdrawn other hother
      rw [hqueued] at hstatus
      cases hstatus
      cases hterminal

theorem Ordered.starts {j : Journal} (h : Ordered r j) (hstays : Stays r r') {job : JobId}
    {record : Jobs.JobRecord} (hloop : r.loop = .acquiring job record)
    (hworking : r'.loop = .working job) (hqueue : r'.queue = r.queue)
    (hbusy : r.busy = some (.appendRunning job)) (hnone : r'.busy = none) :
    Ordered r' { j with started := j.started ++ [job] } where
  line := by
    obtain ⟨front, hline, hstarted⟩ := h.line
    refine ⟨front ++ [job], ?_, hstarted.append (List.Sublist.refl _)⟩
    rw [hloop] at hline
    simp [hline, hworking, hqueue, pending]
  nodup := h.nodup
  known := h.known_after hstays
  started other hother := by
    rcases List.mem_append.mp hother with hmem | hmem
    · exact h.started other hmem
    · rw [List.mem_singleton.mp hmem]
      exact h.starting job hbusy
  starting other hother := by simp [hnone] at hother
  ending task other hother := by simp [hnone] at hother
  withdrawn := h.withdrawn_after hstays

theorem Ordered.withdraws {j : Journal} (h : Ordered r j) (hstays : Stays r r')
    {task : Jobs.TaskId} {job : JobId} (hbusy : r.busy = some (.appendCancelled task job))
    (hmarked : job ∉ j.marked) (hloop : r'.loop = r.loop) (hqueue : r'.queue = r.queue)
    (hnone : r'.busy = none) :
    Ordered r' { j with withdrawn := j.withdrawn ++ [job] } where
  line := by
    rw [hloop, hqueue]
    exact h.line
  nodup := h.nodup
  known := h.known_after hstays
  started := h.started
  starting other hother := by simp [hnone] at hother
  ending task other hother := by simp [hnone] at hother
  withdrawn other hother := by
    rcases List.mem_append.mp hother with hmem | hmem
    · exact h.withdrawn_after hstays other hmem
    · obtain rfl := List.mem_singleton.mp hmem
      exact ⟨hmarked, hstays.terminal (h.ending task other hbusy)⟩

theorem Ordered.cancels {j : Journal} (h : Ordered r j) (hstays : Stays r r') {task : Jobs.TaskId}
    {job : JobId} (hc : Cancels r task job r') : Ordered r' j := by
  cases hc with
  | refused _ heq =>
      subst heq
      exact h.advance hstays [] rfl (.inr ⟨nofun, nofun⟩)
  | @updates _ _ _ updated hupdated heq =>
      subst heq
      refine h.advance hstays [] rfl (.inr ⟨by simp, fun other job' hpart => ?_⟩)
      cases hpart
      exact ⟨updated.status, by simp [JobStore.status_put], by rw [hupdated]; rfl⟩

theorem Ordered.proceeds {j : Journal} (h : Ordered r j) (hstays : Stays r r') {job : JobId}
    {allowed : JobStatus → Prop} {part : Jobs.Section} {status : JobStatus}
    (hpart : loopJob part = some job) (hrunning : ∀ other, part ≠ .appendRunning other)
    (hp : Proceeds r job allowed part status r') : Ordered r' j := by
  cases hp with
  | drops _ heq =>
      subst heq
      exact h.advance hstays (pending r.loop) rfl (.inl rfl)
  | refused _ _ heq =>
      subst heq
      exact h.advance hstays (pending r.loop) rfl (.inl rfl)
  | updates _ _ _ _ heq =>
      subst heq
      refine h.advance hstays [] rfl (.inr ⟨by simpa using hrunning, fun task other hother => ?_⟩)
      cases hother
      cases hpart

theorem Ordered.performs {j : Journal} (hp : Placed r) (h : Ordered r j)
    (hbusy : ∀ action, a = .loop action → r.busy = none) (hs : Performs fingerprint r a r') :
    Ordered r' (j.note r a r') := by
  have hstays : Stays r r' := hs.stays
  have hpass : ∀ {job : JobId} {queue : List JobId}, r.loop = .idle → r.queue = job :: queue →
      pending r.loop ++ r.queue = [job] ++ ([] ++ queue) := by
    intro job queue hloop hqueue
    rw [hloop, hqueue]
    rfl
  cases hs with
  | startLoop hloop => exact h.advance hstays [] (by rw [hloop]; rfl) (.inl rfl)
  | replay => simpa [Journal.note] using h
  | create submission hfresh =>
      have hcreate := h.create hstays hfresh (by simp [JobStore.status_create]) rfl rfl rfl
      simpa [Journal.note] using hcreate
  | @passesCancelled job queue hloop hqueue =>
      exact h.advance hstays [job] (by rw [hpass hloop hqueue, hloop]; rfl) (.inl rfl)
  | @passes job queue hloop hqueue =>
      exact h.advance hstays [job] (by rw [hpass hloop hqueue, hloop]; rfl) (.inl rfl)
  | takes hloop hqueue => exact h.advance hstays [] (by rw [hpass hloop hqueue]; rfl) (.inl rfl)
  | leaseGranted hloop => exact h.advance hstays [] (by rw [hloop]; rfl) (.inl rfl)
  | @acquireReturns job record _ hloop hproceeds =>
      have hidle := hbusy _ rfl
      cases hproceeds with
      | drops _ heq =>
          subst heq
          simp only [Journal.note, hidle]
          exact h.advance hstays (pending r.loop) rfl (.inl hidle.symm)
      | refused _ _ heq =>
          subst heq
          simp only [Journal.note, hidle]
          exact h.advance hstays (pending r.loop) rfl (.inl hidle.symm)
      | updates _ hstatus hqueued _ heq =>
          subst heq
          exact h.marks hstays (by rw [hstatus, hqueued]) rfl rfl rfl
  | acquireRaises _ _ hproceeds => exact h.proceeds hstays rfl (by simp) hproceeds
  | workRaises _ _ hproceeds => exact h.proceeds hstays rfl (by simp) hproceeds
  | workReturns _ _ hproceeds => exact h.proceeds hstays rfl (by simp) hproceeds
  | failureEvicted => exact h.advance hstays (pending r.loop) rfl (.inl rfl)
  | cancelRefused => exact h.advance hstays [] rfl (.inl rfl)
  | cancelEvicts => exact h.advance hstays [] rfl (.inl rfl)
  | cancelMarks => exact h.advance hstays [] rfl (.inr ⟨by simp, by simp⟩)
  | cancelEvicted _ hc => exact h.cancels hstays hc
  | cancelRaises => exact h.advance hstays [] rfl (.inl rfl)
  | @appendRunning job history hpart =>
      obtain ⟨⟨record, hacquiring⟩, -⟩ := hp.serial.starting job hpart
      simp only [Journal.note, hpart]
      exact h.starts hstays hacquiring rfl rfl hpart rfl
  | appendFailed hpart =>
      simp only [Journal.note, hpart]
      exact h.advance hstays (pending r.loop) rfl (.inr ⟨by simp, by simp⟩)
  | appendSucceeded hpart =>
      simp only [Journal.note, hpart]
      exact h.advance hstays (pending r.loop) rfl (.inr ⟨by simp, by simp⟩)
  | cancelUpdate hpart hc =>
      simp only [Journal.note, hpart]
      exact h.cancels hstays hc
  | @appendCancelled task job history hpart =>
      simp only [Journal.note, hpart]
      split
      · exact h.advance hstays [] rfl (.inr ⟨by simp, by simp⟩)
      · rename_i hmarked
        exact h.withdraws hstays hpart hmarked rfl rfl rfl
  | thread => exact h.advance hstays [] rfl (.inl rfl)

-- The loop reaches its acquire by the grant of the lease alone.
theorem Performs.acquiring (hs : Performs fingerprint r a r') {job : JobId} {record : Jobs.JobRecord}
    (hloop : r'.loop = .acquiring job record) :
    a = .loop .leaseGranted ∨ r.loop = .acquiring job record := by
  have hproceeds : ∀ {other : JobId} {allowed : JobStatus → Prop} {part : Jobs.Section}
      {status : JobStatus}, Proceeds r other allowed part status r' →
      r.loop = .acquiring job record := by
    intro other allowed part status hp
    rcases hp.control with ⟨hidle, -⟩ | ⟨hsame, -⟩
    · simp [hidle] at hloop
    · rw [← hsame, hloop]
  cases hs with
  | leaseGranted => exact .inl rfl
  | acquireReturns _ hp => exact .inr (hproceeds hp)
  | acquireRaises _ _ hp => exact .inr (hproceeds hp)
  | workRaises _ _ hp => exact .inr (hproceeds hp)
  | workReturns _ _ hp => exact .inr (hproceeds hp)
  | cancelEvicted _ hc => exact .inr (hc.control.2.1 ▸ hloop)
  | cancelUpdate _ hc => exact .inr (hc.control.2.1 ▸ hloop)
  | startLoop | takes | failureEvicted | appendRunning | appendFailed | appendSucceeded => cases hloop
  | _ => exact .inr hloop

theorem Performs.starting (hs : Performs fingerprint r a r') {job : JobId}
    (hbusy : r'.busy = some (.appendRunning job)) :
    a = .loop .acquireReturns ∨ r.busy = some (.appendRunning job) := by
  have hproceeds : ∀ {other : JobId} {allowed : JobStatus → Prop} {part : Jobs.Section}
      {status : JobStatus}, (∀ job', part ≠ .appendRunning job') →
      Proceeds r other allowed part status r' → r.busy = some (.appendRunning job) := by
    intro other allowed part status hpart hp
    rcases hp.control with ⟨-, hsame⟩ | ⟨-, hnew⟩
    · rw [← hsame, hbusy]
    · rw [hnew] at hbusy
      exact absurd (Option.some.inj hbusy) (hpart job)
  have hcancels : ∀ {task : Jobs.TaskId} {other : JobId}, ¬Cancels r task other r' := by
    intro task other hc
    cases hc.control.2.2.2 _ hbusy
  cases hs with
  | acquireReturns => exact .inl rfl
  | acquireRaises _ _ hp => exact .inr (hproceeds (by simp) hp)
  | workRaises _ _ hp => exact .inr (hproceeds (by simp) hp)
  | workReturns _ _ hp => exact .inr (hproceeds (by simp) hp)
  | cancelEvicted _ hc => exact absurd hc hcancels
  | cancelUpdate _ hc => exact absurd hc hcancels
  | cancelMarks | appendRunning | appendFailed | appendSucceeded | appendCancelled => cases hbusy
  | _ => exact .inr hbusy

end Steps

section Runs

variable {fingerprint : Text → Python.Dict → Text} {label : Python.Value → String} {idleTimeout : ℚ}
  {ok : History → Action → Prop} {h h' : History} {a : Action}

-- The loop's acquire is the one called for its job, and it has returned when the
-- job is marked running.
structure Attributed (h : History) : Prop where
  acquiring : ∀ job record, h.sys.runner.loop = .acquiring job record →
    h.calledFor h.sys.loopAcquire = some job
  starting : ∀ job, h.sys.runner.busy = some (.appendRunning job) →
    h.sys.orch.tasks h.sys.loopAcquire = .finished .returned

theorem note_calledFor (h : History) {a : Action} (s' : State)
    (hother : ∀ task made, a ≠ .runner (.loop .leaseGranted) task made) :
    (h.note a s').calledFor = h.calledFor := by
  unfold History.note
  split
  · rename_i action task made
    split
    · exact absurd rfl (hother task made)
    · rfl
  · rfl
  · rfl

theorem Attributed.step (hsafe : Safe h.sys) (hattr : Attributed h)
    (hs : History.step fingerprint label idleTimeout h a = some h') : Attributed h' := by
  obtain ⟨hstep, heq⟩ := History.step_eq_some hs
  obtain ⟨-, hfollows⟩ := step_safe hsafe hstep
  have hkept : ∀ {t : Orchestrator.TaskId}, h.sys.orch.tasks t = .finished .returned →
      h'.sys.orch.tasks t = .finished .returned := fun hfinished =>
    hfollows.kept.finished _ _ hfinished
  by_cases hrunner : ∃ action task made, a = .runner action task made
  · obtain ⟨action, task, made, rfl⟩ := hrunner
    obtain ⟨hstop, hrun, heffects⟩ := runnerStep_effects hstep
    have hperforms := step_performs hstop hrun
    by_cases hgrant : action = .loop .leaseGranted
    · subst hgrant
      have hidle := (step_loop hrun).1
      refine ⟨fun job record hloop => ?_, fun job hbusy => ?_⟩
      · have hcalled : h'.calledFor = Function.update h.calledFor task (some job) := by
          rw [heq]
          simp [History.note, hloop, heldJob]
        rw [heffects.granted, hcalled, Function.update_self]
      · rcases hperforms.starting hbusy with hne | hbefore
        · cases hne
        · rw [hidle] at hbefore
          cases hbefore
    · have hsame := heffects.loopAcquire hgrant
      have hcalled : h'.calledFor = h.calledFor := by
        rw [heq]
        exact note_calledFor h h'.sys (by simp [hgrant])
      refine ⟨fun job record hloop => ?_, fun job hbusy => ?_⟩
      · rw [hsame, hcalled]
        exact hattr.acquiring job record ((hperforms.acquiring hloop).resolve_left hgrant)
      · rw [hsame]
        rcases hperforms.starting hbusy with rfl | hbefore
        · exact hkept heffects.acquired
        · exact hkept (hattr.starting job hbefore)
  · have hother : ∀ action task made, a ≠ .runner action task made :=
      fun action task made ha => hrunner ⟨action, task, made, ha⟩
    obtain ⟨hsame, hcall, -⟩ := step_other hstep hother
    have hcalled : h'.calledFor = h.calledFor := by
      rw [heq]
      exact note_calledFor h h'.sys fun task made => hother _ task made
    refine ⟨fun job record hloop => ?_, fun job hbusy => ?_⟩
    · rw [hcall, hcalled]
      exact hattr.acquiring job record (hsame ▸ hloop)
    · rw [hcall]
      exact hkept (hattr.starting job (hsame ▸ hbusy))

theorem note_journal (h : History) (action : Jobs.Action) (task : Orchestrator.TaskId) (made : Bool)
    (s' : State) : (h.note (.runner action task made) s').journal =
      h.journal.note h.sys.runner action s'.runner := rfl

theorem note_journal_other (h : History) {a : Action} (s' : State)
    (hother : ∀ action task made, a ≠ .runner action task made) :
    (h.note a s').journal = h.journal := by
  unfold History.note
  split
  · rename_i action task made
    exact absurd rfl (hother action task made)
  · rfl
  · rfl

-- The invariants of the history, together.
structure Recorded (h : History) : Prop where
  safe : Safe h.sys
  attended : Attended h.sys.runner
  ordered : Ordered h.sys.runner h.journal
  attributed : Attributed h

theorem recorded_initial : Recorded .initial :=
  ⟨safe_initial, attended_initial, ordered_initial, ⟨nofun, nofun⟩⟩

theorem Recorded.step (hrec : Recorded h)
    (hs : History.step fingerprint label idleTimeout h a = some h') : Recorded h' := by
  obtain ⟨hstep, heq⟩ := History.step_eq_some hs
  refine ⟨(step_safe hrec.safe hstep).1, ?_, ?_, hrec.attributed.step hrec.safe hs⟩
  · by_cases hrunner : ∃ action task made, a = .runner action task made
    · obtain ⟨action, task, made, rfl⟩ := hrunner
      obtain ⟨hstop, hrun, -⟩ := runnerStep_effects hstep
      exact hrec.attended.performs hrec.safe.placed (step_performs hstop hrun)
    · rw [(step_other hstep fun action task made ha => hrunner ⟨action, task, made, ha⟩).1]
      exact hrec.attended
  · by_cases hrunner : ∃ action task made, a = .runner action task made
    · obtain ⟨action, task, made, rfl⟩ := hrunner
      obtain ⟨hstop, hrun, -⟩ := runnerStep_effects hstep
      rw [heq, note_journal, History.note_sys]
      refine hrec.ordered.performs hrec.safe.placed ?_ (step_performs hstop hrun)
      rintro action rfl
      exact (step_loop hrun).1
    · have hother : ∀ action task made, a ≠ .runner action task made :=
        fun action task made ha => hrunner ⟨action, task, made, ha⟩
      rw [(step_other hstep hother).1, heq, note_journal_other h h'.sys hother]
      exact hrec.ordered

theorem reachable_recorded
    (hr : Path (History.step fingerprint label idleTimeout) ok History.initial h) : Recorded h :=
  hr.invariant Recorded recorded_initial fun _ _ _ hrec _ hs => hrec.step hs

-- The steps that invoke a job's work.
def Invokes (h : History) (a : Action) (job : JobId) : Prop :=
  ∃ task made, a = .runner .nextSection task made ∧ h.sys.runner.busy = some (.appendRunning job)

theorem serial_execution
    (hr : Reachable (History.step fingerprint label idleTimeout) History.initial h) :
    (∀ job other, InFlight h.sys.runner job → InFlight h.sys.runner other → job = other) ∧
    h.journal.started.Nodup ∧
    h.journal.started.Sublist h.journal.enqueued ∧ h.journal.enqueued.Nodup ∧
    (∀ job ∈ h.journal.withdrawn, job ∉ h.journal.started) ∧
    ∀ a h' job, History.step fingerprint label idleTimeout h a = some h' →
      (¬InFlight h.sys.runner job → InFlight h'.sys.runner job → Invokes h a job) ∧
      (Invokes h a job → h'.journal.started = h.journal.started ++ [job] ∧
        h.sys.runner.store.status job = some .running ∧
        ∃ task, h.calledFor task = some job ∧ h.sys.orch.tasks task = .finished .returned) := by
  have hrec := reachable_recorded hr
  obtain ⟨front, hline, hstarted⟩ := hrec.ordered.line
  have hsub : h.journal.started.Sublist h.journal.enqueued := by
    rw [hline]
    exact hstarted.trans (List.sublist_append_left _ _)
  refine ⟨fun job other hjob hother => ?_, hsub.nodup hrec.ordered.nodup, hsub, hrec.ordered.nodup,
    fun job hjob hmem => ?_, ?_⟩
  · have hworking := (hrec.attended job hjob).1
    rw [(hrec.attended other hother).1] at hworking
    cases hworking
    rfl
  · exact (hrec.ordered.withdrawn job hjob).1 (hrec.ordered.started job hmem)
  · intro a h' job hs
    obtain ⟨hstep, heq⟩ := History.step_eq_some hs
    refine ⟨fun hbefore hafter => ?_, ?_⟩
    · by_cases hrunner : ∃ action task made, a = .runner action task made
      · obtain ⟨action, task, made, rfl⟩ := hrunner
        obtain ⟨hstop, hrun, -⟩ := runnerStep_effects hstep
        obtain ⟨rfl, hbusy⟩ :=
          ((step_performs hstop hrun).inFlight hafter).resolve_left hbefore
        exact ⟨task, made, rfl, hbusy⟩
      · rw [(step_other hstep fun action task made ha => hrunner ⟨action, task, made, ha⟩).1]
          at hafter
        exact absurd hafter hbefore
    · rintro ⟨task, made, rfl, hbusy⟩
      obtain ⟨⟨record, hloop⟩, record', hget, hrunning⟩ :=
        hrec.safe.placed.serial.starting job hbusy
      refine ⟨?_, JobStore.status_eq_some.mpr ⟨record', hget, hrunning⟩, h.sys.loopAcquire,
        hrec.attributed.acquiring job record hloop, hrec.attributed.starting job hbusy⟩
      rw [heq, note_journal]
      simp [Journal.note, hbusy]

end Runs

def secondJob : JobId := ascii "a2"

-- Of two jobs the first is cancelled in the queue and the second runs.
def sampleWithdrawn : List Action :=
  ([.loop .startLoop, .loop (.submit ⟨ascii "t2v", .generation, [], none, sampleJob, ascii "t0"⟩),
    .loop (.submit ⟨ascii "t2i", .generation, [], none, secondJob, ascii "t1"⟩),
    .loop (.cancelCall 0 sampleJob), .nextSection, .nextSection, .loop .dequeue, .loop .dequeue,
    .loop .leaseGranted] : List Jobs.Action).map (.runner · 0 true) ++
  ([.threadEnters 0, .threadLeaves 0 (.returned true), .resumes 0 true, .threadEnters 0,
    .threadLeaves 0 (.returned true), .resumes 0 true] : List Orchestrator.Action).map .orch ++
  ([.loop .acquireReturns, .nextSection] : List Jobs.Action).map (.runner · 1 true)

theorem serial_execution_sampleWithdrawn :
    ∃ h, run (History.step sampleFingerprint sampleLabel 0) .initial sampleWithdrawn = some h ∧
      h.journal.withdrawn = [sampleJob] ∧ h.journal.started = [secondJob] ∧
      sampleJob ∉ h.journal.started ∧ h.journal.started.Sublist h.journal.enqueued := by
  obtain ⟨h, hr, hwithdrawn, hstarted⟩ : ∃ h,
      run (History.step sampleFingerprint sampleLabel 0) .initial sampleWithdrawn = some h ∧
      h.journal.withdrawn = [sampleJob] ∧ h.journal.started = [secondJob] := ⟨_, rfl, rfl, rfl⟩
  obtain ⟨-, -, horder, -, hnever, -⟩ := serial_execution (Reachable.of_run hr)
  exact ⟨h, hr, hwithdrawn, hstarted, hnever sampleJob (by simp [hwithdrawn]), horder⟩

end Cosmos3.Lease
