import Cosmos3.Lease.Steps

namespace Cosmos3.Lease

open Basis Jobs

-- The job whose turn it is, from its leaving the queue to the end of `_process`.
def turnOf : LoopPc → Option JobId
  | .leaseWait job _ | .acquiring job _ | .working job | .failEvicting job => some job
  | .stopped | .idle => none

-- The status of that job's record while `_process` awaits, if it is not cancelled.
def awaited : LoopPc → JobStatus → Prop
  | .leaseWait _ _, status | .acquiring _ _, status => status = .queued
  | .working _, status => status = .running
  | .failEvicting _, status => status.isTerminal = true
  | .stopped, _ | .idle, _ => True

-- A call of `cancel` that has put the job in the set and has not updated its record.
def Cancelling (r : Jobs.State) (job : JobId) : Prop :=
  (∃ task, r.cancels task = .evicting job) ∨ ∃ task, r.busy = some (.cancelUpdate task job)

-- Who is going to bring each job that is not terminal to a terminal status.
structure Tended (r : Jobs.State) : Prop where
  known : ∀ job, job ∈ r.cancelled ∨ turnOf r.loop = some job → r.store.status job ≠ none
  queued : ∀ job, r.store.status job = some .queued → job ∈ r.queue ∨ turnOf r.loop = some job
  running : ∀ job, r.store.status job = some .running →
    turnOf r.loop = some job ∨ Cancelling r job
  cancelled : ∀ job status, job ∈ r.cancelled → r.store.status job = some status →
    status.isTerminal = false → Cancelling r job
  turn : ∀ job status, turnOf r.loop = some job → job ∉ r.cancelled →
    r.store.status job = some status →
    awaited r.loop status ∨ ∃ part, r.busy = some part ∧ loopJob part = some job
  evicting : ∀ task job, r.cancels task = .evicting job →
    ∃ status, r.store.status job = some status ∧ status ≠ .queued
  member : ∀ job, Cancelling r job → turnOf r.loop = some job → job ∈ r.cancelled
  calling : ∀ task job, r.busy = some (.cancelUpdate task job) ∨
    r.busy = some (.appendCancelled task job) →
    ∀ other, other ≠ job → r.cancels task ≠ .evicting other

theorem tended_initial : Tended Jobs.initial := by
  constructor <;> simp [Jobs.initial, JobStore.empty, JobStore.status, Cancelling, turnOf]

section Steps

variable {fingerprint : Text → Python.Dict → Text} {r r' : Jobs.State}

-- The eviction that a cancel has asked for raises while nobody else is cancelling
-- the job, whose record is not terminal.
def strands (r : Jobs.State) (task : Jobs.TaskId) : Prop :=
  ∃ job status, r.cancels task = .evicting job ∧ r.store.status job = some status ∧
    status.isTerminal = false ∧ ∀ other, other ≠ task → r.cancels other ≠ .evicting job

-- A call of `cancel` moves on: what is under way for the other jobs stays.
theorem cancelling_congr {task : Jobs.TaskId} {pc : CancelPc} {job : JobId}
    (hcancels : r'.cancels = Function.update r.cancels task pc)
    (hpc : pc = .evicting job ↔ r.cancels task = .evicting job)
    (hbusy : ∀ t, r'.busy = some (.cancelUpdate t job) ↔ r.busy = some (.cancelUpdate t job)) :
    Cancelling r' job ↔ Cancelling r job := by
  refine or_congr (exists_congr fun other => ?_) (exists_congr hbusy)
  rw [hcancels]
  by_cases hother : other = task
  · rw [hother, Function.update_self]
    exact hpc
  · rw [Function.update_of_ne hother]

theorem cancelling_iff_evicting {job : JobId} (hbusy : ∀ task, r.busy ≠ some (.cancelUpdate task job)) :
    Cancelling r job ↔ ∃ task, r.cancels task = .evicting job :=
  or_iff_left fun ⟨task, hpart⟩ => hbusy task hpart

theorem cancelling_iff_of_idle {job : JobId} (hbusy : r.busy = none) :
    Cancelling r job ↔ ∃ task, r.cancels task = .evicting job :=
  cancelling_iff_evicting (by simp [hbusy])

-- Nobody evicts for a job that is queued.
theorem Tended.not_evicting (h : Tended r) {job : JobId} (hstatus : r.store.status job = some .queued) :
    ¬∃ task, r.cancels task = .evicting job := by
  rintro ⟨task, hevicting⟩
  obtain ⟨status, hsome, hne⟩ := h.evicting task job hevicting
  exact hne (Option.some.inj (hsome.symm.trans hstatus))

theorem Placed.status_owed (h : Placed r) {job : JobId} {status before : JobStatus}
    {data : List (Text × Json)} (howed : r.owed job = some (status.value, data))
    (hbefore : r.store.status job = some before) : before = status := by
  obtain ⟨record, hget, rfl⟩ := JobStore.status_eq_some.mp hbefore
  have hcoherent := h.coherent job ⟨record, r.owed job, r.threads job, r.history job⟩ (by
    rw [State.life, hget]
    rfl)
  exact (value_injective (hcoherent.owes _ _ howed)).symm

-- A step that none of the clauses looks at.
theorem Tended.of_same (h : Tended r) (hstatus : ∀ job, r'.store.status job = r.store.status job)
    (hqueue : r'.queue = r.queue) (hcancelled : r'.cancelled = r.cancelled) (hloop : r'.loop = r.loop)
    (hbusy : r'.busy = r.busy)
    (hcancels : ∀ task job, r'.cancels task = .evicting job ↔ r.cancels task = .evicting job) : Tended r' := by
  have hsame : ∀ job, Cancelling r' job ↔ Cancelling r job := fun job =>
    or_congr (exists_congr fun task => hcancels task job) (by rw [hbusy])
  constructor
  · intro job hjob
    rw [hcancelled, hloop] at hjob
    rw [hstatus]
    exact h.known job hjob
  · intro job hqueued
    rw [hstatus] at hqueued
    rw [hqueue, hloop]
    exact h.queued job hqueued
  · intro job hrunning
    rw [hstatus] at hrunning
    rw [hloop, hsame]
    exact h.running job hrunning
  · intro job status hmem hsome hactive
    rw [hcancelled] at hmem
    rw [hstatus] at hsome
    exact (hsame job).mpr (h.cancelled job status hmem hsome hactive)
  · intro job status hturn hmem hsome
    rw [hloop] at hturn ⊢
    rw [hcancelled] at hmem
    rw [hstatus] at hsome
    rw [hbusy]
    exact h.turn job status hturn hmem hsome
  · intro task job hevicting
    obtain ⟨status, hsome, hne⟩ := h.evicting task job ((hcancels task job).mp hevicting)
    exact ⟨status, (hstatus job).trans hsome, hne⟩
  · intro job hcancelling hturn
    rw [hloop] at hturn
    rw [hcancelled]
    exact h.member job ((hsame job).mp hcancelling) hturn
  · intro task job hpart other hother hevicting
    rw [hbusy] at hpart
    exact h.calling task job hpart other hother ((hcancels task other).mp hevicting)

-- The loop goes on to its next await with the same job.
theorem Tended.moves (h : Tended r) {loop : LoopPc} (hturn : turnOf loop = turnOf r.loop)
    (hawaited : ∀ status, awaited r.loop status → awaited loop status) : Tended { r with loop := loop } := by
  constructor
  · intro job hjob
    exact h.known job (by rwa [← hturn])
  · intro job hqueued
    rw [hturn]
    exact h.queued job hqueued
  · intro job hrunning
    rw [hturn]
    exact h.running job hrunning
  · exact h.cancelled
  · intro job status hjob hmem hstatus
    exact (h.turn job status (hturn ▸ hjob) hmem hstatus).imp_left (hawaited status)
  · exact h.evicting
  · intro job hcancelling hjob
    exact h.member job hcancelling (hturn ▸ hjob)
  · exact h.calling

-- The job's turn is over: it is terminal by now, or somebody evicts to cancel it.
theorem Tended.finish (h : Tended r) (hbusy : r.busy = none) {job : JobId}
    (hturn : turnOf r.loop = some job)
    (hdone : job ∈ r.cancelled ∨ ∀ status, awaited r.loop status → r.store.status job = some status →
      status.isTerminal = true) : Tended { r with
        cancelled := r.cancelled.filter (· ≠ job), current := none, loop := .idle } := by
  have hover : ∀ status, r.store.status job = some status → status.isTerminal = false →
      ∃ task, r.cancels task = .evicting job := by
    intro status hstatus hactive
    by_cases hmem : job ∈ r.cancelled
    · exact (cancelling_iff_of_idle hbusy).mp (h.cancelled job status hmem hstatus hactive)
    · rcases h.turn job status hturn hmem hstatus with hawaited | ⟨part, hpart, -⟩
      · rw [hdone.resolve_left hmem status hawaited hstatus] at hactive
        cases hactive
      · rw [hbusy] at hpart
        cases hpart
  have hjob : ∀ {other}, turnOf r.loop = some other → job = other := fun hother =>
    Option.some.inj (hturn.symm.trans hother)
  constructor
  · rintro other (hmem | hother)
    · exact h.known other (.inl (List.mem_filter.mp hmem).1)
    · cases hother
  · intro other hqueued
    refine (h.queued other hqueued).imp_right fun hother => ?_
    obtain rfl := hjob hother
    exact absurd (hover .queued hqueued rfl) (h.not_evicting hqueued)
  · intro other hrunning
    rcases h.running other hrunning with hother | hcancelling
    · obtain rfl := hjob hother
      exact .inr (.inl (hover .running hrunning rfl))
    · exact .inr hcancelling
  · intro other status hmem
    exact h.cancelled other status (List.mem_filter.mp hmem).1
  · intro other status hother
    cases hother
  · exact h.evicting
  · intro other _ hother
    cases hother
  · exact h.calling

-- The record of the job whose turn it is is updated, and its event is to be appended.
theorem Tended.updates (h : Tended r) (hbusy : r.busy = none) {job : JobId}
    (hturn : turnOf r.loop = some job) (hcancelled : job ∉ r.cancelled) {part : Section}
    (hpart : loopJob part = some job) {updated : JobRecord} (hqueued : updated.status ≠ .queued) :
    Tended { r with store := r.store.put job updated, busy := some part } := by
  have hcalls : ∀ task other, part ≠ .cancelUpdate task other ∧ part ≠ .appendCancelled task other := by
    refine fun task other => ⟨?_, ?_⟩
    · rintro rfl
      cases hpart
    · rintro rfl
      cases hpart
  have hsame : ∀ other, Cancelling { r with store := r.store.put job updated, busy := some part } other ↔
      Cancelling r other := by
    intro other
    rw [cancelling_iff_of_idle hbusy, cancelling_iff_evicting]
    exact fun task heq => (hcalls task other).1 (Option.some.inj heq)
  have hself : (r.store.put job updated).status job = some updated.status := by
    rw [JobStore.status_put, if_pos rfl]
  have hother : ∀ other, other ≠ job → (r.store.put job updated).status other = r.store.status other := by
    intro other hne
    rw [JobStore.status_put, if_neg hne]
  constructor
  · intro other hmem
    by_cases hne : other = job
    · simp [hne, hself]
    · rw [hother other hne]
      exact h.known other hmem
  · intro other hstatus
    by_cases hne : other = job
    · rw [hne, hself] at hstatus
      exact absurd (Option.some.inj hstatus) hqueued
    · exact h.queued other (hother other hne ▸ hstatus)
  · intro other hstatus
    by_cases hne : other = job
    · exact .inl (hne ▸ hturn)
    · exact (h.running other (hother other hne ▸ hstatus)).imp_right (hsame other).mpr
  · intro other status hmem hstatus hactive
    have hne : other ≠ job := by
      rintro rfl
      exact hcancelled hmem
    exact (hsame other).mpr (h.cancelled other status hmem (hother other hne ▸ hstatus) hactive)
  · intro other status hjob _ _
    have heq : loopJob part = some other := hpart.trans (hturn.symm.trans hjob)
    exact .inr ⟨part, rfl, heq⟩
  · intro task other hevicting
    by_cases hne : other = job
    · exact ⟨updated.status, hne ▸ hself, hqueued⟩
    · obtain ⟨status, hsome, hstatus⟩ := h.evicting task other hevicting
      exact ⟨status, (hother other hne).trans hsome, hstatus⟩
  · intro other hcancelling hjob
    exact h.member other ((hsame other).mp hcancelling) hjob
  · rintro task other (heq | heq)
    · exact absurd (Option.some.inj heq) (hcalls task other).1
    · exact absurd (Option.some.inj heq) (hcalls task other).2

theorem Tended.proceeds (h : Tended r) (hbusy : r.busy = none) {job : JobId}
    (hturn : turnOf r.loop = some job) {allowed : JobStatus → Prop} {part : Section}
    (hpart : loopJob part = some job) {status : JobStatus} (hqueued : status ≠ .queued)
    (hallowed : ∀ status, awaited r.loop status → allowed status)
    (hp : Proceeds r job allowed part status r') : Tended r' := by
  cases hp with
  | drops hcancelled heq =>
      rw [heq]
      exact h.finish hbusy hturn (.inl hcancelled)
  | refused hcancelled hstatus heq =>
      rw [heq]
      refine h.finish hbusy hturn (.inr fun status hawaited hs => ?_)
      exact absurd (hallowed status hawaited) (hstatus status hs)
  | updates hcancelled hstatus _ hupdated heq =>
      rw [heq]
      exact h.updates hbusy hturn hcancelled hpart (hupdated ▸ hqueued)

-- A call of `cancel` is over, and the job's record is terminal.
theorem Tended.over (h : Tended r) {task : Jobs.TaskId} {job : JobId} {returned : Bool}
    (hterminal : ∀ status, r.store.status job = some status → status.isTerminal = true)
    (hhere : ∀ other, other ≠ job → r.cancels task ≠ .evicting other)
    (hbusy : ∀ part, r.busy = some part →
      part = .cancelUpdate task job ∨ part = .appendCancelled task job)
    (hstore : ∀ other, r'.store.status other = r.store.status other) (hqueue : r'.queue = r.queue)
    (hcancelled : r'.cancelled = r.cancelled) (hloop : r'.loop = r.loop) (hnone : r'.busy = none)
    (hcancels : r'.cancels = Function.update r.cancels task (.finished returned)) : Tended r' := by
  have hsame : ∀ other, other ≠ job → (Cancelling r' other ↔ Cancelling r other) := by
    intro other hother
    refine cancelling_congr hcancels ?_ fun t => ?_
    · simp [hhere other hother]
    · rw [hnone]
      refine ⟨nofun, fun hpart => ?_⟩
      rcases hbusy _ hpart with heq | heq
      · cases heq
        exact absurd rfl hother
      · cases heq
  have hpc : ∀ t other, r'.cancels t = .evicting other → r.cancels t = .evicting other := by
    intro t other hevicting
    rw [hcancels] at hevicting
    exact evicting_of_finished hevicting
  have hsub : ∀ other, Cancelling r' other → Cancelling r other := by
    rintro other (⟨t, ht⟩ | ⟨t, ht⟩)
    · exact .inl ⟨t, hpc t other ht⟩
    · simp [hnone] at ht
  have hne : ∀ other status, r.store.status other = some status → status.isTerminal = false → other ≠ job := by
    rintro other status hstatus hactive rfl
    rw [hterminal status hstatus] at hactive
    cases hactive
  constructor
  · intro other hmem
    rw [hcancelled, hloop] at hmem
    rw [hstore]
    exact h.known other hmem
  · intro other hstatus
    rw [hstore] at hstatus
    rw [hqueue, hloop]
    exact h.queued other hstatus
  · intro other hstatus
    rw [hstore] at hstatus
    rw [hloop, hsame other (hne other .running hstatus rfl)]
    exact h.running other hstatus
  · intro other status hmem hstatus hactive
    rw [hcancelled] at hmem
    rw [hstore] at hstatus
    exact (hsame other (hne other status hstatus hactive)).mpr (h.cancelled other status hmem hstatus hactive)
  · intro other status hturn hmem hstatus
    rw [hloop] at hturn ⊢
    rw [hcancelled] at hmem
    rw [hstore] at hstatus
    refine .inl ((h.turn other status hturn hmem hstatus).resolve_right ?_)
    rintro ⟨part, hpart, hjob⟩
    rcases hbusy part hpart with rfl | rfl
    · cases hjob
    · cases hjob
  · intro t other hevicting
    rw [hstore]
    exact h.evicting t other (hpc t other hevicting)
  · intro other hcancelling hturn
    rw [hloop] at hturn
    rw [hcancelled]
    exact h.member other (hsub other hcancelling) hturn
  · intro t other hpart
    simp [hnone] at hpart

-- The update of `cancel` leaves a terminal record.
theorem Tended.cancels (h : Tended r) {task : Jobs.TaskId} {job : JobId}
    (hcancelling : Cancelling r job)
    (hhere : ∀ other, other ≠ job → r.cancels task ≠ .evicting other)
    (hbusy : ∀ part, r.busy = some part → part = .cancelUpdate task job)
    (hc : Cancels r task job r') : Tended r' := by
  cases hc with
  | refused hstatus heq =>
      subst heq
      exact h.over hstatus hhere (fun part hpart => .inl (hbusy part hpart)) (fun _ => rfl) rfl rfl
        rfl rfl rfl
  | @updates before hstatus hactive updated hupdated heq =>
      subst heq
      have hself : (r.store.put job updated).status job = some .cancelled := by
        rw [JobStore.status_put, if_pos rfl, hupdated]
      have hother : ∀ other, other ≠ job →
          (r.store.put job updated).status other = r.store.status other := by
        intro other hne
        rw [JobStore.status_put, if_neg hne]
      have hactive : ∀ other status, (r.store.put job updated).status other = some status →
          status ≠ .cancelled → other ≠ job ∧ r.store.status other = some status := by
        intro other status hstatus hne
        have hnot : other ≠ job := by
          rintro rfl
          exact hne (Option.some.inj (hstatus.symm.trans hself))
        exact ⟨hnot, hother other hnot ▸ hstatus⟩
      have hsame : ∀ other, other ≠ job → (Cancelling { r with
          store := r.store.put job updated, busy := some (.appendCancelled task job) } other ↔
            Cancelling r other) := by
        intro other hne
        refine or_congr Iff.rfl (exists_congr fun t => ⟨nofun, fun hpart => ?_⟩)
        cases hbusy _ hpart
        exact absurd rfl hne
      constructor
      · intro other hmem
        by_cases hne : other = job
        · simp [hne, hself]
        · rw [hother other hne]
          exact h.known other hmem
      · intro other hqueued
        exact h.queued other (hactive other .queued hqueued nofun).2
      · intro other hrunning
        obtain ⟨hne, hbefore⟩ := hactive other .running hrunning nofun
        exact (h.running other hbefore).imp_right (hsame other hne).mpr
      · intro other status hmem hstatus hopen
        obtain ⟨hne, hbefore⟩ := hactive other status hstatus (by rintro rfl; cases hopen)
        exact (hsame other hne).mpr (h.cancelled other status hmem hbefore hopen)
      · intro other status hturn hmem hstatus
        -- The job itself is in the set if it is its turn.
        have hne : other ≠ job := by
          rintro rfl
          exact hmem (h.member other hcancelling hturn)
        refine .inl ((h.turn other status hturn hmem (hother other hne ▸ hstatus)).resolve_right ?_)
        rintro ⟨part, hpart, hjob⟩
        cases hbusy part hpart
        cases hjob
      · intro t other hevicting
        by_cases hne : other = job
        · exact ⟨.cancelled, hne ▸ hself, nofun⟩
        · obtain ⟨status, hsome, hqueued⟩ := h.evicting t other hevicting
          exact ⟨status, (hother other hne).trans hsome, hqueued⟩
      · intro other hcancelling' hturn
        by_cases hne : other = job
        · exact hne ▸ h.member job hcancelling (hne ▸ hturn)
        · exact h.member other ((hsame other hne).mp hcancelling') hturn
      · rintro t other (hpart | hpart)
        · cases hpart
        · cases hpart
          exact hhere

theorem turnOf_of_heldJob {loop : LoopPc} {job : JobId} (h : heldJob loop = some job) :
    turnOf loop = some job := by
  cases loop <;> simp_all [heldJob, turnOf]

-- A section appends its event, and `_process` goes on to its next await.
theorem Tended.appends (h : Tended r) {job : JobId} (hturn : turnOf r.loop = some job)
    (hbusy : ∀ task other, r.busy ≠ some (.cancelUpdate task other))
    (hstore : ∀ other, r'.store.status other = r.store.status other) (hqueue : r'.queue = r.queue)
    (hcancels : ∀ task, r'.cancels task = r.cancels task) (hnone : r'.busy = none)
    (hloop : (turnOf r'.loop = some job ∧ r'.cancelled = r.cancelled) ∨
      (r'.loop = .idle ∧ r'.cancelled = r.cancelled.filter (· ≠ job)))
    (hafter : ∀ status, r.store.status job = some status → status ≠ .queued ∧
      awaited r'.loop status ∧ (r'.loop = .idle → status ≠ .running)) : Tended r' := by
  have hsame : ∀ other, Cancelling r' other ↔ Cancelling r other := by
    intro other
    rw [cancelling_iff_of_idle hnone, cancelling_iff_evicting fun task => hbusy task other]
    exact exists_congr fun task => by rw [hcancels]
  have hjob : ∀ {other}, turnOf r.loop = some other → job = other := fun hother =>
    Option.some.inj (hturn.symm.trans hother)
  have hthen : ∀ other, turnOf r'.loop = some other → job = other ∧ r'.cancelled = r.cancelled := by
    intro other hother
    rcases hloop with ⟨hsome, hcancelled⟩ | ⟨hidle, -⟩
    · exact ⟨Option.some.inj (hsome.symm.trans hother), hcancelled⟩
    · rw [hidle] at hother
      cases hother
  have hmem : ∀ {other}, other ∈ r'.cancelled → other ∈ r.cancelled := by
    intro other hother
    rcases hloop with ⟨-, hcancelled⟩ | ⟨-, hcancelled⟩
    · rwa [hcancelled] at hother
    · rw [hcancelled] at hother
      exact (List.mem_filter.mp hother).1
  constructor
  · rintro other (hother | hother)
    · rw [hstore]
      exact h.known other (.inl (hmem hother))
    · obtain ⟨rfl, -⟩ := hthen other hother
      rw [hstore]
      exact h.known job (.inr hturn)
  · intro other hstatus
    rw [hstore] at hstatus
    rw [hqueue]
    refine (h.queued other hstatus).imp_right fun hother => ?_
    obtain rfl := hjob hother
    exact absurd rfl (hafter .queued hstatus).1
  · intro other hstatus
    rw [hstore] at hstatus
    rcases h.running other hstatus with hother | hcancelling
    · obtain rfl := hjob hother
      rcases hloop with ⟨hsome, -⟩ | ⟨hidle, -⟩
      · exact .inl hsome
      · exact absurd rfl ((hafter .running hstatus).2.2 hidle)
    · exact .inr ((hsame other).mpr hcancelling)
  · intro other status hother hstatus hactive
    rw [hstore] at hstatus
    exact (hsame other).mpr (h.cancelled other status (hmem hother) hstatus hactive)
  · intro other status hother _ hstatus
    obtain ⟨rfl, -⟩ := hthen other hother
    rw [hstore] at hstatus
    exact .inl (hafter status hstatus).2.1
  · intro task other hevicting
    rw [hcancels] at hevicting
    rw [hstore]
    exact h.evicting task other hevicting
  · intro other hcancelling hother
    obtain ⟨rfl, hcancelled⟩ := hthen other hother
    rw [hcancelled]
    exact h.member job ((hsame job).mp hcancelling) hturn
  · intro task other hpart
    simp [hnone] at hpart

theorem Tended.create (h : Tended r) {submission : Submission}
    (hfresh : r.store.jobs submission.id = none) {history : JobId → List JobEvent} :
    Tended { r with
      store := r.store.create fingerprint submission
      queue := r.queue ++ [submission.id]
      history := history } := by
  have hnone : r.store.status submission.id = none := by simp [JobStore.status, hfresh]
  have hold : ∀ job, r.store.status job ≠ none →
      (r.store.create fingerprint submission).status job = r.store.status job := by
    intro job hjob
    rw [JobStore.status_create, if_neg]
    rintro rfl
    exact hjob hnone
  have hnew : ∀ job status, (r.store.create fingerprint submission).status job = some status →
      status ≠ .queued → r.store.status job = some status := by
    intro job status hstatus hqueued
    rw [JobStore.status_create] at hstatus
    split at hstatus
    · exact absurd (Option.some.inj hstatus).symm hqueued
    · exact hstatus
  constructor
  · intro job hjob
    rw [hold job (h.known job hjob)]
    exact h.known job hjob
  · intro job hstatus
    rw [JobStore.status_create] at hstatus
    split at hstatus
    · rename_i hself
      exact .inl (List.mem_append_right r.queue (List.mem_singleton.mpr hself))
    · exact (h.queued job hstatus).imp_left (List.mem_append_left [submission.id])
  · intro job hstatus
    exact h.running job (hnew job .running hstatus (by decide))
  · intro job status hmem hstatus
    rw [hold job (h.known job (.inl hmem))] at hstatus
    exact h.cancelled job status hmem hstatus
  · intro job status hturn hmem hstatus
    rw [hold job (h.known job (.inr hturn))] at hstatus
    exact h.turn job status hturn hmem hstatus
  · intro task job hevicting
    obtain ⟨status, hsome, hqueued⟩ := h.evicting task job hevicting
    exact ⟨status, (hold job (by simp [hsome])).trans hsome, hqueued⟩
  · exact h.member
  · exact h.calling

-- The queue has lost a job that is not queued any more.
theorem Tended.passes (h : Tended r) {job : JobId} {queue : List JobId}
    (hqueue : r.queue = job :: queue) (hstatus : r.store.status job ≠ some .queued) :
    Tended { r with queue := queue } := by
  refine ⟨h.known, fun other hqueued => ?_, h.running, h.cancelled, h.turn, h.evicting, h.member, h.calling⟩
  refine (h.queued other hqueued).imp_left fun hmem => ?_
  rw [hqueue] at hmem
  rcases List.mem_cons.mp hmem with rfl | htail
  · exact absurd hqueued hstatus
  · exact htail

-- A cancelled job in the queue is terminal, so that nothing is lost with its mark.
theorem Tended.passesCancelled (h : Tended r) (hbusy : r.busy = none) {job : JobId}
    {queue : List JobId} (hloop : r.loop = .idle) (hqueue : r.queue = job :: queue)
    (hcancelled : job ∈ r.cancelled) :
    Tended { r with queue := queue, cancelled := r.cancelled.filter (· ≠ job) } := by
  have hnone : ∀ {other}, turnOf r.loop ≠ some other := by simp [hloop, turnOf]
  have hstatus : r.store.status job ≠ some .queued := fun hqueued =>
    h.not_evicting hqueued ((cancelling_iff_of_idle hbusy).mp (h.cancelled job .queued hcancelled hqueued rfl))
  have hpassed := h.passes hqueue hstatus
  refine ⟨?_, hpassed.queued, h.running, ?_, ?_, h.evicting, ?_, h.calling⟩
  · rintro other (hmem | hturn)
    · exact h.known other (.inl (List.mem_filter.mp hmem).1)
    · exact absurd hturn hnone
  · intro other status hmem
    exact h.cancelled other status (List.mem_filter.mp hmem).1
  · intro other status hturn
    exact absurd hturn hnone
  · intro other _ hturn
    exact absurd hturn hnone

theorem Tended.takes (h : Tended r) (hbusy : r.busy = none) {job : JobId} {queue : List JobId}
    {record : JobRecord} (hloop : r.loop = .idle) (hqueue : r.queue = job :: queue)
    (hstatus : r.store.status job = some .queued) :
    Tended { r with queue := queue, current := some job, loop := .leaseWait job record } := by
  have hnone : ∀ {other}, turnOf r.loop ≠ some other := by simp [hloop, turnOf]
  refine ⟨?_, ?_, ?_, h.cancelled, ?_, h.evicting, ?_, h.calling⟩
  · rintro other (hmem | hturn)
    · exact h.known other (.inl hmem)
    · cases hturn
      simp [hstatus]
  · intro other hqueued
    have hmem := (h.queued other hqueued).resolve_right hnone
    rw [hqueue] at hmem
    rcases List.mem_cons.mp hmem with rfl | htail
    · exact .inr rfl
    · exact .inl htail
  · intro other hrunning
    exact .inr ((h.running other hrunning).resolve_left hnone)
  · intro other status hturn _ hsome
    cases hturn
    exact .inl (Option.some.inj (hsome.symm.trans hstatus))
  · intro other hcancelling hturn
    cases hturn
    exact absurd ((cancelling_iff_of_idle hbusy).mp hcancelling) (h.not_evicting hstatus)

theorem Tended.cancelEvicts (h : Tended r) (hbusy : r.busy = none) {task : Jobs.TaskId}
    {job : JobId} (hcancel : r.cancels task = .absent) (hstatus : r.store.status job = some .running) :
    Tended { r with
      cancelled := job :: r.cancelled
      cancels := Function.update r.cancels task (.evicting job) } := by
  have hsame : ∀ other, other ≠ job → (Cancelling { r with
      cancelled := job :: r.cancelled
      cancels := Function.update r.cancels task (.evicting job) } other ↔ Cancelling r other) :=
    fun other hother => cancelling_congr rfl (by simp [hcancel, hother.symm]) fun _ => Iff.rfl
  have hself : Cancelling { r with
      cancelled := job :: r.cancelled
      cancels := Function.update r.cancels task (.evicting job) } job := .inl ⟨task, by simp⟩
  have hkeeps : ∀ other, Cancelling r other → Cancelling { r with
      cancelled := job :: r.cancelled
      cancels := Function.update r.cancels task (.evicting job) } other := by
    intro other hcancelling
    by_cases hother : other = job
    · exact hother ▸ hself
    · exact (hsame other hother).mpr hcancelling
  constructor
  · rintro other (hmem | hturn)
    · rcases List.mem_cons.mp hmem with rfl | hmem
      · simp [hstatus]
      · exact h.known other (.inl hmem)
    · exact h.known other (.inr hturn)
  · exact h.queued
  · intro other hrunning
    exact (h.running other hrunning).imp_right (hkeeps other)
  · intro other status hmem hsome hactive
    rcases List.mem_cons.mp hmem with rfl | hmem
    · exact hself
    · exact hkeeps other (h.cancelled other status hmem hsome hactive)
  · intro other status hturn hmem
    exact h.turn other status hturn fun hold => hmem (List.mem_cons_of_mem job hold)
  · intro t other hevicting
    simp only [Function.update_apply] at hevicting
    split at hevicting
    · cases hevicting
      exact ⟨.running, hstatus, nofun⟩
    · exact h.evicting t other hevicting
  · intro other hcancelling hturn
    by_cases hother : other = job
    · exact hother ▸ List.mem_cons_self
    · exact List.mem_cons_of_mem job (h.member other ((hsame other hother).mp hcancelling) hturn)
  · intro t other hpart
    simp [hbusy] at hpart

theorem Tended.cancelMarks (h : Tended r) (hbusy : r.busy = none) {task : Jobs.TaskId} {job : JobId}
    {status : JobStatus} (hcancel : r.cancels task = .absent)
    (hstatus : r.store.status job = some status) :
    Tended { r with cancelled := job :: r.cancelled, busy := some (.cancelUpdate task job) } := by
  have hkeeps : ∀ other, Cancelling r other → Cancelling { r with
      cancelled := job :: r.cancelled, busy := some (.cancelUpdate task job) } other :=
    fun other hcancelling => .inl ((cancelling_iff_of_idle hbusy).mp hcancelling)
  constructor
  · rintro other (hmem | hturn)
    · rcases List.mem_cons.mp hmem with rfl | hmem
      · simp [hstatus]
      · exact h.known other (.inl hmem)
    · exact h.known other (.inr hturn)
  · exact h.queued
  · intro other hrunning
    exact (h.running other hrunning).imp_right (hkeeps other)
  · intro other before hmem hsome hactive
    rcases List.mem_cons.mp hmem with rfl | hmem
    · exact .inr ⟨task, rfl⟩
    · exact hkeeps other (h.cancelled other before hmem hsome hactive)
  · intro other before hturn hmem hsome
    refine .inl ((h.turn other before hturn ?_ hsome).resolve_right ?_)
    · exact fun hold => hmem (List.mem_cons_of_mem job hold)
    · rintro ⟨part, hpart, -⟩
      rw [hbusy] at hpart
      cases hpart
  · exact h.evicting
  · rintro other (hevicting | ⟨t, hpart⟩) hturn
    · exact List.mem_cons_of_mem job (h.member other (.inl hevicting) hturn)
    · cases hpart
      exact List.mem_cons_self
  · rintro t other (hpart | hpart) third _ hevicting
    · cases hpart
      rw [hcancel] at hevicting
      cases hevicting
    · cases hpart

theorem Tended.cancelRaises (h : Tended r) {task : Jobs.TaskId} {job : JobId}
    (hcancel : r.cancels task = .evicting job) (hok : ¬strands r task) :
    Tended { r with cancels := Function.update r.cancels task (.finished false) } := by
  have hsame : ∀ other, other ≠ job → (Cancelling
      { r with cancels := Function.update r.cancels task (.finished false) } other ↔
        Cancelling r other) :=
    fun other hother => cancelling_congr rfl (by simp [hcancel, hother.symm]) fun _ => Iff.rfl
  have hself : ∀ status, r.store.status job = some status → status.isTerminal = false →
      Cancelling { r with cancels := Function.update r.cancels task (.finished false) } job := by
    intro status hstatus hactive
    unfold strands at hok
    push Not at hok
    obtain ⟨other, hother, hevicting⟩ := hok job status hcancel hstatus hactive
    exact .inl ⟨other, by simp [hother, hevicting]⟩
  have hkeeps : ∀ other status, r.store.status other = some status → status.isTerminal = false →
      Cancelling r other →
        Cancelling { r with cancels := Function.update r.cancels task (.finished false) } other := by
    intro other status hstatus hactive hcancelling
    by_cases hother : other = job
    · subst hother
      exact hself status hstatus hactive
    · exact (hsame other hother).mpr hcancelling
  constructor
  · exact h.known
  · exact h.queued
  · intro other hrunning
    exact (h.running other hrunning).imp_right (hkeeps other .running hrunning rfl)
  · intro other status hmem hstatus hactive
    exact hkeeps other status hstatus hactive (h.cancelled other status hmem hstatus hactive)
  · exact h.turn
  · intro t other hevicting
    exact h.evicting t other (evicting_of_finished hevicting)
  · intro other hcancelling hturn
    by_cases hother : other = job
    · subst hother
      exact h.member other (.inl ⟨task, hcancel⟩) hturn
    · exact h.member other ((hsame other hother).mp hcancelling) hturn
  · intro t other hpart third hthird hevicting
    exact h.calling t other hpart third hthird (evicting_of_finished hevicting)

theorem Tended.performs (hp : Placed r) (h : Tended r) {a : Jobs.Action}
    (hbusy : ∀ action, a = .loop action → r.busy = none)
    (hok : ∀ task, a = .loop (.cancelEvicted task false) → ¬strands r task)
    (hs : Performs fingerprint r a r') : Tended r' := by
  have hsection : ∀ part job, r.busy = some part → loopJob part = some job →
      turnOf r.loop = some job :=
    fun part job hpart hjob => turnOf_of_heldJob (hp.busy part job hpart hjob)
  have howed : ∀ part job status data, r.busy = some part →
      part.owed job = some (status.value, data) →
      ∀ before, r.store.status job = some before → before = status := by
    intro part job status data hpart howed before hbefore
    exact hp.status_owed (by rw [State.owed, hpart, Option.bind_some, howed]) hbefore
  cases hs with
  | startLoop hloop => exact h.moves (by rw [hloop]; rfl) fun _ _ => trivial
  | replay => exact h
  | create submission hfresh => exact h.create hfresh
  | passesCancelled hloop hqueue hcancelled =>
      exact h.passesCancelled (hbusy _ rfl) hloop hqueue hcancelled
  | passes hloop hqueue hstatus => exact h.passes hqueue hstatus
  | takes hloop hqueue hcancelled hget hstatus =>
      exact h.takes (hbusy _ rfl) hloop hqueue (by simp [JobStore.status, hget, hstatus])
  | leaseGranted hloop => exact h.moves (by rw [hloop]; rfl) (by rw [hloop]; exact fun _ hs => hs)
  | acquireReturns hloop hproceeds =>
      exact h.proceeds (hbusy _ rfl) (by rw [hloop]; rfl) rfl (by simp)
        (by rw [hloop]; exact fun _ hs => hs) hproceeds
  | acquireRaises exc hloop hproceeds =>
      exact h.proceeds (hbusy _ rfl) (by rw [hloop]; rfl) rfl (by simp)
        (by rw [hloop]; rintro _ rfl; rfl) hproceeds
  | workRaises hloop hthread hproceeds =>
      exact h.proceeds (hbusy _ rfl) (by rw [hloop]; rfl) rfl (by simp)
        (by rw [hloop]; rintro _ rfl; rfl) hproceeds
  | workReturns hloop hthread hproceeds =>
      exact h.proceeds (hbusy _ rfl) (by rw [hloop]; rfl) rfl (by simp)
        (by rw [hloop]; exact fun _ hs => hs) hproceeds
  | failureEvicted hloop =>
      exact h.finish (hbusy _ rfl) (by rw [hloop]; rfl) (.inr (by rw [hloop]; exact fun _ hs _ => hs))
  | cancelRefused task job hcancel hstatus =>
      refine h.of_same (fun _ => rfl) rfl rfl rfl rfl fun t other => ?_
      by_cases ht : t = task
      · simp [ht, hcancel]
      · simp [ht]
  | cancelEvicts task hcancel hstatus hcurrent => exact h.cancelEvicts (hbusy _ rfl) hcancel hstatus
  | cancelMarks task hcancel hstatus hactive hother => exact h.cancelMarks (hbusy _ rfl) hcancel hstatus
  | cancelEvicted hcancel hcancels =>
      exact h.cancels (.inl ⟨_, hcancel⟩) (by simp [hcancel, eq_comm]) (by simp [hbusy _ rfl]) hcancels
  | cancelRaises hcancel => exact h.cancelRaises hcancel (hok _ rfl)
  | @appendRunning job history hpart =>
      refine h.appends (hsection _ job hpart rfl) (by simp [hpart]) (fun _ => rfl) rfl
        (fun _ => rfl) rfl (.inl ⟨rfl, rfl⟩) ?_
      intro status hstatus
      have heq := howed _ job .running [] hpart (by simp [Section.owed]) status hstatus
      simp [heq, awaited]
  | @appendFailed job message history hpart =>
      refine h.appends (hsection _ job hpart rfl) (by simp [hpart]) (fun _ => rfl) rfl
        (fun _ => rfl) rfl (.inl ⟨rfl, rfl⟩) ?_
      intro status hstatus
      have heq := howed _ job .failed [(ascii "message", .string message)] hpart
        (by simp [Section.owed]) status hstatus
      simp [heq, awaited]
  | @appendSucceeded job resultMeta history hpart =>
      refine h.appends (hsection _ job hpart rfl) (by simp [hpart]) (fun _ => rfl) rfl
        (fun _ => rfl) rfl (.inr ⟨rfl, rfl⟩) ?_
      intro status hstatus
      have heq := howed _ job .succeeded resultMeta hpart (by simp [Section.owed]) status hstatus
      simp [heq, awaited]
  | @cancelUpdate task job _ hpart hcancels =>
      exact h.cancels (.inr ⟨task, hpart⟩) (h.calling task job (.inl hpart)) (by simp [hpart])
        hcancels
  | @appendCancelled task job history hpart =>
      refine h.over (fun status hstatus => ?_) (h.calling task job (.inr hpart)) (by simp [hpart])
        (fun _ => rfl) rfl rfl rfl rfl rfl
      rw [howed _ job .cancelled [] hpart (by simp [Section.owed]) status hstatus]
      rfl
  | thread hstatus hthread hother =>
      exact h.of_same (congrFun hstatus) rfl rfl rfl rfl fun _ _ => Iff.rfl

-- Neither `stop` nor an eviction that strands a job.
def Unstranded (r : Jobs.State) (a : Jobs.Action) : Prop :=
  a ≠ .loop .stopLoop ∧ ∀ task, a = .loop (.cancelEvicted task false) → ¬strands r task

theorem reachable_tended (hr : Path (Jobs.step fingerprint) Unstranded Jobs.initial r) :
    Placed r ∧ Tended r := by
  refine hr.invariant (fun r => Placed r ∧ Tended r) ⟨placed_initial, tended_initial⟩ ?_
  rintro r a r' ⟨hplaced, htended⟩ ⟨hstop, hok⟩ hs
  refine ⟨(step_effect hplaced hstop hs).1, htended.performs hplaced ?_ hok (step_performs hstop hs)⟩
  rintro action rfl
  exact (step_loop hs).1

-- Nothing is under way in the runner.
structure Quiet (r : Jobs.State) : Prop where
  queue : r.queue = []
  loop : turnOf r.loop = none
  busy : r.busy = none
  cancels : ∀ task job, r.cancels task ≠ .evicting job

theorem no_stuck_job (hr : Path (Jobs.step fingerprint) Unstranded Jobs.initial r) (hquiet : Quiet r)
    {job : JobId} {record : JobRecord} (hget : r.store.jobs job = some record) :
    record.status.isTerminal = true := by
  obtain ⟨-, h⟩ := reachable_tended hr
  have hstatus : r.store.status job = some record.status := by simp [JobStore.status, hget]
  by_contra hactive
  rcases isTerminal_eq_false (by simpa using hactive) with hq | hrun
  · rcases h.queued job (by rw [hstatus, hq]) with hmem | hturn
    · simp [hquiet.queue] at hmem
    · simp [hquiet.loop] at hturn
  · rcases h.running job (by rw [hstatus, hrun]) with hturn | ⟨task, hcancel⟩ | ⟨task, hbusy⟩
    · simp [hquiet.loop] at hturn
    · exact hquiet.cancels task job hcancel
    · simp [hquiet.busy] at hbusy

end Steps

-- Neither `stop` nor, when `raises` is false, an eviction of a cancel that raises.
def goesOn (raises : Bool) : Jobs.Action → Bool
  | .loop .stopLoop => false
  | .loop (.cancelEvicted _ false) => raises
  | _ => true

-- A job is cancelled while it runs; its eviction returns or raises, and its work fails.
def sampleEviction (returned : Bool) : List Jobs.Action :=
  sampleStart ++ [.loop (.cancelCall 0 sampleJob), .loop (.cancelEvicted 0 returned)] ++
    (if returned then [.nextSection] else []) ++
    [.thread sampleJob (.ends (.raised ⟨none, ascii "worker killed"⟩)), .loop .workEnds]

theorem quiet_sampleEviction (returned : Bool) {r : Jobs.State}
    (hr : run (Jobs.step sampleFingerprint) Jobs.initial (sampleEviction returned) = some r) :
    Quiet r := by
  have hcancels : ∃ ended, r.cancels = Function.update
      (Function.update (fun _ => .absent) 0 (.evicting sampleJob)) 0 (.finished ended) := by
    cases returned <;> cases hr <;> exact ⟨_, rfl⟩
  refine ⟨?_, ?_, ?_, fun task job hevicting => ?_⟩
  · cases returned <;> cases hr <;> rfl
  · cases returned <;> cases hr <;> rfl
  · cases returned <;> cases hr <;> rfl
  · obtain ⟨ended, heq⟩ := hcancels
    rw [heq] at hevicting
    by_cases htask : task = 0
    · simp [htask] at hevicting
    · simp [htask] at hevicting

theorem no_stuck_job_sampleEviction :
    ∃ r record, run (Jobs.step sampleFingerprint) Jobs.initial (sampleEviction true) = some r ∧
      r.store.jobs sampleJob = some record ∧ record.status.isTerminal = true := by
  obtain ⟨r, hr, hrun⟩ : ∃ r, runWithin (Jobs.step sampleFingerprint)
      (fun _ a => goesOn false a = true) Jobs.initial (sampleEviction true) = some r ∧
      run (Jobs.step sampleFingerprint) Jobs.initial (sampleEviction true) = some r := ⟨_, rfl, rfl⟩
  have hpath : Path (Jobs.step sampleFingerprint) Unstranded Jobs.initial r := by
    refine (Path.of_runWithin hr).mono fun s a hgoes => ⟨?_, ?_⟩
    · rintro rfl
      cases hgoes
    · rintro task rfl
      cases hgoes
  obtain ⟨record, hget⟩ : ∃ record, r.store.jobs sampleJob = some record := by
    cases hrun
    exact ⟨_, rfl⟩
  exact ⟨r, record, hrun, hget, no_stuck_job hpath (quiet_sampleEviction true hrun) hget⟩

-- `_process` ends without an update because the job is in the set, and the cancel
-- that put it there is over.
theorem stuck_running :
    ¬∀ r, Path (Jobs.step sampleFingerprint) (fun _ a => a ≠ .loop .stopLoop) Jobs.initial r →
      Quiet r → ∀ job record, r.store.jobs job = some record → record.status.isTerminal = true := by
  intro h
  obtain ⟨r, hr, hrun⟩ : ∃ r, runWithin (Jobs.step sampleFingerprint)
      (fun _ a => goesOn true a = true) Jobs.initial (sampleEviction false) = some r ∧
      run (Jobs.step sampleFingerprint) Jobs.initial (sampleEviction false) = some r := ⟨_, rfl, rfl⟩
  obtain ⟨record, hget, hrunning⟩ : ∃ record, r.store.jobs sampleJob = some record ∧
      record.status = .running := by
    cases hrun
    exact ⟨_, rfl, rfl⟩
  have hpath : Path (Jobs.step sampleFingerprint) (fun _ a => a ≠ .loop .stopLoop) Jobs.initial r := by
    refine (Path.of_runWithin hr).mono fun s a hgoes => ?_
    rintro rfl
    cases hgoes
  have hterminal := h r hpath (quiet_sampleEviction false hrun) sampleJob record hget
  rw [hrunning] at hterminal
  cases hterminal

end Cosmos3.Lease
