import Cosmos3.Orchestrator.Release

namespace Cosmos3.Orchestrator

open Basis

-- The history since the latest start call on the worker, newest first.
def sinceStart (worker : Worker) (log : List Event) : List Event :=
  log.takeWhile (· ≠ .startCall worker)

-- The worker was started and no evict call was made on it since.
def Begun (log : List Event) (worker : Worker) : Prop :=
  .startCall worker ∈ log ∧ .evictCall worker ∉ sinceStart worker log

-- The worker was started, reported ready since, and was not evicted since.
def Serving (log : List Event) (worker : Worker) : Prop :=
  Begun log worker ∧ .ready worker true ∈ sinceStart worker log

def Site.evictsResident : Site → Bool
  | .swapEvict _ _ _ => true
  | .evictAll _ _ => true
  | _ => false

-- An evict call on the recorded worker that is cut short: its operation is
-- cancelled once the call has begun, or the call raises. Either leaves the
-- worker in the slot.
def cutsEvict (phase : Option (Site × Call)) : CoreLabel → Bool
  | .abort =>
    match phase with
    | some (site, call) => site.evictsResident && call ≠ .pending
    | none => false
  | .leaves .raised =>
    match phase with
    | some (site, .running) => site.evictsResident
    | _ => false
  | _ => false

theorem sinceStart_cons {event : Event} {worker : Worker} (h : event ≠ .startCall worker)
    (log : List Event) : sinceStart worker (event :: log) = event :: sinceStart worker log := by
  simp [sinceStart, h]

theorem Begun.cons {log : List Event} {worker : Worker} (h : Begun log worker) {event : Event}
    (hstart : event ≠ .startCall worker) (hevict : event ≠ .evictCall worker) :
    Begun (event :: log) worker := by
  refine ⟨List.mem_cons_of_mem _ h.1, ?_⟩
  rw [sinceStart_cons hstart, List.mem_cons, not_or]
  exact ⟨hevict.symm, h.2⟩

theorem Serving.cons {log : List Event} {worker : Worker} (h : Serving log worker) {event : Event}
    (hstart : event ≠ .startCall worker) (hevict : event ≠ .evictCall worker) :
    Serving (event :: log) worker := by
  refine ⟨h.1.cons hstart hevict, ?_⟩
  rw [sinceStart_cons hstart]
  exact List.mem_cons_of_mem _ h.2

theorem begun_startCall (log : List Event) (worker : Worker) :
    Begun (.startCall worker :: log) worker := by
  refine ⟨List.mem_cons_self, ?_⟩
  simp [sinceStart]

theorem Begun.leaving {log : List Event} {worker : Worker} (h : Begun log worker) (site : Site)
    (outcome : Outcome) : Begun (site.leaving outcome ++ log) worker := by
  cases site <;> cases outcome <;>
    first
    | exact h
    | exact h.cons (by simp) (by simp)

theorem Serving.leaving {log : List Event} {worker : Worker} (h : Serving log worker) (site : Site)
    (outcome : Outcome) : Serving (site.leaving outcome ++ log) worker := by
  cases site <;> cases outcome <;>
    first
    | exact h
    | exact h.cons (by simp) (by simp)

-- The recorded worker serves unless its eviction is under way; a worker that is
-- being loaded has begun, and serves once `wait_ready` has returned True.
structure Honest (c : Core) : Prop where
  recorded : ∀ worker, c.resident = some worker → Serving c.log worker ∨
    ∃ site call, c.phase = some (site, call) ∧ call ≠ .pending ∧ site.evictsResident = true
  starting : ∀ target plan worker call,
    c.phase = some (.start target plan worker, call) → call ≠ .pending → Begun c.log worker
  waiting : ∀ target plan worker call,
    c.phase = some (.waitReady target plan worker, call) → Begun c.log worker
  answered : ∀ target plan worker,
    c.phase = some (.waitReady target plan worker, .done (.returned true)) →
      Serving c.log worker
  uncut : ∀ site, c.phase = some (site, .done .raised) → site.evictsResident = false

theorem honest_initial : Honest initial.core := by
  constructor <;> simp [initial, State.core, State.phase, FifoLock.unlocked]

-- Between operations the recorded worker serves.
theorem Honest.serving {c : Core} (h : Honest c) (hphase : c.phase = none) {worker : Worker}
    (hres : c.resident = some worker) : Serving c.log worker := by
  rcases h.recorded worker hres with hs | ⟨site, call, hp, -⟩
  · exact hs
  · simp [hphase] at hp

-- An operation that is not evicting the resident worker ends, and leaves the
-- bookkeeping as it is.
theorem Honest.ends {c : Core} (h : Honest c)
    (hsite : ∀ site call, c.phase = some (site, call) → call ≠ .pending →
      site.evictsResident = false) : Honest { c with phase := none } := by
  refine ⟨fun worker hres => .inl ?_, by simp, by simp, by simp, by simp⟩
  rcases h.recorded worker hres with hs | ⟨site, call, hp, hne, hev⟩
  · exact hs
  · simp [hsite site call hp hne] at hev

theorem CoreStep.honest {c c' : Core} {lab : CoreLabel} (h : CoreStep c lab c') (hfits : c.Fits)
    (hinv : Honest c) (hcut : cutsEvict c.phase lab = false) : Honest c' := by
  -- An operation begins with the recorded worker serving.
  have begins (site : Site) (hp : c.phase = none) (hn : ∀ t p w, site ≠ .waitReady t p w) :
      Honest { c with phase := some (site, .pending) } := by
    refine ⟨fun worker hres => .inl (hinv.serving hp hres), ?_, ?_, by simp, by simp⟩
    · intro target plan worker call hs hne
      cases hs
      exact absurd rfl hne
    · intro target plan worker call hs
      cases hs
      exact absurd rfl (hn target plan worker)
  cases h with
  | stutter => exact hinv
  | hit task target hp hr ht =>
      refine ⟨fun worker hres => .inl ?_, by simp [hp], by simp [hp], by simp [hp], by simp [hp]⟩
      exact (hinv.serving hp hres).cons (by simp) (by simp)
  | cold target worker hp hr ht => exact begins _ hp (by simp)
  | swap target hp hr ht => exact begins _ hp (by simp)
  | evictAll idle hp hr => exact begins _ hp (by simp)
  | @enters site hp =>
      have hfit := hfits _ _ hp
      refine ⟨fun worker hres => ?_, fun target plan worker call hs _ => ?_,
        fun target plan worker call hs => ?_, by simp, by simp⟩
      · by_cases hev : site.evictsResident = true
        · exact .inr ⟨site, .running, rfl, by simp, hev⟩
        · have hserving := (hinv.recorded worker hres).resolve_right (by
            rintro ⟨site', call, hp', hne, -⟩
            rw [hp] at hp'
            cases hp'
            exact hne rfl)
          cases site <;> simp_all [Site.evictsResident, Site.Fits]
      · cases hs
        exact begun_startCall _ _
      · cases hs
        exact hinv.waiting target plan worker .pending hp
  | @leaves site outcome hp =>
      refine ⟨fun worker hres => ?_, fun target plan worker call hs _ => ?_,
        fun target plan worker call hs => ?_, fun target plan worker hs => ?_, fun site' hs => ?_⟩
      · rcases hinv.recorded worker hres with hs | ⟨site', call, hp', -, hev⟩
        · exact .inl (hs.leaving site outcome)
        · rw [hp] at hp'
          cases hp'
          exact .inr ⟨site, .done outcome, rfl, by simp, hev⟩
      · cases hs
        exact (hinv.starting target plan worker .running hp (by simp)).leaving _ _
      · cases hs
        exact (hinv.waiting target plan worker .running hp).leaving _ _
      · cases hs
        refine ⟨(hinv.waiting target plan worker .running hp).cons (by simp) (by simp), ?_⟩
        simp [Site.leaving, sinceStart]
      · cases hs
        simpa [cutsEvict, hp] using hcut
  | evicted hp => exact ⟨by simp, by simp, by simp, by simp, by simp⟩
  | released worker hp ht =>
      have hnone := (hfits _ _ hp).1
      refine ⟨by simp [hnone], fun _ _ _ _ hs hne => ?_, by simp, by simp, by simp⟩
      cases hs
      exact absurd rfl hne
  | started hp =>
      have hnone : c.resident = none := (hfits _ _ hp).1
      refine ⟨by simp [hnone], by simp, fun target plan worker call hs => ?_, by simp, by simp⟩
      cases hs
      exact hinv.starting _ _ _ _ hp (by simp)
  | ready task hp =>
      refine ⟨fun worker hres => .inl ?_, by simp, by simp, by simp, by simp⟩
      cases hres
      exact (hinv.answered _ _ _ hp).cons (by simp) (by simp)
  | notReady hp =>
      have hnone : c.resident = none := (hfits _ _ hp).1
      exact ⟨by simp [hnone], by simp, by simp, by simp, by simp⟩
  | evictedAll hp => exact ⟨by simp, by simp, by simp, by simp, by simp⟩
  | @fails site outcome hp hmay =>
      apply hinv.ends
      intro site' call hs _
      rw [hp] at hs
      cases hs
      cases outcome with
      | raised => exact hinv.uncut site hp
      | returned value => cases site <;> simp_all [Site.mayFail, Site.evictsResident]
  | @abort site call hp =>
      apply hinv.ends
      intro site' call' hs hne
      rw [hp] at hs
      cases hs
      simpa [cutsEvict, hp, hne] using hcut
  | orphanLeaves site outcome =>
      refine ⟨fun worker hres => ?_, fun target plan worker call hs hne => ?_,
        fun target plan worker call hs => ?_, fun target plan worker hs => ?_, hinv.uncut⟩
      · exact (hinv.recorded worker hres).imp_left fun hs => hs.leaving site outcome
      · exact (hinv.starting target plan worker call hs hne).leaving site outcome
      · exact (hinv.waiting target plan worker call hs).leaving site outcome
      · exact (hinv.answered target plan worker hs).leaving site outcome

-- The two ways an acquire returns: the fast path, and the end of a load.
theorem CoreStep.acquired_serving {c c' : Core} {lab : CoreLabel} (h : CoreStep c lab c')
    (hfits : c.Fits) (hinv : Honest c) {task : TaskId} {target : ResidencyId}
    (hret : c'.log = .acquired task target :: c.log) :
    ∃ worker, c'.resident = some worker ∧ worker.target = target ∧ Serving c'.log worker := by
  have nochange {l : List Event} (hl : l = .acquired task target :: l) : False := by
    have := congrArg List.length hl
    simp at this
  have noevent {site : Site} {outcome : Outcome} (hl : site.leaving outcome ++ c.log =
      .acquired task target :: c.log) : False := by
    cases site <;> cases outcome <;> simp [Site.leaving] at hl
  cases h with
  | @hit worker task' target' hp hr ht =>
      simp only [List.cons.injEq, Event.acquired.injEq] at hret
      obtain ⟨⟨rfl, rfl⟩, -⟩ := hret
      exact ⟨worker, hr, ht, (hinv.serving hp hr).cons (by simp) (by simp)⟩
  | @ready target' plan worker task' hp =>
      simp only [List.cons.injEq, Event.acquired.injEq] at hret
      obtain ⟨⟨rfl, rfl⟩, -⟩ := hret
      exact ⟨worker, rfl, (hfits _ _ hp).2, (hinv.answered _ _ _ hp).cons (by simp) (by simp)⟩
  | @enters site hp => cases site <;> simp [Site.entering] at hret
  | leaves outcome hp => exact (noevent hret).elim
  | orphanLeaves site outcome => exact (noevent hret).elim
  | _ => exact (nochange hret).elim

-- Acquire is truthful in every run that cuts no eviction of the recorded
-- worker short: when it returns, the recorded worker was made for the target,
-- is ready since its start, and was not evicted since.
theorem acquire_truthful {idleTimeout : ℚ} {s s' : State} {a : Action}
    (h : Path (step idleTimeout) (fun s a => cutsEvict s.phase (label s a) = false) initial s)
    (hs : step idleTimeout s a = some s') {task : TaskId} {target : ResidencyId}
    (hret : s'.log = .acquired task target :: s.log) :
    ∃ worker, s'.worker = some worker ∧ worker.target = target ∧ Serving s'.log worker := by
  obtain ⟨hcons, hinv⟩ := Path.core_invariant Honest honest_initial
    (fun s a c' hcons hinv hok hstep => hstep.honest hcons.fits hinv hok) h
  exact (step_refines hcons hs).core.acquired_serving hcons.fits hinv hret

-- The fast path: the reasoner is acquired a second time.
def reacquired : State :=
  (step 1800 reasonerLoaded (.call 2 (.acquire reasoning) true)).getD initial

theorem acquire_truthful_reacquired :
    ∃ worker, reacquired.worker = some worker ∧ worker.target = reasoning ∧
      Serving reacquired.log worker := by
  have hrun : runWithin (step 1800) (fun s a => cutsEvict s.phase (label s a) = false) initial
      (coldLoad 1 reasoning) = some reasonerLoaded := rfl
  have hstep : step 1800 reasonerLoaded (.call 2 (.acquire reasoning) true) = some reacquired := rfl
  exact acquire_truthful (Path.of_runWithin hrun) hstep
    (show reacquired.log = .acquired 2 reasoning :: reasonerLoaded.log from rfl)

-- A reasoning stream evicts the generation plane and its client disconnects
-- before the slot is updated: the next generation job is told that its plane is
-- resident.
def disconnectWhileEvicting : List Action :=
  coldLoad 1 generation ++
    [.call 2 (.acquire reasoning) true, .threadEnters 2, .cancelled 2]

def staleSlot : State := (run (step 1800) initial disconnectWhileEvicting).getD initial

def misled : State :=
  (step 1800 staleSlot (.call 3 (.acquire generation) true)).getD initial

theorem acquires_evicted_worker :
    ¬∀ s a s' task target, Reachable (step 1800) initial s → step 1800 s a = some s' →
      s'.log = .acquired task target :: s.log →
      ∃ worker, s'.worker = some worker ∧ worker.target = target ∧ Serving s'.log worker := by
  intro h
  have hrun : run (step 1800) initial disconnectWhileEvicting = some staleSlot := rfl
  have hstep : step 1800 staleSlot (.call 3 (.acquire generation) true) = some misled := rfl
  obtain ⟨worker, hw, -, hserving⟩ :=
    h staleSlot _ misled 3 generation (Reachable.of_run hrun) hstep rfl
  have hworker : misled.worker = some ⟨0, generation⟩ := rfl
  obtain rfl := Option.some.inj (hworker.symm.trans hw)
  obtain ⟨earlier, hlog⟩ : ∃ earlier, misled.log =
      .acquired 3 generation :: .evictCall ⟨0, generation⟩ :: earlier := ⟨_, rfl⟩
  apply hserving.1.2
  rw [hlog, sinceStart_cons (by simp), sinceStart_cons (by simp)]
  simp

end Cosmos3.Orchestrator
