import Cosmos3.Orchestrator.Refinement

namespace Cosmos3.Orchestrator

open Basis

-- A start call on the worker has returned and no evict call was made since.
def live : List Event → Worker → Bool
  | [], _ => false
  | .started started :: log, worker => started = worker || live log worker
  | .evictCall evicted :: log, worker => evicted ≠ worker && live log worker
  | _ :: log, worker => live log worker

-- The worker that is started but neither recorded nor being evicted yet.
def loading : Option (Site × Call) → Option Worker
  | some (.start _ _ worker, .done (.returned _)) => some worker
  | some (.waitReady _ _ worker, _) => some worker
  | some (.notReadyEvict _ worker, .pending) => some worker
  | _ => none

-- The steps after which a started worker is known to nobody: an acquire that is
-- cancelled while it is loading, a `wait_ready` that raises, and a `start` that
-- returns although its acquire has been cancelled.
def leaks (phase : Option (Site × Call)) : CoreLabel → Bool
  | .abort => (loading phase).isSome
  | .leaves .raised =>
    match phase with
    | some (.waitReady _ _ _, .running) => true
    | _ => false
  | .orphanLeaves (.start _ _ _) (.returned _) => true
  | _ => false

def Exclusive (s : State) : Prop :=
  (∀ first second, live s.log first → live s.log second → first = second) ∧
    (s.lock.locked = false → ∀ worker, live s.log worker → s.worker = some worker)

def Site.evicts : Site → Option Worker
  | .swapEvict _ _ worker => some worker
  | .notReadyEvict _ worker => some worker
  | .evictAll _ worker => some worker
  | _ => none

-- Every live worker is accounted for, an evict call under way has ended the
-- life of its worker, and no `wait_ready` has raised.
structure Accounted (c : Core) : Prop where
  known : ∀ worker, live c.log worker → c.resident = some worker ∨ loading c.phase = some worker
  gone : ∀ site call worker, c.phase = some (site, call) → call ≠ .pending →
    site.evicts = some worker → live c.log worker = false
  answered : ∀ target plan worker,
    c.phase ≠ some (.waitReady target plan worker, .done .raised)

theorem live_entering (site : Site) (log : List Event) (worker : Worker) :
    live (site.entering ++ log) worker =
      (live log worker && decide (site.evicts ≠ some worker)) := by
  cases site <;> simp [Site.entering, Site.evicts, live, Bool.and_comm]

theorem live_leaving {site : Site} {outcome : Outcome} {log : List Event} {worker : Worker}
    (h : live (site.leaving outcome ++ log) worker) :
    live log worker ∨ ∃ target plan value,
      site = .start target plan worker ∧ outcome = .returned value := by
  cases site <;> cases outcome <;> simp_all [Site.leaving, live]
  exact h.symm

-- While a worker is being loaded the slot is empty.
theorem Core.Fits.loading {c : Core} (h : c.Fits) {worker : Worker}
    (hload : Orchestrator.loading c.phase = some worker) : c.resident = none := by
  cases hp : c.phase with
  | none => simp [hp, Orchestrator.loading] at hload
  | some phase =>
      obtain ⟨site, call⟩ := phase
      have hfit := h site call hp
      rw [hp] at hload
      cases site with
      | start target plan w => exact hfit.1
      | waitReady target plan w => exact hfit.1
      | notReadyEvict target w => exact hfit.1
      | _ => simp [Orchestrator.loading] at hload

-- An operation that is not loading a worker ends with nothing to account for.
theorem Accounted.ends {c : Core} (h : Accounted c) (hnone : loading c.phase = none) :
    Accounted { c with phase := none } where
  known worker hl := by
    have hk := h.known worker hl
    rw [hnone] at hk
    exact .inl (hk.resolve_right (by simp))
  gone := by simp
  answered := by simp

-- An evict call that returned leaves no live worker in the slot it empties.
theorem Accounted.empties {c : Core} (h : Accounted c) (hfits : c.Fits) {site : Site}
    {worker : Worker} {outcome : Outcome} (hphase : c.phase = some (site, .done outcome))
    (hevicts : site.evicts = some worker) (hres : c.resident = some worker) :
    ∀ w, live c.log w = false := by
  intro w
  by_contra hl
  rw [Bool.not_eq_false] at hl
  have hgone := h.gone site _ worker hphase (by simp) hevicts
  have hload : loading c.phase = none := by
    have hf := hfits _ _ hphase
    rw [hphase]
    cases site <;> simp_all [loading, Site.evicts]
  rcases h.known w hl with hr | hr
  · have hw : worker = w := Option.some.inj (hres.symm.trans hr)
    rw [← hw, hgone] at hl
    cases hl
  · rw [hload] at hr
    cases hr

theorem CoreStep.accounted {c c' : Core} {lab : CoreLabel} (h : CoreStep c lab c')
    (hfits : c.Fits) (hinv : Accounted c) (hleak : leaks c.phase lab = false) : Accounted c' := by
  -- An operation that begins waits for a call that no thread has entered yet.
  have begins (site : Site) (hp : c.phase = none) (hn : loading (some (site, .pending)) = none) :
      Accounted { c with phase := some (site, .pending) } := by
    refine ⟨fun worker hl => .inl ?_, fun _ _ _ hs hne => ?_, by simp⟩
    · have hk := hinv.known worker hl
      rw [hp] at hk
      exact hk.resolve_right (by simp [loading])
    · cases hs
      exact absurd rfl hne
  cases h with
  | stutter => exact hinv
  | hit task target hp hr ht =>
      exact ⟨hinv.known, hinv.gone, hinv.answered⟩
  | cold target worker hp hr ht => exact begins _ hp rfl
  | swap target hp hr ht => exact begins _ hp rfl
  | evictAll idle hp hr => exact begins _ hp rfl
  | @enters site hp =>
      refine ⟨fun worker hl => ?_, fun site' call worker hs hne hev => ?_, by simp⟩
      · simp only [live_entering, Bool.and_eq_true, decide_eq_true_eq] at hl
        have hk := hinv.known worker hl.1
        rw [hp] at hk
        refine hk.imp_right fun hload => ?_
        cases site <;> simp_all [loading, Site.evicts]
      · cases hs
        simp [live_entering, hev]
  | @leaves site outcome hp =>
      refine ⟨fun worker hl => ?_, fun site' call worker hs hne hev => ?_, fun target plan worker => ?_⟩
      · rcases live_leaving hl with hl | ⟨target, plan, value, rfl, rfl⟩
        · have hk := hinv.known worker hl
          rw [hp] at hk
          refine hk.imp_right fun hload => ?_
          cases site <;> simp_all [loading]
        · exact .inr rfl
      · cases hs
        have hg := hinv.gone site .running worker hp (by simp) hev
        cases site <;> simp_all [Site.leaving, Site.evicts]
      · intro hs
        cases hs
        simp [leaks, hp] at hleak
  | evicted hp =>
      have hdead := hinv.empties hfits hp rfl (hfits _ _ hp).1
      refine ⟨fun worker hl => ?_, fun _ _ _ hs hne => ?_, by simp⟩
      · simp [hdead worker] at hl
      · cases hs
        exact absurd rfl hne
  | released worker hp ht =>
      refine ⟨fun worker hl => ?_, fun _ _ _ hs hne => ?_, by simp⟩
      · have hk := hinv.known worker hl
        rw [hp] at hk
        exact .inl (hk.resolve_right (by simp [loading]))
      · cases hs
        exact absurd rfl hne
  | started hp =>
      refine ⟨fun worker hl => ?_, fun _ _ _ hs hne => ?_, by simp⟩
      · have hk := hinv.known worker hl
        rw [hp] at hk
        exact hk
      · cases hs
        exact absurd rfl hne
  | ready task hp =>
      refine ⟨fun worker hl => .inl ?_, by simp, by simp⟩
      have hk := hinv.known worker hl
      rw [hp, (hfits _ _ hp).1] at hk
      exact hk.resolve_left (by simp)
  | notReady hp =>
      refine ⟨fun worker hl => ?_, fun _ _ _ hs hne => ?_, by simp⟩
      · have hk := hinv.known worker hl
        rw [hp] at hk
        exact hk
      · cases hs
        exact absurd rfl hne
  | evictedAll hp =>
      have hdead := hinv.empties hfits hp rfl (hfits _ _ hp)
      refine ⟨fun worker hl => ?_, by simp, by simp⟩
      simp [hdead worker] at hl
  | @fails site outcome hp hmay =>
      apply hinv.ends
      have hanswered := hinv.answered
      rw [hp]
      cases site <;> cases outcome <;> simp_all [loading, Site.mayFail]
  | abort hp =>
      apply hinv.ends
      simpa [leaks] using hleak
  | orphanLeaves site outcome =>
      refine ⟨fun worker hl => ?_, fun site' call worker hs hne hev => ?_, hinv.answered⟩
      · rcases live_leaving hl with hl | ⟨target, plan, value, rfl, rfl⟩
        · exact hinv.known worker hl
        · simp [leaks] at hleak
      · rw [Bool.eq_false_iff]
        intro hl
        rcases live_leaving hl with hl | ⟨target, plan, value, rfl, rfl⟩
        · exact absurd hl (by simp [hinv.gone site' call worker hs hne hev])
        · simp [leaks] at hleak

theorem accounted_initial : Accounted initial.core where
  known := by simp [initial, State.core, live]
  gone := by simp [initial, State.core, State.phase, FifoLock.unlocked]
  answered := by simp [initial, State.core, State.phase, FifoLock.unlocked]

theorem Accounted.exclusive {s : State} (hfits : s.core.Fits) (h : Accounted s.core) :
    Exclusive s := by
  constructor
  · intro first second h₁ h₂
    rcases h.known first h₁ with hr₁ | hl₁ <;> rcases h.known second h₂ with hr₂ | hl₂
    · exact Option.some.inj (hr₁.symm.trans hr₂)
    · exact absurd hr₁ (by simp [hfits.loading hl₂])
    · exact absurd hr₂ (by simp [hfits.loading hl₁])
    · exact Option.some.inj (hl₁.symm.trans hl₂)
  · intro hfree worker hl
    have hphase : s.phase = none := phase_none (by simpa [FifoLock.locked] using hfree)
    exact (h.known worker hl).resolve_right (by simp [State.core, hphase, loading])

-- At most one live plane, in every run without a leaking step.
theorem exclusive_of_no_leak {idleTimeout : ℚ} {s : State}
    (h : Path (step idleTimeout) (fun s a => leaks s.phase (label s a) = false) initial s) :
    Exclusive s := by
  obtain ⟨hcons, hinv⟩ := Path.core_invariant Accounted accounted_initial
    (fun s a c' hcons hinv hok hstep => hstep.accounted hcons.fits hinv hok) h
  exact hinv.exclusive hcons.fits

def reasoning : ResidencyId := ⟨.reasoning, none⟩

def generation : ResidencyId := ⟨.generation, none⟩

-- Task `task` acquires a cold slot and gets a ready worker.
def coldLoad (task : TaskId) (target : ResidencyId) : List Action :=
  [.call task (.acquire target) true, .threadEnters task, .threadLeaves task (.returned true),
    .resumes task true, .threadEnters task, .threadLeaves task (.returned true),
    .resumes task true]

def reasonerLoaded : State := (run (step 1800) initial (coldLoad 1 reasoning)).getD initial

theorem exclusive_reasonerLoaded :
    reasonerLoaded.worker = some ⟨0, reasoning⟩ ∧ Exclusive reasonerLoaded := by
  have hrun : runWithin (step 1800) (fun s a => leaks s.phase (label s a) = false) initial
      (coldLoad 1 reasoning) = some reasonerLoaded := rfl
  exact ⟨rfl, exclusive_of_no_leak (Path.of_runWithin hrun)⟩

-- The client of a reasoning stream disconnects while its plane warms up, and
-- the next job loads the generation plane beside it.
def disconnectWhileWarming : List Action :=
  [.call 1 (.acquire reasoning) true, .threadEnters 1, .threadLeaves 1 (.returned true),
    .resumes 1 true, .threadEnters 1, .cancelled 1,
    .call 2 (.acquire generation) true, .threadEnters 2, .threadLeaves 2 (.returned true)]

theorem two_live_planes :
    ¬∀ s, Reachable (step 1800) initial s → Exclusive s := by
  intro h
  obtain ⟨s, hs⟩ : ∃ s, run (step 1800) initial disconnectWhileWarming = some s := ⟨_, rfl⟩
  have hlog : s.log = [.started ⟨1, generation⟩, .startCall ⟨1, generation⟩,
      .started ⟨0, reasoning⟩, .startCall ⟨0, reasoning⟩] := by
    cases hs; rfl
  have hone := (h s (Reachable.of_run hs)).1 ⟨0, reasoning⟩ ⟨1, generation⟩
    (by rw [hlog]; decide) (by rw [hlog]; decide)
  exact absurd hone (by decide)

end Cosmos3.Orchestrator
