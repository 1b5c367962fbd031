import Cosmos3.Orchestrator.Manager

namespace Cosmos3.Orchestrator

-- The orchestrator seen without its mutex and its coroutines: one resident
-- worker, and at most one operation under way, suspended at one await.
structure Core where
  resident : Option Worker
  phase : Option (Site × Call)
  log : List Event

inductive CoreLabel where
  | internal
  | enters
  | leaves (outcome : Outcome)
  | abort
  | orphanLeaves (site : Site) (outcome : Outcome)
deriving DecidableEq, Repr

-- The awaits after which the operation ends in an exception. The factory may
-- raise after a granted release, so a released GPU does not exclude it.
def Site.mayFail : Site → Outcome → Prop
  | .postEvictWait _ _, _ => True
  | .notReadyEvict _ _, _ => True
  | _, .raised => True
  | _, .returned _ => False

inductive CoreStep : Core → CoreLabel → Core → Prop
  | stutter (c : Core) : CoreStep c .internal c
  | hit {c : Core} {worker : Worker} (task : TaskId) (target : ResidencyId) :
      c.phase = none → c.resident = some worker → worker.target = target →
      CoreStep c .internal { c with log := .acquired task target :: c.log }
  | cold {c : Core} (target : ResidencyId) (worker : Worker) :
      c.phase = none → c.resident = none → worker.target = target →
      CoreStep c .internal
        { c with phase := some (.start target ⟨none, some target⟩ worker, .pending) }
  | swap {c : Core} {worker : Worker} (target : ResidencyId) :
      c.phase = none → c.resident = some worker → worker.target ≠ target →
      CoreStep c .internal
        { c with phase := some (.swapEvict target ⟨some worker.target, some target⟩ worker,
            .pending) }
  | evictAll {c : Core} {worker : Worker} (idle : Bool) :
      c.phase = none → c.resident = some worker →
      CoreStep c .internal { c with phase := some (.evictAll idle worker, .pending) }
  | enters {c : Core} {site : Site} :
      c.phase = some (site, .pending) →
      CoreStep c .enters { c with phase := some (site, .running), log := site.entering ++ c.log }
  | leaves {c : Core} {site : Site} (outcome : Outcome) :
      c.phase = some (site, .running) →
      CoreStep c (.leaves outcome)
        { c with phase := some (site, .done outcome), log := site.leaving outcome ++ c.log }
  | evicted {c : Core} {target : ResidencyId} {plan : ResidencyPlan} {worker : Worker}
      {value : Bool} :
      c.phase = some (.swapEvict target plan worker, .done (.returned value)) →
      CoreStep c .internal
        { c with resident := none, phase := some (.postEvictWait target plan, .pending) }
  | released {c : Core} {target : ResidencyId} {plan : ResidencyPlan} (worker : Worker) :
      c.phase = some (.postEvictWait target plan, .done (.returned true)) →
      worker.target = target →
      CoreStep c .internal { c with phase := some (.start target plan worker, .pending) }
  | started {c : Core} {target : ResidencyId} {plan : ResidencyPlan} {worker : Worker}
      {value : Bool} :
      c.phase = some (.start target plan worker, .done (.returned value)) →
      CoreStep c .internal { c with phase := some (.waitReady target plan worker, .pending) }
  | ready {c : Core} {target : ResidencyId} {plan : ResidencyPlan} {worker : Worker}
      (task : TaskId) :
      c.phase = some (.waitReady target plan worker, .done (.returned true)) →
      CoreStep c .internal ⟨some worker, none, .acquired task target :: c.log⟩
  | notReady {c : Core} {target : ResidencyId} {plan : ResidencyPlan} {worker : Worker} :
      c.phase = some (.waitReady target plan worker, .done (.returned false)) →
      CoreStep c .internal { c with phase := some (.notReadyEvict target worker, .pending) }
  | evictedAll {c : Core} {idle : Bool} {worker : Worker} {value : Bool} :
      c.phase = some (.evictAll idle worker, .done (.returned value)) →
      CoreStep c .internal { c with resident := none, phase := none }
  | fails {c : Core} {site : Site} {outcome : Outcome} :
      c.phase = some (site, .done outcome) → site.mayFail outcome →
      CoreStep c .internal { c with phase := none }
  | abort {c : Core} {site : Site} {call : Call} :
      c.phase = some (site, call) → CoreStep c .abort { c with phase := none }
  | orphanLeaves {c : Core} (site : Site) (outcome : Outcome) :
      CoreStep c (.orphanLeaves site outcome) { c with log := site.leaving outcome ++ c.log }

-- What the operation under way knows about the resident worker.
def Site.Fits (resident : Option Worker) : Site → Prop
  | .swapEvict target plan worker =>
      resident = some worker ∧ plan = ⟨some worker.target, some target⟩
  | .postEvictWait target plan =>
      resident = none ∧ plan.evict ≠ none ∧ plan.load = some target
  | .start target _ worker => resident = none ∧ worker.target = target
  | .waitReady target _ worker => resident = none ∧ worker.target = target
  | .notReadyEvict target worker => resident = none ∧ worker.target = target
  | .evictAll _ worker => resident = some worker

def Core.Fits (c : Core) : Prop :=
  ∀ site call, c.phase = some (site, call) → site.Fits c.resident

theorem CoreStep.fits {c c' : Core} {label : CoreLabel} (h : CoreStep c label c')
    (hfits : c.Fits) : c'.Fits := by
  cases h with
  | stutter => exact hfits
  | hit _ _ hp _ _ => intro site call hs; simp [hp] at hs
  | cold target worker hp hr ht => intro site call hs; cases hs; exact ⟨hr, ht⟩
  | swap target hp hr ht => intro site call hs; cases hs; exact ⟨hr, rfl⟩
  | evictAll idle hp hr => intro site call hs; cases hs; exact hr
  | enters hp => intro site call hs; cases hs; exact hfits _ _ hp
  | leaves outcome hp => intro site call hs; cases hs; exact hfits _ _ hp
  | evicted hp =>
      intro site call hs
      cases hs
      obtain ⟨-, rfl⟩ := hfits _ _ hp
      exact ⟨rfl, by simp, rfl⟩
  | released worker hp ht =>
      intro site call hs
      cases hs
      exact ⟨(hfits _ _ hp).1, ht⟩
  | started hp =>
      intro site call hs
      cases hs
      have h := hfits _ _ hp
      exact h
  | ready task hp => intro site call hs; cases hs
  | notReady hp =>
      intro site call hs
      cases hs
      have h := hfits _ _ hp
      exact h
  | evictedAll hp => intro site call hs; cases hs
  | fails hp hm => intro site call hs; cases hs
  | abort hp => intro site call hs; cases hs
  | orphanLeaves site outcome => exact hfits

end Cosmos3.Orchestrator
