import Cosmos3.Basis.Runs
import Cosmos3.Orchestrator.Locking

namespace Cosmos3.Orchestrator

open Basis State

-- The await at which the holder of the mutex is suspended.
def State.phase (s : State) : Option (Site × Call) :=
  match s.lock.owner with
  | none => none
  | some task =>
    match s.tasks task with
    | .awaiting site call => some (site, call)
    | _ => none

def State.core (s : State) : Core := ⟨s.worker, s.phase, s.log⟩

-- The step of the abstract machine that an action of the manager is.
def label (s : State) : Action → CoreLabel
  | .threadEnters _ => .enters
  | .threadLeaves _ outcome => .leaves outcome
  | .cancelled task => if s.lock.owner = some task then .abort else .internal
  | .notifyIdle => if s.idleTask ≠ none ∧ s.idleTask = s.lock.owner then .abort else .internal
  | .orphanLeaves index outcome =>
    match s.orphans[index]? with
    | some site => .orphanLeaves site outcome
    | none => .internal
  | _ => .internal

-- What each function of the manager owes to the abstract machine.
structure Refines (c : Core) (lab : CoreLabel) (s : State) : Prop where
  locking : Locking s
  coupled : Coupled s
  core : CoreStep c lab s.core

section Phase

variable {s : State} {task : TaskId}

theorem phase_eq (hown : s.lock.owner = some task) {site : Site} {call : Call}
    (hpc : s.tasks task = .awaiting site call) : s.phase = some (site, call) := by
  simp [State.phase, hown, hpc]

theorem phase_none (hown : s.lock.owner = none) : s.phase = none := by
  simp [State.phase, hown]

theorem core_toThread (hown : s.lock.owner = some task) (site : Site) :
    (s.toThread task site).core = ⟨s.worker, some (site, .pending), s.log⟩ := by
  have hphase : (s.toThread task site).phase = some (site, .pending) :=
    phase_eq (s := s.toThread task site) hown (by simp [State.toThread, State.setPc])
  unfold State.core
  rw [hphase]
  rfl

@[simp] theorem core_leave (result : Result) :
    (s.leave task result).core = ⟨s.worker, none, s.log⟩ := rfl

theorem phase_setPc (hown : s.lock.owner ≠ some task) (pc : Pc) :
    (s.setPc task pc).phase = s.phase := by
  unfold State.phase State.setPc
  cases ho : s.lock.owner with
  | none => rfl
  | some other =>
      have hne : other ≠ task := fun h => hown (by rw [ho, h])
      simp [hne]

theorem core_congr {s' : State} (hworker : s'.worker = s.worker) (hphase : s'.phase = s.phase)
    (hlog : s'.log = s.log) : s'.core = s.core := by
  unfold State.core
  rw [hworker, hphase, hlog]

theorem Locking.owner_awaiting (h : Locking s) (hown : s.lock.owner = some task) :
    ∃ site call, s.tasks task = .awaiting site call ∧ s.phase = some (site, call) := by
  have ha := (h.owner task).mp hown
  cases hpc : s.tasks task with
  | awaiting site call => exact ⟨site, call, rfl, phase_eq hown hpc⟩
  | _ => simp [hpc] at ha

end Phase

section Load

variable {s : State} {task : TaskId} {c : Core}

theorem acquireReturn_refines (target : ResidencyId) {idle : Bool} (h : LockedBy s task idle)
    (hcoupled : Coupled s)
    (hcore : CoreStep c .internal ⟨s.worker, none, .acquired task target :: s.log⟩) :
    Refines c .internal (acquireReturn s task target) where
  locking := (h.leave .returned).congr rfl rfl rfl
  coupled := hcoupled
  core := hcore

theorem toThread_refines {idle : Bool} (h : LockedBy s task idle) (hcoupled : Coupled s)
    (site : Site) (hidle : idle = true → site.isIdle = true)
    (hcore : CoreStep c .internal ⟨s.worker, some (site, .pending), s.log⟩) :
    Refines c .internal (s.toThread task site) where
  locking := h.toThread site hidle
  coupled := hcoupled
  core := by rw [core_toThread h.owner]; exact hcore

theorem start_refines (target : ResidencyId) (plan : ResidencyPlan) {idle : Bool}
    (h : LockedBy s task idle) (hidle : idle = false) (hcoupled : Coupled s)
    (hcore : ∀ worker : Worker, worker.target = target →
      CoreStep c .internal ⟨s.worker, some (.start target plan worker, .pending), s.log⟩)
    (hfail : CoreStep c .internal ⟨s.worker, none, s.log⟩)
    (hload : plan.load ≠ none) (made : Bool) :
    Refines c .internal (acquireLoad s task target plan made) := by
  unfold acquireLoad
  cases hl : plan.load with
  | none => exact absurd hl hload
  | some _ =>
      cases made with
      | true =>
          have hlock : LockedBy { s with made := s.made + 1 } task idle := h.congr rfl rfl rfl
          exact toThread_refines hlock hcoupled _ (by simp [hidle]) (hcore ⟨s.made, target⟩ rfl)
      | false => exact ⟨h.leave .raised, hcoupled, hfail⟩

end Load

section Cancel

variable {s : State} {task : TaskId} {c : Core}

-- Under the mutex the idle task can only be outside its critical section.
theorem LockedBy.cancelTask {idle : Bool} (h : LockedBy s task idle) {other : TaskId}
    (hne : other ≠ task) (hpc : (s.tasks other).OfIdleTask) :
    LockedBy { Orchestrator.cancelTask s other with idleTask := none } task false ∧
      (Orchestrator.cancelTask s other).core = s.core ∧
      (Orchestrator.cancelTask s other).slot = s.slot ∧
      (Orchestrator.cancelTask s other).tasks task = s.tasks task := by
  have hown : s.lock.owner ≠ some other := fun ho =>
    hne (Option.some.inj (ho.symm.trans h.owner))
  generalize hp : s.tasks other = pc at hpc
  cases hpc with
  | created =>
      simp only [Orchestrator.cancelTask, hp]
      refine ⟨⟨h.owner, ?_, ?_, h.nodup, by simp⟩, ?_, rfl, by simp [State.setPc, hne.symm]⟩
      · intro t ht
        rcases eq_or_ne t other with rfl | ho
        · simp [State.setPc]
        · simpa [State.setPc, ho] using h.awaiting t ht
      · intro t
        rcases eq_or_ne t other with rfl | ho
        · have hw := h.waiters t
          simpa [State.setPc, hp] using hw
        · simpa [State.setPc, ho] using h.waiters t
      · exact core_congr rfl (phase_setPc hown _) rfl
  | lockWait =>
      simp only [Orchestrator.cancelTask, hp, endIdle, if_true]
      refine ⟨⟨h.owner, ?_, ?_, h.nodup.erase _, by simp⟩, ?_, rfl,
        by simp [State.setPc, hne.symm]⟩
      · intro t ht
        rcases eq_or_ne t other with rfl | ho
        · simp [State.setPc]
        · simpa [State.setPc, ho] using h.awaiting t ht
      · intro t
        rcases eq_or_ne t other with rfl | ho
        · simp [State.setPc, h.nodup.mem_erase_iff]
        · simpa [State.setPc, ho, h.nodup.mem_erase_iff] using h.waiters t
      · exact core_congr rfl (phase_setPc hown (.finished .cancelled)) rfl
  | awaiting worker call => exact absurd (by simp [hp]) (h.awaiting other hne)
  | finished result =>
      simp only [Orchestrator.cancelTask, hp]
      exact ⟨⟨h.owner, h.awaiting, h.waiters, h.nodup, by simp⟩, by simp⟩

theorem LockedBy.cancelIdleTimer (h : LockedBy s task false) :
    LockedBy (Orchestrator.cancelIdleTimer s) task false ∧
      (Orchestrator.cancelIdleTimer s).core = s.core ∧
      (Orchestrator.cancelIdleTimer s).slot = s.slot := by
  have h' : LockedBy (cancelIdleHandle s) task false := h.congr rfl rfl rfl
  unfold Orchestrator.cancelIdleTimer
  cases hi : s.idleTask with
  | none => exact ⟨h', rfl, rfl⟩
  | some other =>
      rcases h.idleTask other hi with ⟨hne, hpc⟩ | ⟨-, hfalse⟩
      · obtain ⟨hlock, hcore, hslot, -⟩ := h'.cancelTask hne hpc
        exact ⟨hlock, hcore, hslot⟩
      · cases hfalse

-- A cancellation ends the operation under way when it hits its task, and
-- changes nothing the abstract machine sees otherwise.
theorem Locking.cancelTask (h : Locking s) (task : TaskId) :
    Locking (Orchestrator.cancelTask s task) ∧
      (Orchestrator.cancelTask s task).slot = s.slot ∧
      (Orchestrator.cancelTask s task).worker = s.worker ∧
      (Orchestrator.cancelTask s task).log = s.log ∧
      (Orchestrator.cancelTask s task).phase =
        if s.lock.owner = some task then none else s.phase := by
  have hown := h.owner task
  unfold Orchestrator.cancelTask
  cases hp : s.tasks task with
  | absent =>
      have hno : s.lock.owner ≠ some task := by simpa [hp] using hown
      exact ⟨h, rfl, rfl, rfl, by rw [if_neg hno]⟩
  | created =>
      have hno : s.lock.owner ≠ some task := by simpa [hp] using hown
      refine ⟨h.setOutside task _ (by simp [hp]) (by simp) fun _ => .finished _, rfl, rfl, rfl, ?_⟩
      rw [if_neg hno, phase_setPc hno]
  | lockWait operation =>
      have hno : s.lock.owner ≠ some task := by simpa [hp] using hown
      have habandon := h.abandon hp .cancelled
      have hphase := phase_setPc hno (.finished .cancelled)
      cases operation with
      | acquire target => exact ⟨habandon, rfl, rfl, rfl, by rw [if_neg hno]; exact hphase⟩
      | evictAll idle =>
          refine ⟨habandon.endIdle idle, ?_⟩
          cases idle <;> exact ⟨rfl, rfl, rfl, by rw [if_neg hno]; exact hphase⟩
  | awaiting site call =>
      have hyes : s.lock.owner = some task := hown.mpr (by simp [hp])
      have hheld := h.lockedBy hp
      have horphans (orphans : List Site) :
          Locking ({ s with orphans := orphans }.leave task .cancelled) :=
        (hheld.congr rfl rfl rfl : LockedBy { s with orphans := orphans } task _).leave _
      by_cases hrun : call = .running
      · cases site with
        | evictAll idle worker =>
            simp only [hrun, if_true, hyes]
            refine ⟨(horphans _).endIdle idle, ?_⟩
            cases idle <;> exact ⟨rfl, rfl, rfl, rfl⟩
        | _ =>
            simp only [hrun, if_true, hyes]
            exact ⟨horphans _, rfl, rfl, rfl, rfl⟩
      · cases site with
        | evictAll idle worker =>
            simp only [hrun, if_false, if_true, hyes]
            refine ⟨(hheld.leave _).endIdle idle, ?_⟩
            cases idle <;> exact ⟨rfl, rfl, rfl, rfl⟩
        | _ =>
            simp only [hrun, if_false, if_true, hyes]
            exact ⟨hheld.leave _, rfl, rfl, rfl, rfl⟩
  | finished result =>
      have hno : s.lock.owner ≠ some task := by simpa [hp] using hown
      exact ⟨h, rfl, rfl, rfl, by rw [if_neg hno]⟩

theorem Locking.cancelTask_core (h : Locking s) (task : TaskId) :
    (Orchestrator.cancelTask s task).core =
      ⟨s.worker, if s.lock.owner = some task then none else s.phase, s.log⟩ := by
  obtain ⟨-, -, hworker, hlog, hphase⟩ := h.cancelTask task
  unfold State.core
  rw [hworker, hlog, hphase]

theorem Locking.cancelTask_coupled (h : Locking s) (hcoupled : Coupled s) (task : TaskId) :
    Coupled (Orchestrator.cancelTask s task) := by
  obtain ⟨-, hslot, hworker, -, -⟩ := h.cancelTask task
  unfold Coupled at hcoupled ⊢
  rw [hslot, hworker, hcoupled]

end Cancel

section Bodies

variable {s : State} {task : TaskId}

-- The state a body starts from: the mutex has just been taken by `task`.
structure Entered (s : State) (task : TaskId) (idle : Bool) : Prop where
  locked : LockedBy s task idle
  coupled : Coupled s
  phase : s.phase = none

theorem acquireLocked_refines (h : Entered s task false) (target : ResidencyId) (made : Bool) :
    Refines s.core .internal (acquireLocked s task target made) := by
  obtain ⟨hlock, hcore, hslot⟩ := h.locked.cancelIdleTimer
  have hworker : (cancelIdleTimer s).worker = s.worker := congrArg Core.resident hcore
  have hlog : (cancelIdleTimer s).log = s.log := congrArg Core.log hcore
  have hcoupled : Coupled (cancelIdleTimer s) := by
    have hc := h.coupled
    unfold Coupled at hc ⊢
    rw [hslot, hworker, hc]
  have hphase : s.core.phase = none := h.phase
  have hres : s.slot = s.worker.map Worker.target := h.coupled
  unfold acquireLocked
  simp only [hslot, hworker, hres]
  cases hw : s.worker with
  | none =>
      have hcold : s.core.resident = none := hw
      simp only [Option.map_none, planAcquire_cold]
      apply start_refines target _ hlock rfl hcoupled
      · intro worker ht
        rw [hworker, hlog]
        exact .cold target worker hphase hcold ht
      · rw [hworker, hlog, ← hphase]
        exact .stutter s.core
      · simp
  | some worker =>
      have hwarm : s.core.resident = some worker := hw
      by_cases ht : worker.target = target
      · subst ht
        simp only [Option.map_some, planAcquire_self]
        apply acquireReturn_refines _ hlock hcoupled
        rw [hworker, hlog, ← hphase]
        exact .hit task _ hphase hwarm rfl
      · simp only [Option.map_some, planAcquire_swap ht]
        apply toThread_refines hlock hcoupled _ (by simp)
        rw [hworker, hlog]
        exact .swap target hphase hwarm ht

theorem evictAllReturn_refines {c : Core} {idle : Bool} (h : LockedBy s task idle)
    (hcore : CoreStep c .internal ⟨none, none, s.log⟩) :
    Refines c .internal (evictAllReturn s task idle) := by
  have hlock : LockedBy { s with worker := none, slot := none } task idle := h.congr rfl rfl rfl
  refine ⟨(hlock.leave .returned).endIdle idle, ?_, ?_⟩ <;> unfold evictAllReturn <;> cases idle
  · exact rfl
  · exact rfl
  · exact hcore
  · exact hcore

theorem evictAllLocked_refines {idle : Bool} (h : Entered s task idle) :
    Refines s.core .internal (evictAllLocked s task idle) := by
  have hlock : LockedBy (cancelIdleHandle s) task idle := h.locked.congr rfl rfl rfl
  have hphase : s.core.phase = none := h.phase
  unfold evictAllLocked
  dsimp only
  cases hw : (cancelIdleHandle s).worker with
  | none =>
      apply evictAllReturn_refines hlock
      have hres : s.core.resident = none := hw
      have hbase : s.core = ⟨none, none, s.log⟩ := by rw [← hres, ← hphase]; rfl
      rw [hbase]
      exact .stutter _
  | some worker =>
      exact toThread_refines hlock h.coupled _ (by simp [Site.isIdle]) (.evictAll idle hphase hw)

def Operation.isIdle : Operation → Bool
  | .acquire _ => false
  | .evictAll idle => idle

theorem enter_refines (operation : Operation) (h : Entered s task operation.isIdle)
    (made : Bool) : Refines s.core .internal (enter s task operation made) := by
  cases operation with
  | acquire target => exact acquireLocked_refines h target made
  | evictAll idle => exact evictAllLocked_refines h

theorem resume_refines (hlocking : Locking s) (hcoupled : Coupled s) (hfits : s.core.Fits)
    {site : Site} {outcome : Outcome} (hpc : s.tasks task = .awaiting site (.done outcome))
    (made : Bool) : Refines s.core .internal (resume s task site outcome made) := by
  have hlock := hlocking.lockedBy hpc
  have hphase : s.core.phase = some (site, .done outcome) := phase_eq hlock.owner hpc
  have hfit := hfits _ _ hphase
  have hfails (hmay : site.mayFail outcome) :
      Refines s.core .internal (s.leave task .raised) :=
    ⟨hlock.leave .raised, hcoupled, .fails hphase hmay⟩
  cases site with
  | swapEvict target plan worker =>
      cases outcome with
      | raised => exact hfails trivial
      | returned value =>
          have hlock' : LockedBy { s with worker := none, slot := none } task false :=
            hlock.congr rfl rfl rfl
          exact toThread_refines hlock' rfl _ (by simp) (.evicted hphase)
  | postEvictWait target plan =>
      cases outcome with
      | raised => exact hfails trivial
      | returned value =>
          cases value with
          | false => exact hfails trivial
          | true =>
              apply start_refines target plan hlock rfl hcoupled
              · intro worker ht
                exact .released worker hphase ht
              · exact .fails hphase trivial
              · rw [hfit.2.2]; simp
  | start target plan worker =>
      cases outcome with
      | raised => exact hfails trivial
      | returned value =>
          exact toThread_refines hlock hcoupled _ (by simp [Site.isIdle]) (.started hphase)
  | waitReady target plan worker =>
      cases outcome with
      | raised => exact hfails trivial
      | returned value =>
          cases value with
          | false =>
              exact toThread_refines hlock hcoupled _ (by simp [Site.isIdle]) (.notReady hphase)
          | true =>
              have hlock' : LockedBy { s with worker := some worker, slot := some target } task
                  false := hlock.congr rfl rfl rfl
              apply acquireReturn_refines target hlock'
              · exact congrArg some hfit.2.symm
              · exact .ready task hphase
  | notReadyEvict target worker =>
      cases outcome with
      | raised => exact hfails trivial
      | returned value => exact hfails trivial
  | evictAll idle worker =>
      cases outcome with
      | raised =>
          refine ⟨(hlock.leave .raised).endIdle idle, ?_, ?_⟩ <;> unfold resume <;> cases idle
          · exact hcoupled
          · exact hcoupled
          · exact .fails hphase trivial
          · exact .fails hphase trivial
      | returned value => exact evictAllReturn_refines hlock (.evictedAll hphase)

end Bodies

section Requests

variable {s : State} {task : TaskId}

theorem OfIdleTask.isIdle_operation {operation : Operation}
    (h : Pc.OfIdleTask (.lockWait operation)) : operation.isIdle = true := by
  cases h; rfl

-- Joining the queue changes nothing but the queue and the place of the task.
theorem Locking.enqueue (h : Locking s) (operation : Operation)
    (hfrom : (s.tasks task).isAwaiting = false ∧ (s.tasks task).isWaiting = false)
    (hidle : s.idleTask = some task → operation = .evictAll true) :
    Locking { s.setPc task (.lockWait operation) with
      lock := ⟨s.lock.owner, s.lock.waiters ++ [task]⟩ } where
  owner t := by
    rcases eq_or_ne t task with rfl | ht
    · have ho := h.owner t
      simp only [hfrom.1, Bool.false_eq_true, iff_false] at ho
      simp [State.setPc, ho]
    · simpa [State.setPc, ht] using h.owner t
  waiters t := by
    rcases eq_or_ne t task with rfl | ht
    · simp [State.setPc]
    · simpa [State.setPc, ht] using h.waiters t
  nodup := by
    have hnot : task ∉ s.lock.waiters := fun hw =>
      Bool.false_ne_true (hfrom.2.symm.trans ((h.waiters task).mp hw))
    simpa [List.nodup_append] using ⟨h.nodup, fun t ht hte => hnot (hte ▸ ht)⟩
  idleTask t ht := by
    rcases eq_or_ne t task with rfl | hne
    · rw [hidle ht]
      simpa [State.setPc] using Pc.OfIdleTask.lockWait
    · simpa [State.setPc, hne] using h.idleTask t ht

-- The mutex is free and nobody waits for it: a task from outside takes it.
theorem Locking.take (h : Locking s) (hfree : s.lock.owner = none) (hempty : s.lock.waiters = [])
    {operation : Operation} (hidle : s.idleTask = some task → operation = .evictAll true) :
    LockedBy { s with lock := ⟨some task, []⟩ } task operation.isIdle where
  owner := rfl
  awaiting t _ hw := by
    have := (h.owner t).mpr hw
    simp [hfree] at this
  waiters t := by
    have hw := h.waiters t
    simp only [hempty, List.not_mem_nil, false_iff] at hw
    exact ⟨fun hm => absurd hm List.not_mem_nil, fun hm => absurd hm.2 hw⟩
  nodup := List.nodup_nil
  idleTask t ht := by
    rcases eq_or_ne t task with rfl | hne
    · exact .inr ⟨rfl, by rw [hidle ht]; rfl⟩
    · exact .inl ⟨hne, h.idleTask t ht⟩

-- The first waiter of a free mutex runs again and takes it.
theorem Locking.handOver (h : Locking s) {operation : Operation}
    (hpc : s.tasks task = .lockWait operation) (hwoken : s.lock.woken = some task) :
    LockedBy { s with lock := s.lock.handOver } task operation.isIdle := by
  obtain ⟨hfree, rest, hwaiters, hover⟩ := FifoLock.woken_eq_some hwoken
  have hnodup := h.nodup
  rw [hwaiters, List.nodup_cons] at hnodup
  rw [hover]
  refine ⟨rfl, ?_, ?_, hnodup.2, ?_⟩
  · intro t _ hw
    have := (h.owner t).mpr hw
    simp [hfree] at this
  · intro t
    have hw := h.waiters t
    rw [hwaiters, List.mem_cons] at hw
    refine ⟨fun ht => ⟨?_, hw.mp (.inr ht)⟩, fun ht => (hw.mpr ht.2).resolve_left ht.1⟩
    rintro rfl
    exact hnodup.1 ht
  · intro t ht
    rcases eq_or_ne t task with rfl | hne
    · exact .inr ⟨rfl, OfIdleTask.isIdle_operation (hpc ▸ h.idleTask t ht)⟩
    · exact .inl ⟨hne, h.idleTask t ht⟩

-- `async with self._lock` from a task outside: into the body, or to the queue.
theorem request_refines (hlocking : Locking s) (hcoupled : Coupled s) (operation : Operation)
    (hfrom : (s.tasks task).isAwaiting = false ∧ (s.tasks task).isWaiting = false)
    (hidle : s.idleTask = some task → operation = .evictAll true) (made : Bool) :
    Refines s.core .internal (request s task operation made) := by
  have hself : s.lock.owner ≠ some task := fun ho =>
    Bool.false_ne_true (hfrom.1.symm.trans ((hlocking.owner task).mp ho))
  unfold request
  rcases s.lock.acquire_cases task with ⟨hfree, hempty, hacq⟩ | ⟨hbusy, hacq⟩
  · simp only [hacq, if_true]
    have hphase : s.phase = none := phase_none hfree
    have hentered : Entered { s with lock := ⟨some task, []⟩ } task operation.isIdle := by
      refine ⟨hlocking.take hfree hempty hidle, hcoupled, ?_⟩
      unfold State.phase
      cases hp : s.tasks task with
      | awaiting site call => exact absurd hfrom.1 (by simp [hp])
      | _ => simp [hp]
    have hsame : State.core { s with lock := ⟨some task, []⟩ } = s.core :=
      core_congr rfl (hentered.phase.trans hphase.symm) rfl
    rw [← hsame]
    exact enter_refines operation hentered made
  · simp only [hacq, hself, if_false]
    refine ⟨hlocking.enqueue operation hfrom hidle, hcoupled, ?_⟩
    have hsame : State.core { s.setPc task (.lockWait operation) with
        lock := ⟨s.lock.owner, s.lock.waiters ++ [task]⟩ } = s.core :=
      core_congr rfl (phase_setPc hself (.lockWait operation)) rfl
    have hstep := CoreStep.stutter s.core
    rw [← hsame] at hstep
    rw [← hsame]
    exact hstep

theorem granted_refines (hlocking : Locking s) (hcoupled : Coupled s) {operation : Operation}
    (hpc : s.tasks task = .lockWait operation) (hwoken : s.lock.woken = some task) (made : Bool) :
    Refines s.core .internal (enter { s with lock := s.lock.handOver } task operation made) := by
  have hlocked := hlocking.handOver hpc hwoken
  obtain ⟨hfree, rest, hwaiters, hover⟩ := FifoLock.woken_eq_some hwoken
  have hphase : s.phase = none := phase_none hfree
  rw [hover] at hlocked ⊢
  have hentered : Entered { s with lock := ⟨some task, rest⟩ } task operation.isIdle :=
    ⟨hlocked, hcoupled, by simp [State.phase, hpc]⟩
  have hsame : State.core { s with lock := ⟨some task, rest⟩ } = s.core :=
    core_congr rfl (hentered.phase.trans hphase.symm) rfl
  rw [← hsame]
  exact enter_refines operation hentered made

end Requests

-- What every reachable state of the manager satisfies.
structure Consistent (s : State) : Prop where
  locking : Locking s
  coupled : Coupled s
  fits : s.core.Fits

theorem consistent_initial : Consistent initial where
  locking := locking_initial
  coupled := rfl
  fits := by intro site call h; cases h

theorem Consistent.of_refines {s s' : State} {lab : CoreLabel} (h : Consistent s)
    (href : Refines s.core lab s') : Consistent s' :=
  ⟨href.locking, href.coupled, href.core.fits h.fits⟩

section Steps

variable {s : State} {task : TaskId}

theorem notifyIdle_refines (idleTimeout : ℚ) (h : Consistent s) :
    Refines s.core (label s .notifyIdle) (notifyIdle idleTimeout s) := by
  have hlocking : Locking (cancelIdleHandle s) := h.locking.congr rfl rfl rfl
  suffices href : Refines s.core (label s .notifyIdle) (cancelIdleTimer s) by
    unfold notifyIdle
    dsimp only
    split
    · exact ⟨href.locking.congr rfl rfl rfl, href.coupled, href.core⟩
    · exact href
  unfold cancelIdleTimer label
  cases hi : s.idleTask with
  | none => exact ⟨hlocking, h.coupled, .stutter _⟩
  | some task =>
      have hcoupled : Coupled { cancelTask (cancelIdleHandle s) task with idleTask := none } :=
        hlocking.cancelTask_coupled h.coupled task
      have hcore : State.core { cancelTask (cancelIdleHandle s) task with idleTask := none } =
          ⟨s.worker, if s.lock.owner = some task then none else s.phase, s.log⟩ :=
        hlocking.cancelTask_core task
      refine ⟨(hlocking.cancelTask task).1.clearIdle, hcoupled, ?_⟩
      rw [hcore]
      by_cases hown : s.lock.owner = some task
      · obtain ⟨site, call, -, hp⟩ := h.locking.owner_awaiting hown
        simp only [hown, ne_eq, reduceCtorEq, not_false_eq_true, and_self, if_true]
        exact .abort hp
      · simp only [hown, Ne.symm hown, ne_eq, reduceCtorEq, not_false_eq_true, and_false, if_false]
        exact .stutter _

theorem cancelled_refines (h : Consistent s) (task : TaskId) :
    Refines s.core (label s (.cancelled task)) (cancelTask s task) := by
  refine ⟨(h.locking.cancelTask task).1, h.locking.cancelTask_coupled h.coupled task, ?_⟩
  rw [h.locking.cancelTask_core]
  unfold label
  by_cases hown : s.lock.owner = some task
  · obtain ⟨site, call, -, hp⟩ := h.locking.owner_awaiting hown
    simp only [hown, if_true]
    exact .abort hp
  · simp only [hown, if_false]
    exact .stutter _

-- A task in its critical section moves from one stage of its call to the next.
theorem Locking.setCall (h : Locking s) {site : Site} {call : Call}
    (hpc : s.tasks task = .awaiting site call) (call' : Call) (events : List Event) :
    Locking ((s.setPc task (.awaiting site call')).emit events) ∧
      ((s.setPc task (.awaiting site call')).emit events).core =
        ⟨s.worker, some (site, call'), events ++ s.log⟩ := by
  have hlock := h.lockedBy hpc
  refine ⟨?_, ?_⟩
  · refine ⟨fun t => ?_, fun t => ?_, h.nodup, fun t ht => ?_⟩
    · rcases eq_or_ne t task with rfl | hne
      · simpa [State.emit, State.setPc] using hlock.owner
      · simpa [State.emit, State.setPc, hne] using h.owner t
    · rcases eq_or_ne t task with rfl | hne
      · have hw := h.waiters t
        simpa [State.emit, State.setPc, hpc] using hw
      · simpa [State.emit, State.setPc, hne] using h.waiters t
    · rcases eq_or_ne t task with rfl | hne
      · have hi := h.idleTask t ht
        rw [hpc] at hi
        cases hi
        simpa [State.emit, State.setPc] using Pc.OfIdleTask.awaiting _ _
      · simpa [State.emit, State.setPc, hne] using h.idleTask t ht
  · have hphase : ((s.setPc task (.awaiting site call')).emit events).phase = some (site, call') :=
      phase_eq (s := (s.setPc task (.awaiting site call')).emit events) hlock.owner
        (by simp [State.emit, State.setPc])
    unfold State.core
    rw [hphase]
    rfl

theorem tryIdleEvict_refines (h : Consistent s) (hpc : s.tasks task = .created) :
    Refines s.core .internal (tryIdleEvict s task) := by
  have hno : s.lock.owner ≠ some task := fun ho => by
    have := (h.locking.owner task).mp ho
    simp [hpc] at this
  unfold tryIdleEvict
  split
  · have hout := h.locking.setOutside task (.finished .returned)
      (by simp [hpc]) (by simp) fun _ => .finished _
    refine ⟨hout.endIdle true, h.coupled, ?_⟩
    have hcore : (endIdle (s.setPc task (.finished .returned)) true).core = s.core :=
      core_congr rfl (phase_setPc hno (.finished .returned)) rfl
    rw [hcore]
    exact .stutter _
  · exact request_refines h.locking h.coupled _ (by simp [hpc]) (fun _ => rfl) _

-- Every action of the manager is the step of the abstract machine that `label`
-- names, and keeps the mutex and the bookkeeping consistent.
theorem step_refines {idleTimeout : ℚ} {s' : State} {a : Action} (h : Consistent s)
    (hs : step idleTimeout s a = some s') : Refines s.core (label s a) s' := by
  cases a with
  | call task operation made =>
      simp only [step] at hs
      split at hs
      · rename_i hc
        cases hs
        apply request_refines h.locking h.coupled _ (by simp [hc.1])
        intro hi
        have hidle := h.locking.idleTask task hi
        rw [hc.1] at hidle
        cases hidle
      · cases hs
  | granted task made =>
      simp only [step] at hs
      split at hs
      · rename_i operation hpc
        split at hs
        · rename_i hwoken
          cases hs
          exact granted_refines h.locking h.coupled hpc hwoken made
        · cases hs
      · cases hs
  | threadEnters task =>
      simp only [step] at hs
      split at hs
      · rename_i site hpc
        cases hs
        have hset := h.locking.setCall hpc .running site.entering
        have hphase : s.core.phase = some (site, .pending) :=
          phase_eq (h.locking.lockedBy hpc).owner hpc
        refine ⟨hset.1, h.coupled, ?_⟩
        rw [hset.2]
        exact .enters hphase
      · cases hs
  | threadLeaves task outcome =>
      simp only [step] at hs
      split at hs
      · rename_i site hpc
        cases hs
        have hset := h.locking.setCall hpc (.done outcome) (site.leaving outcome)
        have hphase : s.core.phase = some (site, .running) :=
          phase_eq (h.locking.lockedBy hpc).owner hpc
        refine ⟨hset.1, h.coupled, ?_⟩
        rw [hset.2]
        exact .leaves outcome hphase
      · cases hs
  | resumes task made =>
      simp only [step] at hs
      split at hs
      · rename_i site outcome hpc
        cases hs
        exact resume_refines h.locking h.coupled h.fits hpc made
      · cases hs
  | cancelled task =>
      simp only [step] at hs
      split at hs
      · cases hs
      · cases hs
      · cases hs
        exact cancelled_refines h task
  | orphanLeaves index outcome =>
      simp only [step] at hs
      split at hs
      · rename_i site ho
        cases hs
        refine ⟨h.locking.congr rfl rfl rfl, h.coupled, ?_⟩
        simp only [label, ho]
        exact .orphanLeaves site outcome
      · cases hs
  | notifyIdle =>
      cases hs
      exact notifyIdle_refines idleTimeout h
  | timerFires task =>
      simp only [step] at hs
      split at hs
      · rename_i hc
        cases hs
        have hno : s.lock.owner ≠ some task := fun ho => by
          have := (h.locking.owner task).mp ho
          simp [hc.2] at this
        have hcleared := h.locking.clearIdle
        have hout := hcleared.setOutside task .created (by simp [hc.2])
          (by simp) (by simp)
        refine ⟨⟨hout.owner, hout.waiters, hout.nodup, ?_⟩, h.coupled, ?_⟩
        · intro t ht
          cases ht
          simpa [onIdleTimeout, State.setPc] using Pc.OfIdleTask.created
        · have hcore : (onIdleTimeout s task).core = s.core :=
            core_congr rfl (phase_setPc hno .created) rfl
          rw [hcore]
          exact .stutter _
      · cases hs
  | idleStarts task =>
      simp only [step] at hs
      split at hs
      · rename_i hpc
        cases hs
        exact tryIdleEvict_refines h hpc
      · cases hs

theorem step_consistent {idleTimeout : ℚ} {s' : State} {a : Action} (h : Consistent s)
    (hs : step idleTimeout s a = some s') : Consistent s' :=
  h.of_refines (step_refines h hs)

end Steps

-- Invariants of the abstract machine hold along the runs of the manager.
theorem Path.core_invariant {idleTimeout : ℚ} {ok : State → Action → Prop} {s : State}
    (inv : Core → Prop) (hinit : inv initial.core)
    (hstep : ∀ s a c', Consistent s → inv s.core → ok s a → CoreStep s.core (label s a) c' → inv c')
    (hpath : Path (step idleTimeout) ok initial s) : Consistent s ∧ inv s.core := by
  refine hpath.invariant (fun s => Consistent s ∧ inv s.core) ⟨consistent_initial, hinit⟩ ?_
  rintro s a s' ⟨hcons, hinv⟩ hok hs
  have href := step_refines hcons hs
  exact ⟨hcons.of_refines href, hstep s a _ hcons hinv hok href.core⟩

end Cosmos3.Orchestrator
