import Cosmos3.Lease.System
import Cosmos3.Orchestrator.Progress

namespace Cosmos3.Lease

open Basis Orchestrator
open Jobs (JobId)

-- What holds of the orchestrator's coroutines, given the lease holder's stage.
structure Stable (o : Orchestrator.State) (issued : TaskId → Option Purpose) (stage : Stage) :
    Prop where
  consistent : Consistent o
  idle : IdleOnce o
  orphans : o.orphans = []
  evicts : ∀ t, (o.tasks t).operation = some (.evictAll false) →
    ∃ job, issued t = some (.evictAll job)
  acquires : ∀ t target, (o.tasks t).operation = some (.acquire target) →
    issued t = some (.acquire target) ∧ ∃ job, stage = some (t, job)
  called : ∀ t job, stage = some (t, job) →
    (∃ target, (o.tasks t).operation = some (.acquire target)) ∨
      ∃ result, o.tasks t = .finished result
  behind : ∀ t job, stage = some (t, job) → ∀ u, [t, u].Sublist o.lock.waiters →
    (o.tasks u).operation = some (.evictAll true)
  alone : ∀ t job, stage = some (t, job) → (o.tasks t).isAwaiting = true →
    o.idleHandle = false ∧ ∀ u, u ≠ t → (o.tasks u).operation = none
  window : ∀ t job result, stage = some (t, job) → o.tasks t = .finished result →
    o.idleHandle = false ∧ ∀ u operation, (o.tasks u).operation = some operation →
      operation = .evictAll false ∧ ∃ j, job = some j ∧ issued u = some (.evictAll j)
  resident : ∀ t job target, stage = some (t, job) → o.tasks t = .finished .returned →
    issued t = some (.acquire target) → o.slot = some target ∨
      ∃ u j, job = some j ∧ issued u = some (.evictAll j) ∧ o.tasks u = .finished .returned

theorem stable_initial : Stable Orchestrator.initial (fun _ => none) none := by
  refine ⟨consistent_initial, idleOnce_initial, rfl, ?_, ?_, ?_, ?_, ?_, ?_, ?_⟩ <;>
    simp [Orchestrator.initial]

section Own

variable {o o' : Orchestrator.State} {issued : TaskId → Option Purpose} {stage : Stage}
  {task : TaskId} {operation : Operation}

theorem operation_of_isWaiting {pc : Pc} (h : pc.isWaiting = true) : pc.operation ≠ none := by
  cases pc <;> simp at h ⊢

-- What the other coroutines are in the middle of after a step.
theorem operation_of_others {t : TaskId} {p : Operation} (h : Advances o task operation o')
    (ht : t ≠ task) (hp : (o'.tasks t).operation = some p) :
    o'.tasks t = o.tasks t ∧ (o.tasks t).operation = some p := by
  rcases h.others t ht with heq | ⟨-, hcancelled⟩
  · exact ⟨heq, heq ▸ hp⟩
  · rw [hcancelled] at hp
    cases hp

-- The holder's acquire gets the mutex when nothing else is under way but, behind
-- it in the line, the idle task, which it cancels.
theorem Stable.quiet_after (h : Stable o issued stage) {job : Option JobId}
    (hstage : stage = some (task, job)) {target : ResidencyId}
    (hadv : Advances o task (.acquire target) o') (hidle : IdleOnce o')
    (hin : (o.tasks task).isAwaiting = true ∨ Admitted o task (.acquire target) o') :
    o'.idleHandle = false ∧ ∀ u, u ≠ task → (o'.tasks u).operation = none := by
  rcases hin with hawaiting | hadmitted
  · obtain ⟨hhandle, hnone⟩ := h.alone task job hstage hawaiting
    refine ⟨?_, fun u hu => ?_⟩
    · by_contra harmed
      have := hadv.handle (by simpa using harmed)
      simp [hhandle] at this
    · rcases hadv.others u hu with heq | ⟨-, hcancelled⟩
      · rw [heq]
        exact hnone u hu
      · rw [hcancelled]
        rfl
  · obtain ⟨htask, hhandle⟩ := hadmitted.quiet target rfl
    refine ⟨hhandle, fun u hu => ?_⟩
    by_contra hlive
    obtain ⟨p, hp⟩ := Option.ne_none_iff_exists'.mp hlive
    obtain ⟨heq, hbefore⟩ := operation_of_others hadv hu hp
    have hidleOp : p ≠ .evictAll true := by
      rintro rfl
      have := (hidle.task u).mpr hp
      simp [htask] at this
    have hwaiting : (o.tasks u).isWaiting = true := by
      have howner := (h.consistent.locking.owner u).mpr
      cases hpc : o.tasks u with
      | absent => simp [hpc] at hbefore
      | created =>
          rw [hpc] at hbefore
          exact absurd (Option.some.inj hbefore).symm hidleOp
      | lockWait q => rfl
      | awaiting site call => simp [hadmitted.free, hpc] at howner
      | finished result => simp [hpc] at hbefore
    have hmem := (h.consistent.locking.waiters u).mpr hwaiting
    have hbehind := h.behind task job hstage u (hadmitted.first u hmem hu)
    exact hidleOp (Option.some.inj (hbefore.symm.trans hbehind))

theorem Stable.own (h : Stable o issued stage) (hconsistent : Consistent o')
    (hop : (o.tasks task).operation = some operation) (hadv : Advances o task operation o')
    (hin : ∀ target, operation = .acquire target →
      (o.tasks task).isAwaiting = true ∨ Admitted o task operation o') :
    Stable o' issued stage := by
  have hown : o.idleTask = some task ↔ operation = .evictAll true := by
    rw [h.idle.task task, hop, Option.some.injEq]
  have hidle := hadv.idle h.idle hown
  have hkept : ∀ t p, (o'.tasks t).operation = some p → (o.tasks t).operation = some p := by
    intro t p hp
    rcases eq_or_ne t task with rfl | ht
    · rcases hadv.here with hhere | ⟨result, hfinished⟩
      · rw [hop]
        exact hhere.symm.trans hp
      · rw [hfinished] at hp
        cases hp
    · exact (operation_of_others hadv ht hp).2
  -- the stage's call is the one that goes on, or is as it was
  have hquiet : ∀ job, stage = some (task, job) →
      o'.idleHandle = false ∧ ∀ u, u ≠ task → (o'.tasks u).operation = none := by
    intro job hstage
    obtain ⟨target, hacquire⟩ : ∃ target, operation = .acquire target := by
      rcases h.called task job hstage with ⟨target, htarget⟩ | ⟨result, hfinished⟩
      · exact ⟨target, Option.some.inj (hop.symm.trans htarget)⟩
      · rw [hfinished] at hop
        cases hop
    subst hacquire
    exact h.quiet_after hstage hadv hidle (hin target rfl)
  have hstays : ∀ t job, stage = some (t, job) → t ≠ task → o'.tasks t = o.tasks t := by
    intro t job hstage ht
    rcases hadv.others t ht with heq | ⟨hidleTask, -⟩
    · exact heq
    · have hevict := (h.idle.task t).mp hidleTask
      rcases h.called t job hstage with ⟨target, htarget⟩ | ⟨result, hfinished⟩
      · rw [hevict] at htarget
        cases htarget
      · rw [hfinished] at hevict
        cases hevict
  refine ⟨hconsistent, hidle, hadv.orphans.trans h.orphans, fun t ht => h.evicts t (hkept t _ ht),
    fun t target ht => h.acquires t target (hkept t _ ht), fun t job hstage => ?_,
    fun t job hstage u hsub => ?_, fun t job hstage hawaiting => ?_,
    fun t job result hstage hfinished => ?_, fun t job target hstage hreturned hissued => ?_⟩
  · rcases eq_or_ne t task with rfl | ht
    · rcases hadv.here with hhere | hfinished
      · rcases h.called t job hstage with ⟨target, htarget⟩ | ⟨result, hfinished⟩
        · exact .inl ⟨target, hhere.trans (hop.symm.trans htarget)⟩
        · rw [hfinished] at hop
          cases hop
      · exact .inr hfinished
    · rw [hstays t job hstage ht]
      exact h.called t job hstage
  · have hmem : u ∈ o'.lock.waiters := hsub.subset (by simp)
    obtain ⟨p, hp⟩ := Option.ne_none_iff_exists'.mp
      (operation_of_isWaiting ((hconsistent.locking.waiters u).mp hmem))
    have hbefore : (o.tasks u).operation = some (.evictAll true) := by
      rcases hadv.line t u hsub with hold | ⟨rfl, rfl⟩
      · exact h.behind t job hstage u hold
      · exact hop
    rw [hp, ← hkept u p hp, hbefore]
  · rcases eq_or_ne t task with rfl | ht
    · exact hquiet job hstage
    · rw [hstays t job hstage ht] at hawaiting
      have := (h.alone t job hstage hawaiting).2 task (Ne.symm ht)
      rw [hop] at this
      cases this
  · rcases eq_or_ne t task with rfl | ht
    · obtain ⟨hhandle, hnone⟩ := hquiet job hstage
      refine ⟨hhandle, fun u p hp => ?_⟩
      rcases eq_or_ne u t with rfl | hu
      · rw [hfinished] at hp
        cases hp
      · rw [hnone u hu] at hp
        cases hp
    · rw [hstays t job hstage ht] at hfinished
      obtain ⟨hhandle, hothers⟩ := h.window t job result hstage hfinished
      refine ⟨?_, fun u p hp => hothers u p (hkept u p hp)⟩
      by_contra harmed
      have := hadv.handle (by simpa using harmed)
      simp [hhandle] at this
  · rcases eq_or_ne t task with rfl | ht
    · left
      rcases h.called t job hstage with ⟨target', htarget⟩ | ⟨result, hfinished⟩
      · obtain rfl := Option.some.inj (hop.symm.trans htarget)
        have heq := (h.acquires t target' htarget).1
        rw [hissued] at heq
        cases heq
        exact hadv.acquired target rfl hreturned
      · rw [hfinished] at hop
        cases hop
    · rw [hstays t job hstage ht] at hreturned
      obtain ⟨-, hothers⟩ := h.window t job .returned hstage hreturned
      obtain ⟨hevict, j, hjob, hfor⟩ := hothers task operation hop
      rcases hadv.evicted false hevict with hslot | ⟨-, hdone⟩
      · rw [hslot]
        rcases h.resident t job target hstage hreturned hissued with hres | ⟨u, j', hj, hu, hdone⟩
        · exact .inl hres
        · right
          refine ⟨u, j', hj, hu, ?_⟩
          have hne : u ≠ task := by
            rintro rfl
            rw [hdone] at hop
            cases hop
          rcases hadv.others u hne with heq | ⟨hidleTask, -⟩
          · rw [heq, hdone]
          · have := (h.idle.task u).mp hidleTask
            rw [hdone] at this
            cases this
      · exact .inr ⟨task, j, hjob, hfor, hdone⟩

end Own

section Calls

variable {o : Orchestrator.State} {issued : TaskId → Option Purpose} {stage : Stage} {task : TaskId}

-- No acquire is under way while no lease holder has made its call, and none
-- once the holder's call is over.
theorem Stable.release (h : Stable o issued stage) {t : TaskId} {job : Option JobId}
    {result : Result} (hstage : stage = some (t, job)) (hfinished : o.tasks t = .finished result) :
    Stable o issued none := by
  obtain ⟨-, hothers⟩ := h.window t job result hstage hfinished
  refine ⟨h.consistent, h.idle, h.orphans, h.evicts, fun u target hu => ?_, by simp, by simp,
    by simp, by simp, by simp⟩
  obtain ⟨hevict, -⟩ := hothers u _ hu
  cases hevict

theorem Stable.idleTask_none (h : Stable o issued stage) {t : TaskId} {job : Option JobId}
    {result : Result} (hstage : stage = some (t, job)) (hfinished : o.tasks t = .finished result) :
    o.idleTask = none := by
  by_contra hne
  obtain ⟨u, hu⟩ := Option.ne_none_iff_exists'.mp hne
  have hevict := ((h.window t job result hstage hfinished).2 u _ ((h.idle.task u).mp hu)).1
  cases hevict

theorem notifyIdle_of_idleTask_none (hnone : o.idleTask = none) (idleTimeout : ℚ) :
    ∃ handle, notifyIdle idleTimeout o = { o with idleHandle := handle } := by
  have hcancel : cancelIdleTimer o = cancelIdleHandle o := by
    unfold cancelIdleTimer
    rw [hnone]
  unfold Orchestrator.notifyIdle
  rw [hcancel]
  dsimp only
  split
  · exact ⟨true, rfl⟩
  · exact ⟨false, rfl⟩

-- The end of a holder: the idle timer is armed and the lease is released.
theorem Stable.notifyIdle (h : Stable o issued stage) {t : TaskId} {job : Option JobId}
    {result : Result} (hstage : stage = some (t, job)) (hfinished : o.tasks t = .finished result)
    (idleTimeout : ℚ) : Stable (notifyIdle idleTimeout o) issued none := by
  have hnone := h.idleTask_none hstage hfinished
  have hreleased := h.release hstage hfinished
  have hconsistent := h.consistent.of_refines (notifyIdle_refines idleTimeout h.consistent)
  obtain ⟨handle, heq⟩ := notifyIdle_of_idleTask_none hnone idleTimeout
  rw [heq] at hconsistent ⊢
  exact ⟨hconsistent, ⟨fun _ => hnone, h.idle.task⟩, h.orphans, h.evicts, hreleased.acquires, by simp,
    by simp, by simp, by simp, by simp⟩

-- The timer fires: it was armed, so no holder's acquire has got the mutex yet.
theorem Stable.timerFires (h : Stable o issued stage) (hconsistent : Consistent (onIdleTimeout o task))
    (harmed : o.idleHandle = true) (habsent : o.tasks task = .absent) :
    Stable (onIdleTimeout o task) issued stage := by
  have hnone := h.idle.armed harmed
  have htasks : ∀ t, t ≠ task → (onIdleTimeout o task).tasks t = o.tasks t := by
    intro t ht
    simp [onIdleTimeout, State.setPc, ht]
  have hhere : (onIdleTimeout o task).tasks task = .created := by
    simp [onIdleTimeout, State.setPc]
  have hne : ∀ t p, (o.tasks t).operation = some p → t ≠ task := by
    rintro t p hp rfl
    rw [habsent] at hp
    cases hp
  have hstaged : ∀ t job, stage = some (t, job) → t ≠ task := by
    rintro t job hstage rfl
    rcases h.called t job hstage with ⟨target, htarget⟩ | ⟨result, hfinished⟩
    · exact hne t _ htarget rfl
    · rw [habsent] at hfinished
      cases hfinished
  refine ⟨hconsistent, ⟨by simp [onIdleTimeout], fun t => ?_⟩, h.orphans, fun t ht => ?_,
    fun t target ht => ?_, fun t job hstage => ?_, fun t job hstage u hsub => ?_,
    fun t job hstage hawaiting => ?_, fun t job result hstage hfinished => ?_,
    fun t job target hstage hreturned hissued => ?_⟩
  · rcases eq_or_ne t task with rfl | ht
    · rw [hhere]
      simp [onIdleTimeout]
    · rw [htasks t ht, ← h.idle.task t, hnone]
      simp [onIdleTimeout, Ne.symm ht]
  · rcases eq_or_ne t task with rfl | htask
    · rw [hhere] at ht
      cases ht
    · exact h.evicts t (htasks t htask ▸ ht)
  · rcases eq_or_ne t task with rfl | htask
    · rw [hhere] at ht
      cases ht
    · exact h.acquires t target (htasks t htask ▸ ht)
  · rw [htasks t (hstaged t job hstage)]
    exact h.called t job hstage
  · have hevict := h.behind t job hstage u hsub
    rw [htasks u (hne u _ hevict)]
    exact hevict
  · rw [htasks t (hstaged t job hstage)] at hawaiting
    have := (h.alone t job hstage hawaiting).1
    simp [harmed] at this
  · rw [htasks t (hstaged t job hstage)] at hfinished
    have := (h.window t job result hstage hfinished).1
    simp [harmed] at this
  · rw [htasks t (hstaged t job hstage)] at hreturned
    have := (h.window t job .returned hstage hreturned).1
    simp [harmed] at this

-- A lease holder calls acquire: it gets the mutex at once, or waits at the end of
-- the line.
theorem Stable.callAcquire (h : Stable o issued none) (habsent : o.tasks task = .absent)
    {target : ResidencyId} {made : Bool}
    (hconsistent : Consistent (request o task (.acquire target) made)) (job : Option JobId) :
    Stable (request o task (.acquire target) made)
      (Function.update issued task (some (.acquire target))) (some (task, job)) := by
  have hidleTask : o.idleTask ≠ some task := by
    intro hi
    have := (h.idle.task task).mp hi
    rw [habsent] at this
    cases this
  have hown : o.idleTask = some task ↔ Operation.acquire target = .evictAll true := by
    simp [hidleTask]
  have hnoAcquire : ∀ t target', (o.tasks t).operation ≠ some (.acquire target') := by
    intro t target' hop
    obtain ⟨-, job, hstage⟩ := h.acquires t target' hop
    cases hstage
  rcases request_advances h.consistent.locking h.idle (by simp [habsent]) hown made with
    ⟨hempty, hadv, hadmitted⟩ | heq
  · have hidle := hadv.idle h.idle hown
    obtain ⟨htask, hhandle⟩ := hadmitted.quiet target rfl
    -- the mutex was free and nobody waited: only the idle task was there
    have hothers : ∀ u, u ≠ task →
        ((request o task (.acquire target) made).tasks u).operation = none := by
      intro u hu
      by_contra hlive
      obtain ⟨p, hp⟩ := Option.ne_none_iff_exists'.mp hlive
      obtain ⟨-, hbefore⟩ := operation_of_others hadv hu hp
      have howner := (h.consistent.locking.owner u).mpr
      have hwaiters := (h.consistent.locking.waiters u).mpr
      cases hpc : o.tasks u with
      | absent => simp [hpc] at hbefore
      | created =>
          rw [hpc] at hbefore
          obtain rfl := Option.some.inj hbefore
          have := (hidle.task u).mpr hp
          simp [htask] at this
      | lockWait q => simp [hempty, hpc] at hwaiters
      | awaiting site call => simp [hadmitted.free, hpc] at howner
      | finished result => simp [hpc] at hbefore
    have honly : ∀ u p, ((request o task (.acquire target) made).tasks u).operation = some p →
        u = task ∧ p = .acquire target := by
      intro u p hp
      rcases eq_or_ne u task with rfl | hu
      · rcases hadv.here with hhere | ⟨result, hfinished⟩
        · exact ⟨rfl, Option.some.inj (hp.symm.trans hhere)⟩
        · rw [hfinished] at hp
          cases hp
      · rw [hothers u hu] at hp
        cases hp
    refine ⟨hconsistent, hidle, hadv.orphans.trans h.orphans, fun t ht => ?_, fun t target' ht => ?_,
      fun t j hstage => ?_, fun t j hstage u hsub => ?_, fun t j hstage _ => ?_,
      fun t j result hstage hfinished => ?_, fun t j target' hstage hreturned hissued => ?_⟩
    · obtain ⟨-, hop⟩ := honly t _ ht
      cases hop
    · obtain ⟨rfl, hop⟩ := honly t _ ht
      cases hop
      exact ⟨by simp, job, rfl⟩
    · cases hstage
      exact hadv.here.imp_left fun hhere => ⟨target, hhere⟩
    · rcases hadv.line t u hsub with hold | ⟨-, hop⟩
      · rw [hempty] at hold
        cases hold
      · cases hop
    · cases hstage
      exact ⟨hhandle, hothers⟩
    · cases hstage
      refine ⟨hhandle, fun u p hp => ?_⟩
      obtain ⟨rfl, -⟩ := honly u p hp
      rw [hfinished] at hp
      cases hp
    · cases hstage
      rw [Function.update_self] at hissued
      cases hissued
      exact .inl (hadv.acquired target rfl hreturned)
  · have hnew : task ∉ o.lock.waiters := by
      intro hmem
      have := (h.consistent.locking.waiters task).mp hmem
      simp [habsent] at this
    rw [heq] at hconsistent ⊢
    have htasks : ∀ t, t ≠ task → (o.setPc task (.lockWait (.acquire target))).tasks t =
        o.tasks t := by
      intro t ht
      simp [State.setPc, ht]
    have hhere : (o.setPc task (.lockWait (.acquire target))).tasks task =
        .lockWait (.acquire target) := by
      simp [State.setPc]
    have hidle := (Prepared.refl o task (.acquire target)).idleOnce h.idle hown htasks rfl
      (.inl ⟨rfl, by rw [hhere]; rfl⟩)
    refine ⟨hconsistent, ⟨hidle.armed, hidle.task⟩, h.orphans, fun t ht => ?_, fun t target' ht => ?_,
      fun t j hstage => ?_, fun t j hstage u hsub => ?_, fun t j hstage hawaiting => ?_,
      fun t j result hstage hfinished => ?_, fun t j target' hstage hreturned hissued => ?_⟩
    · rcases eq_or_ne t task with rfl | hne
      · simp [hhere] at ht
      · rw [Function.update_of_ne hne]
        exact h.evicts t (by simpa [htasks t hne] using ht)
    · rcases eq_or_ne t task with rfl | hne
      · simp only [hhere, operation_lockWait, Option.some.injEq, Operation.acquire.injEq] at ht
        subst ht
        exact ⟨by simp, job, rfl⟩
      · exact absurd (by simpa [htasks t hne] using ht) (hnoAcquire t target')
    · cases hstage
      exact .inl ⟨target, by simp [hhere]⟩
    · cases hstage
      rcases pair_sublist_append hsub with hold | ⟨hmem, -⟩
      · exact absurd (hold.subset (by simp)) hnew
      · exact absurd hmem hnew
    · cases hstage
      simp [hhere] at hawaiting
    · cases hstage
      simp [hhere] at hfinished
    · cases hstage
      simp [hhere] at hreturned

-- What an `evict_all` that is called while the idle timer is off changes.
structure Joins (o : Orchestrator.State) (task : TaskId) (o' : Orchestrator.State) : Prop where
  idle : IdleOnce o'
  others : ∀ u, u ≠ task → o'.tasks u = o.tasks u
  here : ∀ p, (o'.tasks task).operation = some p → p = .evictAll false
  handle : o'.idleHandle = true → o.idleHandle = true
  orphans : o'.orphans = o.orphans
  slot : o'.slot = o.slot ∨ (o'.slot = none ∧ o'.tasks task = .finished .returned)

theorem request_joins (hlocking : Locking o) (hidle : IdleOnce o) (hnone : o.idleTask = none)
    (habsent : o.tasks task = .absent) (made : Bool) :
    Joins o task (request o task (.evictAll false) made) := by
  have hown : o.idleTask = some task ↔ Operation.evictAll false = .evictAll true := by
    simp [hnone]
  rcases request_advances hlocking hidle (by simp [habsent]) hown made with ⟨-, hadv, -⟩ | heq
  · refine ⟨hadv.idle hidle hown, fun u hu => ?_, fun p hp => ?_, hadv.handle, hadv.orphans,
      hadv.evicted false rfl⟩
    · rcases hadv.others u hu with hsame | ⟨hi, -⟩
      · exact hsame
      · rw [hnone] at hi
        cases hi
    · rcases hadv.here with hhere | ⟨result, hfinished⟩
      · exact Option.some.inj (hp.symm.trans hhere)
      · rw [hfinished] at hp
        cases hp
  · rw [heq]
    have hothers : ∀ u, u ≠ task → (o.setPc task (.lockWait (.evictAll false))).tasks u =
        o.tasks u := by
      intro u hu
      simp [State.setPc, hu]
    have hhere : (o.setPc task (.lockWait (.evictAll false))).tasks task =
        .lockWait (.evictAll false) := by
      simp [State.setPc]
    have hafter := (Prepared.refl o task (.evictAll false)).idleOnce hidle hown hothers rfl
      (.inl ⟨rfl, by rw [hhere]; rfl⟩)
    refine ⟨⟨hafter.armed, hafter.task⟩, hothers, fun p hp => ?_, id, rfl, .inl rfl⟩
    simp only [hhere, operation_lockWait, Option.some.injEq] at hp
    exact hp.symm

-- The holder's job has an eviction issued for it, after its acquire is over.
theorem Stable.callEvictAll {t : TaskId} {j : JobId} (h : Stable o issued (some (t, some j)))
    {result : Result} (hfinished : o.tasks t = .finished result) (habsent : o.tasks task = .absent)
    {made : Bool} (hconsistent : Consistent (request o task (.evictAll false) made)) :
    Stable (request o task (.evictAll false) made)
      (Function.update issued task (some (.evictAll j))) (some (t, some j)) := by
  obtain ⟨hhandle, hothers⟩ := h.window t (some j) result rfl hfinished
  have hnone := h.idleTask_none rfl hfinished
  have hjoins := request_joins h.consistent.locking h.idle hnone habsent made
  have hne : t ≠ task := by
    rintro rfl
    rw [habsent] at hfinished
    cases hfinished
  have hstill : (request o task (.evictAll false) made).tasks t = .finished result := by
    rw [hjoins.others t hne, hfinished]
  -- every operation under way is an eviction issued for the job
  have honly : ∀ u p, ((request o task (.evictAll false) made).tasks u).operation = some p →
      p = .evictAll false ∧
        Function.update issued task (some (.evictAll j)) u = some (.evictAll j) := by
    intro u p hp
    rcases eq_or_ne u task with rfl | hu
    · exact ⟨hjoins.here p hp, by simp⟩
    · rw [hjoins.others u hu] at hp
      obtain ⟨hevict, j', hj, hfor⟩ := hothers u p hp
      cases hj
      exact ⟨hevict, by rw [Function.update_of_ne hu, hfor]⟩
  refine ⟨hconsistent, hjoins.idle, hjoins.orphans.trans h.orphans, fun u hu => ?_,
    fun u target hu => ?_, fun u job hstage => ?_, fun u job hstage v hsub => ?_,
    fun u job hstage hawaiting => ?_, fun u job result' hstage hdone => ?_,
    fun u job target hstage hreturned hissued => ?_⟩
  · exact ⟨j, (honly u _ hu).2⟩
  · cases (honly u _ hu).1
  · cases hstage
    exact .inr ⟨result, hstill⟩
  · cases hstage
    have hmem : t ∈ (request o task (.evictAll false) made).lock.waiters := hsub.subset (by simp)
    have := (hconsistent.locking.waiters t).mp hmem
    simp [hstill] at this
  · cases hstage
    simp [hstill] at hawaiting
  · cases hstage
    refine ⟨?_, fun v p hp => ?_⟩
    · by_contra harmed
      have := hjoins.handle (by simpa using harmed)
      simp [hhandle] at this
    · obtain ⟨hevict, hfor⟩ := honly v p hp
      exact ⟨hevict, j, rfl, hfor⟩
  · cases hstage
    rw [Function.update_of_ne hne] at hissued
    rw [hjoins.others t hne] at hreturned
    rcases hjoins.slot with hslot | ⟨-, hreturns⟩
    · rw [hslot]
      rcases h.resident t (some j) target rfl hreturned hissued with hres | ⟨v, j', hj, hv, hdone⟩
      · exact .inl hres
      · right
        have hvtask : v ≠ task := by
          rintro rfl
          rw [habsent] at hdone
          cases hdone
        exact ⟨v, j', hj, by rw [Function.update_of_ne hvtask, hv],
          by rw [hjoins.others v hvtask, hdone]⟩
    · exact .inr ⟨task, j, rfl, by simp, hreturns⟩

end Calls

section Kept

variable {o o' : Orchestrator.State} {issued : TaskId → Option Purpose} {stage : Stage}
  {task : TaskId} {operation : Operation}

-- What is over stays over. The holder's acquire leaves its target in the slot, and
-- then the slot changes only by an eviction issued for the holder's job.
structure Kept (o o' : Orchestrator.State) (issued : TaskId → Option Purpose)
    (stage stage' : Stage) : Prop where
  finished : ∀ t result, o.tasks t = .finished result → o'.tasks t = .finished result
  acquired : ∀ t job target, stage' = some (t, job) → issued t = some (.acquire target) →
    o.tasks t ≠ .finished .returned → o'.tasks t = .finished .returned → o'.slot = some target
  slot : ∀ t job result, stage = some (t, job) → o.tasks t = .finished result →
    o'.slot = o.slot ∨ (o'.slot = none ∧ ∃ u j, job = some j ∧ issued u = some (.evictAll j) ∧
      o.tasks u ≠ .finished .returned ∧ o'.tasks u = .finished .returned)

theorem Kept.of_tasks (htasks : o'.tasks = o.tasks) (hslot : o'.slot = o.slot)
    (stage' : Stage) : Kept o o' issued stage stage' := by
  refine ⟨fun t result hfinished => ?_, fun t job target _ _ hbefore hafter => ?_,
    fun _ _ _ _ _ => .inl hslot⟩
  · rw [htasks, hfinished]
  · rw [htasks] at hafter
    exact absurd hafter hbefore

theorem finished_of_advances (hidle : IdleOnce o) (hop : (o.tasks task).operation = some operation)
    (hadv : Advances o task operation o') {t : TaskId} {result : Result}
    (hfinished : o.tasks t = .finished result) : o'.tasks t = .finished result := by
  have hne : t ≠ task := by
    rintro rfl
    rw [hfinished] at hop
    cases hop
  rcases hadv.others t hne with heq | ⟨hi, -⟩
  · rw [heq, hfinished]
  · have hlive := (hidle.task t).mp hi
    rw [hfinished] at hlive
    cases hlive

theorem Stable.own_kept (h : Stable o issued stage)
    (hop : (o.tasks task).operation = some operation) (hadv : Advances o task operation o') :
    Kept o o' issued stage stage := by
  refine ⟨fun t result => finished_of_advances h.idle hop hadv,
    fun t job target hstage hissued hbefore hafter => ?_, fun t job result hstage hover => ?_⟩
  · rcases h.called t job hstage with ⟨target', htarget⟩ | ⟨result, hover⟩
    · have hpurpose := (h.acquires t target' htarget).1
      rw [hissued] at hpurpose
      cases hpurpose
      rcases eq_or_ne t task with rfl | hne
      · exact hadv.acquired target (Option.some.inj (hop.symm.trans htarget)) hafter
      · rcases hadv.others t hne with heq | ⟨-, hcancelled⟩
        · rw [heq] at hafter
          exact absurd hafter hbefore
        · rw [hcancelled] at hafter
          cases hafter
    · have hstill := finished_of_advances h.idle hop hadv hover
      rw [hafter] at hstill
      rw [hover, ← hstill] at hbefore
      exact absurd rfl hbefore
  obtain ⟨-, hothers⟩ := h.window t job result hstage hover
  obtain ⟨hevict, j, hjob, hfor⟩ := hothers task operation hop
  rcases hadv.evicted false hevict with hslot | ⟨hempty, hdone⟩
  · exact .inl hslot
  · refine .inr ⟨hempty, task, j, hjob, hfor, fun hdone' => ?_, hdone⟩
    rw [hdone'] at hop
    cases hop

theorem timerFires_kept (habsent : o.tasks task = .absent) :
    Kept o (onIdleTimeout o task) issued stage stage := by
  refine ⟨fun t result hfinished => ?_, fun t job target _ _ hbefore hafter => ?_,
    fun _ _ _ _ _ => .inl rfl⟩
  · have hne : t ≠ task := by
      rintro rfl
      rw [habsent] at hfinished
      cases hfinished
    simpa [onIdleTimeout, State.setPc, hne] using hfinished
  · rcases eq_or_ne t task with rfl | hne
    · simp [onIdleTimeout, State.setPc] at hafter
    · simp only [onIdleTimeout, State.setPc, Function.update_of_ne hne] at hafter
      exact absurd hafter hbefore

theorem notifyIdle_kept (hnone : o.idleTask = none) (idleTimeout : ℚ) (stage' : Stage) :
    Kept o (notifyIdle idleTimeout o) issued stage stage' := by
  obtain ⟨handle, heq⟩ := notifyIdle_of_idleTask_none hnone idleTimeout
  rw [heq]
  refine .of_tasks ?_ ?_ stage' <;> rfl

theorem Stable.callAcquire_kept (h : Stable o issued none) (habsent : o.tasks task = .absent)
    (target : ResidencyId) (made : Bool) (job : Option JobId) :
    Kept o (request o task (.acquire target) made)
      (Function.update issued task (some (.acquire target))) none (some (task, job)) := by
  have hown : o.idleTask = some task ↔ Operation.acquire target = .evictAll true := by
    rw [h.idle.task task, habsent]
    simp
  have hrequest := request_advances h.consistent.locking h.idle (by simp [habsent]) hown made
  refine ⟨fun t result hfinished => ?_, fun t j target' hstage hissued _ hafter => ?_, by simp⟩
  · have hne : t ≠ task := by
      rintro rfl
      rw [habsent] at hfinished
      cases hfinished
    rcases hrequest with ⟨-, hadv, -⟩ | heq
    · rcases hadv.others t hne with hsame | ⟨hi, -⟩
      · rw [hsame, hfinished]
      · have hlive := (h.idle.task t).mp hi
        rw [hfinished] at hlive
        cases hlive
    · rw [heq]
      simpa [State.setPc, hne] using hfinished
  · cases hstage
    rw [Function.update_self] at hissued
    cases hissued
    rcases hrequest with ⟨-, hadv, -⟩ | heq
    · exact hadv.acquired target rfl hafter
    · rw [heq] at hafter
      simp [State.setPc] at hafter

theorem Stable.callEvictAll_kept {t : TaskId} {j : JobId} {result : Result}
    (h : Stable o issued (some (t, some j))) (hfinished : o.tasks t = .finished result)
    (habsent : o.tasks task = .absent) (made : Bool) :
    Kept o (request o task (.evictAll false) made)
      (Function.update issued task (some (.evictAll j))) (some (t, some j)) (some (t, some j)) := by
  have hnone := h.idleTask_none rfl hfinished
  have hjoins := request_joins h.consistent.locking h.idle hnone habsent made
  have hover : ∀ u result', o.tasks u = .finished result' →
      (request o task (.evictAll false) made).tasks u = .finished result' := by
    intro u result' hover
    have hne : u ≠ task := by
      rintro rfl
      rw [habsent] at hover
      cases hover
    rw [hjoins.others u hne, hover]
  refine ⟨hover, fun u job target hstage _ hbefore hafter => ?_, fun u job result' hstage _ => ?_⟩
  · cases hstage
    rw [hover t result hfinished] at hafter
    rw [hfinished, hafter] at hbefore
    exact absurd rfl hbefore
  · cases hstage
    rcases hjoins.slot with hslot | ⟨hempty, hdone⟩
    · exact .inl hslot
    · exact .inr ⟨hempty, task, j, rfl, by simp, by simp [habsent], hdone⟩

end Kept

end Cosmos3.Lease
