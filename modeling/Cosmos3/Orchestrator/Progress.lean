import Cosmos3.Orchestrator.Refinement

namespace Cosmos3.Orchestrator

open Basis State

def Site.operation : Site → Operation
  | .swapEvict target _ _ => .acquire target
  | .postEvictWait target _ => .acquire target
  | .start target _ _ => .acquire target
  | .waitReady target _ _ => .acquire target
  | .notReadyEvict target _ => .acquire target
  | .evictAll idle _ => .evictAll idle

-- The operation that a coroutine is in the middle of.
def Pc.operation : Pc → Option Operation
  | .created => some (.evictAll true)
  | .lockWait operation => some operation
  | .awaiting site _ => some site.operation
  | .absent | .finished _ => none

@[simp] theorem operation_absent : Pc.absent.operation = none := rfl

@[simp] theorem operation_created : Pc.created.operation = some (.evictAll true) := rfl

@[simp] theorem operation_lockWait (operation : Operation) :
    (Pc.lockWait operation).operation = some operation := rfl

@[simp] theorem operation_awaiting (site : Site) (call : Call) :
    (Pc.awaiting site call).operation = some site.operation := rfl

@[simp] theorem operation_finished (result : Result) : (Pc.finished result).operation = none := rfl

-- The idle timer is either armed, or has become the one task that evicts.
structure IdleOnce (s : State) : Prop where
  armed : s.idleHandle = true → s.idleTask = none
  task : ∀ t, s.idleTask = some t ↔ (s.tasks t).operation = some (.evictAll true)

theorem idleOnce_initial : IdleOnce initial := by
  constructor <;> simp [initial]

-- What a body does before its first await or its return: it may cancel the idle
-- timer when it is an acquire, and leaves the other coroutines alone otherwise.
structure Prepared (s : State) (task : TaskId) (operation : Operation) (s' : State) : Prop where
  others : ∀ t, t ≠ task → s'.tasks t = s.tasks t ∨
    (s.idleTask = some t ∧ s'.idleTask = none ∧ s'.tasks t = .finished .cancelled)
  idleTask : s'.idleTask = s.idleTask ∨ (s'.idleTask = none ∧
    (∃ target, operation = .acquire target) ∧
      ∀ t, s.idleTask = some t → s'.tasks t = .finished .cancelled)
  handle : s'.idleHandle = true → s.idleHandle = true
  waiters : s'.lock.waiters.Sublist s.lock.waiters
  orphans : s'.orphans = s.orphans

-- A coroutine goes on with its operation, up to its next await or to its end.
structure Advances (s : State) (task : TaskId) (operation : Operation) (s' : State) : Prop where
  here : (s'.tasks task).operation = some operation ∨ ∃ result, s'.tasks task = .finished result
  others : ∀ t, t ≠ task → s'.tasks t = s.tasks t ∨
    (s.idleTask = some t ∧ s'.tasks t = .finished .cancelled)
  idle : IdleOnce s → (s.idleTask = some task ↔ operation = .evictAll true) → IdleOnce s'
  handle : s'.idleHandle = true → s.idleHandle = true
  line : ∀ t u, [t, u].Sublist s'.lock.waiters →
    [t, u].Sublist s.lock.waiters ∨ (u = task ∧ operation = .evictAll true)
  orphans : s'.orphans = s.orphans
  acquired : ∀ target, operation = .acquire target → s'.tasks task = .finished .returned →
    s'.slot = some target
  evicted : ∀ idle, operation = .evictAll idle →
    s'.slot = s.slot ∨ (s'.slot = none ∧ s'.tasks task = .finished .returned)

section Bodies

variable {s base : State} {task : TaskId} {operation : Operation}

theorem Prepared.refl (s : State) (task : TaskId) (operation : Operation) :
    Prepared s task operation s :=
  ⟨fun _ _ => .inl rfl, .inl rfl, id, List.Sublist.refl _, rfl⟩

theorem Prepared.others_advance (h : Prepared s task operation base) {t : TaskId} (ht : t ≠ task) :
    base.tasks t = s.tasks t ∨ (s.idleTask = some t ∧ base.tasks t = .finished .cancelled) :=
  (h.others t ht).imp_right fun hidle => ⟨hidle.1, hidle.2.2⟩

theorem Prepared.idleOnce (h : Prepared s task operation base) {s' : State}
    (hidle : IdleOnce s) (hown : s.idleTask = some task ↔ operation = .evictAll true)
    (hothers : ∀ t, t ≠ task → s'.tasks t = base.tasks t)
    (hhandle : s'.idleHandle = base.idleHandle)
    (htask : (s'.idleTask = base.idleTask ∧ (s'.tasks task).operation = some operation) ∨
      (s'.idleTask = (if operation = .evictAll true then none else base.idleTask) ∧
        (s'.tasks task).operation = none)) : IdleOnce s' := by
  have hnone : base.idleTask ≠ none → base.idleTask = s.idleTask := by
    intro hne
    rcases h.idleTask with heq | ⟨hnone, -⟩
    · exact heq
    · exact absurd hnone hne
  refine ⟨fun harmed => ?_, fun t => ?_⟩
  · have hcold : base.idleTask = none := by
      by_contra hne
      exact hne ((hnone hne).trans (hidle.armed (h.handle (hhandle ▸ harmed))))
    rcases htask with ⟨heq, -⟩ | ⟨heq, -⟩
    · rw [heq, hcold]
    · rw [heq, hcold, ite_self]
  · rcases eq_or_ne t task with rfl | ht
    · rcases htask with ⟨heq, hop⟩ | ⟨heq, hop⟩
      · rw [heq, hop]
        constructor
        · intro hsome
          rw [hown.mp ((hnone (by simp [hsome])).symm.trans hsome)]
        · intro hevict
          have hop' : operation = .evictAll true := Option.some.inj hevict
          rcases h.idleTask with hsame | ⟨-, ⟨target, hacquire⟩, -⟩
          · rw [hsame]
            exact hown.mpr hop'
          · rw [hacquire] at hop'
            cases hop'
      · rw [heq, hop]
        split
        · simp
        · rename_i hne
          refine ⟨fun hsome => ?_, by simp⟩
          exact absurd (hown.mp ((hnone (by simp [hsome])).symm.trans hsome)) hne
    · rw [hothers t ht]
      have hstep : base.idleTask = some t ↔ (base.tasks t).operation = some (.evictAll true) := by
        rcases h.others t ht with hsame | ⟨-, hcold, hfinished⟩
        · rw [hsame, ← hidle.task t]
          rcases h.idleTask with heq | ⟨hcold, -, hcancelled⟩
          · rw [heq]
          · refine ⟨by simp [hcold], fun hsome => ?_⟩
            have hlive := (hidle.task t).mp hsome
            rw [← hsame, hcancelled t hsome] at hlive
            cases hlive
        · simp [hcold, hfinished]
      rcases htask with ⟨heq, -⟩ | ⟨heq, -⟩
      · rw [heq]
        exact hstep
      · rw [heq, ← hstep]
        split
        · rename_i hop
          refine ⟨by simp, fun hsome => ?_⟩
          have hself := hown.mpr hop
          rw [hnone (by simp [hsome]), hself] at hsome
          exact absurd (Option.some.inj hsome).symm ht
        · rfl

-- The two ways a body goes on from there.
theorem Prepared.toThread (h : Prepared s task operation base) {site : Site}
    (hsite : site.operation = operation)
    (hevict : ∀ idle, operation = .evictAll idle → base.slot = s.slot) :
    Advances s task operation (base.toThread task site) where
  here := .inl (by simp [State.toThread, State.setPc, hsite])
  others t ht := by
    simpa [State.toThread, State.setPc, ht] using h.others_advance ht
  idle hidle hown := h.idleOnce hidle hown (by
    intro t ht
    simp [State.toThread, State.setPc, ht]) rfl
    (.inl ⟨rfl, by simp [State.toThread, State.setPc, hsite]⟩)
  handle := h.handle
  line t u hsub := .inl (hsub.trans h.waiters)
  orphans := h.orphans
  acquired target _ hreturned := by simp [State.toThread, State.setPc] at hreturned
  evicted idle hop := .inl (hevict idle hop)

theorem Prepared.leave (h : Prepared s task operation base) (result : Result)
    (hacquired : ∀ target, operation = .acquire target → result = .returned →
      base.slot = some target)
    (hevicted : ∀ idle, operation = .evictAll idle →
      base.slot = s.slot ∨ (base.slot = none ∧ result = .returned)) :
    Advances s task operation ((base.leave task result).endIdle operation.isIdle) := by
  have hfields : ∀ idle : Bool, ((base.leave task result).endIdle idle).tasks =
      Function.update base.tasks task (.finished result) ∧
      ((base.leave task result).endIdle idle).idleHandle = base.idleHandle ∧
      ((base.leave task result).endIdle idle).lock.waiters = base.lock.waiters ∧
      ((base.leave task result).endIdle idle).orphans = base.orphans ∧
      ((base.leave task result).endIdle idle).slot = base.slot := by
    intro idle
    cases idle <;> exact ⟨rfl, rfl, rfl, rfl, rfl⟩
  have hidleTask : ((base.leave task result).endIdle operation.isIdle).idleTask =
      if operation = .evictAll true then none else base.idleTask := by
    cases operation with
    | acquire target => rfl
    | evictAll idle => cases idle <;> rfl
  obtain ⟨htasks, hhandle, hwaiters, horphans, hslot⟩ := hfields operation.isIdle
  refine ⟨.inr ⟨result, by simp [htasks]⟩, fun t ht => ?_, fun hidle hown => ?_, ?_, ?_, ?_, ?_, ?_⟩
  · rw [htasks, Function.update_of_ne ht]
    exact h.others_advance ht
  · refine h.idleOnce hidle hown (fun t ht => ?_) hhandle (.inr ⟨hidleTask, ?_⟩)
    · rw [htasks, Function.update_of_ne ht]
    · simp [htasks]
  · rw [hhandle]
    exact h.handle
  · rw [hwaiters]
    exact fun t u hsub => .inl (hsub.trans h.waiters)
  · rw [horphans]
    exact h.orphans
  · intro target hop hreturned
    rw [hslot]
    refine hacquired target hop ?_
    simpa [htasks] using hreturned
  · intro idle hop
    rw [hslot, htasks, Function.update_self]
    simpa using hevicted idle hop

theorem Advances.emit {s' : State} (h : Advances s task operation s') (events : List Event) :
    Advances s task operation (s'.emit events) := by
  obtain ⟨hhere, hothers, hidle, hhandle, hline, horphans, hacquired, hevicted⟩ := h
  refine ⟨hhere, hothers, fun hs hown => ?_, hhandle, hline, horphans, hacquired, hevicted⟩
  exact ⟨(hidle hs hown).armed, (hidle hs hown).task⟩

-- Under the mutex the idle task has not begun its eviction: it is cancelled before.
theorem prepared_cancelIdleTimer (h : LockedBy s task false) (hidle : IdleOnce s)
    (target : ResidencyId) : Prepared s task (.acquire target) (cancelIdleTimer s) := by
  unfold cancelIdleTimer
  cases hi : s.idleTask with
  | none =>
      exact ⟨fun _ _ => .inl rfl, .inl rfl, by simp [cancelIdleHandle], List.Sublist.refl _, rfl⟩
  | some other =>
      obtain ⟨hne, hplace⟩ : other ≠ task ∧ (s.tasks other).OfIdleTask := by
        rcases h.idleTask other hi with hout | ⟨-, hfalse⟩
        · exact hout
        · cases hfalse
      have hlive := (hidle.task other).mp hi
      have hcancelled : ∃ lock : FifoLock TaskId, lock.waiters.Sublist s.lock.waiters ∧
          cancelTask (cancelIdleHandle s) other =
            { s.setPc other (.finished .cancelled) with
              lock := lock
              idleHandle := false
              idleTask := (cancelTask (cancelIdleHandle s) other).idleTask } := by
        generalize hp : s.tasks other = pc at hplace hlive
        cases hplace with
        | created =>
            refine ⟨s.lock, List.Sublist.refl _, ?_⟩
            simp [cancelTask, cancelIdleHandle, hp, State.setPc]
        | lockWait =>
            refine ⟨s.lock.abandon other, List.erase_sublist, ?_⟩
            simp [cancelTask, cancelIdleHandle, hp, State.setPc, endIdle]
        | awaiting worker call => exact absurd (by simp [hp]) (h.awaiting other hne)
        | finished result => cases hlive
      obtain ⟨lock, hlock, heq⟩ := hcancelled
      dsimp only
      rw [heq]
      refine ⟨fun t ht => ?_, .inr ⟨rfl, ⟨target, rfl⟩, fun t ht => ?_⟩, by simp, hlock, rfl⟩
      · by_cases hto : t = other
        · right
          subst hto
          exact ⟨hi, rfl, by simp [State.setPc]⟩
        · left
          simp [State.setPc, hto]
      · obtain rfl := Option.some.inj (hi.symm.trans ht)
        simp [State.setPc]

theorem acquireLoad_advances {target : ResidencyId} (h : Prepared s task (.acquire target) base)
    {plan : ResidencyPlan} (hfast : plan.load = none → base.slot = some target) (made : Bool) :
    Advances s task (.acquire target) (acquireLoad base task target plan made) := by
  unfold acquireLoad
  cases hload : plan.load with
  | none =>
      have hleave := h.leave .returned (fun target' hop _ => by
        cases hop
        exact hfast hload) (by simp)
      exact hleave.emit [.acquired task target]
  | some resident =>
      have hmade : Prepared s task (.acquire target) { base with made := base.made + 1 } :=
        ⟨h.others, h.idleTask, h.handle, h.waiters, h.orphans⟩
      cases made with
      | true => exact hmade.toThread rfl (by simp)
      | false => exact h.leave .raised (by simp) (by simp)

theorem acquireLocked_advances (h : LockedBy s task false) (hidle : IdleOnce s)
    (target : ResidencyId) (made : Bool) :
    Advances s task (.acquire target) (acquireLocked s task target made) := by
  have hprepared := prepared_cancelIdleTimer h hidle target
  have hload : ∀ plan, plan = planAcquire (cancelIdleTimer s).slot target →
      Advances s task (.acquire target) (acquireLoad (cancelIdleTimer s) task target plan made) := by
    rintro plan rfl
    exact acquireLoad_advances hprepared planAcquire_load_none made
  unfold acquireLocked
  dsimp only
  split
  · exact hprepared.toThread rfl (by simp)
  · exact hload _ rfl

theorem evictAllReturn_advances {idle : Bool} (h : Prepared s task (.evictAll idle) base) :
    Advances s task (.evictAll idle) (evictAllReturn base task idle) := by
  have hempty : Prepared s task (.evictAll idle) { base with worker := none, slot := none } :=
    ⟨h.others, h.idleTask, h.handle, h.waiters, h.orphans⟩
  exact hempty.leave .returned (by simp) (fun _ _ => .inr ⟨rfl, rfl⟩)

theorem evictAllLocked_advances (s : State) (task : TaskId) (idle : Bool) :
    Advances s task (.evictAll idle) (evictAllLocked s task idle) := by
  have hprepared : Prepared s task (.evictAll idle) (cancelIdleHandle s) :=
    ⟨fun _ _ => .inl rfl, .inl rfl, by simp [cancelIdleHandle], List.Sublist.refl _, rfl⟩
  unfold evictAllLocked
  dsimp only
  split
  · exact hprepared.toThread rfl (fun _ _ => rfl)
  · exact evictAllReturn_advances hprepared

theorem enter_advances (h : LockedBy s task operation.isIdle) (hidle : IdleOnce s) (made : Bool) :
    Advances s task operation (enter s task operation made) := by
  cases operation with
  | acquire target => exact acquireLocked_advances h hidle target made
  | evictAll idle => exact evictAllLocked_advances s task idle

-- The next await of the same operation, with the slot emptied or as it was.
theorem Prepared.setWorker (s : State) (task : TaskId) (operation : Operation)
    (worker : Option Worker) (slot : Option ResidencyId) :
    Prepared s task operation { s with worker := worker, slot := slot } :=
  ⟨fun _ _ => .inl rfl, .inl rfl, id, List.Sublist.refl _, rfl⟩

theorem resume_advances {site : Site} {outcome : Outcome} (hfits : site.Fits s.worker)
    (made : Bool) : Advances s task site.operation (resume s task site outcome made) := by
  have hraised : ∀ target, Advances s task (.acquire target) (s.leave task .raised) := fun target =>
    (Prepared.refl s task (.acquire target)).leave .raised (by simp) (by simp)
  cases site with
  | swapEvict target plan worker =>
      cases outcome with
      | returned value =>
          exact (Prepared.setWorker s task (.acquire target) none none).toThread rfl (by simp)
      | raised => exact hraised target
  | postEvictWait target plan =>
      obtain ⟨-, -, hload⟩ := hfits
      cases outcome with
      | returned value =>
          cases value with
          | true => exact acquireLoad_advances (.refl s task _) (by simp [hload]) made
          | false => exact hraised target
      | raised => exact hraised target
  | start target plan worker =>
      cases outcome with
      | returned value => exact (Prepared.refl s task _).toThread rfl (by simp)
      | raised => exact hraised target
  | waitReady target plan worker =>
      cases outcome with
      | returned value =>
          cases value with
          | true =>
              have hleave := (Prepared.setWorker s task (.acquire target) (some worker)
                (some target)).leave .returned (fun target' hop _ => by
                  cases hop
                  rfl) (by simp)
              exact hleave.emit [.acquired task target]
          | false => exact (Prepared.refl s task _).toThread rfl (by simp)
      | raised => exact hraised target
  | notReadyEvict target worker =>
      cases outcome with
      | returned value => exact hraised target
      | raised => exact hraised target
  | evictAll idle worker =>
      cases outcome with
      | returned value => exact evictAllReturn_advances (.refl s task _)
      | raised =>
          exact (Prepared.refl s task (.evictAll idle)).leave .raised (by simp)
            (fun _ _ => .inl rfl)

theorem cancelIdleTimer_quiet (s : State) :
    (cancelIdleTimer s).idleTask = none ∧ (cancelIdleTimer s).idleHandle = false := by
  have hcancel : ∀ t, (cancelTask (cancelIdleHandle s) t).idleHandle = false := by
    intro t
    unfold cancelTask
    cases (cancelIdleHandle s).tasks t with
    | lockWait op =>
        cases op with
        | acquire target => rfl
        | evictAll idle => cases idle <;> rfl
    | awaiting site call =>
        cases site with
        | evictAll idle worker =>
            dsimp only
            split <;> cases idle <;> rfl
        | _ =>
            dsimp only
            split <;> rfl
    | _ => rfl
  unfold cancelIdleTimer
  cases hi : s.idleTask with
  | none => exact ⟨hi, rfl⟩
  | some t => exact ⟨rfl, hcancel t⟩

-- An acquire that holds the mutex has disarmed the idle timer.
theorem acquireLocked_quiet (s : State) (task : TaskId) (target : ResidencyId) (made : Bool) :
    (acquireLocked s task target made).idleTask = none ∧
      (acquireLocked s task target made).idleHandle = false := by
  have hquiet := cancelIdleTimer_quiet s
  unfold acquireLocked acquireLoad
  dsimp only
  split
  · exact hquiet
  · split
    · exact hquiet
    · split
      · exact hquiet
      · exact hquiet

end Bodies

section Steps

variable {s : State} {task : TaskId} {operation : Operation}

-- How a coroutine gets into the critical section: the mutex was free, and it was
-- the first in line.
structure Admitted (s : State) (task : TaskId) (operation : Operation) (s' : State) : Prop where
  free : s.lock.owner = none
  first : ∀ t ∈ s.lock.waiters, t ≠ task → [task, t].Sublist s.lock.waiters
  quiet : ∀ target, operation = .acquire target → s'.idleTask = none ∧ s'.idleHandle = false

theorem enter_quiet (made : Bool) (target : ResidencyId) (h : operation = .acquire target) :
    (enter s task operation made).idleTask = none ∧
      (enter s task operation made).idleHandle = false := by
  subst h
  exact acquireLocked_quiet s task target made

-- The state with the mutex taken differs in the mutex only.
theorem Advances.of_lock {lock : FifoLock TaskId} {s' : State}
    (h : Advances { s with lock := lock } task operation s')
    (hlock : lock.waiters.Sublist s.lock.waiters) : Advances s task operation s' :=
  ⟨h.here, h.others, fun hidle => h.idle ⟨hidle.armed, hidle.task⟩, h.handle,
    fun t u hsub => (h.line t u hsub).imp_left (·.trans hlock), h.orphans, h.acquired, h.evicted⟩

theorem granted_advances (h : Locking s) (hidle : IdleOnce s)
    (hpc : s.tasks task = .lockWait operation) (hwoken : s.lock.woken = some task) (made : Bool) :
    Advances s task operation (enter { s with lock := s.lock.handOver } task operation made) ∧
      Admitted s task operation (enter { s with lock := s.lock.handOver } task operation made) := by
  have hlocked := h.handOver hpc hwoken
  obtain ⟨hfree, rest, hwaiters, hover⟩ := FifoLock.woken_eq_some hwoken
  have hadvances := enter_advances hlocked ⟨hidle.armed, hidle.task⟩ made
  constructor
  · refine hadvances.of_lock ?_
    rw [hover, hwaiters]
    exact List.sublist_cons_self task rest
  · refine ⟨hfree, fun t ht hne => ?_, fun target hop => enter_quiet made target hop⟩
    rw [hwaiters, List.mem_cons] at ht
    rw [hwaiters]
    exact (List.singleton_sublist.mpr (ht.resolve_left hne)).cons_cons task

-- `async with self._lock` for a new operation: straight in, or to the end of the queue.
theorem request_advances (h : Locking s) (hidle : IdleOnce s)
    (hfrom : (s.tasks task).isAwaiting = false ∧ (s.tasks task).isWaiting = false)
    (hown : s.idleTask = some task ↔ operation = .evictAll true) (made : Bool) :
    (s.lock.waiters = [] ∧ Advances s task operation (request s task operation made) ∧
      Admitted s task operation (request s task operation made)) ∨
    request s task operation made = { s.setPc task (.lockWait operation) with
      lock := ⟨s.lock.owner, s.lock.waiters ++ [task]⟩ } := by
  have hself : s.lock.owner ≠ some task := fun ho =>
    Bool.false_ne_true (hfrom.1.symm.trans ((h.owner task).mp ho))
  unfold request
  rcases s.lock.acquire_cases task with ⟨hfree, hempty, hacq⟩ | ⟨-, hacq⟩
  · left
    have hlocked := h.take hfree hempty hown.mp
    simp only [hacq, if_true]
    refine ⟨hempty, (enter_advances hlocked ⟨hidle.armed, hidle.task⟩ made).of_lock ?_, hfree,
      fun t ht => ?_, fun target hop => enter_quiet made target hop⟩
    · rw [hempty]
    · rw [hempty] at ht
      cases ht
  · right
    simp only [hacq, hself, if_false]
    rfl

theorem pair_sublist_append {α : Type*} {l : List α} {x y z : α}
    (h : [x, y].Sublist (l ++ [z])) : [x, y].Sublist l ∨ (x ∈ l ∧ y = z) := by
  obtain ⟨first, second, heq, hfirst, hsecond⟩ := List.sublist_append_iff.mp h
  rcases List.sublist_singleton.mp hsecond with rfl | rfl
  · rw [List.append_nil] at heq
    exact .inl (heq ▸ hfirst)
  · obtain ⟨hx, hy⟩ := List.append_inj' (show [x] ++ [y] = first ++ [z] from heq) rfl
    right
    rw [← hx] at hfirst
    exact ⟨List.singleton_sublist.mp hfirst, List.singleton_inj.mp hy⟩

-- The idle task at its first step.
theorem tryIdleEvict_advances (h : Locking s) (hidle : IdleOnce s) (hpc : s.tasks task = .created) :
    Advances s task (.evictAll true) (tryIdleEvict s task) := by
  have hown : s.idleTask = some task ↔ Operation.evictAll true = .evictAll true := by
    rw [hidle.task task, hpc]
    simp
  unfold tryIdleEvict
  split
  · have hothers : ∀ t, t ≠ task → (s.setPc task (.finished .returned)).tasks t = s.tasks t := by
      intro t ht
      simp [State.setPc, ht]
    refine ⟨.inr ⟨.returned, by simp [State.endIdle, State.setPc]⟩, fun t ht => .inl (hothers t ht),
      fun hs _ => ?_, id, fun _ _ hsub => .inl hsub, rfl, by simp, fun _ _ => .inl rfl⟩
    exact (Prepared.refl s task (.evictAll true)).idleOnce hs hown hothers rfl
      (.inr ⟨rfl, by simp [State.endIdle, State.setPc]⟩)
  · rcases request_advances h hidle (by simp [hpc]) hown true with ⟨-, hadv, -⟩ | heq
    · exact hadv
    · rw [heq]
      have hothers : ∀ t, t ≠ task → (s.setPc task (.lockWait (.evictAll true))).tasks t =
          s.tasks t := by
        intro t ht
        simp [State.setPc, ht]
      have hhere : ((s.setPc task (.lockWait (.evictAll true))).tasks task).operation =
          some (.evictAll true) := by
        simp [State.setPc]
      refine ⟨.inl hhere, fun t ht => .inl (hothers t ht), fun hs _ => ?_, id, fun t u hsub => ?_, rfl,
        by simp, fun _ _ => .inl rfl⟩
      · exact (Prepared.refl s task (.evictAll true)).idleOnce hs hown hothers rfl
          (.inl ⟨rfl, hhere⟩)
      · exact (pair_sublist_append hsub).imp_right fun hlast => ⟨hlast.2, rfl⟩

-- The task an action of the manager's own carries on.
def Action.own : Action → Option TaskId
  | .granted task _ => some task
  | .threadEnters task => some task
  | .threadLeaves task _ => some task
  | .resumes task _ => some task
  | .idleStarts task => some task
  | _ => none

theorem setCall_advances {site : Site} {call : Call} (hpc : s.tasks task = .awaiting site call)
    (call' : Call) (events : List Event) :
    Advances s task site.operation ((s.setPc task (.awaiting site call')).emit events) := by
  have hoperation : ∀ t, ((s.setPc task (.awaiting site call')).tasks t).operation =
      (s.tasks t).operation := by
    intro t
    rcases eq_or_ne t task with rfl | ht
    · simp [State.setPc, hpc]
    · simp [State.setPc, ht]
  refine ⟨.inl (by simp [State.emit, State.setPc]), fun t ht => .inl ?_, fun hidle _ => ?_, id,
    fun _ _ hsub => .inl hsub, rfl, fun target _ hreturned => ?_, fun _ _ => .inl rfl⟩
  · simp [State.emit, State.setPc, ht]
  · exact ⟨hidle.armed, fun t => (hidle.task t).trans (by rw [← hoperation t]; rfl)⟩
  · simp [State.emit, State.setPc] at hreturned

theorem step_advances {idleTimeout : ℚ} {s' : State} {a : Action} (h : Consistent s)
    (hidle : IdleOnce s) (hown : a.own = some task) (hs : step idleTimeout s a = some s') :
    ∃ operation, (s.tasks task).operation = some operation ∧ Advances s task operation s' ∧
      ∀ target, operation = .acquire target →
        (s.tasks task).isAwaiting = true ∨ Admitted s task operation s' := by
  cases a with
  | granted task' made =>
      obtain rfl := Option.some.inj hown
      simp only [step] at hs
      split at hs
      · rename_i operation hpc
        split at hs
        · rename_i hwoken
          cases hs
          obtain ⟨hadvances, hadmitted⟩ := granted_advances h.locking hidle hpc hwoken made
          exact ⟨operation, by simp [hpc], hadvances, fun _ _ => .inr hadmitted⟩
        · cases hs
      · cases hs
  | threadEnters task' =>
      obtain rfl := Option.some.inj hown
      simp only [step] at hs
      split at hs
      · rename_i site hpc
        cases hs
        exact ⟨site.operation, by simp [hpc], setCall_advances hpc _ _,
          fun _ _ => .inl (by simp [hpc])⟩
      · cases hs
  | threadLeaves task' outcome =>
      obtain rfl := Option.some.inj hown
      simp only [step] at hs
      split at hs
      · rename_i site hpc
        cases hs
        exact ⟨site.operation, by simp [hpc], setCall_advances hpc _ _,
          fun _ _ => .inl (by simp [hpc])⟩
      · cases hs
  | resumes task' made =>
      obtain rfl := Option.some.inj hown
      simp only [step] at hs
      split at hs
      · rename_i site outcome hpc
        cases hs
        have hphase := phase_eq (h.locking.lockedBy hpc).owner hpc
        have hfits : site.Fits s.worker := h.fits site (.done outcome) hphase
        exact ⟨site.operation, by simp [hpc], resume_advances hfits made,
          fun _ _ => .inl (by simp [hpc])⟩
      · cases hs
  | idleStarts task' =>
      obtain rfl := Option.some.inj hown
      simp only [step] at hs
      split at hs
      · rename_i hpc
        cases hs
        exact ⟨.evictAll true, by simp [hpc], tryIdleEvict_advances h.locking hidle hpc, by simp⟩
      · cases hs
  | _ => cases hown

end Steps

end Cosmos3.Orchestrator
