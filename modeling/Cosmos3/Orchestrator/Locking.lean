import Cosmos3.Orchestrator.Core

namespace Cosmos3.Orchestrator

open Basis State

@[simp] def Pc.isAwaiting : Pc → Bool
  | .awaiting _ _ => true
  | _ => false

@[simp] def Pc.isWaiting : Pc → Bool
  | .lockWait _ => true
  | _ => false

def Site.isIdle : Site → Bool
  | .evictAll idle _ => idle
  | _ => false

-- The places where the task that `_idle_task` refers to can be.
inductive Pc.OfIdleTask : Pc → Prop
  | created : Pc.OfIdleTask .created
  | lockWait : Pc.OfIdleTask (.lockWait (.evictAll true))
  | awaiting (worker : Worker) (call : Call) : Pc.OfIdleTask (.awaiting (.evictAll true worker) call)
  | finished (result : Result) : Pc.OfIdleTask (.finished result)

-- The mutex and the coroutines agree, but for `task`, which holds the mutex and
-- is between two awaits. `idle` says whether `task` may be the idle task.
structure LockedBy (s : State) (task : TaskId) (idle : Bool) : Prop where
  owner : s.lock.owner = some task
  awaiting : ∀ t, t ≠ task → ¬(s.tasks t).isAwaiting
  waiters : ∀ t, t ∈ s.lock.waiters ↔ t ≠ task ∧ (s.tasks t).isWaiting
  nodup : s.lock.waiters.Nodup
  idleTask : ∀ t, s.idleTask = some t → (t ≠ task ∧ (s.tasks t).OfIdleTask) ∨ (t = task ∧ idle)

structure Locking (s : State) : Prop where
  owner : ∀ t, s.lock.owner = some t ↔ (s.tasks t).isAwaiting
  waiters : ∀ t, t ∈ s.lock.waiters ↔ (s.tasks t).isWaiting
  nodup : s.lock.waiters.Nodup
  idleTask : ∀ t, s.idleTask = some t → (s.tasks t).OfIdleTask

def Coupled (s : State) : Prop := s.slot = s.worker.map Worker.target

theorem Pc.OfIdleTask.isIdle {site : Site} {call : Call}
    (h : Pc.OfIdleTask (.awaiting site call)) : site.isIdle = true := by
  cases h; rfl

theorem locking_initial : Locking initial where
  owner := by simp [initial, FifoLock.unlocked]
  waiters := by simp [initial, FifoLock.unlocked]
  nodup := by simp [initial, FifoLock.unlocked]
  idleTask := by simp [initial]

section Updates

variable {s : State} {task : TaskId} {idle : Bool}

-- The critical section ends either at the next await or with the release.
theorem LockedBy.toThread (h : LockedBy s task idle) (site : Site)
    (hidle : idle = true → site.isIdle = true) : Locking (s.toThread task site) where
  owner t := by
    rcases eq_or_ne t task with rfl | ht
    · simp [State.toThread, State.setPc, h.owner]
    · simpa [State.toThread, State.setPc, ht, h.owner, Ne.symm ht] using h.awaiting t ht
  waiters t := by
    rcases eq_or_ne t task with rfl | ht
    · simpa [State.toThread, State.setPc] using h.waiters t
    · simpa [State.toThread, State.setPc, ht] using h.waiters t
  nodup := h.nodup
  idleTask t ht := by
    rcases h.idleTask t ht with ⟨hne, hpc⟩ | ⟨rfl, hi⟩
    · simpa [State.toThread, State.setPc, hne] using hpc
    · have hs := hidle hi
      cases site <;> simp [Site.isIdle] at hs
      subst hs
      simpa [State.toThread, State.setPc] using Pc.OfIdleTask.awaiting _ _

theorem LockedBy.leave (h : LockedBy s task idle) (result : Result) :
    Locking (s.leave task result) where
  owner t := by
    rcases eq_or_ne t task with rfl | ht
    · simp [State.leave, State.setPc]
    · simpa [State.leave, State.setPc, ht] using h.awaiting t ht
  waiters t := by
    rcases eq_or_ne t task with rfl | ht
    · simpa [State.leave, State.setPc] using h.waiters t
    · simpa [State.leave, State.setPc, ht] using h.waiters t
  nodup := h.nodup
  idleTask t ht := by
    rcases h.idleTask t ht with ⟨hne, hpc⟩ | ⟨rfl, -⟩
    · simpa [State.leave, State.setPc, hne] using hpc
    · simpa [State.leave, State.setPc] using Pc.OfIdleTask.finished result

theorem Locking.lockedBy (h : Locking s) {site : Site} {call : Call}
    (hpc : s.tasks task = .awaiting site call) : LockedBy s task site.isIdle where
  owner := (h.owner task).mpr (by simp [hpc])
  awaiting t ht hw := by
    have hown := (h.owner task).mpr (by simp [hpc])
    have hother := (h.owner t).mpr hw
    exact ht (Option.some.inj (hother.symm.trans hown))
  waiters t := by
    rw [h.waiters t]
    refine ⟨fun hw => ⟨?_, hw⟩, fun hw => hw.2⟩
    rintro rfl
    simp [hpc] at hw
  nodup := h.nodup
  idleTask t ht := by
    rcases eq_or_ne t task with rfl | hne
    · exact .inr ⟨rfl, (hpc ▸ h.idleTask t ht).isIdle⟩
    · exact .inl ⟨hne, h.idleTask t ht⟩

-- A task that is neither suspended at the mutex nor in its critical section
-- may move between the places outside.
theorem Locking.setOutside (h : Locking s) (task : TaskId) (pc : Pc)
    (hfrom : ¬(s.tasks task).isAwaiting ∧ ¬(s.tasks task).isWaiting)
    (hto : ¬pc.isAwaiting ∧ ¬pc.isWaiting)
    (hidle : s.idleTask = some task → pc.OfIdleTask) : Locking (s.setPc task pc) where
  owner t := by
    rcases eq_or_ne t task with rfl | ht
    · have hno : s.lock.owner ≠ some t := fun ho => hfrom.1 ((h.owner t).mp ho)
      simp only [State.setPc, Function.update_self, hno, hto.1, Bool.false_eq_true]
    · simpa [State.setPc, ht] using h.owner t
  waiters t := by
    rcases eq_or_ne t task with rfl | ht
    · have hno : t ∉ s.lock.waiters := fun hw => hfrom.2 ((h.waiters t).mp hw)
      simp only [State.setPc, Function.update_self, hno, hto.2, Bool.false_eq_true]
    · simpa [State.setPc, ht] using h.waiters t
  nodup := h.nodup
  idleTask t ht := by
    rcases eq_or_ne t task with rfl | hne
    · simpa [State.setPc] using hidle ht
    · simpa [State.setPc, hne] using h.idleTask t ht

theorem Locking.abandon (h : Locking s) {operation : Operation}
    (hpc : s.tasks task = .lockWait operation) (result : Result) :
    Locking { s.setPc task (.finished result) with lock := s.lock.abandon task } where
  owner t := by
    rcases eq_or_ne t task with rfl | ht
    · have := h.owner t
      simp [hpc] at this
      simpa [State.setPc] using this
    · simpa [State.setPc, ht] using h.owner t
  waiters t := by
    rcases eq_or_ne t task with rfl | ht
    · simpa [State.setPc] using fun hw => (h.nodup.mem_erase_iff.mp hw).1 rfl
    · simpa [State.setPc, ht, h.nodup.mem_erase_iff] using h.waiters t
  nodup := h.nodup.erase task
  idleTask t ht := by
    rcases eq_or_ne t task with rfl | hne
    · simpa [State.setPc] using Pc.OfIdleTask.finished result
    · simpa [State.setPc, hne] using h.idleTask t ht

theorem Locking.clearIdle (h : Locking s) : Locking { s with idleTask := none } :=
  ⟨h.owner, h.waiters, h.nodup, by simp⟩

theorem Locking.endIdle (h : Locking s) (idle : Bool) : Locking (s.endIdle idle) := by
  unfold State.endIdle
  split
  · exact h.clearIdle
  · exact h

-- Nothing but the fields below enters into `Locking`.
theorem Locking.congr {s' : State} (h : Locking s) (hlock : s'.lock = s.lock)
    (htasks : s'.tasks = s.tasks) (hidle : s'.idleTask = s.idleTask) : Locking s' :=
  ⟨by rw [hlock, htasks]; exact h.owner, by rw [hlock, htasks]; exact h.waiters,
    by rw [hlock]; exact h.nodup, by rw [hidle, htasks]; exact h.idleTask⟩

theorem LockedBy.congr {s' : State} (h : LockedBy s task idle) (hlock : s'.lock = s.lock)
    (htasks : s'.tasks = s.tasks) (hidle : s'.idleTask = s.idleTask) : LockedBy s' task idle :=
  ⟨by rw [hlock]; exact h.owner, by rw [htasks]; exact h.awaiting,
    by rw [hlock, htasks]; exact h.waiters, by rw [hlock]; exact h.nodup,
    by rw [hidle, htasks]; exact h.idleTask⟩

end Updates

end Cosmos3.Orchestrator
