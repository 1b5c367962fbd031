import Cosmos3.Basis.FifoLock
import Cosmos3.Orchestrator.Residency
import Mathlib.Data.Rat.Defs
import Mathlib.Logic.Function.Basic

namespace Cosmos3.Orchestrator

open Basis

abbrev TaskId := Nat

structure Worker where
  id : Nat
  target : ResidencyId
deriving DecidableEq, Repr

-- How a function handed to `asyncio.to_thread` ended. `start` and `evict`
-- return None, so the value of theirs is never looked at.
inductive Outcome where
  | returned (value : Bool)
  | raised
deriving DecidableEq, Repr

-- An executor call: submitted, picked up by a thread, or over without the
-- awaiting coroutine having run again yet.
inductive Call where
  | pending
  | running
  | done (outcome : Outcome)
deriving DecidableEq, Repr

-- The awaits on `asyncio.to_thread`, with the local variables that are live
-- across each of them.
inductive Site where
  | swapEvict (target : ResidencyId) (plan : ResidencyPlan) (worker : Worker)
  | postEvictWait (target : ResidencyId) (plan : ResidencyPlan)
  | start (target : ResidencyId) (plan : ResidencyPlan) (worker : Worker)
  | waitReady (target : ResidencyId) (plan : ResidencyPlan) (worker : Worker)
  | notReadyEvict (target : ResidencyId) (worker : Worker)
  | evictAll (idle : Bool) (worker : Worker)
deriving DecidableEq, Repr

inductive Operation where
  | acquire (target : ResidencyId)
  | evictAll (idle : Bool)
deriving DecidableEq, Repr

inductive Result where
  | returned
  | raised
  | cancelled
deriving DecidableEq, Repr

-- Where a coroutine is suspended. `created` is the idle task before its first
-- step; `idle` marks the `evict_all` that `_try_idle_evict` awaits.
inductive Pc where
  | absent
  | created
  | lockWait (operation : Operation)
  | awaiting (site : Site) (call : Call)
  | finished (result : Result)
deriving DecidableEq, Repr

inductive Event where
  | startCall (worker : Worker)
  | started (worker : Worker)
  | ready (worker : Worker) (value : Bool)
  | evictCall (worker : Worker)
  | released (value : Bool)
  | acquired (task : TaskId) (target : ResidencyId)
deriving DecidableEq, Repr

-- What the world sees when a thread enters the function, and when it leaves.
def Site.entering : Site → List Event
  | .swapEvict _ _ worker => [.evictCall worker]
  | .postEvictWait _ _ => []
  | .start _ _ worker => [.startCall worker]
  | .waitReady _ _ _ => []
  | .notReadyEvict _ worker => [.evictCall worker]
  | .evictAll _ worker => [.evictCall worker]

def Site.leaving : Site → Outcome → List Event
  | .start _ _ worker, .returned _ => [.started worker]
  | .waitReady _ _ worker, .returned value => [.ready worker value]
  | .postEvictWait _ _, .returned value => [.released value]
  | _, _ => []

-- `log` is the history of worker calls, newest first; `orphans` are the calls
-- whose coroutine was cancelled while a thread was already inside them.
structure State where
  lock : FifoLock TaskId
  slot : Option ResidencyId
  worker : Option Worker
  idleHandle : Bool
  idleTask : Option TaskId
  tasks : TaskId → Pc
  orphans : List Site
  made : Nat
  log : List Event

def initial : State where
  lock := .unlocked
  slot := none
  worker := none
  idleHandle := false
  idleTask := none
  tasks := fun _ => .absent
  orphans := []
  made := 0
  log := []

namespace State

def setPc (s : State) (task : TaskId) (pc : Pc) : State :=
  { s with tasks := Function.update s.tasks task pc }

def toThread (s : State) (task : TaskId) (site : Site) : State :=
  s.setPc task (.awaiting site .pending)

-- Leaving `async with self._lock`, normally or by an exception.
def leave (s : State) (task : TaskId) (result : Result) : State :=
  { s.setPc task (.finished result) with lock := s.lock.release }

-- The `finally` of `_try_idle_evict`.
def endIdle (s : State) (idle : Bool) : State :=
  if idle then { s with idleTask := none } else s

def emit (s : State) (events : List Event) : State :=
  { s with log := events ++ s.log }

end State

open State

-- CancelledError raised at the await where the coroutine is suspended. A call
-- still queued in the executor is withdrawn; a thread inside one runs on.
def cancelTask (s : State) (task : TaskId) : State :=
  match s.tasks task with
  | .absent => s
  | .created => s.setPc task (.finished .cancelled)
  | .lockWait (.acquire _) =>
      { s.setPc task (.finished .cancelled) with lock := s.lock.abandon task }
  | .lockWait (.evictAll idle) =>
      endIdle { s.setPc task (.finished .cancelled) with lock := s.lock.abandon task } idle
  | .awaiting site call =>
      let s' := if call = .running then { s with orphans := site :: s.orphans } else s
      match site with
      | .evictAll idle _ => endIdle (s'.leave task .cancelled) idle
      | _ => s'.leave task .cancelled
  | .finished _ => s

def cancelIdleHandle (s : State) : State := { s with idleHandle := false }

-- `Task.cancel` reaches the idle task in the next pass of the event loop, before
-- any timer that is armed from now on; both are one step here.
def cancelIdleTimer (s : State) : State :=
  match s.idleTask with
  | none => cancelIdleHandle s
  | some task => { cancelTask (cancelIdleHandle s) task with idleTask := none }

def acquireReturn (s : State) (task : TaskId) (target : ResidencyId) : State :=
  (s.leave task .returned).emit [.acquired task target]

-- `made` says whether the injected factory returned a worker or raised.
def acquireLoad (s : State) (task : TaskId) (target : ResidencyId) (plan : ResidencyPlan)
    (made : Bool) : State :=
  match plan.load with
  | none => acquireReturn s task target
  | some _ =>
    if made then
      { s with made := s.made + 1 }.toThread task (.start target plan ⟨s.made, target⟩)
    else s.leave task .raised

def acquireLocked (s : State) (task : TaskId) (target : ResidencyId) (made : Bool) : State :=
  let s := cancelIdleTimer s
  let plan := planAcquire s.slot target
  match plan.evict, s.worker with
  | some _, some worker => s.toThread task (.swapEvict target plan worker)
  | _, _ => acquireLoad s task target plan made

def evictAllReturn (s : State) (task : TaskId) (idle : Bool) : State :=
  endIdle ({ s with worker := none, slot := none }.leave task .returned) idle

def evictAllLocked (s : State) (task : TaskId) (idle : Bool) : State :=
  let s := cancelIdleHandle s
  match s.worker with
  | some worker => s.toThread task (.evictAll idle worker)
  | none => evictAllReturn s task idle

def enter (s : State) (task : TaskId) (operation : Operation) (made : Bool) : State :=
  match operation with
  | .acquire target => acquireLocked s task target made
  | .evictAll idle => evictAllLocked s task idle

-- `async with self._lock`: straight into the body when the lock is free.
def request (s : State) (task : TaskId) (operation : Operation) (made : Bool) : State :=
  let s' := { s with lock := s.lock.acquire task }
  if s'.lock.owner = some task then enter s' task operation made
  else s'.setPc task (.lockWait operation)

-- The coroutine after the await it was suspended at, up to its next await.
def resume (s : State) (task : TaskId) (site : Site) (outcome : Outcome) (made : Bool) : State :=
  match site, outcome with
  | .swapEvict target plan _, .returned _ =>
      { s with worker := none, slot := none }.toThread task (.postEvictWait target plan)
  | .postEvictWait target plan, .returned true => acquireLoad s task target plan made
  | .postEvictWait _ _, .returned false => s.leave task .raised
  | .start target plan worker, .returned _ => s.toThread task (.waitReady target plan worker)
  | .waitReady target _ worker, .returned true =>
      acquireReturn { s with worker := some worker, slot := some target } task target
  | .waitReady target _ worker, .returned false => s.toThread task (.notReadyEvict target worker)
  | .notReadyEvict _ _, .returned _ => s.leave task .raised
  | .evictAll idle _, .returned _ => evictAllReturn s task idle
  | .evictAll idle _, .raised => endIdle (s.leave task .raised) idle
  | _, .raised => s.leave task .raised

def notifyIdle (idleTimeout : ℚ) (s : State) : State :=
  let s := cancelIdleTimer s
  if 0 < idleTimeout ∧ s.slot ≠ none then { s with idleHandle := true } else s

def onIdleTimeout (s : State) (task : TaskId) : State :=
  { s.setPc task .created with idleHandle := false, idleTask := some task }

def tryIdleEvict (s : State) (task : TaskId) : State :=
  if s.lock.locked then endIdle (s.setPc task (.finished .returned)) true
  else request s task (.evictAll true) true

inductive Action where
  | call (task : TaskId) (operation : Operation) (made : Bool)
  | granted (task : TaskId) (made : Bool)
  | threadEnters (task : TaskId)
  | threadLeaves (task : TaskId) (outcome : Outcome)
  | resumes (task : TaskId) (made : Bool)
  | cancelled (task : TaskId)
  | orphanLeaves (index : Nat) (outcome : Outcome)
  | notifyIdle
  | timerFires (task : TaskId)
  | idleStarts (task : TaskId)
deriving DecidableEq, Repr

def step (idleTimeout : ℚ) (s : State) : Action → Option State
  | .call task operation made =>
      if s.tasks task = .absent ∧ operation ≠ .evictAll true then
        some (request s task operation made)
      else none
  | .granted task made =>
      match s.tasks task with
      | .lockWait operation =>
          if s.lock.woken = some task then
            some (enter { s with lock := s.lock.handOver } task operation made)
          else none
      | _ => none
  | .threadEnters task =>
      match s.tasks task with
      | .awaiting site .pending =>
          some ((s.setPc task (.awaiting site .running)).emit site.entering)
      | _ => none
  | .threadLeaves task outcome =>
      match s.tasks task with
      | .awaiting site .running =>
          some ((s.setPc task (.awaiting site (.done outcome))).emit (site.leaving outcome))
      | _ => none
  | .resumes task made =>
      match s.tasks task with
      | .awaiting site (.done outcome) => some (resume s task site outcome made)
      | _ => none
  | .cancelled task =>
      match s.tasks task with
      | .absent | .finished _ => none
      | _ => some (cancelTask s task)
  | .orphanLeaves index outcome =>
      match s.orphans[index]? with
      | some site =>
          some ({ s with orphans := s.orphans.eraseIdx index }.emit (site.leaving outcome))
      | none => none
  | .notifyIdle => some (notifyIdle idleTimeout s)
  | .timerFires task =>
      if s.idleHandle ∧ s.tasks task = .absent then some (onIdleTimeout s task) else none
  | .idleStarts task =>
      if s.tasks task = .created then some (tryIdleEvict s task) else none

end Cosmos3.Orchestrator
