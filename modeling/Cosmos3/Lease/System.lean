import Cosmos3.Jobs.Runner
import Cosmos3.Orchestrator.Manager

namespace Cosmos3.Lease

open Basis Jobs Orchestrator

-- The two kinds of coroutine that take the GPU lease.
inductive Holder where
  | loop
  | stream (id : Nat)
deriving DecidableEq

-- What a call of the orchestrator was made for: the acquire of a lease holder,
-- or an eviction issued for a job.
inductive Purpose where
  | acquire (target : ResidencyId)
  | evictAll (job : JobId)

-- Where the generator of a reasoning stream stands. `failing` is at one of the
-- yields that report an acquire that raised.
inductive StreamPc where
  | absent
  | leaseWait
  | acquiring (task : Orchestrator.TaskId)
  | relaying (task : Orchestrator.TaskId)
  | failing (task : Orchestrator.TaskId)
  | finished

-- The acquire call of a stream that holds the lease, and the job of a loop that
-- does.
def StreamPc.acquireCall : StreamPc → Option Orchestrator.TaskId
  | .acquiring task | .relaying task | .failing task => some task
  | .absent | .leaseWait | .finished => none

def heldJob : LoopPc → Option JobId
  | .acquiring job _ | .working job | .failEvicting job => some job
  | .stopped | .idle | .leaseWait _ _ => none

-- Every call of the orchestrator is a task of its own there: `loopAcquire` and
-- `loopEvict` are the loop's latest ones, `cancelEvict` those of the cancels.
structure State where
  orch : Orchestrator.State
  runner : Jobs.State
  lease : FifoLock Holder
  streams : Nat → StreamPc
  loopAcquire : Orchestrator.TaskId
  loopEvict : Orchestrator.TaskId
  cancelEvict : Jobs.TaskId → Orchestrator.TaskId
  issued : Orchestrator.TaskId → Option Purpose

def initial : State where
  orch := Orchestrator.initial
  runner := Jobs.initial
  lease := .unlocked
  streams := fun _ => .absent
  loopAcquire := 0
  loopEvict := 0
  cancelEvict := fun _ => 0
  issued := fun _ => none

-- A lease holder's acquire call, once it has made it, and the job it is for; a
-- reasoning stream has none.
abbrev Stage := Option (Orchestrator.TaskId × Option JobId)

def State.callOf (s : State) : Holder → Stage
  | .loop => (heldJob s.runner.loop).map fun job => (s.loopAcquire, some job)
  | .stream id => (s.streams id).acquireCall.map fun task => (task, none)

def State.stage (s : State) : Stage := s.lease.owner.bind s.callOf

def reasoner : ResidencyId := ⟨.reasoning, none⟩

section Targets

variable (label : Python.Value → String)

def checkpoint (params : Python.Dict) : Option String :=
  match params.get (ascii "checkpoint") with
  | none | some .none => none
  | some value => some (label value)

def residencyOf (record : JobRecord) : ResidencyId where
  plane := record.plane
  label := match record.plane with
    | .generation => checkpoint label record.params
    | .reasoning => none

end Targets

section Steps

variable (fingerprint : Text → Python.Dict → Text) (label : Python.Value → String)
  (idleTimeout : ℚ)

def call (s : State) (task : Orchestrator.TaskId) (operation : Operation) (made : Bool)
    (purpose : Purpose) : Option State :=
  (Orchestrator.step idleTimeout s.orch (.call task operation made)).map fun orch =>
    { s with orch := orch, issued := Function.update s.issued task (some purpose) }

-- The lease comes at once when it is free, or in turn. What follows an await that
-- does not suspend is a step of its own here, which only adds interleavings.
def grant (lease : FifoLock Holder) (holder : Holder) : Option (FifoLock Holder) :=
  if lease.owner = some holder then some lease
  else if lease.woken = some holder then some lease.handOver
  else none

-- When `_process` is over: out of the `async with`, and `notify_idle` in the
-- `finally`, without an await between the two.
def settle (s : State) : State :=
  match s.runner.loop with
  | .idle => { s with lease := s.lease.release, orch := notifyIdle idleTimeout s.orch }
  | _ => s

-- A step of the runner, with what it does to the lease and to the orchestrator.
-- `task` and `made` are for the call that it makes there, if it makes one.
def runnerStep (s : State) (action : Jobs.Action) (task : Orchestrator.TaskId) (made : Bool) :
    Option State :=
  (Jobs.step fingerprint s.runner action).bind fun runner =>
    let s' := { s with runner := runner }
    match action with
    | .loop .stopLoop => none
    | .loop .dequeue =>
        match runner.loop with
        | .leaseWait _ _ => some { s' with lease := s.lease.acquire .loop }
        | _ => some s'
    | .loop .leaseGranted =>
        match runner.loop with
        | .acquiring _ record =>
            (grant s.lease .loop).bind fun lease =>
              call idleTimeout { s' with lease := lease, loopAcquire := task } task
                (.acquire (residencyOf label record)) made (.acquire (residencyOf label record))
        | _ => none
    | .loop .acquireReturns =>
        if s.orch.tasks s.loopAcquire = .finished .returned then some (settle idleTimeout s')
        else none
    | .loop (.acquireRaises _) =>
        if s.orch.tasks s.loopAcquire = .finished .raised then some (settle idleTimeout s')
        else none
    | .loop .workEnds => some (settle idleTimeout s')
    | .loop .failureEvicted =>
        match s.orch.tasks s.loopEvict with
        | .finished _ => some (settle idleTimeout s')
        | _ => none
    | .loop (.cancelCall canceller job) =>
        match runner.cancels canceller with
        | .evicting _ =>
            call idleTimeout
              { s' with cancelEvict := Function.update s.cancelEvict canceller task } task
              (.evictAll false) made (.evictAll job)
        | _ => some s'
    | .loop (.cancelEvicted canceller returned) =>
        match s.orch.tasks (s.cancelEvict canceller) with
        | .finished result => if returned = decide (result = .returned) then some s' else none
        | _ => none
    | .loop .startLoop | .loop (.submit _) => some s'
    | .nextSection =>
        match s.runner.busy with
        | some (.appendFailed job _) =>
            call idleTimeout { s' with loopEvict := task } task (.evictAll false) made
              (.evictAll job)
        | some (.appendSucceeded _ _) => some (settle idleTimeout s')
        | _ => some s'
    | .thread _ _ => some s'

inductive Action where
  | runner (action : Jobs.Action) (task : Orchestrator.TaskId) (made : Bool)
  | orch (action : Orchestrator.Action)
  | openStream (id : Nat)
  | streamGranted (id : Nat) (task : Orchestrator.TaskId) (made : Bool)
  | streamAcquired (id : Nat)
  | streamRefused (id : Nat)
  | closeStream (id : Nat)

-- What the orchestrator does of itself. Calls and `notify_idle` come from its
-- users, and no coroutine is cancelled inside it.
def ofItself : Orchestrator.Action → Bool
  | .granted _ _ | .threadEnters _ | .threadLeaves _ _ | .resumes _ _ => true
  | .orphanLeaves _ _ | .timerFires _ | .idleStarts _ => true
  | .call _ _ _ | .cancelled _ | .notifyIdle => false

def State.setStream (s : State) (id : Nat) (pc : StreamPc) : State :=
  { s with streams := Function.update s.streams id pc }

def step (s : State) : Action → Option State
  | .runner action task made => runnerStep fingerprint label idleTimeout s action task made
  | .orch action =>
      if ofItself action then
        (Orchestrator.step idleTimeout s.orch action).map fun orch => { s with orch := orch }
      else none
  | .openStream id =>
      match s.streams id with
      | .absent => some { s.setStream id .leaseWait with lease := s.lease.acquire (.stream id) }
      | _ => none
  | .streamGranted id task made =>
      match s.streams id with
      | .leaseWait =>
          (grant s.lease (.stream id)).bind fun lease =>
            call idleTimeout { s.setStream id (.acquiring task) with lease := lease } task
              (.acquire reasoner) made (.acquire reasoner)
      | _ => none
  | .streamAcquired id =>
      match s.streams id with
      | .acquiring task =>
          if s.orch.tasks task = .finished .returned then some (s.setStream id (.relaying task))
          else none
      | _ => none
  | .streamRefused id =>
      match s.streams id with
      | .acquiring task =>
          if s.orch.tasks task = .finished .raised then some (s.setStream id (.failing task))
          else none
      | _ => none
  | .closeStream id =>
      match s.streams id with
      -- the relay is over or its client is gone
      | .relaying _ =>
          some { s.setStream id .finished with
            lease := s.lease.release, orch := notifyIdle idleTimeout s.orch }
      | .failing _ => some { s.setStream id .finished with lease := s.lease.release }
      -- the client is gone before the stream's turn has come
      | .leaseWait =>
          if s.lease.owner = some (.stream id) then none
          else some { s.setStream id .finished with lease := s.lease.abandon (.stream id) }
      | _ => none

end Steps

end Cosmos3.Lease
