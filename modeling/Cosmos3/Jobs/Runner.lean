import Cosmos3.Jobs.Store

namespace Cosmos3.Jobs

open Basis

abbrev TaskId := Nat

-- An exception: its `code` attribute, when that is a string, and its text.
structure Raised where
  code : Option Text
  message : Text

def errorOf (exc : Raised) : ErrorModel := ⟨exc.code.getD (ascii "internal_error"), exc.message⟩

-- How a job's `work` ended.
inductive WorkOutcome where
  | returned (artifactPath : Text) (resultMeta : List (Text × Json))
  | raised (exc : Raised)

-- The thread that runs a job's `work`; `appending` is inside `report`, after the
-- update of the record and before the append of the event.
inductive ThreadPc where
  | absent
  | working
  | appending (progress : Number)
  | finished (outcome : WorkOutcome)

-- The awaits of `_loop` and `_process`.
inductive LoopPc where
  | stopped
  | idle
  | leaseWait (job : JobId) (record : JobRecord)
  | acquiring (job : JobId) (record : JobRecord)
  | working (job : JobId)
  | failEvicting (job : JobId)

-- A stretch of code on the event loop's thread that has reached its next store
-- operation. Other threads may use the store first, other coroutines may not.
inductive Section where
  | appendRunning (job : JobId)
  | appendFailed (job : JobId) (message : Text)
  | appendSucceeded (job : JobId) (resultMeta : List (Text × Json))
  | cancelUpdate (task : TaskId) (job : JobId)
  | appendCancelled (task : TaskId) (job : JobId)

-- One call of `cancel`, awaiting `evict_all` or over.
inductive CancelPc where
  | absent
  | evicting (job : JobId)
  | finished (returned : Bool)

-- `history` keeps every event ever appended, which the store's log does not.
structure State where
  store : JobStore
  queue : List JobId
  cancelled : List JobId
  current : Option JobId
  loop : LoopPc
  busy : Option Section
  threads : JobId → ThreadPc
  cancels : TaskId → CancelPc
  history : JobId → List JobEvent

def initial : State where
  store := .empty
  queue := []
  cancelled := []
  current := none
  loop := .stopped
  busy := none
  threads := fun _ => .absent
  cancels := fun _ => .absent
  history := fun _ => []

namespace State

def setThread (s : State) (job : JobId) (pc : ThreadPc) : State :=
  { s with threads := Function.update s.threads job pc }

def setCancel (s : State) (task : TaskId) (pc : CancelPc) : State :=
  { s with cancels := Function.update s.cancels task pc }

def append (s : State) (job : JobId) (type : Text) (data : List (Text × Json)) : State :=
  { s with
    store := s.store.appendEvent job type data
    history := Function.update s.history job
      (s.history job ++ [s.store.nextEvent job type data]) }

-- `store.update`, and what follows when it returns and when it raises.
def update (s : State) (job : JobId) (fn : JobRecord → Except JobTransitionError JobRecord)
    (returned : State → State) (raised : State → State) : State :=
  match s.store.update job fn with
  | .ok (store, _) => returned { s with store := store }
  | .error _ => raised s

def discard (s : State) (job : JobId) : State :=
  { s with cancelled := s.cancelled.filter (· ≠ job) }

-- The `finally` of `_process`, and back to the queue.
def finish (s : State) (job : JobId) : State :=
  { s.discard job with current := none, loop := .idle }

end State

section Process

variable (s : State)

def dequeue (job : JobId) (queue : List JobId) : State :=
  let s := { s with queue := queue }
  if job ∈ s.cancelled then s.discard job
  else match s.store.tryGet job with
    | none => s
    | some record =>
      if record.status ≠ .queued then s
      else { s with current := some job, loop := .leaseWait job record }

def failJob (job : JobId) (exc : Raised) : State :=
  if job ∈ s.cancelled then s.finish job
  else s.update job (fail · (errorOf exc))
    (fun s => { s with busy := some (.appendFailed job (errorOf exc).message) })
    (fun s => s.finish job)

def acquired (job : JobId) : State :=
  if job ∈ s.cancelled then s.finish job
  else s.update job start
    (fun s => { s with busy := some (.appendRunning job) })
    (fun s => s.finish job)

def worked (job : JobId) : WorkOutcome → State
  | .raised exc => failJob s job exc
  | .returned artifactPath resultMeta =>
    if job ∈ s.cancelled then s.finish job
    else s.update job (succeed · artifactPath resultMeta)
      (fun s => { s with busy := some (.appendSucceeded job resultMeta) })
      (fun s => s.finish job)

end Process

-- `cancel` up to its first await, or to its update when it does not evict.
def cancelCall (s : State) (task : TaskId) (job : JobId) : State :=
  match s.store.tryGet job with
  | none => s.setCancel task (.finished false)
  | some record =>
    if record.status.isTerminal then s.setCancel task (.finished false)
    else
      let s := { s with cancelled := job :: s.cancelled }
      if record.status = .running ∧ s.current = some job then s.setCancel task (.evicting job)
      else { s with busy := some (.cancelUpdate task job) }

def cancelUpdate (s : State) (task : TaskId) (job : JobId) : State :=
  s.update job cancel
    (fun s => { s with busy := some (.appendCancelled task job) })
    (fun s => { s with busy := none }.setCancel task (.finished false))

def runSection (s : State) : Section → State
  | .appendRunning job =>
      { (s.append job JobStatus.running.value []).setThread job .working with
        busy := none, loop := .working job }
  | .appendFailed job message =>
      { s.append job JobStatus.failed.value [(ascii "message", .string message)] with
        busy := none, loop := .failEvicting job }
  | .appendSucceeded job resultMeta =>
      { s.append job JobStatus.succeeded.value resultMeta with busy := none }.finish job
  | .cancelUpdate task job => cancelUpdate s task job
  | .appendCancelled task job =>
      { s.append job JobStatus.cancelled.value [] with busy := none }.setCancel task
        (.finished true)

-- `submit_and_enqueue`: a replayed submission is not enqueued again.
def submit (fingerprint : Text → Python.Dict → Text) (s : State)
    (submission : Submission) : State :=
  match s.store.submit fingerprint submission with
  | .ok (store, record, false) =>
      { s with
        store := store
        queue := s.queue ++ [record.id]
        history := Function.update s.history record.id [⟨1, JobStatus.queued.value, []⟩] }
  | .ok (_, _, true) => s
  | .error _ => s

-- The task is cancelled at its await: the `finally` runs, the thread goes on.
def stopLoop (s : State) : State :=
  match s.loop with
  | .stopped | .idle => { s with loop := .stopped }
  | .leaseWait job _ | .acquiring job _ => { s.finish job with loop := .stopped }
  | .working job | .failEvicting job => { s.finish job with loop := .stopped }

-- `report` in the worker thread, up to its append.
def report (s : State) (job : JobId) (fraction : Number) : State :=
  match s.store.update job fun record =>
      if record.status = .running then progress record fraction else .ok record with
  | .error _ => s
  | .ok (store, updated) =>
    let s := { s with store := store }
    if updated.status = .running then s.setThread job (.appending updated.progress) else s

inductive LoopAction where
  | startLoop
  | stopLoop
  | submit (submission : Submission)
  | dequeue
  | leaseGranted
  | acquireReturns
  | acquireRaises (exc : Raised)
  | workEnds
  | failureEvicted
  | cancelCall (task : TaskId) (job : JobId)
  | cancelEvicted (task : TaskId) (returned : Bool)

inductive ThreadAction where
  | report (fraction : Number)
  | append
  | ends (outcome : WorkOutcome)

inductive Action where
  | loop (action : LoopAction)
  | nextSection
  | thread (job : JobId) (action : ThreadAction)

def loopStep (fingerprint : Text → Python.Dict → Text) (s : State) :
    LoopAction → Option State
  | .startLoop =>
      match s.loop with
      | .stopped => some { s with loop := .idle }
      | _ => none
  | .stopLoop => some (stopLoop s)
  | .submit submission =>
      if (s.store.jobs submission.id).isNone then some (submit fingerprint s submission) else none
  | .dequeue =>
      match s.loop, s.queue with
      | .idle, job :: queue => some (dequeue s job queue)
      | _, _ => none
  | .leaseGranted =>
      match s.loop with
      | .leaseWait job record => some { s with loop := .acquiring job record }
      | _ => none
  | .acquireReturns =>
      match s.loop with
      | .acquiring job _ => some (acquired s job)
      | _ => none
  | .acquireRaises exc =>
      match s.loop with
      | .acquiring job _ => some (failJob s job exc)
      | _ => none
  | .workEnds =>
      match s.loop with
      | .working job =>
        match s.threads job with
        | .finished outcome => some (worked s job outcome)
        | _ => none
      | _ => none
  | .failureEvicted =>
      match s.loop with
      | .failEvicting job => some (s.finish job)
      | _ => none
  | .cancelCall task job =>
      match s.cancels task with
      | .absent => some (cancelCall s task job)
      | _ => none
  | .cancelEvicted task returned =>
      match s.cancels task with
      | .evicting job =>
          some (if returned then cancelUpdate s task job else s.setCancel task (.finished false))
      | _ => none

def threadStep (s : State) (job : JobId) : ThreadAction → Option State
  | .report fraction =>
      match s.threads job with
      | .working => some (report s job fraction)
      | _ => none
  | .append =>
      match s.threads job with
      | .appending progress =>
          some ((s.append job progressType [(ascii "progress", .number progress)]).setThread job
            .working)
      | _ => none
  | .ends outcome =>
      match s.threads job with
      | .working => some (s.setThread job (.finished outcome))
      | _ => none

def step (fingerprint : Text → Python.Dict → Text) (s : State) : Action → Option State
  | .loop action =>
      match s.busy with
      | none => loopStep fingerprint s action
      | some _ => none
  | .nextSection => s.busy.map (runSection s)
  | .thread job action => threadStep s job action

end Cosmos3.Jobs
