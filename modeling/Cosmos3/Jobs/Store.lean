import Cosmos3.Jobs.Events
import Cosmos3.Jobs.Model
import Mathlib.Logic.Function.Basic

namespace Cosmos3.Jobs

open Basis Orchestrator

def eventLogBound : Nat := 1024

inductive StoreError where
  | jobNotFound (job : JobId)
  | transition (error : JobTransitionError)
  | idempotencyConflict (key : Text)

structure JobStore where
  jobs : JobId → Option JobRecord
  events : JobId → List JobEvent
  seq : JobId → Nat
  idem : Text → Option JobId

-- What a submission brings: the request, and the id and the time drawn for it.
structure Submission where
  mode : Text
  plane : Plane
  params : Python.Dict
  key : Option Text
  id : JobId
  createdAt : Text

namespace JobStore

def empty : JobStore := ⟨fun _ => none, fun _ => [], fun _ => 0, fun _ => none⟩

def tryGet (store : JobStore) (job : JobId) : Option JobRecord := store.jobs job

-- A deque with `maxlen` drops its oldest entry.
def bounded (log : List JobEvent) : List JobEvent := log.drop (log.length - eventLogBound)

def nextEvent (store : JobStore) (job : JobId) (type : Text) (data : List (Text × Json)) :
    JobEvent := ⟨store.seq job + 1, type, data⟩

def appendEvent (store : JobStore) (job : JobId) (type : Text) (data : List (Text × Json)) :
    JobStore :=
  { store with
    seq := Function.update store.seq job (store.seq job + 1)
    events := Function.update store.events job
      (bounded (store.events job ++ [store.nextEvent job type data])) }

def put (store : JobStore) (job : JobId) (record : JobRecord) : JobStore :=
  { store with jobs := Function.update store.jobs job (some record) }

def update (store : JobStore) (job : JobId)
    (fn : JobRecord → Except JobTransitionError JobRecord) : Except StoreError (JobStore × JobRecord) :=
  match store.jobs job with
  | none => .error (.jobNotFound job)
  | some record =>
    match fn record with
    | .error error => .error (.transition error)
    | .ok updated => .ok (store.put job updated, updated)

def log (store : JobStore) (job : JobId) : Except StoreError (List JobEvent) :=
  match store.jobs job with
  | none => .error (.jobNotFound job)
  | some _ => .ok (store.events job)

variable (fingerprint : Text → Python.Dict → Text)

def newRecord (submission : Submission) : JobRecord where
  id := submission.id
  mode := submission.mode
  plane := submission.plane
  status := .queued
  createdAt := submission.createdAt
  params := submission.params
  idempotencyFingerprint :=
    submission.key.map fun _ => fingerprint submission.mode submission.params

def create (store : JobStore) (submission : Submission) : JobStore :=
  let store := store.put submission.id (newRecord fingerprint submission)
  let store := { store with
    events := Function.update store.events submission.id []
    seq := Function.update store.seq submission.id 0
    idem := match submission.key with
      | none => store.idem
      | some key => Function.update store.idem key (some submission.id) }
  store.appendEvent submission.id JobStatus.queued.value []

-- The record and whether it is a replay.
def submit (store : JobStore) (submission : Submission) :
    Except StoreError (JobStore × JobRecord × Bool) :=
  match submission.key.bind fun key => (store.idem key).bind store.jobs with
  | some existing =>
    if existing.idempotencyFingerprint = some (fingerprint submission.mode submission.params) then
      .ok (store, existing, true)
    else .error (.idempotencyConflict (submission.key.getD []))
  | none => .ok (store.create fingerprint submission, newRecord fingerprint submission, false)

def status (store : JobStore) (job : JobId) : Option JobStatus := (store.jobs job).map (·.status)

theorem status_eq_some {store : JobStore} {job : JobId} {status : JobStatus} :
    store.status job = some status ↔ ∃ record, store.jobs job = some record ∧ record.status = status :=
  Option.map_eq_some_iff

@[simp] theorem status_appendEvent (store : JobStore) (job : JobId) (type : Text)
    (data : List (Text × Json)) (other : JobId) :
    (store.appendEvent job type data).status other = store.status other := rfl

theorem status_put (store : JobStore) (job : JobId) (record : JobRecord) (other : JobId) :
    (store.put job record).status other =
      if other = job then some record.status else store.status other := by
  by_cases hj : other = job
  · subst hj
    simp [status, put]
  · simp [status, put, hj]

theorem status_create (store : JobStore) (submission : Submission) (other : JobId) :
    (store.create fingerprint submission).status other =
      if other = submission.id then some .queued else store.status other :=
  status_put store submission.id (newRecord fingerprint submission) other

end JobStore

end Cosmos3.Jobs
