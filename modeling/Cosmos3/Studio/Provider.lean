import Cosmos3.Basis.Percent
import Cosmos3.Basis.Stringify
import Cosmos3.Link.Connection
import Cosmos3.Studio.JobState

namespace Cosmos3.Studio

open Basis Jobs Sse

-- The requests of the page that are out. A submission of the page carries no key.
inductive Call where
  | submit (submission : Submission)
  | poll (job : JobId)
  | cancel (task : TaskId) (job : JobId)

-- One run of the effect: its `createEventStream`, and whether its signal is aborted.
structure Tracking where
  job : JobId
  connection : Option Link.Connection
  client : Client
  signalled : Bool

-- The server, and the hooks that follow a job on it. `answers` are on their way back, each
-- with the record that its route has read. `rendered` is the job that the callbacks have
-- closed over, and `changed` says that the effect has not run for `active` yet. `heard` are
-- the jobs that the view has been told of since it was set.
structure Provider where
  runner : Jobs.State
  calls : List Call
  answers : List (Call × JobRecord)
  active : Option JobId
  rendered : Option JobId
  changed : Bool
  view : Option JobView
  trackings : List Tracking
  heard : List JobId

inductive ProviderAction where
  | runner (action : Jobs.Action)
  | stream (index : ℕ) (action : Link.Action)
  | submit (submission : Submission)
  | serve (index : ℕ)
  | answer (index : ℕ)
  | cancel (task : TaskId)
  | openJob (job : JobId)
  | reset
  | commit

def defaultMaxRetries : ℕ := 5

def jobUrl (job : JobId) (suffix : Text) : Option Text :=
  (Percent.encodeURIComponent job).map fun id => ascii "/api/v1/jobs/" ++ id ++ suffix

-- What may happen to a stream. An aborted signal ends the loop at its next turn, but a read
-- that has its chunk already goes on.
def Tracking.permits (t : Tracking) : Link.Action → Bool
  | .runner _ => false
  | .abort => t.signalled
  | .connect | .connectFails | .drop => !t.signalled
  | .resume | .receive _ | .done => true

def Tracking.link (t : Tracking) (runner : Jobs.State) : Link.State := ⟨runner, t.connection, t.client⟩

def Tracking.follow (t : Tracking) (link : Link.State) : Tracking :=
  { t with connection := link.connection, client := link.client }

-- The fallback runs when the retries are used up.
def Tracking.exhausts (t : Tracking) (link : Link.State) : Bool :=
  t.client.attempt ≤ defaultMaxRetries && defaultMaxRetries < link.client.attempt

def Tracking.checks (t : Tracking) : Bool := t.connection.any (·.gen.pc.isChecking)

variable (numbers : Json.NumberText)

-- The event that a poll makes of a record.
def pollEvent (record : JobRecord) : SseEvent where
  event := record.status.value
  data := record.error.elim (ascii "\x7b\x7d") fun error =>
    Json.stringify numbers (.object [(ascii "message", .string error.message)])
  id := none

def cancelledEvent : SseEvent := ⟨ascii "cancelled", ascii "\x7b\x7d", none⟩

namespace Provider

def initial : Provider := ⟨Jobs.initial, [], [], none, none, false, none, [], []⟩

variable (fingerprint : Text → Python.Dict → Text) (s : Provider)

-- `setView((prev) => reduceJobEvent(prev ?? initialJobView(), ...))`
def hear (job : JobId) (ev : SseEvent) : Provider :=
  { s with
    view := some (reduceJobEvent numbers (s.view.getD (initialJobView (.job .queued))) ev)
    heard := job :: s.heard }

def adopt (job : JobId) (status : JobStatus) : Provider :=
  { s with active := some job, changed := true, view := some (initialJobView (.job status)), heard := [job] }

-- The event loop does not run between a generator's snapshot and its check.
def runnerStep : Jobs.Action → Option Jobs.State
  | .loop action => if s.trackings.any Tracking.checks then none else Jobs.step fingerprint s.runner (.loop action)
  | action => Jobs.step fingerprint s.runner action

def stream (index : ℕ) (action : Link.Action) : Option Provider :=
  (s.trackings[index]?).bind fun t =>
    if t.permits action then
      (Link.step numbers fingerprint t.job defaultMaxRetries (t.link s.runner) action).map fun link =>
        let events := link.client.delivered.drop t.client.delivered.length
        let s := events.foldl (fun s ev => s.hear numbers t.job ev) s
        { s with
          trackings := s.trackings.set index (t.follow link)
          calls := if t.exhausts link then s.calls ++ [.poll t.job] else s.calls }
    else none

def served (index : ℕ) (call : Call) (record : JobRecord) : Provider :=
  { s with calls := s.calls.eraseIdx index, answers := s.answers ++ [(call, record)] }

-- A call that its route answers with a record. The other answers change nothing here.
def serveCall (index : ℕ) : Call → Option Provider
  | .submit submission =>
      (s.runnerStep fingerprint (.loop (.submit submission))).map fun runner =>
        { s with runner := runner }.served index (.submit submission)
          (JobStore.newRecord fingerprint submission)
  | .poll job => (s.runner.store.tryGet job).map (s.served index (.poll job))
  -- `cancel` has updated the record, which is what it returns
  | .cancel task job =>
      match s.runner.busy with
      | some (.appendCancelled task' job') =>
          if task' = task ∧ job' = job then (s.runner.store.tryGet job).map (s.served index (.cancel task job))
          else none
      | _ => none

def receive (s : Provider) : Call × JobRecord → Provider
  | (.submit _, record) => s.adopt record.id record.status
  | (.poll job, record) => s.hear numbers job (pollEvent numbers record)
  | (.cancel _ job, _) => s.hear numbers job cancelledEvent

-- React has rendered: the effect is cleaned up and runs for what is active now.
def commit : Provider :=
  { s with
    rendered := s.active
    changed := false
    trackings := s.trackings.map (fun t => { t with signalled := true }) ++
      s.active.toList.map fun job => ⟨job, none, createEventStream, false⟩ }

def step : ProviderAction → Option Provider
  | .runner action => (s.runnerStep fingerprint action).map fun runner => { s with runner := runner }
  | .stream index action => s.stream numbers fingerprint index action
  | .submit submission =>
      if submission.key = none then some { s with calls := s.calls ++ [.submit submission] } else none
  | .serve index => (s.calls[index]?).bind (s.serveCall fingerprint index)
  | .answer index => (s.answers[index]?).map
      (Provider.receive numbers { s with answers := s.answers.eraseIdx index })
  | .cancel task => s.rendered.map fun job => { s with calls := s.calls ++ [.cancel task job] }
  | .openJob job => some (s.adopt job .queued)
  -- only the action page resets
  | .reset => some { s with active := none, changed := true, view := none, heard := [] }
  | .commit => if s.changed then some s.commit else none

def artifactUrl : Option Text :=
  s.active.bind fun job =>
    if s.view.map (·.status) = some (.job .succeeded) then jobUrl job (ascii "/artifact") else none

end Provider

end Cosmos3.Studio
