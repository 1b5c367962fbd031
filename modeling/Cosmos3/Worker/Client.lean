import Cosmos3.Basis.Traced
import Cosmos3.Worker.Forms
import Cosmos3.Worker.Framing
import Mathlib.Algebra.Order.Field.Basic

namespace Cosmos3.Worker

open Basis Basis.Python Edge Jobs

structure VideoJobError where
  code : Text
  message : Text
deriving DecidableEq

-- What a job can end in: a typed failure, a path that is not trusted, a file that is not
-- there, an exception of a conversion, or one that the transport or the progress sink raises.
inductive JobError (ε : Type) where
  | job (error : VideoJobError)
  | untrusted (path : Text) (allowlist : List OsText)
  | missing (path : Text)
  | python (exn : Exn)
  | transport (error : ε)
  | sink (error : ε)

-- What a job does, call by call.
inductive Event (K : Type) where
  | postForm (path : Text) (form : Form)
  | postFormBytes (path : Text) (form : Form) (timeout : K)
  | postJson (path : Text) (body : Dict) (timeout : K)
  | getJson (path : Text)
  | getBytes (path : Text)
  | delete (path : Text)
  | report (fraction : K)
  | sleep (interval : K)
  | resolve (path : Text)
  | getsize (path : Text)
  | write (path : Text) (bytes : Bytes)

-- The replies of the server: one to each of the calls that a job makes at most once, and one
-- to each poll.
structure Transport (ε : Type) where
  postForm : Except ε Value
  postFormBytes : Except ε Bytes
  postJson : Except ε Value
  getJson : ℕ → Except ε (ℤ × Value)
  getBytes : Except ε Bytes
  delete : Except ε Unit

-- The settings of the poll loops: the readings of the clock are numbered, and `seconds` is
-- how a duration is shown.
structure Polling (K : Type) where
  pollInterval : K
  overallTimeout : K
  expectedSeconds : Option K := none
  now : ℕ → K
  seconds : K → Text

inductive PollState where
  | completed
  | failed
  | pending
deriving DecidableEq

def pollCompleted : Text := ascii "completed"

def pollFailed : Text := ascii "failed"

-- `max(0.0, min(1.0, x / 100.0))`, where `min` keeps its first argument unless the second one
-- is less.
def percent : Number → ℚ
  | .finite q => max 0 (min 1 (q / 100))
  | .negInfinity => 0
  | .infinity | .nan => 1

section Status

variable (shown : Shown) (js : Dict)

def progressOf : Except Exn (Option ℚ) :=
  match js.get (ascii "progress") with
  | some (.bool value) => (floatOf (.bool value)).map (some ∘ percent)
  | some (.int value) => (floatOf (.int value)).map (some ∘ percent)
  | some (.float value) => (floatOf (.float value)).map (some ∘ percent)
  | _ => .ok none

def parseStatus : Except Exn (PollState × Option ℚ) := do
  let status := lower (strOf shown ((js.get (ascii "status")).getD (.str [])))
  let fraction ← progressOf js
  if status = pollCompleted then .ok (.completed, fraction)
  else if status = pollFailed then .ok (.failed, fraction)
  else .ok (.pending, fraction)

end Status

-- `value.get(key)`
def getOf (value : Value) (key : Text) : Except Exn (Option Value) :=
  match value with
  | .dict d => .ok (Dict.get d key)
  | _ => .error .attributeError

section Client

variable {K ε : Type} [Field K] [LinearOrder K]

def pollProgressCap : K := 95 / 100

def defaultExpectedSeconds : K := 650

def progressFraction (server : Option ℚ) (elapsed expected : K) : K :=
  match server with
  | some fraction => min pollProgressCap (max 0 (fraction : K))
  | none => if expected ≤ 0 then 0 else min pollProgressCap (max 0 (elapsed / expected))

variable (shown : Shown) (transport : Transport ε) (report : K → Except ε Unit) (polling : Polling K)
  (record : JobRecord)

def fail (code : String) (message : Text) : JobError ε := .job ⟨ascii code, message⟩

def safeReport (fraction : K) : Traced (Event K) (JobError ε) Unit :=
  Traced.suppress (Traced.call (.report fraction) ((report fraction).mapError .sink))

def basePath : Text := ascii "/v1/videos"

def jobPath (id : Value) : Text := basePath ++ ascii "/" ++ strOf shown id

def expectedOf : K := polling.expectedSeconds.getD defaultExpectedSeconds

-- The job id that a submission is answered with.
def submittedId (submitted : Value) : Traced (Event K) (JobError ε) Value := do
  let id ← Traced.ofExcept ((getOf submitted (ascii "id")).mapError .python)
  match id.filter truth with
  | some id => Traced.ret id
  | none => Traced.raise (fail "internal_error"
      (ascii "submit response carried no job id: " ++ repr shown submitted))

def pollStatusError (id : Value) (code : ℤ) (body : Value) : JobError ε :=
  fail "generation_failed"
    (ascii "job " ++ strOf shown id ++ ascii " poll returned HTTP " ++ intText code ++ ascii ": " ++
      repr shown body)

-- `str(body.get("error") or f"job {video_id} failed")`
def failedError (id : Value) (body : Dict) : JobError ε :=
  fail "generation_failed"
    (match (body.get (ascii "error")).filter truth with
    | some error => strOf shown error
    | none => ascii "job " ++ strOf shown id ++ ascii " failed")

def timeoutError (kind : String) (id : Value) : JobError ε :=
  fail "timeout"
    (ascii kind ++ ascii " job " ++ strOf shown id ++ ascii " exceeded " ++
      polling.seconds polling.overallTimeout ++ ascii "s")

-- The loop of `run_video_job`. The clock is read once before it, once for the deadline of
-- each round and once more for the progress of a pending one.
def videoPolls (id : Value) : ℕ → ℕ → K → Traced (Event K) (JobError ε) Unit
  | 0, _, _ => Traced.running
  | fuel + 1, round, reported => do
    if polling.overallTimeout < polling.now (2 * round + 1) - polling.now 0 then
      Traced.suppress (Traced.call (.delete (jobPath shown id)) (transport.delete.mapError .transport))
      Traced.raise (timeoutError shown polling "video" id)
    else
      let (code, body) ← Traced.call (.getJson (jobPath shown id))
        ((transport.getJson round).mapError .transport)
      if code ≠ 200 then Traced.raise (pollStatusError shown id code body)
      else
        match body with
        | .dict body =>
          let (state, serverFraction) ← Traced.ofExcept ((parseStatus shown body).mapError .python)
          if state = .failed then Traced.raise (failedError shown id body)
          else if state = .completed then Traced.ret ()
          else
            let reported := max reported (progressFraction serverFraction
              (polling.now (2 * round + 2) - polling.now 0) (expectedOf polling))
            safeReport report reported
            Traced.call (.sleep polling.pollInterval) (.ok ())
            videoPolls id fuel (round + 1) reported
        | _ => Traced.raise (.python .attributeError)

def runVideoJob (fuel : ℕ) (reference : Option FilePart) :
    Traced (Event K) (JobError ε) Bytes := do
  let form ← Traced.ofExcept ((buildVideoForm shown record reference).mapError .python)
  let submitted ← Traced.call (.postForm basePath form) (transport.postForm.mapError .transport)
  let id ← submittedId shown submitted
  safeReport report 0
  videoPolls shown transport report polling id fuel 0 0
  Traced.call (.getBytes (jobPath shown id ++ ascii "/content")) (transport.getBytes.mapError .transport)

-- The loop of `run_action_job`, which keeps the action of the reply that ends it.
def actionPolls (id : Value) : ℕ → ℕ → K → Traced (Event K) (JobError ε) (Option Value)
  | 0, _, _ => Traced.running
  | fuel + 1, round, reported => do
    if polling.overallTimeout < polling.now (2 * round + 1) - polling.now 0 then
      Traced.suppress (Traced.call (.delete (jobPath shown id)) (transport.delete.mapError .transport))
      Traced.raise (timeoutError shown polling "action" id)
    else
      let (code, body) ← Traced.call (.getJson (jobPath shown id))
        ((transport.getJson round).mapError .transport)
      if code ≠ 200 then Traced.raise (pollStatusError shown id code body)
      else
        match body with
        | .dict body =>
          let (state, serverFraction) ← Traced.ofExcept ((parseStatus shown body).mapError .python)
          if state = .failed then Traced.raise (failedError shown id body)
          else if state = .completed then Traced.ret (Dict.get body (ascii "action"))
          else
            let reported := max reported (progressFraction serverFraction
              (polling.now (2 * round + 2) - polling.now 0) (expectedOf polling))
            safeReport report reported
            Traced.call (.sleep polling.pollInterval) (.ok ())
            actionPolls id fuel (round + 1) reported
        | _ => Traced.raise (.python .attributeError)

-- The trajectory of an action payload.
def trajectoryOf (action : Dict) : Option (List Value) :=
  match Dict.get action (ascii "data") with
  | some (.list data) => some data
  | _ => none

-- A payload is usable when its trajectory is a list that is not empty.
def usableAction : Option Value → Option Dict
  | some (.dict action) => if (trajectoryOf action).any (· ≠ []) then some action else none
  | _ => none

def runActionJob (fuel : ℕ) (reference : FilePart) (wantVideo : Bool) :
    Traced (Event K) (JobError ε) (Dict × Option Bytes) := do
  let form ← Traced.ofExcept ((buildActionForm shown record reference).mapError .python)
  let submitted ← Traced.call (.postForm basePath form) (transport.postForm.mapError .transport)
  let id ← submittedId shown submitted
  safeReport report 0
  let action ← actionPolls shown transport report polling id fuel 0 0
  match usableAction action with
  | none => Traced.raise (fail "generation_failed"
      (ascii "action job " ++ strOf shown id ++ ascii " returned no usable action payload: " ++
        repr shown (action.getD .none)))
  | some action =>
    if wantVideo then
      let video ← Traced.call (.getBytes (jobPath shown id ++ ascii "/content"))
        (transport.getBytes.mapError .transport)
      Traced.ret (action, some video)
    else Traced.ret (action, none)

def runForwardDynamicsJob (reference : FilePart) : Traced (Event K) (JobError ε) Bytes := do
  safeReport report 0
  let form ← Traced.ofExcept ((buildFdForm shown record reference).mapError .python)
  Traced.call (.postFormBytes (basePath ++ ascii "/sync") form polling.overallTimeout)
    (transport.postFormBytes.mapError .transport)

-- `doc["data"][0]["b64_json"]`
def imageOf (doc : Value) : Option Value :=
  match getOf doc (ascii "data") with
  | .ok (some (.list (.dict first :: _))) => Dict.get first (ascii "b64_json")
  | _ => none

def runImageJob : Traced (Event K) (JobError ε) Bytes := do
  let body ← Traced.ofExcept ((buildImageBody shown record).mapError .python)
  let doc ← Traced.call (.postJson (ascii "/v1/images/generations") body polling.overallTimeout)
    (transport.postJson.mapError .transport)
  match imageOf doc with
  | none => Traced.raise (fail "generation_failed"
      (ascii "images response missing b64_json: " ++ repr shown doc))
  | some (.str b64) =>
    match Base64.b64decode b64 with
    | .ok raw => Traced.ret raw
    | .error error => Traced.raise (fail "generation_failed"
        (ascii "images response b64 undecodable: " ++ error.message))
  | some _ => Traced.raise (.python .typeError)

end Client

end Cosmos3.Worker
