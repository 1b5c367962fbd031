import Cosmos3.Jobs.EventShape

namespace Cosmos3.Streams

open Basis Jobs

-- Where the generator of `stream_events` stands. It is suspended at a yield or a
-- sleep; `checking` is the way from an empty snapshot to the status check.
inductive GenPc where
  | created
  | yielding (event : JobEvent) (rest : List JobEvent)
  | checking
  | heartbeat
  | sleeping
  | ended
  | failed
  | closed

-- `yielded` is the history of the frames handed to the connection.
structure Gen where
  sent : Nat
  done : Bool
  pc : GenPc
  yielded : List JobEvent

def openStream (lastEventId : Option Nat) : Gen := ⟨lastEventId.getD 0, false, .created, []⟩

def isTerminalType (type : Text) : Bool :=
  type = JobStatus.succeeded.value || type = JobStatus.failed.value ||
    type = JobStatus.cancelled.value

variable (job : JobId) (store : JobStore) (gen : Gen)

def stops : Bool :=
  gen.done || match store.tryGet job with
    | none => true
    | some record => isTerminalType record.status.value

-- Stop, or send a heartbeat with the id of the last real event.
def statusCheck : Gen :=
  if stops job store gen then { gen with pc := .ended }
  else { gen with yielded := gen.yielded ++ [⟨gen.sent, heartbeatType, []⟩], pc := .heartbeat }

def yieldEvent (event : JobEvent) (rest : List JobEvent) : Gen :=
  { gen with
    sent := event.id, yielded := gen.yielded ++ [event], pc := .yielding event rest }

-- The start of a round of the `while` loop: a snapshot of the log.
def takeSnapshot : Gen :=
  match store.log job with
  | .error _ => { gen with pc := .failed }
  | .ok log =>
    match eventsSince log (some gen.sent) with
    | [] => { gen with pc := .checking }
    | event :: rest => yieldEvent gen event rest

-- After the yield of an event: note a terminal one, and on to the next event.
def afterEvent (event : JobEvent) (rest : List JobEvent) : Gen :=
  let gen := if isTerminalType event.type then { gen with done := true } else gen
  match rest with
  | [] => statusCheck job store gen
  | next :: rest => yieldEvent gen next rest

def resume : Option Gen :=
  match gen.pc with
  | .created | .sleeping => some (takeSnapshot job store gen)
  | .yielding event rest => some (afterEvent job store gen event rest)
  | .checking => some (statusCheck job store gen)
  | .heartbeat => some { gen with pc := .sleeping }
  | .ended | .failed | .closed => none

def disconnect : Option Gen :=
  match gen.pc with
  | .yielding _ _ | .heartbeat | .sleeping => some { gen with pc := .closed }
  | .created | .checking | .ended | .failed | .closed => none

structure State where
  runner : Jobs.State
  gen : Gen

inductive Action where
  | runner (action : Jobs.Action)
  | resume
  | disconnect

def GenPc.isChecking : GenPc → Bool
  | .checking => true
  | _ => false

-- One stream beside the runner: the event loop's thread runs one of the two at a
-- time, worker threads run at any time.
def step (fingerprint : Text → Python.Dict → Text) (job : JobId) (s : State) :
    Action → Option State
  | .runner (.loop action) =>
      if s.gen.pc.isChecking then none
      else (Jobs.step fingerprint s.runner (.loop action)).map fun runner =>
        { s with runner := runner }
  | .runner action =>
      (Jobs.step fingerprint s.runner action).map fun runner => { s with runner := runner }
  | .resume =>
      match s.runner.busy with
      | none => (Streams.resume job s.runner.store s.gen).map fun gen => { s with gen := gen }
      | some _ => none
  | .disconnect => (Streams.disconnect s.gen).map fun gen => { s with gen := gen }

end Cosmos3.Streams
