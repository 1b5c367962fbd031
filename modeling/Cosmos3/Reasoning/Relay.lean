import Cosmos3.Basis.Json
import Cosmos3.Basis.Runs

namespace Cosmos3.Reasoning

open Basis

inductive Kind where
  | token
  | error
  | heartbeat
  | done
deriving DecidableEq

def Kind.name : Kind → Text
  | .token => ascii "token"
  | .error => ascii "error"
  | .heartbeat => ascii "heartbeat"
  | .done => ascii "done"

section Chunks

variable (numbers : Json.NumberText)

def Kind.data (value : Text) : Kind → Text
  | .token => Json.dumps numbers (.object [(ascii "delta", .string value)])
  | .error => Json.dumps numbers (.object [(ascii "message", .string value)])
  | .heartbeat | .done => ascii "\x7b\x7d"

-- `_sse`
def sse (kind : Kind) (value : Text) : Text :=
  ascii "event: " ++ kind.name ++ lf :: (ascii "data: " ++ kind.data numbers value ++ [lf, lf])

end Chunks

-- What the upstream generator does: the deltas it yields, and the text of the
-- exception it then raises, if it does not just end.
structure Upstream where
  deltas : List Text
  raises : Option Text

-- What crosses the queue.
inductive Item where
  | delta (text : Text)
  | raised (message : Text)
  | sentinel

-- The executor's thread: at the next line of the upstream, at the check of the stop
-- flag with a delta in hand, and at its three calls of `call_soon_threadsafe`.
inductive PumpPc where
  | idle
  | reading (remaining : List Text)
  | checking (delta : Text) (remaining : List Text)
  | posting (delta : Text) (remaining : List Text)
  | failing (message : Text)
  | closing
  | finished

-- The task of `queue.get()`: not run yet, suspended on an empty queue, woken by a
-- put, or done.
inductive GetTask where
  | scheduled
  | suspended
  | woken
  | done (item : Item)

-- Where the generator stands: at the yield of a token or a heartbeat, in
-- `asyncio.wait`, at the yield of the error, at the yield of the end.
inductive RelayPc where
  | created
  | yielded
  | waiting
  | failed
  | closed
  | returned

-- `callbacks` are the puts the event loop has not run yet, `chunks` what the consumer
-- has seen.
structure Relay where
  pump : PumpPc
  stop : Bool
  callbacks : List Item
  queue : List Item
  getTask : Option GetTask
  pc : RelayPc
  chunks : List Text

def Relay.initial : Relay := ⟨.idle, false, [], [], none, .created, []⟩

inductive Action where
  | pump
  | callback
  | get
  | resume
  | pull

section Steps

variable (numbers : Json.NumberText) (upstream : Upstream) (s : Relay)

def pump : Option Relay :=
  match s.pump with
  | .idle | .finished => none
  | .reading [] =>
      match upstream.raises with
      | some message => some { s with pump := .failing message }
      | none => some { s with pump := .closing }
  | .reading (delta :: remaining) => some { s with pump := .checking delta remaining }
  | .checking delta remaining =>
      if s.stop then some { s with pump := .closing }
      else some { s with pump := .posting delta remaining }
  | .posting delta remaining =>
      some { s with pump := .reading remaining, callbacks := s.callbacks ++ [.delta delta] }
  | .failing message =>
      some { s with pump := .closing, callbacks := s.callbacks ++ [.raised message] }
  | .closing => some { s with pump := .finished, callbacks := s.callbacks ++ [.sentinel] }

-- `put_nowait`, which wakes a getter that waits.
def callback : Option Relay :=
  match s.callbacks with
  | [] => none
  | item :: callbacks =>
    some { s with
      callbacks := callbacks
      queue := s.queue ++ [item]
      getTask := match s.getTask with
        | some .suspended => some .woken
        | getTask => getTask }

def get : Option Relay :=
  match s.getTask with
  | some .scheduled | some .woken =>
    match s.queue with
    | [] => some { s with getTask := some .suspended }
    | item :: queue => some { s with queue := queue, getTask := some (.done item) }
  | _ => none

-- `asyncio.wait` returns, for a get that is done or because its time is over.
def resume : Option Relay :=
  match s.pc, s.getTask with
  | .waiting, some (.done item) =>
      let s := { s with getTask := none }
      match item with
      | .sentinel => some { s with pc := .closed, chunks := s.chunks ++ [sse numbers .done []] }
      | .raised message =>
          some { s with pc := .failed, chunks := s.chunks ++ [sse numbers .error message] }
      | .delta text =>
          some { s with pc := .yielded, chunks := s.chunks ++ [sse numbers .token text] }
  | .waiting, some _ =>
      some { s with pc := .yielded, chunks := s.chunks ++ [sse numbers .heartbeat []] }
  | _, _ => none

-- The consumer asks for the next chunk.
def pull : Option Relay :=
  match s.pc with
  | .created =>
      some { s with pump := .reading upstream.deltas, getTask := some .scheduled, pc := .waiting }
  | .yielded => some { s with getTask := some (s.getTask.getD .scheduled), pc := .waiting }
  | .failed => some { s with pc := .closed, chunks := s.chunks ++ [sse numbers .done []] }
  | .closed => some { s with stop := true, getTask := none, pc := .returned }
  | .waiting | .returned => none

-- The executor's thread runs beside the event loop, whose tasks take turns.
def step : Action → Option Relay
  | .pump => pump upstream s
  | .callback => callback s
  | .get => get s
  | .resume => resume numbers s
  | .pull => pull numbers upstream s

end Steps

end Cosmos3.Reasoning
