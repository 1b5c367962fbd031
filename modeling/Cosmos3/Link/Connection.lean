import Cosmos3.Sse.Client
import Cosmos3.Sse.RoundTrip
import Cosmos3.Streams.Generator

namespace Cosmos3.Link

open Basis Jobs Sse Streams

-- `str.isdigit` of a header's Latin-1 text: superscripts are digits for it.
def isDigit (u : UInt16) : Bool := isDecimalDigit u || u = 0xB2 || u = 0xB3 || u = 0xB9

def maxStrDigits : Nat := 4300

-- `int` of a text of digits, which raises on a superscript and on too many digits.
def intOf (raw : Text) : Option Nat :=
  if raw.all isDecimalDigit ∧ raw.length ≤ maxStrDigits then some (ofDecimal raw) else none

-- `last_event_id` of a request, unless the conversion raises.
def lastEventIdOf (raw : Option Text) : Option (Option Nat) :=
  match raw with
  | none => some none
  | some raw => if raw ≠ [] ∧ raw.all isDigit then (intOf raw).map some else some none

-- A response that streams: its generator, and how many bytes the client has read.
structure Connection where
  gen : Gen
  read : Nat

-- One client of one job's events. A connection that is lost is forgotten: its
-- generator may still run for a while, but it only reads the store.
structure State where
  runner : Jobs.State
  connection : Option Connection
  client : Client

inductive Action where
  | runner (action : Jobs.Action)
  | connect
  | connectFails
  | resume
  | receive (count : Nat)
  | drop
  | done
  | abort

variable (numbers : Json.NumberText)

def Connection.text (connection : Connection) : Text := connection.gen.yielded.flatMap (sse numbers)

section Steps

variable (fingerprint : Text → Python.Dict → Text) (job : JobId) (maxRetries : Nat) (s : State)

-- The route: 404 for an unknown job, 500 for a header that raises.
def connect : State :=
  match s.runner.store.tryGet job, lastEventIdOf s.client.lastEventIdHeader with
  | some _, some lastEventId =>
      { s with connection := some ⟨openStream lastEventId, 0⟩, client := s.client.connected }
  | _, _ => { s with connection := none, client := s.client.failed maxRetries }

def receive (connection : Connection) (state : SseState) (count : Nat) : State :=
  let chunk := (connection.text numbers).drop connection.read |>.take count
  { s with
    connection := some { connection with read := connection.read + chunk.length }
    client := s.client.receive state (asciiBytes chunk) }

def step : Action → Option State
  | .runner action =>
      match s.connection with
      | none =>
          (Jobs.step fingerprint s.runner action).map fun runner => { s with runner := runner }
      | some connection =>
          (Streams.step fingerprint job ⟨s.runner, connection.gen⟩ (.runner action)).map
            fun stream => { s with runner := stream.runner }
  | .connect =>
      match s.client.pc with
      | .connecting => some (connect job maxRetries s)
      | _ => none
  | .connectFails =>
      match s.client.pc with
      | .connecting => some { s with connection := none, client := s.client.failed maxRetries }
      | _ => none
  | .resume =>
      match s.connection with
      | some connection =>
          (Streams.step fingerprint job ⟨s.runner, connection.gen⟩ .resume).map fun stream =>
            { s with connection := some { connection with gen := stream.gen } }
      | none => none
  | .receive count =>
      match s.client.pc, s.connection with
      | .reading state, some connection => some (receive numbers s connection state count)
      | _, _ => none
  | .drop =>
      match s.client.pc with
      | .reading _ => some { s with connection := none, client := s.client.failed maxRetries }
      | _ => none
  | .done =>
      match s.client.pc, s.connection with
      | .reading _, some connection =>
          match connection.gen.pc with
          | .ended =>
              if connection.read = (connection.text numbers).length then
                some { s with connection := none, client := s.client.finished }
              else none
          | _ => none
      | _, _ => none
  | .abort => some { s with connection := none, client := s.client.finished }

end Steps

def initial : State := ⟨Jobs.initial, none, createEventStream⟩

end Cosmos3.Link
