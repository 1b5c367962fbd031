import Cosmos3.Basis.Utf8
import Cosmos3.Sse.Parse

namespace Cosmos3.Sse

open Basis

-- Where `createEventStream` stands: before a `fetch` or in the sleep ahead of it,
-- at a `read` of the current response, or returned.
inductive ClientPc where
  | connecting
  | reading (state : SseState)
  | ended

-- `delivered` is the history of the events passed to `onEvent`.
structure Client where
  lastId : Option Text
  attempt : Nat
  decoder : TextDecoder
  pc : ClientPc
  delivered : List SseEvent

def createEventStream : Client := ⟨none, 0, .new, .connecting, []⟩

namespace Client

variable (client : Client)

-- The `Last-Event-ID` header of the next request.
def lastEventIdHeader : Option Text := client.lastId

def connected : Client := { client with attempt := 0, pc := .reading initialSseState }

-- The `catch` of the loop: another round, or the end once the retries are used up.
def failed (maxRetries : Nat) : Client :=
  { client with
    attempt := client.attempt + 1
    pc := if maxRetries < client.attempt + 1 then .ended else .connecting }

def deliver (event : SseEvent) : Client :=
  { client with
    lastId := match event.id with
      | some id => some id
      | none => client.lastId
    delivered := client.delivered ++ [event] }

def receive (state : SseState) (bytes : List UInt8) : Client :=
  let text := client.decoder.decode bytes
  let fed := feedSse state text.2
  fed.events.foldl deliver { client with decoder := text.1, pc := .reading fed.state }

def finished : Client := { client with pc := .ended }

end Client

section Delivery

theorem foldl_deliver (events : List SseEvent) (client : Client) :
    (events.foldl Client.deliver client).delivered = client.delivered ++ events ∧
      (events.foldl Client.deliver client).pc = client.pc ∧
      (events.foldl Client.deliver client).decoder = client.decoder := by
  induction events generalizing client with
  | nil => simp
  | cons event events ih =>
      obtain ⟨hdelivered, hpc, hdecoder⟩ := ih (client.deliver event)
      rw [List.foldl_cons, hdelivered, hpc, hdecoder]
      exact ⟨by simp [Client.deliver], rfl, rfl⟩

-- The id remembered is that of the last event delivered.
def Client.Remembers (client : Client) : Prop :=
  client.lastId = client.delivered.getLast?.bind (·.id)

theorem remembers_foldl {events : List SseEvent} (hid : ∀ event ∈ events, event.id ≠ none)
    {client : Client} (h : client.Remembers) : (events.foldl Client.deliver client).Remembers := by
  induction events generalizing client with
  | nil => exact h
  | cons event events ih =>
      rw [List.foldl_cons]
      refine ih (fun later hlater => hid later (List.mem_cons_of_mem event hlater)) ?_
      obtain ⟨id, hid⟩ := Option.ne_none_iff_exists'.mp (hid event List.mem_cons_self)
      simp [Client.Remembers, Client.deliver, hid]

end Delivery

end Cosmos3.Sse
