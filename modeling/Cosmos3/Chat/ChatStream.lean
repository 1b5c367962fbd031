import Cosmos3.Basis.Json
import Cosmos3.Basis.Runs
import Cosmos3.Sse.Parse

namespace Cosmos3.Chat

open Basis Sse

inductive Role where
  | user
  | assistant
deriving DecidableEq

structure Turn where
  role : Role
  text : Text
deriving DecidableEq

-- The variables of a `send` that waits for its stream.
structure Sending where
  gotToken : Bool
  sawError : Bool
deriving DecidableEq

-- `streaming` is what the last render shows and `nextStreaming` what is set. `due` is the
-- text of an `updateAssistant` that waits for the next render, `frame` says that an
-- animation frame is asked for.
structure ChatStream where
  turns : List Turn
  streaming : Bool
  nextStreaming : Bool
  error : Option Text
  pending : Text
  frame : Bool
  due : Option Text
  sending : Option Sending
deriving DecidableEq

def ChatStream.new : ChatStream := ⟨[], false, false, none, [], false, none, none⟩

-- The submit of the form, what `createEventStream` calls, its return, the callback of the
-- animation frame, and a render. React computes an update when it is set or when it renders.
inductive Action where
  | send (input : Text)
  | event (ev : SseEvent)
  | drop
  | ended
  | frame
  | render (late : Bool)
deriving DecidableEq

section Texts

-- What `trim` removes.
def isSpace (u : UInt16) : Bool :=
  (9 ≤ u && u ≤ 13) || u = 0x20 || u = 0xA0 || u = 0x1680 || (0x2000 ≤ u && u ≤ 0x200A) || u = 0x2028 ||
    u = 0x2029 || u = 0x202F || u = 0x205F || u = 0x3000 || u = 0xFEFF

def trim (t : Text) : Text := ((t.dropWhile isSpace).reverse.dropWhile isSpace).reverse

variable (numbers : Json.NumberText)

-- A member of the data that is a string.
def textMember (key data : Text) : Option Text :=
  match (Json.parse numbers data).bind (Json.member · key) with
  | some (.string s) => some s
  | _ => none

end Texts

section Steps

variable (numbers : Json.NumberText) (s : ChatStream)

def updateAssistant (text : Text) (turns : List Turn) : List Turn :=
  match turns.getLast? with
  | some last => if last.role = .assistant then turns.dropLast ++ [⟨.assistant, text⟩] else turns
  | none => turns

-- The submit is an event of its own, and what it sets is rendered before the next one.
def send (input : Text) : Option ChatStream :=
  let prompt := trim input
  if prompt = [] ∨ s.streaming then none
  else some { s with
    turns := s.turns ++ [⟨.user, prompt⟩, ⟨.assistant, []⟩]
    streaming := true
    nextStreaming := true
    error := none
    pending := []
    sending := some ⟨false, false⟩ }

def onEvent (ev : SseEvent) (sending : Sending) : ChatStream :=
  if ev.event = ascii "token" then
    let s := { s with sending := some { sending with gotToken := true } }
    match textMember numbers (ascii "delta") ev.data with
    | some delta => { s with pending := s.pending ++ delta, frame := true }
    | none => s
  else if ev.event = ascii "error" then
    { s with
      sending := some { sending with sawError := true }
      error := some ((textMember numbers (ascii "message") ev.data).getD (ascii "Reasoning failed.")) }
  else s

def onError (sending : Sending) : ChatStream :=
  { s with sending := some { sending with gotToken := false }, pending := [], frame := false, due := some [] }

def interrupted : Text := ascii "Reasoning was interrupted before any response. Please try again."

-- The rest of `send`.
def finish (sending : Sending) : ChatStream :=
  { s with
    frame := false
    due := some s.pending
    nextStreaming := false
    sending := none
    error := if !sending.gotToken && !sending.sawError then some interrupted else s.error }

def flush : Option ChatStream :=
  if s.frame then some { s with frame := false, due := some s.pending } else none

def render (late : Bool) : ChatStream :=
  { s with
    turns := match s.due with
      | some text => updateAssistant (if late then s.pending else text) s.turns
      | none => s.turns
    due := none
    streaming := s.nextStreaming }

end Steps

def step (numbers : Json.NumberText) : ChatStream → Action → Option ChatStream
  | s, .send input => send s input
  | s, .event ev => s.sending.map (onEvent numbers s ev)
  | s, .drop => s.sending.map (onError s)
  | s, .ended => s.sending.map (finish s)
  | s, .frame => flush s
  | s, .render late => some (render s late)

end Cosmos3.Chat
