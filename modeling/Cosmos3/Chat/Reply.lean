import Cosmos3.Chat.Transcript
import Cosmos3.Sse.Chunks

namespace Cosmos3.Chat

open Basis Sse

-- The events since the last drop.
def hearing (events : List SseEvent) : Action → List SseEvent
  | .event ev => events ++ [ev]
  | .drop => []
  | _ => events

def heard (actions : List Action) : List SseEvent := actions.foldl hearing []

def isError : Action → Bool
  | .event ev => ev.event = ascii "error"
  | _ => false

def isSend : Action → Bool
  | .send _ => true
  | _ => false

section Heard

def isToken (ev : SseEvent) : Bool := ev.event = ascii "token"

-- Until the next prompt only the latest exchange changes.
theorem foldl_follow {actions : List Action} (h : ∀ a ∈ actions, isSend a = false) (e : Exchange)
    (past : List Exchange) : actions.foldl follow (e :: past) = actions.foldl Exchange.hear e :: past := by
  induction actions generalizing e with
  | nil => rfl
  | cons action actions ih =>
      have hfollow : follow (e :: past) action = e.hear action :: past := by
        cases action with
        | send input => exact absurd (h _ List.mem_cons_self) (by simp [isSend])
        | _ => rfl
      rw [List.foldl_cons, hfollow, ih fun a ha => h a (List.mem_cons_of_mem _ ha)]
      rfl

theorem hear_prompt (e : Exchange) (action : Action) : (e.hear action).prompt = e.prompt := by
  cases action with
  | event ev =>
      simp only [Exchange.hear]
      split_ifs <;> rfl
  | _ => rfl

theorem hear_tokens {e : Exchange} {events : List SseEvent} (h : e.tokens = events.filter isToken)
    (action : Action) : (e.hear action).tokens = (hearing events action).filter isToken := by
  cases action with
  | event ev =>
      by_cases htoken : ev.event = ascii "token"
      · simp [Exchange.hear, hearing, htoken, h, isToken]
      · have htokens : (e.hear (.event ev)).tokens = e.tokens := by
          simp only [Exchange.hear, if_neg htoken]
          split_ifs <;> rfl
        simp [htokens, hearing, htoken, h, isToken]
  | drop => rfl
  | _ => exact h

theorem hear_failed (e : Exchange) (action : Action) : (e.hear action).failed = (e.failed || isError action) := by
  cases action with
  | event ev =>
      by_cases htoken : ev.event = ascii "token"
      · have hne : ev.event ≠ ascii "error" := by
          rw [htoken]
          decide
        simp [Exchange.hear, htoken, isError, show ascii "token" ≠ ascii "error" by decide]
      · by_cases herror : ev.event = ascii "error"
        · rw [Exchange.hear, if_neg htoken, if_pos herror, isError, decide_eq_true herror, Bool.or_true]
        · simp [Exchange.hear, htoken, herror, isError]
  | _ => simp [Exchange.hear, isError]

theorem foldl_hear {e : Exchange} {events : List SseEvent} (h : e.tokens = events.filter isToken)
    (actions : List Action) : (actions.foldl Exchange.hear e).prompt = e.prompt ∧
      (actions.foldl Exchange.hear e).tokens = (actions.foldl hearing events).filter isToken ∧
      (actions.foldl Exchange.hear e).failed = (e.failed || actions.any isError) := by
  induction actions generalizing e events with
  | nil => exact ⟨rfl, h, by simp⟩
  | cons action actions ih =>
      obtain ⟨hprompt, htokens, hfailed⟩ := ih (hear_tokens h action)
      refine ⟨hprompt.trans (hear_prompt e action), htokens, ?_⟩
      rw [List.foldl_cons, hfailed, hear_failed, List.any_cons, Bool.or_assoc]

-- What an exchange has become when no other has begun.
theorem exchanges_send (before : List Action) (input : Text) {later : List Action}
    (h : ∀ a ∈ later, isSend a = false) :
    exchanges (before ++ .send input :: later) =
      ⟨trim input, (heard later).filter isToken, later.any isError⟩ :: exchanges before := by
  have hstart : (⟨trim input, [], false⟩ : Exchange).tokens = List.filter isToken [] := rfl
  obtain ⟨hprompt, htokens, hfailed⟩ := foldl_hear hstart later
  rw [exchanges, List.foldl_append, List.foldl_cons]
  show later.foldl follow (⟨trim input, [], false⟩ :: exchanges before) = _
  rw [foldl_follow h]
  congr 1
  generalize later.foldl Exchange.hear ⟨trim input, [], false⟩ = e at *
  obtain ⟨prompt, tokens, failed⟩ := e
  obtain rfl : prompt = trim input := hprompt
  obtain rfl : tokens = (heard later).filter isToken := htokens
  obtain rfl : failed = later.any isError := hfailed
  rfl

end Heard

section Relay

variable {numbers : Json.NumberText}

theorem textMember_token (delta : Text) :
    textMember numbers (ascii "delta") (Reasoning.Kind.token.data numbers delta) = some delta := by
  have hread : Json.parse numbers (Reasoning.Kind.token.data numbers delta) =
      some (.object [(ascii "delta", .string delta)]) := Json.parse_dumps ⟨trivial, trivial⟩
  rw [textMember, hread]
  simp [Json.member]

-- The deltas of what the reader hears of a relay.
theorem deltas_of_data {events : List SseEvent} {deltas : List Text}
    (h : (events.filter isToken).map (·.data) = deltas.map (Reasoning.Kind.token.data numbers)) :
    (events.filter isToken).filterMap (fun ev => textMember numbers (ascii "delta") ev.data) = deltas := by
  have hmap := congrArg (List.filterMap (textMember numbers (ascii "delta"))) h
  rw [List.filterMap_map, List.filterMap_map] at hmap
  refine hmap.trans ?_
  simp [textMember_token]

variable {upstream : Reasoning.Upstream} {relay : Reasoning.Relay} {s : ChatStream}

-- From the generator upstream to what the page shows, however the stream was cut, whatever
-- was heard before a drop, and whenever the page was rendered.
theorem chat_shows_relay (hrelay : Reachable (Reasoning.step numbers upstream) .initial relay)
    (hreturned : relay.pc = .returned) {cuts : List Text} (hcuts : cuts.flatten = relay.chunks.flatten)
    {before later : List Action} {input : Text}
    (hrun : run (step numbers) .new (before ++ .send input :: later) = some s)
    (hone : ∀ a ∈ later, isSend a = false) (hheard : heard later = (feedAll initialSseState cuts).events)
    (hsending : s.sending = none) (hdue : s.due = none) :
    s.turns = transcript numbers (exchanges before) ++
        [⟨.user, trim input⟩, ⟨.assistant, upstream.deltas.flatten⟩] ∧
      (s.error = none ↔ upstream.deltas ≠ [] ∧ ∀ a ∈ later, isError a = false) := by
  have hread := Reasoning.relay_read hrelay hreturned cuts hcuts
  rw [← hheard] at hread
  have h := follows_run hrun
  rw [exchanges_send before input hone] at h
  refine ⟨?_, ?_⟩
  · rw [h.settled hsending hdue, transcript_cons, Exchange.turns, Exchange.reply, Exchange.deltas,
      deltas_of_data hread]
  · have hempty : (heard later).filter isToken = [] ↔ upstream.deltas = [] := by
      rw [← List.map_eq_nil_iff (f := (·.data)), ← List.map_eq_nil_iff (l := upstream.deltas)]
      exact Eq.congr_left hread
    rw [h.banner hsending rfl]
    simp [hempty]

end Relay

section Sample

def sampleItems : List (Reasoning.Kind × Text) :=
  [(.token, ascii "Hi"), (.heartbeat, []), (.error, ascii "gone"), (.done, [])]

-- A token is heard, the connection drops, and then the stream comes in full.
def sampleLater : List Action :=
  [.event (tokenEvent (ascii "H")), .frame, .render true, .drop] ++
    (sampleItems.map fun c => Action.event (Reasoning.parsed Sse.sampleNumbers c.1 c.2)) ++ [.ended, .render false]

theorem chat_shows_relay_sampleLater : ∃ relay s,
    run (Reasoning.step Sse.sampleNumbers Reasoning.sampleUpstream) .initial Reasoning.sampleRelay = some relay ∧
      run (step Sse.sampleNumbers) .new ([] ++ .send (ascii "Say hi") :: sampleLater) = some s ∧
      s.turns = transcript Sse.sampleNumbers (exchanges []) ++ [⟨.user, trim (ascii "Say hi")⟩,
        ⟨.assistant, Reasoning.sampleUpstream.deltas.flatten⟩] ∧
      (s.error = none ↔ Reasoning.sampleUpstream.deltas ≠ [] ∧ ∀ a ∈ sampleLater, isError a = false) := by
  obtain ⟨relay, hrelay, hreturned, hchunks⟩ : ∃ relay,
      run (Reasoning.step Sse.sampleNumbers Reasoning.sampleUpstream) .initial Reasoning.sampleRelay = some relay ∧
        relay.pc = .returned ∧
        relay.chunks = sampleItems.map fun c => Reasoning.sse Sse.sampleNumbers c.1 c.2 := ⟨_, rfl, rfl, rfl⟩
  obtain ⟨s, hs, hsending, hdue⟩ : ∃ s,
      run (step Sse.sampleNumbers) .new ([] ++ .send (ascii "Say hi") :: sampleLater) = some s ∧
        s.sending = none ∧ s.due = none := ⟨_, rfl, rfl, rfl⟩
  have hheard : heard sampleLater = (feedAll initialSseState relay.chunks).events := by
    rw [Reasoning.feedAll_chunks sampleItems relay.chunks (by rw [hchunks, List.flatMap_def])]
    rfl
  exact ⟨relay, s, hrelay, hs, chat_shows_relay (Reachable.of_run hrelay) hreturned rfl hs (by decide) hheard
    hsending hdue⟩

end Sample

end Cosmos3.Chat
