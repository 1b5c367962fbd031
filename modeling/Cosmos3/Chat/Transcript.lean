import Cosmos3.Chat.ChatStream
import Cosmos3.Reasoning.Frames

namespace Cosmos3.Chat

open Basis Sse

section Specification

variable (numbers : Json.NumberText)

-- A prompt, the tokens heard since the last drop, and whether an error was heard.
structure Exchange where
  prompt : Text
  tokens : List SseEvent
  failed : Bool

namespace Exchange

def deltas (e : Exchange) : List Text :=
  e.tokens.filterMap fun ev => textMember numbers (ascii "delta") ev.data

def reply (e : Exchange) : Text := (e.deltas numbers).flatten

def turns (e : Exchange) : List Turn := [⟨.user, e.prompt⟩, ⟨.assistant, e.reply numbers⟩]

def hear (e : Exchange) : Action → Exchange
  | .event ev =>
    if ev.event = ascii "token" then { e with tokens := e.tokens ++ [ev] }
    else if ev.event = ascii "error" then { e with failed := true }
    else e
  | .drop => { e with tokens := [] }
  | _ => e

end Exchange

-- What was said, the latest exchange first.
def follow : List Exchange → Action → List Exchange
  | past, .send input => ⟨trim input, [], false⟩ :: past
  | e :: past, action => e.hear action :: past
  | [], _ => []

def exchanges (actions : List Action) : List Exchange := actions.foldl follow []

def transcript (said : List Exchange) : List Turn := said.reverse.flatMap (Exchange.turns numbers)

end Specification

section Run

variable {numbers : Json.NumberText} {s s' : ChatStream}

-- The last turn shows what is pending, or a frame or an update will make it so.
structure Current (numbers : Json.NumberText) (e : Exchange) (past : List Exchange) (s : ChatStream) : Prop where
  turns : ∃ shown, s.turns = transcript numbers past ++ [⟨.user, e.prompt⟩, ⟨.assistant, shown⟩] ∧
    (s.frame = false → s.due.getD shown = s.pending)
  pending : s.pending = e.reply numbers
  sending : ∀ l, s.sending = some l →
    l.gotToken = !e.tokens.isEmpty ∧ l.sawError = e.failed ∧ s.error.isSome = e.failed
  ended : s.sending = none → s.error.isNone = (!e.tokens.isEmpty && !e.failed)

-- While the stream of the exchange is open.
theorem Current.of_sending {e : Exchange} {past : List Exchange} {l : Sending} {shown : Text}
    (hl : s.sending = some l)
    (hturns : s.turns = transcript numbers past ++ [⟨.user, e.prompt⟩, ⟨.assistant, shown⟩])
    (hshown : s.frame = false → s.due.getD shown = s.pending) (hpending : s.pending = e.reply numbers)
    (hgot : l.gotToken = !e.tokens.isEmpty) (hsaw : l.sawError = e.failed)
    (herror : s.error.isSome = e.failed) : Current numbers e past s where
  turns := ⟨shown, hturns, hshown⟩
  pending := hpending
  sending l' hl' := by
    obtain rfl : l = l' := Option.some.inj (hl.symm.trans hl')
    exact ⟨hgot, hsaw, herror⟩
  ended hnone := by
    rw [hl] at hnone
    cases hnone

structure Follows (numbers : Json.NumberText) (s : ChatStream) (said : List Exchange) : Prop where
  streaming : s.nextStreaming = s.sending.isSome
  shown : s.streaming = false → s.due = none ∧ s.sending = none
  frame : s.sending = none → s.frame = false
  empty : said = [] → s.turns = [] ∧ s.due = none ∧ s.sending = none
  current : ∀ e past, said = e :: past → Current numbers e past s

theorem transcript_cons (e : Exchange) (past : List Exchange) :
    transcript numbers (e :: past) = transcript numbers past ++ e.turns numbers := by
  rw [transcript, transcript, List.reverse_cons, List.flatMap_append]
  simp

theorem updateAssistant_append (turns : List Turn) (user shown text : Text) :
    updateAssistant text (turns ++ [⟨.user, user⟩, ⟨.assistant, shown⟩]) =
      turns ++ [⟨.user, user⟩, ⟨.assistant, text⟩] := by
  have hsplit : turns ++ [(⟨.user, user⟩ : Turn), ⟨.assistant, shown⟩] =
      (turns ++ [⟨.user, user⟩]) ++ [⟨.assistant, shown⟩] := by simp
  rw [hsplit, updateAssistant, List.getLast?_concat]
  simp

-- Once nothing is left to render the last turn is the reply in full.
theorem Follows.settled {said : List Exchange} (h : Follows numbers s said) (hsending : s.sending = none)
    (hdue : s.due = none) : s.turns = transcript numbers said := by
  cases said with
  | nil => exact (h.empty rfl).1
  | cons e past =>
      obtain ⟨⟨shown, hturns, hshown⟩, hpending, -, -⟩ := h.current e past rfl
      have htext := hshown (h.frame hsending)
      rw [hdue, Option.getD_none, hpending] at htext
      rw [hturns, transcript_cons, Exchange.turns, htext]

theorem follows_new : Follows numbers .new [] :=
  ⟨rfl, fun _ => ⟨rfl, rfl⟩, fun _ => rfl, fun _ => ⟨rfl, rfl, rfl⟩, nofun⟩

variable {said : List Exchange}

theorem Follows.send (h : Follows numbers s said) {input : Text} (hs : send s input = some s') :
    Follows numbers s' (⟨trim input, [], false⟩ :: said) := by
  simp only [Chat.send] at hs
  split_ifs at hs with hrefused
  cases hs
  obtain ⟨hdue, hsending⟩ := h.shown (by simpa using (not_or.mp hrefused).2)
  refine ⟨rfl, nofun, nofun, nofun, fun e past heq => ?_⟩
  obtain ⟨rfl, rfl⟩ := List.cons.inj heq
  have hturns := h.settled hsending hdue
  refine .of_sending rfl (by rw [← hturns]) (fun _ => ?_) rfl rfl rfl rfl
  rw [hdue]
  rfl

-- What a stream brings is for the exchange that is under way.
theorem Follows.underWay (h : Follows numbers s said) {l : Sending} (hl : s.sending = some l) :
    ∃ e past, said = e :: past ∧ Current numbers e past s := by
  cases said with
  | nil =>
      have hnone := (h.empty rfl).2.2
      rw [hl] at hnone
      cases hnone
  | cons e past => exact ⟨e, past, rfl, h.current e past rfl⟩

theorem Follows.streams (h : Follows numbers s said) {l : Sending} (hl : s.sending = some l) :
    s.nextStreaming = true ∧ s.streaming = true := by
  refine ⟨by rw [h.streaming, hl]; rfl, ?_⟩
  cases hstreaming : s.streaming with
  | true => rfl
  | false =>
      have hnone := (h.shown hstreaming).2
      rw [hl] at hnone
      cases hnone

-- A step that keeps the stream open: what is left to show is for the current exchange.
theorem Follows.hears (h : Follows numbers s said) {l l' : Sending} (hl : s.sending = some l)
    {e : Exchange} {past : List Exchange} (hcurrent : Current numbers e past s')
    (hl' : s'.sending = some l') (hnext : s'.nextStreaming = s.nextStreaming)
    (hstreaming : s'.streaming = s.streaming) : Follows numbers s' (e :: past) := by
  obtain ⟨hset, hshown⟩ := h.streams hl
  refine ⟨by rw [hnext, hset, hl']; rfl, fun hfalse => ?_, fun hnone => ?_, nofun,
    fun e' past' heq => ?_⟩
  · rw [hstreaming, hshown] at hfalse
    cases hfalse
  · rw [hl'] at hnone
    cases hnone
  · obtain ⟨rfl, rfl⟩ := List.cons.inj heq
    exact hcurrent

theorem Follows.event (h : Follows numbers s said) {ev : SseEvent} {l : Sending} (hl : s.sending = some l) :
    Follows numbers (onEvent numbers s ev l) (follow said (.event ev)) := by
  obtain ⟨e, past, rfl, hcurrent⟩ := h.underWay hl
  obtain ⟨⟨shown, hturns, hshown⟩, hpending, hsending, -⟩ := hcurrent
  obtain ⟨hgot, hsaw, herror⟩ := hsending l hl
  show Follows numbers _ (e.hear (.event ev) :: past)
  rw [Exchange.hear, onEvent]
  by_cases htoken : ev.event = ascii "token"
  · rw [if_pos htoken, if_pos htoken]
    dsimp only
    have hempty : (e.tokens ++ [ev]).isEmpty = false := by simp
    cases hdelta : textMember numbers (ascii "delta") ev.data with
    | some delta =>
        have hreply : ({ e with tokens := e.tokens ++ [ev] } : Exchange).reply numbers = e.reply numbers ++ delta := by
          simp [Exchange.reply, Exchange.deltas, List.filterMap_append, hdelta]
        have hcurrent : Current numbers { e with tokens := e.tokens ++ [ev] } past { s with
            sending := some { l with gotToken := true }, pending := s.pending ++ delta, frame := true } := by
          refine .of_sending rfl hturns nofun ?_ ?_ hsaw herror
          · rw [hreply, ← hpending]
          · rw [hempty]
            rfl
        exact h.hears hl hcurrent rfl rfl rfl
    | none =>
        have hreply : ({ e with tokens := e.tokens ++ [ev] } : Exchange).reply numbers = e.reply numbers := by
          simp [Exchange.reply, Exchange.deltas, List.filterMap_append, hdelta]
        have hcurrent : Current numbers { e with tokens := e.tokens ++ [ev] } past
            { s with sending := some { l with gotToken := true } } := by
          refine .of_sending rfl hturns hshown ?_ ?_ hsaw herror
          · rw [hreply, ← hpending]
          · rw [hempty]
            rfl
        exact h.hears hl hcurrent rfl rfl rfl
  · rw [if_neg htoken, if_neg htoken]
    by_cases hfailed : ev.event = ascii "error"
    · rw [if_pos hfailed, if_pos hfailed]
      have hcurrent : Current numbers { e with failed := true } past { s with
          sending := some { l with sawError := true }
          error := some ((textMember numbers (ascii "message") ev.data).getD (ascii "Reasoning failed.")) } :=
        .of_sending rfl hturns hshown hpending hgot rfl rfl
      exact h.hears hl hcurrent rfl rfl rfl
    · rw [if_neg hfailed, if_neg hfailed]
      exact h

theorem Follows.drop (h : Follows numbers s said) {l : Sending} (hl : s.sending = some l) :
    Follows numbers (onError s l) (follow said .drop) := by
  obtain ⟨e, past, rfl, hcurrent⟩ := h.underWay hl
  obtain ⟨⟨shown, hturns, -⟩, -, hsending, -⟩ := hcurrent
  obtain ⟨-, hsaw, herror⟩ := hsending l hl
  have hcurrent : Current numbers { e with tokens := [] } past (onError s l) :=
    .of_sending rfl hturns (fun _ => rfl) rfl rfl hsaw herror
  exact h.hears hl hcurrent rfl rfl rfl

-- The last flush is set before the stream is over.
theorem Follows.ended (h : Follows numbers s said) {l : Sending} (hl : s.sending = some l) :
    Follows numbers (finish s l) (follow said .ended) := by
  obtain ⟨e, past, rfl, hcurrent⟩ := h.underWay hl
  obtain ⟨⟨shown, hturns, -⟩, hpending, hsending, -⟩ := hcurrent
  obtain ⟨hgot, hsaw, herror⟩ := hsending l hl
  refine ⟨rfl, fun hfalse => ?_, fun _ => rfl, nofun, fun e' past' heq => ?_⟩
  · exact absurd (hfalse.symm.trans (h.streams hl).2) (by decide)
  · obtain ⟨rfl, rfl⟩ := List.cons.inj heq
    refine ⟨⟨shown, hturns, fun _ => rfl⟩, hpending, nofun, fun _ => ?_⟩
    have hisNone : s.error.isNone = !e.failed := by rw [← herror, Option.not_isSome]
    simp only [finish, hgot, hsaw]
    cases hempty : e.tokens.isEmpty with
    | true => cases hfailed : e.failed <;> simp_all [Exchange.hear]
    | false => simp_all [Exchange.hear]

theorem Follows.frameCallback (h : Follows numbers s said) (hs : flush s = some s') :
    Follows numbers s' (follow said .frame) := by
  unfold flush at hs
  split_ifs at hs with hframe
  cases hs
  obtain hnone | ⟨l, hsending⟩ := Option.eq_none_or_eq_some s.sending
  · rw [h.frame hnone] at hframe
    cases hframe
  · obtain ⟨e, past, rfl, ⟨⟨shown, hturns, -⟩, hpending, hcurrent, -⟩⟩ := h.underWay hsending
    obtain ⟨hgot, hsaw, herror⟩ := hcurrent l hsending
    have hshows : Current numbers e past { s with frame := false, due := some s.pending } :=
      .of_sending hsending hturns (fun _ => rfl) hpending hgot hsaw herror
    exact h.hears hsending hshows hsending rfl rfl

theorem Follows.render (h : Follows numbers s said) (late : Bool) :
    Follows numbers (render s late) (follow said (.render late)) := by
  cases said with
  | nil =>
      obtain ⟨hturns, hdue, hsending⟩ := h.empty rfl
      refine ⟨h.streaming, fun _ => ⟨rfl, hsending⟩, h.frame, fun _ => ⟨?_, rfl, hsending⟩, nofun⟩
      simp only [Chat.render, hdue, hturns]
  | cons e past =>
      obtain ⟨⟨shown, hturns, hshown⟩, hpending, hsending, hended⟩ := h.current e past rfl
      refine ⟨h.streaming, fun hfalse => ⟨rfl, ?_⟩, h.frame, nofun, fun e' past' heq => ?_⟩
      · have hnone : s.sending.isSome = false := h.streaming ▸ hfalse
        exact Option.isSome_eq_false_iff.mp hnone |> Option.isNone_iff_eq_none.mp
      · obtain ⟨rfl, rfl⟩ : e = e' ∧ past = past' := List.cons.inj heq
        refine ⟨?_, hpending, hsending, hended⟩
        cases hdue : s.due with
        | none =>
            refine ⟨shown, by simp only [Chat.render, hdue, hturns], fun hframe => ?_⟩
            have htext := hshown hframe
            rwa [hdue] at htext
        | some text =>
            refine ⟨if late then s.pending else text, ?_, fun hframe => ?_⟩
            · simp only [Chat.render, hdue, hturns, updateAssistant_append]
            · have htext := hshown hframe
              rw [hdue, Option.getD_some] at htext
              show (if late then s.pending else text) = s.pending
              rw [htext, ite_self]

theorem Follows.step (h : Follows numbers s said) {action : Action} (hs : step numbers s action = some s') :
    Follows numbers s' (follow said action) := by
  cases action with
  | send input => exact h.send hs
  | event ev =>
      obtain ⟨l, hl, rfl⟩ := Option.map_eq_some_iff.mp hs
      exact h.event hl
  | drop =>
      obtain ⟨l, hl, rfl⟩ := Option.map_eq_some_iff.mp hs
      exact h.drop hl
  | ended =>
      obtain ⟨l, hl, rfl⟩ := Option.map_eq_some_iff.mp hs
      exact h.ended hl
  | frame => exact h.frameCallback hs
  | render late =>
      obtain rfl := Option.some.inj hs
      exact h.render late

theorem follows_run {actions : List Action} (hrun : run (step numbers) .new actions = some s) :
    Follows numbers s (exchanges actions) :=
  run_foldl hrun follows_new fun _ _ _ _ h hs => h.step hs

theorem Follows.banner (h : Follows numbers s said) (hsending : s.sending = none) {e : Exchange}
    (he : said.head? = some e) : s.error = none ↔ e.tokens ≠ [] ∧ e.failed = false := by
  cases said with
  | nil => cases he
  | cons e' past =>
      obtain rfl := Option.some.inj he
      rw [← Option.isNone_iff_eq_none, (h.current e' past rfl).ended hsending]
      simp

-- The transcript when no stream is open and nothing waits for a render, and the banner
-- above it.
theorem transcript_settled {actions : List Action} (hrun : run (step numbers) .new actions = some s)
    (hsending : s.sending = none) (hdue : s.due = none) :
    s.turns = transcript numbers (exchanges actions) ∧
      ∀ e, (exchanges actions).head? = some e → (s.error = none ↔ e.tokens ≠ [] ∧ e.failed = false) :=
  ⟨(follows_run hrun).settled hsending hdue, fun _ he => (follows_run hrun).banner hsending he⟩

end Run

-- A reply that begins again after a drop, rendered while it comes.
def tokenEvent (delta : Text) : SseEvent :=
  Reasoning.parsed Sse.sampleNumbers .token delta

def sampleChat : List Action :=
  [.send (ascii " Hi "), .event (tokenEvent (ascii "He")), .frame, .render false, .drop, .render true,
    .event (tokenEvent (ascii "Hel")), .event (tokenEvent (ascii "lo")), .frame, .ended, .render false]

theorem transcript_settled_sampleChat : ∃ s,
    run (step Sse.sampleNumbers) .new sampleChat = some s ∧
      s.turns = transcript Sse.sampleNumbers (exchanges sampleChat) ∧
      ∀ e, (exchanges sampleChat).head? = some e → (s.error = none ↔ e.tokens ≠ [] ∧ e.failed = false) := by
  obtain ⟨s, hs, hsending, hdue⟩ : ∃ s, run (step Sse.sampleNumbers) .new sampleChat = some s ∧
      s.sending = none ∧ s.due = none := ⟨_, rfl, rfl, rfl⟩
  exact ⟨s, hs, transcript_settled hs hsending hdue⟩

end Cosmos3.Chat
