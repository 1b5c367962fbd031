import Cosmos3.Basis.Traced
import Cosmos3.Sse.Client
import Mathlib.Algebra.Order.Field.Basic
import Mathlib.Data.List.Induction

namespace Cosmos3.Sse

open Basis

section Model

-- What a round of `createEventStream` meets: an abort before the connection is made, or a
-- connection and what it comes to. `aborted` is what the signal says in the `catch`.
inductive Attempt where
  | aborted
  | connectFails (aborted : Bool)
  | dropped (chunks : List (List UInt8)) (aborted : Bool)
  | ended (chunks : List (List UInt8))

-- What the client does, call by call.
inductive StreamEvent (K : Type) where
  | fetch (lastEventId : Option Text)
  | deliver (event : SseEvent)
  | error
  | sleep (ms : K)
  | poll (lastId : Option Text)

structure RetryOptions (K : Type) where
  maxRetries : K
  baseDelayMs : K
  capDelayMs : K

namespace Client

-- The chunks that a connection brings before it is over.
def consume : Client → SseState → List (List UInt8) → Client
  | client, _, [] => client
  | client, state, bytes :: chunks =>
    (client.receive state bytes).consume (feedSse state (client.decoder.decode bytes).2).state chunks

-- The events of these chunks.
def feed : Client → SseState → List (List UInt8) → List SseEvent
  | _, _, [] => []
  | client, state, bytes :: chunks =>
    let fed := feedSse state (client.decoder.decode bytes).2
    fed.events ++ (client.receive state bytes).feed fed.state chunks

end Client

variable {K : Type} [Field K] [LinearOrder K] (options : RetryOptions K)

def backoffDelay (attempt : ℕ) (baseMs capMs : K) : K := min capMs (baseMs * 2 ^ attempt)

def RetryOptions.delay (attempt : ℕ) : K :=
  backoffDelay attempt options.baseDelayMs options.capDelayMs

def emit (events : List SseEvent) (t : Traced (StreamEvent K) Empty Unit) :
    Traced (StreamEvent K) Empty Unit := ⟨events.map .deliver ++ t.events, t.outcome⟩

-- The `catch` of the loop. Once the retries are used up the fallback runs.
def caught (next : Client → Traced (StreamEvent K) Empty Unit) (client : Client) (aborted : Bool) :
    Traced (StreamEvent K) Empty Unit :=
  if aborted then Traced.ret ()
  else
    let client := { client with attempt := client.attempt + 1 }
    Traced.cons .error
      (if options.maxRetries < (client.attempt : K) then Traced.cons (.poll client.lastId) (Traced.ret ())
      else Traced.cons (.sleep (options.delay client.attempt)) (next client))

-- The rounds of the loop, as far as they are known.
def stream : Client → List Attempt → Traced (StreamEvent K) Empty Unit
  | _, [] => Traced.running
  | _, .aborted :: _ => Traced.ret ()
  | client, .connectFails aborted :: later =>
    Traced.cons (.fetch client.lastEventIdHeader) (caught options (fun client => stream client later) client aborted)
  | client, .dropped chunks aborted :: later =>
    Traced.cons (.fetch client.lastEventIdHeader)
      (emit (client.connected.feed initialSseState chunks)
        (caught options (fun client => stream client later)
          (client.connected.consume initialSseState chunks) aborted))
  | client, .ended chunks :: _ =>
    Traced.cons (.fetch client.lastEventIdHeader)
      (emit (client.connected.feed initialSseState chunks) (Traced.ret ()))

end Model

section Specification

namespace Attempt

-- A failure that no abort explains.
def isFailure : Attempt → Bool
  | .connectFails signal | .dropped _ signal => !signal
  | .aborted | .ended _ => false

-- A connection that ends normally, or a signal that is aborted.
def stops : Attempt → Bool
  | .aborted | .ended _ => true
  | .connectFails signal | .dropped _ signal => signal

def isConnectFailure : Attempt → Bool
  | .connectFails _ => true
  | _ => false

def opens : Attempt → Bool
  | .dropped _ _ | .ended _ => true
  | _ => false

end Attempt

-- The failures since the last connection that opened, its own drop among them.
def failures (past : List Attempt) : ℕ :=
  (past.reverse.takeWhile Attempt.isConnectFailure).length + if past.any Attempt.opens then 1 else 0

variable {K : Type} [Field K] [LinearOrder K] (options : RetryOptions K)

-- Rounds that each end in a failure and leave a retry.
def Continues (past : List Attempt) : Prop := ∀ front round, front ++ [round] <+: past →
  round.isFailure = true ∧ ¬options.maxRetries < (failures (front ++ [round]) : K)

def StreamEvent.isFetch : StreamEvent K → Bool
  | .fetch _ => true
  | _ => false

def StreamEvent.isPoll : StreamEvent K → Bool
  | .poll _ => true
  | _ => false

def StreamEvent.delivered? : StreamEvent K → Option SseEvent
  | .deliver event => some event
  | _ => none

-- The id of the last event that was delivered with one.
def lastDeliveredId (events : List (StreamEvent K)) : Option Text :=
  ((events.filterMap StreamEvent.delivered?).filterMap (·.id)).getLast?

-- The failures up to where a trace has come: it has one `fetch` for each round.
def failuresSoFar (rounds : List Attempt) (front : List (StreamEvent K)) : ℕ :=
  failures (rounds.take (front.countP StreamEvent.isFetch))

structure RetryLaws (rounds : List Attempt) (t : Traced (StreamEvent K) Empty Unit) : Prop where
  once : t.events.countP StreamEvent.isPoll ≤ 1
  polls : ∀ id, .poll id ∈ t.events ↔
    (∃ past round later, rounds = past ++ round :: later ∧ Continues options past ∧
      round.isFailure = true ∧ options.maxRetries < (failures (past ++ [round]) : K)) ∧
    id = lastDeliveredId t.events
  waits : ∀ front header back, t.events = front ++ .fetch header :: back →
    front = [] ∨ ∃ earlier, front = earlier ++ [.sleep (options.delay (failuresSoFar rounds front))]
  sleeps : ∀ front ms back, t.events = front ++ .sleep ms :: back →
    ms = options.delay (failuresSoFar rounds front)
  returns : (t.outcome = .returned () ∧ ∀ id, .poll id ∉ t.events) ↔
    ∃ past round later, rounds = past ++ round :: later ∧ Continues options past ∧ round.stops = true

end Specification

section Rounds

namespace Client

-- The client after a round.
def round (client : Client) : Attempt → Client
  | .aborted => client
  | .connectFails _ => { client with attempt := client.attempt + 1 }
  | .dropped chunks _ =>
    { client.connected.consume initialSseState chunks with
      attempt := (client.connected.consume initialSseState chunks).attempt + 1 }
  | .ended chunks => client.connected.consume initialSseState chunks

-- The events that a round delivers.
def fed (client : Client) : Attempt → List SseEvent
  | .aborted | .connectFails _ => []
  | .dropped chunks _ | .ended chunks => client.connected.feed initialSseState chunks

def after (past : List Attempt) : Client := past.foldl round createEventStream

end Client

variable {K : Type} [Field K] [LinearOrder K] {options : RetryOptions K} {client : Client}
  {round : Attempt} {past later rounds : List Attempt}

def opening (client : Client) (round : Attempt) : List (StreamEvent K) :=
  .fetch client.lastEventIdHeader :: (client.fed round).map .deliver

-- A round that ends in a failure and leaves a retry.
def visit (options : RetryOptions K) (client : Client) (round : Attempt) : List (StreamEvent K) :=
  opening client round ++ [.error, .sleep (options.delay (client.round round).attempt)]

def trace (options : RetryOptions K) (client : Client) : List Attempt → List (StreamEvent K)
  | [] => []
  | round :: later => visit options client round ++ trace options (client.round round) later

theorem caught_exceeded {next : Client → Traced (StreamEvent K) Empty Unit}
    (h : options.maxRetries < ((client.attempt + 1 : ℕ) : K)) :
    caught options next client false = ⟨[.error, .poll client.lastId], .returned ()⟩ := by
  rw [caught, if_neg (by simp)]
  exact congrArg (Traced.cons StreamEvent.error) (if_pos h)

theorem caught_continues {next : Client → Traced (StreamEvent K) Empty Unit}
    (h : ¬options.maxRetries < ((client.attempt + 1 : ℕ) : K)) :
    caught options next client false =
      ⟨.error :: .sleep (options.delay (client.attempt + 1)) ::
        (next { client with attempt := client.attempt + 1 }).events,
        (next { client with attempt := client.attempt + 1 }).outcome⟩ := by
  rw [caught, if_neg (by simp)]
  exact congrArg (Traced.cons StreamEvent.error) (if_neg h)

theorem stream_exceeded (h : round.isFailure = true)
    (hretries : options.maxRetries < ((client.round round).attempt : K)) :
    stream options client (round :: later) =
      ⟨opening client round ++ [.error, .poll (client.round round).lastId], .returned ()⟩ := by
  cases round with
  | aborted => cases h
  | connectFails signal =>
      obtain rfl : signal = false := by simpa [Attempt.isFailure] using h
      rw [stream, caught_exceeded hretries]
      rfl
  | dropped chunks signal =>
      obtain rfl : signal = false := by simpa [Attempt.isFailure] using h
      rw [stream, caught_exceeded hretries]
      rfl
  | ended chunks => cases h

theorem stream_continues (h : round.isFailure = true)
    (hretries : ¬options.maxRetries < ((client.round round).attempt : K)) :
    stream options client (round :: later) =
      ⟨visit options client round ++ (stream options (client.round round) later).events,
        (stream options (client.round round) later).outcome⟩ := by
  cases round with
  | aborted => cases h
  | connectFails signal =>
      obtain rfl : signal = false := by simpa [Attempt.isFailure] using h
      rw [stream, caught_continues hretries]
      rfl
  | dropped chunks signal =>
      obtain rfl : signal = false := by simpa [Attempt.isFailure] using h
      rw [stream, caught_continues hretries]
      simp [emit, visit, opening, Client.fed, Client.round, Traced.cons]
  | ended chunks => cases h

theorem stream_stops (h : round.stops = true) :
    stream options client (round :: later) = ⟨[], .returned ()⟩ ∨
      stream options client (round :: later) = ⟨opening client round, .returned ()⟩ := by
  cases round with
  | aborted => exact .inl rfl
  | connectFails signal =>
      obtain rfl : signal = true := by simpa [Attempt.stops] using h
      exact .inr rfl
  | dropped chunks signal =>
      obtain rfl : signal = true := by simpa [Attempt.stops] using h
      refine .inr ?_
      simp [stream, caught, emit, opening, Client.fed, Traced.cons, Traced.ret]
  | ended chunks =>
      refine .inr ?_
      simp [stream, emit, opening, Client.fed, Traced.cons, Traced.ret]

-- The loop goes through rounds that leave a retry.
theorem stream_append (h : ∀ front round, front ++ [round] <+: past → round.isFailure = true ∧
      ¬options.maxRetries < (((front ++ [round]).foldl Client.round client).attempt : K)) :
    stream options client (past ++ later) =
      ⟨trace options client past ++ (stream options (past.foldl Client.round client) later).events,
        (stream options (past.foldl Client.round client) later).outcome⟩ := by
  induction past generalizing client with
  | nil => rfl
  | cons round past ih =>
      obtain ⟨hfailure, hretries⟩ := h [] round ⟨past, rfl⟩
      have hrest := @ih (client.round round) fun front next hfront =>
        h (round :: front) next (List.cons_prefix_cons.mpr ⟨rfl, hfront⟩)
      rw [List.cons_append, stream_continues hfailure hretries, hrest, trace]
      simp

end Rounds

section Counting

variable {K : Type} [Field K] [LinearOrder K] {options : RetryOptions K} {past : List Attempt}

theorem failures_connectFails (signal : Bool) :
    failures (past ++ [.connectFails signal]) = failures past + 1 := by
  have hopens : [Attempt.connectFails signal].any Attempt.opens = false := rfl
  rw [failures, List.reverse_append, List.reverse_singleton, List.singleton_append,
    List.takeWhile_cons_of_pos rfl, List.length_cons, List.any_append, hopens, Bool.or_false, failures]
  omega

theorem failures_dropped (chunks : List (List UInt8)) (signal : Bool) :
    failures (past ++ [.dropped chunks signal]) = 1 := by
  have hopens : [Attempt.dropped chunks signal].any Attempt.opens = true := rfl
  have hconnect : ¬(Attempt.dropped chunks signal).isConnectFailure = true := by
    simp [Attempt.isConnectFailure]
  rw [failures, List.reverse_append, List.reverse_singleton, List.singleton_append,
    List.takeWhile_cons_of_neg hconnect, List.any_append, hopens, Bool.or_true]
  rfl

theorem attempt_foldl_deliver (client : Client) (events : List SseEvent) :
    (events.foldl Client.deliver client).attempt = client.attempt := by
  induction events generalizing client with
  | nil => rfl
  | cons event events ih => exact ih (client.deliver event)

theorem attempt_consume (client : Client) (state : SseState) (chunks : List (List UInt8)) :
    (client.consume state chunks).attempt = client.attempt := by
  induction chunks generalizing client state with
  | nil => rfl
  | cons bytes chunks ih =>
      rw [Client.consume, ih, Client.receive, attempt_foldl_deliver]

theorem after_append (past : List Attempt) (round : Attempt) :
    Client.after (past ++ [round]) = (Client.after past).round round := by
  simp [Client.after]

-- The client counts the failures.
theorem attempt_after (h : ∀ round ∈ past, round.isFailure = true) :
    (Client.after past).attempt = failures past := by
  induction past using List.reverseRecOn with
  | nil => rfl
  | append_singleton past round ih =>
      have hpast := ih fun other hother => h other (List.mem_append_left _ hother)
      have hround := h round (by simp)
      rw [after_append]
      cases round with
      | aborted => cases hround
      | connectFails signal => rw [failures_connectFails, ← hpast]; rfl
      | dropped chunks signal =>
          rw [failures_dropped, Client.round]
          simp [attempt_consume, Client.connected]
      | ended chunks => cases hround

end Counting

section Memory

variable {K : Type} {client : Client}

-- The id remembered is the last one that was delivered.
def Client.Tracks (client : Client) : Prop :=
  client.lastId = (client.delivered.filterMap (·.id)).getLast?

theorem Client.Tracks.deliver (h : client.Tracks) (event : SseEvent) : (client.deliver event).Tracks := by
  unfold Client.Tracks Client.deliver
  rw [List.filterMap_append]
  cases hid : event.id with
  | none =>
      have hsingle : [event].filterMap (·.id) = [] := by simp [hid]
      rw [hsingle, List.append_nil]
      exact h
  | some id =>
      have hsingle : [event].filterMap (·.id) = [id] := by simp [hid]
      rw [hsingle, List.getLast?_concat]

theorem Client.Tracks.consume (h : client.Tracks) (state : SseState) (chunks : List (List UInt8)) :
    (client.consume state chunks).Tracks := by
  induction chunks generalizing client state with
  | nil => exact h
  | cons bytes chunks ih =>
      have hfold : ∀ (events : List SseEvent) {client : Client}, client.Tracks →
          (events.foldl Client.deliver client).Tracks := by
        intro events
        induction events with
        | nil => exact fun h => h
        | cons event events ih => exact fun h => ih (h.deliver event)
      have hreceive : (client.receive state bytes).Tracks := hfold _ h
      exact ih hreceive _

theorem delivered_consume (client : Client) (state : SseState) (chunks : List (List UInt8)) :
    (client.consume state chunks).delivered = client.delivered ++ client.feed state chunks := by
  induction chunks generalizing client state with
  | nil => simp [Client.consume, Client.feed]
  | cons bytes chunks ih =>
      have hreceive : (client.receive state bytes).delivered =
          client.delivered ++ (feedSse state (client.decoder.decode bytes).2).events :=
        (foldl_deliver _ _).1
      rw [Client.consume, ih, hreceive, Client.feed, List.append_assoc]

theorem delivered_round (client : Client) (round : Attempt) :
    (client.round round).delivered = client.delivered ++ client.fed round := by
  cases round with
  | aborted => simp [Client.round, Client.fed]
  | connectFails signal => simp [Client.round, Client.fed]
  | dropped chunks signal => exact delivered_consume client.connected initialSseState chunks
  | ended chunks => exact delivered_consume client.connected initialSseState chunks

theorem Client.Tracks.round (h : client.Tracks) (round : Attempt) : (client.round round).Tracks := by
  have hconnected : client.connected.Tracks := h
  cases round with
  | aborted => exact h
  | connectFails signal => exact h
  | dropped chunks signal => exact hconnected.consume initialSseState chunks
  | ended chunks => exact hconnected.consume initialSseState chunks

theorem tracks_after (past : List Attempt) : (Client.after past).Tracks := by
  induction past using List.reverseRecOn with
  | nil => rfl
  | append_singleton past round ih =>
      rw [after_append]
      exact ih.round round

theorem delivered_opening (client : Client) (round : Attempt) :
    (opening client round : List (StreamEvent K)).filterMap StreamEvent.delivered? = client.fed round := by
  have hdeliver : ∀ events : List SseEvent,
      (events.map StreamEvent.deliver : List (StreamEvent K)).filterMap StreamEvent.delivered? = events := by
    intro events
    induction events with
    | nil => rfl
    | cons event events ih => exact congrArg (event :: ·) ih
  exact hdeliver (client.fed round)

theorem delivered_trace [Field K] [LinearOrder K] (options : RetryOptions K) (client : Client)
    (past : List Attempt) :
    client.delivered ++ (trace options client past).filterMap StreamEvent.delivered? =
      (past.foldl Client.round client).delivered := by
  induction past generalizing client with
  | nil => simp [trace]
  | cons round past ih =>
      have hquiet : ([.error, .sleep (options.delay (client.round round).attempt)] :
          List (StreamEvent K)).filterMap StreamEvent.delivered? = [] := rfl
      rw [trace, visit, List.filterMap_append, List.filterMap_append, hquiet, delivered_opening, List.append_nil,
        ← List.append_assoc, ← delivered_round, ih]
      rfl

end Memory

section Course

variable {K : Type} [Field K] [LinearOrder K] {options : RetryOptions K} {round other : Attempt}
  {past later rest : List Attempt}

theorem stops_eq_not_isFailure (round : Attempt) : round.stops = !round.isFailure := by
  cases round with
  | aborted => rfl
  | connectFails signal => simp [Attempt.stops, Attempt.isFailure]
  | dropped chunks signal => simp [Attempt.stops, Attempt.isFailure]
  | ended chunks => rfl

-- A round after which no other is made.
def Ends (options : RetryOptions K) (past : List Attempt) (round : Attempt) : Prop :=
  round.stops = true ∨
    round.isFailure = true ∧ options.maxRetries < (failures (past ++ [round]) : K)

theorem Continues.of_prefix (h : Continues options later) (hpast : past <+: later) :
    Continues options past := fun front round hfront => h front round (hfront.trans hpast)

theorem Continues.isFailure (h : Continues options past) : ∀ round ∈ past, round.isFailure = true := by
  intro round hround
  obtain ⟨front, back, rfl⟩ := List.append_of_mem hround
  exact (h front round ⟨back, by simp⟩).1

theorem Continues.not_ends (h : Continues options (past ++ round :: later)) : ¬Ends options past round := by
  obtain ⟨hfailure, hretries⟩ := h past round ⟨later, by simp⟩
  rintro (hstops | hends)
  · rw [stops_eq_not_isFailure, hfailure] at hstops
    cases hstops
  · exact hretries hends.2

theorem Continues.concat (h : Continues options past) (hround : ¬Ends options past round) :
    Continues options (past ++ [round]) := by
  intro front next hfront
  rcases List.prefix_concat_iff.mp hfront with heq | hfront
  · obtain ⟨rfl, rfl⟩ := List.append_inj' heq rfl |>.imp id (List.singleton_inj.mp ·)
    have hfailure : next.isFailure = true := by
      by_contra hfailure
      exact hround (.inl (by simpa [stops_eq_not_isFailure] using hfailure))
    exact ⟨hfailure, fun hretries => hround (.inr ⟨hfailure, hretries⟩)⟩
  · exact h front next hfront

-- The loop goes on through all the rounds or comes to one that ends it.
theorem continues_or_ends (rounds : List Attempt) : Continues options rounds ∨
    ∃ past round later, rounds = past ++ round :: later ∧ Continues options past ∧ Ends options past round := by
  induction rounds using List.reverseRecOn with
  | nil =>
      refine .inl fun front round hfront => ?_
      simpa using List.prefix_nil.mp hfront
  | append_singleton rounds next ih =>
      rcases ih with hrounds | ⟨past, round, later, rfl, hpast, hround⟩
      · by_cases hnext : Ends options rounds next
        · exact .inr ⟨rounds, next, [], rfl, hrounds, hnext⟩
        · exact .inl (hrounds.concat hnext)
      · exact .inr ⟨past, round, later ++ [next], by simp, hpast, hround⟩

-- There is one such round at most.
theorem ends_unique {past' later' : List Attempt} (hpast : Continues options past)
    (hround : Ends options past round) (hpast' : Continues options past')
    (hother : Ends options past' other) (h : past ++ round :: later = past' ++ other :: later') :
    past = past' ∧ round = other := by
  rcases List.append_eq_append_iff.mp h with ⟨middle, rfl, hmiddle⟩ | ⟨middle, rfl, hmiddle⟩
  · cases middle with
    | nil =>
        obtain ⟨rfl, -⟩ := List.cons.inj hmiddle
        exact ⟨by simp, rfl⟩
    | cons head middle =>
        obtain ⟨rfl, -⟩ := List.cons.inj hmiddle
        exact absurd hround hpast'.not_ends
  · cases middle with
    | nil =>
        obtain ⟨rfl, -⟩ := List.cons.inj hmiddle
        exact ⟨by simp, rfl⟩
    | cons head middle =>
        obtain ⟨rfl, -⟩ := List.cons.inj hmiddle
        exact absurd hother hpast.not_ends

theorem stream_of_continues (h : Continues options past) :
    stream options createEventStream (past ++ later) =
      ⟨trace options createEventStream past ++ (stream options (Client.after past) later).events,
        (stream options (Client.after past) later).outcome⟩ := by
  refine stream_append fun front round hfront => ?_
  have hattempt := attempt_after (h.of_prefix hfront).isFailure
  rw [Client.after] at hattempt
  rw [hattempt]
  exact h front round hfront

theorem trace_concat (past : List Attempt) (client : Client) :
    trace options client (past ++ [round]) =
      trace options client past ++ visit options (past.foldl Client.round client) round := by
  induction past generalizing client with
  | nil => simp [trace]
  | cons first past ih => simp [trace, ih]

-- Where an event stands: in one of the visits or after them all.
theorem trace_split {tail front back : List (StreamEvent K)} {k : StreamEvent K}
    (h : trace options createEventStream past ++ tail = front ++ k :: back) :
    (∃ early round late middle rest, past = early ++ round :: late ∧
      front = trace options createEventStream early ++ middle ∧
      visit options (Client.after early) round = middle ++ k :: rest) ∨
    ∃ middle, front = trace options createEventStream past ++ middle ∧ tail = middle ++ k :: back := by
  induction past using List.reverseRecOn generalizing tail back with
  | nil => exact .inr ⟨front, by simp [trace], h⟩
  | append_singleton past next ih =>
      rw [trace_concat, List.append_assoc] at h
      rcases ih h with ⟨early, round, late, middle, rest, rfl, hfront, hvisit⟩ | ⟨middle, rfl, hmiddle⟩
      · exact .inl ⟨early, round, late ++ [next], middle, rest, by simp, hfront, hvisit⟩
      · rcases List.append_eq_append_iff.mp hmiddle with ⟨rest, rfl, htail⟩ | ⟨rest, hvisit, hrest⟩
        · exact .inr ⟨rest, by simp [trace_concat], htail⟩
        · cases rest with
          | nil =>
              refine .inr ⟨[], ?_, hrest.symm⟩
              rw [List.append_nil] at hvisit
              rw [trace_concat, List.append_nil, ← hvisit]
          | cons head rest =>
              obtain ⟨rfl, -⟩ := List.cons.inj hrest
              exact .inl ⟨past, next, [], middle, rest, rfl, rfl, hvisit⟩

end Course

section Laws

variable {K : Type} [Field K] [LinearOrder K] {options : RetryOptions K} {round : Attempt}
  {past later rounds : List Attempt} {front back tail : List (StreamEvent K)}

omit [Field K] [LinearOrder K] in
theorem isPoll_opening (client : Client) (round : Attempt) :
    ∀ event ∈ (opening client round : List (StreamEvent K)), event.isPoll = false := by
  intro event hevent
  rcases List.mem_cons.mp hevent with rfl | hevent
  · rfl
  · obtain ⟨fed, -, rfl⟩ := List.mem_map.mp hevent
    rfl

theorem isPoll_trace (past : List Attempt) (client : Client) :
    ∀ event ∈ trace options client past, event.isPoll = false := by
  induction past generalizing client with
  | nil => simp [trace]
  | cons round past ih =>
      intro event hevent
      rcases List.mem_append.mp hevent with hevent | hevent
      · rcases List.mem_append.mp hevent with hevent | hevent
        · exact isPoll_opening client round event hevent
        · rcases List.mem_pair.mp hevent with rfl | rfl
          · rfl
          · rfl
      · exact ih (client.round round) event hevent

omit [Field K] [LinearOrder K] in
theorem countP_isFetch_opening (client : Client) (round : Attempt) :
    (opening client round : List (StreamEvent K)).countP StreamEvent.isFetch = 1 := by
  have hquiet : ((client.fed round).map .deliver : List (StreamEvent K)).countP StreamEvent.isFetch = 0 := by
    refine List.countP_eq_zero.mpr fun event hevent => ?_
    obtain ⟨fed, -, rfl⟩ := List.mem_map.mp hevent
    simp [StreamEvent.isFetch]
  rw [opening, List.countP_cons_of_pos rfl, hquiet]

-- A trace has one `fetch` for each round.
theorem countP_isFetch_trace (past : List Attempt) (client : Client) :
    (trace options client past).countP StreamEvent.isFetch = past.length := by
  induction past generalizing client with
  | nil => rfl
  | cons round past ih =>
      have hquiet : ([.error, .sleep (options.delay (client.round round).attempt)] :
          List (StreamEvent K)).countP StreamEvent.isFetch = 0 := rfl
      rw [trace, visit, List.countP_append, List.countP_append, countP_isFetch_opening, hquiet, ih,
        List.length_cons]
      omega

-- What may come after a sleep: one more attempt, which no other follows.
def Final (tail : List (StreamEvent K)) : Prop := tail = [] ∨ ∃ client round ending,
  tail = opening client round ++ ending ∧ ∀ event ∈ ending, event = .error ∨ event.isPoll = true

omit [Field K] [LinearOrder K] in
-- The `fetch` of an attempt comes first.
theorem opening_split_fetch {client : Client} {ending : List (StreamEvent K)} {header : Option Text}
    (hending : .fetch header ∉ ending) (h : opening client round ++ ending = front ++ .fetch header :: back) :
    front = [] := by
  cases front with
  | nil => rfl
  | cons head front =>
      have hrest : (client.fed round).map StreamEvent.deliver ++ ending = front ++ .fetch header :: back :=
        (List.cons.inj h).2
      rcases List.mem_append.mp (hrest ▸ List.mem_append_right front List.mem_cons_self) with hmem | hmem
      · obtain ⟨event, -, hevent⟩ := List.mem_map.mp hmem
        cases hevent
      · exact absurd hmem hending

omit [Field K] [LinearOrder K] in
theorem Final.split_fetch (htail : Final tail) {header : Option Text}
    (h : tail = front ++ .fetch header :: back) : front = [] := by
  rcases htail with rfl | ⟨client, round, ending, rfl, hending⟩
  · simp at h
  · refine opening_split_fetch (fun hmem => ?_) h
    rcases hending _ hmem with heq | heq
    · cases heq
    · cases heq

omit [Field K] [LinearOrder K] in
theorem Final.not_sleep (htail : Final tail) (ms : K) : .sleep ms ∉ tail := by
  rcases htail with rfl | ⟨client, round, ending, rfl, hending⟩
  · simp
  · intro hmem
    rcases List.mem_append.mp hmem with hmem | hmem
    · simp [opening] at hmem
    · rcases hending _ hmem with heq | heq
      · cases heq
      · cases heq

theorem visit_split_sleep {client : Client} {ms : K}
    (h : visit options client round = front ++ .sleep ms :: back) :
    front = opening client round ++ [.error] ∧ ms = options.delay (client.round round).attempt := by
  have hopening : .sleep ms ∉ (opening client round : List (StreamEvent K)) := by simp [opening]
  rcases List.append_eq_append_iff.mp h with ⟨middle, rfl, hmiddle⟩ | ⟨middle, heq, hmiddle⟩
  · match middle, hmiddle with
    | [], hmiddle => simp at hmiddle
    | [second], hmiddle =>
        obtain ⟨rfl, hrest⟩ := List.cons.inj hmiddle
        exact ⟨rfl, (StreamEvent.sleep.inj (List.cons.inj hrest).1).symm⟩
    | second :: third :: middle, hmiddle => simp at hmiddle
  · cases middle with
    | nil => simp at hmiddle
    | cons head middle =>
        obtain ⟨rfl, -⟩ := List.cons.inj hmiddle
        exact absurd (heq ▸ List.mem_append_right front List.mem_cons_self) hopening

theorem failuresSoFar_trace (h : past <+: rounds) :
    failuresSoFar rounds (trace options createEventStream past) = failures past := by
  rw [failuresSoFar, countP_isFetch_trace, ← List.prefix_iff_eq_take.mp h]

-- Before the attempt that follows the `k`-th failure there is a sleep.
theorem wait_law (hpast : Continues options past) (hrounds : past <+: rounds) (htail : Final tail)
    {header : Option Text} (h : trace options createEventStream past ++ tail = front ++ .fetch header :: back) :
    front = [] ∨ ∃ earlier, front = earlier ++ [.sleep (options.delay (failuresSoFar rounds front))] := by
  obtain ⟨early, hearly, rfl⟩ : ∃ early, early <+: past ∧ front = trace options createEventStream early := by
    rcases trace_split h with ⟨early, round, late, middle, rest, rfl, rfl, hvisit⟩ | ⟨middle, rfl, hmiddle⟩
    · obtain rfl := opening_split_fetch (by simp) hvisit
      exact ⟨early, List.prefix_append early _, List.append_nil _⟩
    · obtain rfl := htail.split_fetch hmiddle
      exact ⟨past, List.prefix_refl past, List.append_nil _⟩
  rw [failuresSoFar_trace (hearly.trans hrounds), ← attempt_after (hpast.of_prefix hearly).isFailure]
  cases early using List.reverseRecOn with
  | nil => exact .inl rfl
  | append_singleton early last =>
      refine .inr ⟨trace options createEventStream early ++
        (opening (Client.after early) last ++ [StreamEvent.error]), ?_⟩
      rw [trace_concat, after_append, visit]
      simp [Client.after]

-- Every sleep is as long as the failures so far ask for.
theorem sleep_law (hpast : Continues options past) (hrounds : past <+: rounds) (htail : Final tail)
    {ms : K} (h : trace options createEventStream past ++ tail = front ++ .sleep ms :: back) :
    ms = options.delay (failuresSoFar rounds front) := by
  rcases trace_split h with ⟨early, round, late, middle, rest, rfl, rfl, hvisit⟩ | ⟨middle, -, hmiddle⟩
  · obtain ⟨rfl, hms⟩ := visit_split_sleep hvisit
    have hvisited : early ++ [round] <+: early ++ round :: late := ⟨late, by simp⟩
    have herror : ([.error] : List (StreamEvent K)).countP StreamEvent.isFetch = 0 := rfl
    have hcount : (trace options createEventStream early ++
        (opening (Client.after early) round ++ [StreamEvent.error])).countP StreamEvent.isFetch =
          (early ++ [round]).length := by
      rw [List.countP_append, List.countP_append, countP_isFetch_trace, countP_isFetch_opening, herror]
      simp
    have htake := (List.prefix_iff_eq_take.mp (hvisited.trans hrounds)).symm
    rw [failuresSoFar, hcount, htake, ← attempt_after (hpast.of_prefix hvisited).isFailure, after_append]
    exact hms
  · exact absurd (hmiddle ▸ List.mem_append_right middle List.mem_cons_self) (htail.not_sleep ms)

-- What the client remembers is the id that was delivered last.
theorem lastId_after (past : List Attempt) (round : Attempt) :
    (Client.after (past ++ [round])).lastId =
      lastDeliveredId (trace options createEventStream past ++ opening (Client.after past) round) := by
  have htracks := tracks_after (past ++ [round])
  have hdelivered := delivered_trace options createEventStream past
  rw [Client.Tracks, after_append, delivered_round, Client.after, ← hdelivered] at htracks
  rw [after_append, lastDeliveredId, List.filterMap_append, delivered_opening]
  exact htracks

theorem attempt_concat (hpast : Continues options past) (hround : round.isFailure = true) :
    ((Client.after past).round round).attempt = failures (past ++ [round]) := by
  rw [← after_append]
  refine attempt_after fun other hother => ?_
  rcases List.mem_append.mp hother with hother | hother
  · exact hpast.isFailure other hother
  · exact List.mem_singleton.mp hother ▸ hround

theorem retryLaws_continues (h : Continues options rounds) :
    RetryLaws options rounds (stream options createEventStream rounds) := by
  have hstream : stream options createEventStream rounds =
      ⟨trace options createEventStream rounds ++ [], .running⟩ := by
    have hrounds := @stream_of_continues K _ _ options rounds [] h
    rwa [List.append_nil] at hrounds
  have hquiet : ∀ event ∈ trace options createEventStream rounds ++ [], event.isPoll = false := by
    rw [List.append_nil]
    exact isPoll_trace rounds createEventStream
  rw [hstream]
  constructor
  · rw [List.countP_eq_zero.mpr fun event hevent => by simp [hquiet event hevent]]
    omega
  · intro id
    constructor
    · intro hpoll
      cases hquiet _ hpoll
    · rintro ⟨⟨past, round, later, rfl, -, hends⟩, -⟩
      exact absurd (.inr hends) h.not_ends
  · exact fun front header back heq => wait_law h (List.prefix_refl rounds) (.inl rfl) heq
  · exact fun front ms back heq => sleep_law h (List.prefix_refl rounds) (.inl rfl) heq
  · constructor
    · rintro ⟨hreturned, -⟩
      cases hreturned
    · rintro ⟨past, round, later, rfl, -, hstops⟩
      exact absurd (.inl hstops) h.not_ends

theorem retryLaws_stops (h : Continues options past) (hround : round.stops = true) :
    RetryLaws options (past ++ round :: later) (stream options createEventStream (past ++ round :: later)) := by
  obtain ⟨tail, hstream, htail⟩ : ∃ tail, stream options createEventStream (past ++ round :: later) =
      ⟨trace options createEventStream past ++ tail, .returned ()⟩ ∧
        (tail = [] ∨ tail = opening (Client.after past) round) := by
    rw [stream_of_continues h]
    rcases @stream_stops K _ _ options (Client.after past) round later hround with hlast | hlast
    · exact ⟨[], by rw [hlast], .inl rfl⟩
    · exact ⟨_, by rw [hlast], .inr rfl⟩
  have hfinal : Final tail :=
    htail.imp id fun heq => ⟨Client.after past, round, [], by rw [heq, List.append_nil], by simp⟩
  have hquiet : ∀ event ∈ trace options createEventStream past ++ tail, event.isPoll = false := by
    intro event hevent
    rcases List.mem_append.mp hevent with hevent | hevent
    · exact isPoll_trace past createEventStream event hevent
    · rcases htail with rfl | rfl
      · cases hevent
      · exact isPoll_opening _ _ event hevent
  rw [hstream]
  constructor
  · rw [List.countP_eq_zero.mpr fun event hevent => by simp [hquiet event hevent]]
    omega
  · intro id
    constructor
    · intro hpoll
      cases hquiet _ hpoll
    · rintro ⟨⟨past', other, later', heq, hpast', hends⟩, -⟩
      obtain ⟨rfl, rfl⟩ := ends_unique h (.inl hround) hpast' (.inr hends) heq
      rw [stops_eq_not_isFailure, hends.1] at hround
      cases hround
  · exact fun front header back heq => wait_law h (List.prefix_append past _) hfinal heq
  · exact fun front ms back heq => sleep_law h (List.prefix_append past _) hfinal heq
  · constructor
    · exact fun _ => ⟨past, round, later, rfl, h, hround⟩
    · refine fun _ => ⟨rfl, fun id hpoll => ?_⟩
      cases hquiet _ hpoll

theorem retryLaws_exceeded (h : Continues options past) (hround : round.isFailure = true)
    (hretries : options.maxRetries < (failures (past ++ [round]) : K)) :
    RetryLaws options (past ++ round :: later) (stream options createEventStream (past ++ round :: later)) := by
  have hattempt : options.maxRetries < (((Client.after past).round round).attempt : K) := by
    rw [attempt_concat h hround]
    exact hretries
  have hlast := @stream_exceeded K _ _ options (Client.after past) round later hround hattempt
  have hid := @lastId_after K _ _ options past round
  rw [after_append] at hid
  have hstream : stream options createEventStream (past ++ round :: later) =
      ⟨trace options createEventStream past ++ (opening (Client.after past) round ++
        [.error, .poll ((Client.after past).round round).lastId]), .returned ()⟩ := by
    rw [stream_of_continues h, hlast]
  have hquiet : ∀ event ∈ trace options createEventStream past ++ opening (Client.after past) round,
      event.isPoll = false := by
    intro event hevent
    rcases List.mem_append.mp hevent with hevent | hevent
    · exact isPoll_trace past createEventStream event hevent
    · exact isPoll_opening _ _ event hevent
  have hdelivered : lastDeliveredId (trace options createEventStream past ++
      (opening (Client.after past) round ++ [.error, .poll ((Client.after past).round round).lastId])) =
        ((Client.after past).round round).lastId := by
    have hrest : [.error, .poll ((Client.after past).round round).lastId].filterMap
        (StreamEvent.delivered? : StreamEvent K → Option SseEvent) = [] := rfl
    rw [hid, ← hid, lastDeliveredId, ← List.append_assoc, List.filterMap_append, hrest, List.append_nil, hid,
      lastDeliveredId]
  have hfinal : Final (opening (Client.after past) round ++
      [.error, .poll ((Client.after past).round round).lastId] : List (StreamEvent K)) :=
    .inr ⟨Client.after past, round, _, rfl, by simp [StreamEvent.isPoll]⟩
  rw [hstream]
  constructor
  · rw [← List.append_assoc, List.countP_append,
      List.countP_eq_zero.mpr fun event hevent => by simp [hquiet event hevent]]
    simp [StreamEvent.isPoll]
  · intro id
    rw [hdelivered, ← List.append_assoc, List.mem_append]
    constructor
    · rintro (hpoll | hpoll)
      · cases hquiet _ hpoll
      · exact ⟨⟨past, round, later, rfl, h, hround, hretries⟩, by simpa using hpoll⟩
    · rintro ⟨-, rfl⟩
      exact .inr (by simp)
  · exact fun front header back heq => wait_law h (List.prefix_append past _) hfinal heq
  · exact fun front ms back heq => sleep_law h (List.prefix_append past _) hfinal heq
  · constructor
    · rintro ⟨-, hpolls⟩
      exact absurd (by simp) (hpolls ((Client.after past).round round).lastId)
    · rintro ⟨past', other, later', heq, hpast', hstops⟩
      obtain ⟨rfl, rfl⟩ := ends_unique h (.inr ⟨hround, hretries⟩) hpast' (.inl hstops) heq
      rw [stops_eq_not_isFailure, hround] at hstops
      cases hstops

end Laws

end Cosmos3.Sse
