import Cosmos3.Basis.Runs
import Cosmos3.Sse.Client

namespace Cosmos3.Sse

open Basis

abbrev Bytes := List UInt8

-- A connection: the chunks read from it and the events passed to `onEvent` for them.
structure Connection where
  chunks : List Bytes
  delivered : List SseEvent

-- One call of `createEventStream` and the connections it has made, newest first.
structure Session where
  client : Client
  connections : List Connection

inductive SessionAction where
  | connect
  | connectFails
  | receive (bytes : Bytes)
  | drop
  | done
  | abort

namespace Session

def initial : Session := ⟨createEventStream, []⟩

def receive (s : Session) (state : SseState) (bytes : Bytes) : Session where
  client := s.client.receive state bytes
  connections :=
    match s.connections with
    | [] => []
    | connection :: earlier =>
      let fed := feedSse state (s.client.decoder.decode bytes).2
      ⟨connection.chunks ++ [bytes], connection.delivered ++ fed.events⟩ :: earlier

def step (maxRetries : Nat) (s : Session) : SessionAction → Option Session
  | .connect =>
      match s.client.pc with
      | .connecting => some ⟨s.client.connected, ⟨[], []⟩ :: s.connections⟩
      | _ => none
  | .connectFails =>
      match s.client.pc with
      | .connecting => some { s with client := s.client.failed maxRetries }
      | _ => none
  | .receive bytes =>
      match s.client.pc with
      | .reading state => some (s.receive state bytes)
      | _ => none
  | .drop =>
      match s.client.pc with
      | .reading _ => some { s with client := s.client.failed maxRetries }
      | _ => none
  | .done =>
      match s.client.pc with
      | .reading _ => some { s with client := s.client.finished }
      | _ => none
  | .abort => some { s with client := s.client.finished }

end Session

section Own

-- A connection's chunks through a decoder and a parser of its own.
def decodeAll (decoder : TextDecoder) : List Bytes → TextDecoder × List Text
  | [] => (decoder, [])
  | bytes :: chunks =>
    let here := decoder.decode bytes
    let rest := decodeAll here.1 chunks
    (rest.1, here.2 :: rest.2)

def ownDecoder (chunks : List Bytes) : TextDecoder := (decodeAll .new chunks).1

def ownFeed (chunks : List Bytes) : SseFeed := feedAll initialSseState (decodeAll .new chunks).2

def startsWithMark (decoder : TextDecoder) (bytes : Bytes) : Bool :=
  (decoder.utf8.codePoints bytes).2.head? = some Utf8.byteOrderMark

-- The decoder is between two characters when a connection begins, and a byte order
-- mark does not begin the text of a connection after an earlier one has had text.
def cleanStep (s : Session) : SessionAction → Bool
  | .connect => s.client.decoder.utf8.needed = 0
  | .receive bytes =>
      !(s.client.decoder.markSeen && startsWithMark s.client.decoder bytes &&
        (s.connections.head?.all fun connection => !(ownDecoder connection.chunks).markSeen))
  | .connectFails | .drop | .done | .abort => true

theorem decodeAll_append (decoder : TextDecoder) (chunks : List Bytes) (bytes : Bytes) :
    decodeAll decoder (chunks ++ [bytes]) =
      (((decodeAll decoder chunks).1.decode bytes).1,
        (decodeAll decoder chunks).2 ++ [((decodeAll decoder chunks).1.decode bytes).2]) := by
  induction chunks generalizing decoder with
  | nil => rfl
  | cons first chunks ih => rw [List.cons_append, decodeAll, ih]; rfl

theorem feedAll_append (s : SseState) (chunks : List Text) (chunk : Text) :
    feedAll s (chunks ++ [chunk]) =
      (feedAll s chunks).andThen (feedSse (feedAll s chunks).state chunk) := by
  induction chunks generalizing s with
  | nil => simp [feedAll, SseFeed.andThen]
  | cons first chunks ih =>
      rw [List.cons_append, feedAll, ih]
      simp [feedAll, SseFeed.andThen, Nat.add_assoc]

theorem ownFeed_append (chunks : List Bytes) (bytes : Bytes) :
    ownFeed (chunks ++ [bytes]) = (ownFeed chunks).andThen
      (feedSse (ownFeed chunks).state ((ownDecoder chunks).decode bytes).2) := by
  rw [ownFeed, decodeAll_append, feedAll_append]
  rfl

theorem ownDecoder_append (chunks : List Bytes) (bytes : Bytes) :
    ownDecoder (chunks ++ [bytes]) = ((ownDecoder chunks).decode bytes).1 := by
  rw [ownDecoder, decodeAll_append]
  rfl

end Own

section Independence

-- The client's decoder gives the text that the connection's own one gives.
def Agrees (own client : TextDecoder) : Prop :=
  own.utf8 = client.utf8 ∧ (own.markSeen = true → client.markSeen = true)

theorem agrees_new {decoder : TextDecoder} (hsettled : decoder.utf8.Settled)
    (hneeded : decoder.utf8.needed = 0) : Agrees .new decoder :=
  ⟨(hsettled hneeded).symm, by simp [TextDecoder.new]⟩

theorem Agrees.decode {own client : TextDecoder} (h : Agrees own client) {bytes : Bytes}
    (hmark : client.markSeen = true → own.markSeen = false → startsWithMark client bytes = false) :
    (own.decode bytes).2 = (client.decode bytes).2 ∧
      Agrees (own.decode bytes).1 (client.decode bytes).1 := by
  obtain ⟨hutf8, hseen⟩ := h
  have hpoints : own.withoutMark (client.utf8.codePoints bytes).2 =
      client.withoutMark (client.utf8.codePoints bytes).2 := by
    unfold TextDecoder.withoutMark
    by_cases hown : own.markSeen = true
    · rw [if_pos hown, if_pos (hseen hown)]
    · rw [if_neg hown]
      by_cases hclient : client.markSeen = true
      · rw [if_pos hclient]
        have hhead := hmark hclient (by simpa using hown)
        unfold startsWithMark at hhead
        cases hpoints : (client.utf8.codePoints bytes).2 with
        | nil => rfl
        | cons codePoint rest =>
            have hne : codePoint ≠ Utf8.byteOrderMark := by simpa [hpoints] using hhead
            exact if_neg hne
      · rw [if_neg hclient]
  unfold TextDecoder.decode
  rw [hutf8]
  refine ⟨congrArg (List.flatMap Utf8.units) hpoints, rfl, ?_⟩
  simp only [Bool.or_eq_true]
  rintro (hown | hread)
  · exact .inl (hseen hown)
  · exact .inr hread

-- Of each connection what its own bytes give has been delivered, and the one being
-- read is where they lead.
structure Independent (s : Session) : Prop where
  settled : s.client.decoder.utf8.Settled
  own : ∀ connection ∈ s.connections, connection.delivered = (ownFeed connection.chunks).events
  all : s.client.delivered = s.connections.reverse.flatMap (·.delivered)
  reading : ∀ state, s.client.pc = .reading state → ∃ connection earlier,
    s.connections = connection :: earlier ∧ state = (ownFeed connection.chunks).state ∧
      Agrees (ownDecoder connection.chunks) s.client.decoder

theorem independent_initial : Independent .initial where
  settled := fun _ => rfl
  own := by simp [Session.initial]
  all := rfl
  reading := by simp [Session.initial, createEventStream]

theorem Independent.leaves {s : Session} (h : Independent s) {client : Client}
    (hdecoder : client.decoder = s.client.decoder) (hdelivered : client.delivered = s.client.delivered)
    (hpc : ∀ state, client.pc ≠ .reading state) : Independent { s with client := client } where
  settled := hdecoder ▸ h.settled
  own := h.own
  all := hdelivered.trans h.all
  reading := fun state hstate => absurd hstate (hpc state)

theorem Independent.connects {s : Session} (h : Independent s)
    (hneeded : s.client.decoder.utf8.needed = 0) :
    Independent ⟨s.client.connected, ⟨[], []⟩ :: s.connections⟩ where
  settled := h.settled
  own := by
    intro connection hmem
    rcases List.mem_cons.mp hmem with rfl | hmem
    · rfl
    · exact h.own connection hmem
  all := by
    rw [List.reverse_cons, List.flatMap_append, ← h.all]
    simp [Client.connected]
  reading := by
    intro state hstate
    obtain rfl : initialSseState = state := ClientPc.reading.inj hstate
    exact ⟨_, _, rfl, rfl, agrees_new h.settled hneeded⟩

theorem Independent.receives {s : Session} (h : Independent s) {state : SseState} {bytes : Bytes}
    (hpc : s.client.pc = .reading state) (hclean : cleanStep s (.receive bytes) = true) :
    Independent (s.receive state bytes) := by
  obtain ⟨connection, earlier, hconnections, hstate, hagrees⟩ := h.reading state hpc
  have hmark : s.client.decoder.markSeen = true → (ownDecoder connection.chunks).markSeen = false →
      startsWithMark s.client.decoder bytes = false := by
    intro hclient hown
    simpa [cleanStep, hconnections, hclient, hown] using hclean
  obtain ⟨htext, hagrees⟩ := hagrees.decode hmark
  set fed := feedSse state (s.client.decoder.decode bytes).2 with hfed
  have hown : ownFeed (connection.chunks ++ [bytes]) = (ownFeed connection.chunks).andThen fed := by
    rw [ownFeed_append, htext, hfed, hstate]
  obtain ⟨hdelivered, hnext, hdecoder⟩ := foldl_deliver fed.events
    { s.client with decoder := (s.client.decoder.decode bytes).1, pc := .reading fed.state }
  have hsession : s.receive state bytes =
      ⟨s.client.receive state bytes,
        ⟨connection.chunks ++ [bytes], connection.delivered ++ fed.events⟩ :: earlier⟩ := by
    rw [Session.receive, hconnections]
  rw [hsession]
  constructor
  · show (s.client.receive state bytes).decoder.utf8.Settled
    rw [Client.receive, hdecoder]
    exact Utf8.settled_codePoints h.settled bytes
  · intro other hmem
    rcases List.mem_cons.mp hmem with rfl | hmem
    · have hbefore := h.own connection (hconnections ▸ List.mem_cons_self)
      rw [hown, hbefore]
      rfl
    · exact h.own other (hconnections ▸ List.mem_cons_of_mem _ hmem)
  · show (s.client.receive state bytes).delivered = _
    rw [Client.receive, hdelivered, h.all, hconnections]
    simp
  · intro next hreading
    have hpc : (s.client.receive state bytes).pc = .reading fed.state := hnext
    obtain rfl : fed.state = next := ClientPc.reading.inj (hpc.symm.trans hreading)
    refine ⟨_, _, rfl, by rw [hown]; rfl, ?_⟩
    rw [ownDecoder_append]
    show Agrees _ (s.client.receive state bytes).decoder
    rw [Client.receive, hdecoder]
    exact hagrees

theorem independent_step {maxRetries : Nat} {s s' : Session} {a : SessionAction}
    (h : Independent s) (hclean : cleanStep s a = true) (hs : s.step maxRetries a = some s') :
    Independent s' := by
  have hfailed : ∀ state, (s.client.failed maxRetries).pc ≠ .reading state := by
    intro state
    unfold Client.failed
    dsimp only
    split_ifs <;> simp
  have hfinished : ∀ state, s.client.finished.pc ≠ .reading state := by
    simp [Client.finished]
  unfold Session.step at hs
  cases a with
  | connect =>
      dsimp only at hs
      split at hs
      · cases hs
        exact h.connects (by simpa [cleanStep] using hclean)
      · cases hs
  | connectFails =>
      dsimp only at hs
      split at hs
      · cases hs
        exact h.leaves rfl rfl hfailed
      · cases hs
  | receive bytes =>
      dsimp only at hs
      split at hs
      · rename_i state hpc
        cases hs
        exact h.receives hpc hclean
      · cases hs
  | drop =>
      dsimp only at hs
      split at hs
      · cases hs
        exact h.leaves rfl rfl hfailed
      · cases hs
  | done =>
      dsimp only at hs
      split at hs
      · cases hs
        exact h.leaves rfl rfl hfinished
      · cases hs
  | abort =>
      cases hs
      exact h.leaves rfl rfl hfinished

end Independence

section Runs

abbrev Clean (s : Session) (a : SessionAction) : Prop := cleanStep s a = true

-- Nothing of an earlier connection is in the events of a later one.
theorem own_events_of_clean {maxRetries : Nat} {s : Session}
    (hpath : Path (Session.step maxRetries) Clean .initial s) :
    (∀ connection ∈ s.connections, connection.delivered = (ownFeed connection.chunks).events) ∧
      s.client.delivered =
        s.connections.reverse.flatMap fun connection => (ownFeed connection.chunks).events := by
  have h : Independent s := hpath.invariant Independent independent_initial
    fun _ _ _ hinv hok hs => independent_step hinv hok hs
  refine ⟨h.own, ?_⟩
  rw [h.all]
  refine List.flatMap_congr ?_
  intro connection hmem
  exact h.own connection (List.mem_reverse.mp hmem)

-- Two connections, the first one dropped inside a frame.
def cleanRun : List SessionAction :=
  [.connect, .receive (asciiBytes (ascii "data: a\n\ndata: lost")), .drop, .connect,
    .receive (asciiBytes (ascii "data: b\n\n"))]

theorem own_events_of_clean_cleanRun :
    ∃ s, runWithin (Session.step 5) Clean .initial cleanRun = some s ∧
      (∀ connection ∈ s.connections, connection.delivered = (ownFeed connection.chunks).events) ∧
      s.client.delivered =
        s.connections.reverse.flatMap fun connection => (ownFeed connection.chunks).events :=
  ⟨_, rfl, @own_events_of_clean 5 _ (@Path.of_runWithin _ _ _ _ _ _ _ cleanRun rfl)⟩

-- The first connection is dropped after the first byte of a three-byte character.
def splitCharacterRun : List SessionAction :=
  [.connect, .receive (asciiBytes (ascii "data: ") ++ [0xE2]), .drop, .connect,
    .receive (asciiBytes (ascii "data: b\n\n"))]

theorem earlier_connection_leaks :
    ∃ s connection, run (Session.step 5) .initial splitCharacterRun = some s ∧
      s.connections.head? = some connection ∧ connection.delivered = [] ∧
      (ownFeed connection.chunks).events = [⟨ascii "message", ascii "b", none⟩] :=
  ⟨_, _, rfl, rfl, by decide, by decide⟩

end Runs

end Cosmos3.Sse
