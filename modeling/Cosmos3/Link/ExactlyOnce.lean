import Cosmos3.Link.Connection
import Cosmos3.Sse.Cut
import Cosmos3.Streams.Complete

namespace Cosmos3.Link

open Basis Jobs Sse Streams

-- The frames of a stream from one id up to another: each is the next event of the
-- log, or a heartbeat with the id of the event before it.
inductive Paced : Nat → List JobEvent → Nat → Prop
  | nil (low : Nat) : Paced low [] low
  | heartbeat {low high : Nat} {event : JobEvent} {events : List JobEvent}
      (htype : event.type = heartbeatType) (hid : event.id = low) (h : Paced low events high) :
      Paced low (event :: events) high
  | event {low high : Nat} {event : JobEvent} {events : List JobEvent}
      (htype : event.type ≠ heartbeatType) (hid : event.id = low + 1)
      (h : Paced (low + 1) events high) :
      Paced low (event :: events) high

namespace Paced

variable {low mid high : Nat} {events later : List JobEvent}

theorem append (h : Paced low events mid) (hlater : Paced mid later high) :
    Paced low (events ++ later) high := by
  induction h with
  | nil low => exact hlater
  | heartbeat htype hid h ih => exact .heartbeat htype hid (ih hlater)
  | event htype hid h ih => exact .event htype hid (ih hlater)

theorem le (h : Paced low events high) : low ≤ high := by
  induction h with
  | nil low => exact le_rfl
  | heartbeat htype hid h ih => exact ih
  | event htype hid h ih => omega

theorem take (h : Paced low events high) (count : Nat) :
    ∃ reached, reached ≤ high ∧ Paced low (events.take count) reached := by
  induction h generalizing count with
  | nil low => exact ⟨low, le_rfl, by simpa using .nil low⟩
  | @heartbeat low high event events htype hid h ih =>
      cases count with
      | zero => exact ⟨low, h.le, .nil low⟩
      | succ count =>
          obtain ⟨reached, hle, htake⟩ := ih count
          exact ⟨reached, hle, .heartbeat htype hid htake⟩
  | @event low high event events htype hid h ih =>
      cases count with
      | zero =>
          have := h.le
          exact ⟨low, by omega, .nil low⟩
      | succ count =>
          obtain ⟨reached, hle, htake⟩ := ih count
          exact ⟨reached, hle, .event htype hid htake⟩

theorem last (h : Paced low events high) : (events.getLast?.map (·.id)).getD low = high := by
  induction h with
  | nil low => rfl
  | @heartbeat low high event events htype hid h ih =>
      rw [List.getLast?_cons]
      cases hlast : events.getLast? <;> simp_all
  | @event low high event events htype hid h ih =>
      rw [List.getLast?_cons]
      cases hlast : events.getLast? <;> simp_all

-- Without the heartbeats every id comes once, in order.
theorem ids (h : Paced low events high) :
    (events.filter fun event => event.type ≠ heartbeatType).map (·.id) =
      List.range' (low + 1) (high - low) := by
  induction h with
  | nil low => simp
  | @heartbeat low high event events htype hid h ih =>
      rw [List.filter_cons_of_neg (by simp [htype])]
      exact ih
  | @event low high event events htype hid h ih =>
      have hle := h.le
      have hcount : high - low = high - (low + 1) + 1 := by omega
      rw [List.filter_cons_of_pos (by simp [htype]), List.map_cons, ih, hid, hcount,
        List.range'_succ]

end Paced

-- An event of a log that has lost nothing.
def Logged (event : JobEvent) : Prop := KnownType event ∧ event.id ≤ eventLogBound

def Gapless (log : List JobEvent) : Prop :=
  log.map (·.id) = List.range' 1 log.length ∧ ∀ event ∈ log, Logged event

theorem knownType_ne_heartbeat {event : JobEvent} (h : KnownType event) :
    event.type ≠ heartbeatType := by
  rcases h with htype | ⟨status, htype⟩
  · rw [htype]
    decide
  · rw [htype]
    cases status <;> decide

theorem filter_range' (last count : Nat) :
    (List.range' 1 count).filter (fun id => last < id) = List.range' (last + 1) (count - last) := by
  induction count with
  | zero => simp
  | succ count ih =>
      rw [List.range'_1_concat, List.filter_append, ih]
      by_cases hlast : last < 1 + count
      · have hcount : count + 1 - last = count - last + 1 := by omega
        have hnext : last + 1 + (count - last) = 1 + count := by omega
        rw [List.filter_cons_of_pos (by simpa using hlast), hcount, List.range'_1_concat, hnext]
        rfl
      · have hcount : count + 1 - last = count - last := by omega
        rw [List.filter_cons_of_neg (by simpa using hlast), hcount, List.filter_nil,
          List.append_nil]

-- The snapshot after an id goes on with the next one.
theorem Gapless.eventsSince {log : List JobEvent} (h : Gapless log) (last : Nat) :
    (eventsSince log (some last)).map (·.id) =
        List.range' (last + 1) (eventsSince log (some last)).length ∧
      ∀ event ∈ eventsSince log (some last), Logged event := by
  obtain ⟨hids, hlogged⟩ := h
  have hmap : (Jobs.eventsSince log (some last)).map (·.id) =
      List.range' (last + 1) (log.length - last) := by
    have hfilter := filter_range' last log.length
    rw [← hids, List.filter_map] at hfilter
    exact hfilter
  have hlength := congrArg List.length hmap
  rw [List.length_map, List.length_range'] at hlength
  exact ⟨by rw [hmap, hlength], fun event hevent => hlogged event (List.mem_of_mem_filter hevent)⟩

section Generator

-- The generator of a stream that was opened after the id `base`.
structure Paces (base : Nat) (gen : Gen) : Prop where
  paced : Paced base gen.yielded gen.sent
  bounded : gen.sent ≤ eventLogBound
  types : ∀ event ∈ gen.yielded, KnownType event ∨ event.type = heartbeatType
  pending : ∀ event rest, gen.pc = .yielding event rest →
    rest.map (·.id) = List.range' (gen.sent + 1) rest.length ∧ ∀ later ∈ rest, Logged later

variable {base : Nat} {gen : Gen}

-- The two ways to go on: with the next event, or with at most a heartbeat.
theorem Paces.yieldEvent (h : Paces base gen) {event : JobEvent} {rest : List JobEvent}
    (hids : (event :: rest).map (·.id) = List.range' (gen.sent + 1) (rest.length + 1))
    (hlogged : ∀ later ∈ event :: rest, Logged later) :
    Paces base (Streams.yieldEvent gen event rest) := by
  obtain ⟨hpaced, -, htypes, hpending⟩ := h
  rw [List.map_cons, List.range'_succ, List.cons.injEq] at hids
  obtain ⟨hknown, hbound⟩ := hlogged event List.mem_cons_self
  refine ⟨?_, hbound, fun sent hsent => ?_, fun event' rest' hpc => ?_⟩
  · refine hpaced.append (.event (knownType_ne_heartbeat hknown) hids.1 ?_)
    simp only [Streams.yieldEvent]
    rw [hids.1]
    exact .nil _
  · rcases List.mem_append.mp hsent with hsent | hsent
    · exact htypes sent hsent
    · exact .inl (List.mem_singleton.mp hsent ▸ hknown)
  · obtain ⟨rfl, rfl⟩ := GenPc.yielding.inj hpc
    refine ⟨?_, fun later hlater => hlogged later (List.mem_cons_of_mem event hlater)⟩
    rw [hids.2]
    simp only [Streams.yieldEvent]
    rw [hids.1]

theorem Paces.pause (h : Paces base gen) {gen' : Gen} (hsent : gen'.sent = gen.sent)
    (hyielded : gen'.yielded = gen.yielded ∨
      gen'.yielded = gen.yielded ++ [⟨gen.sent, heartbeatType, []⟩])
    (hpc : ∀ event rest, gen'.pc ≠ .yielding event rest) : Paces base gen' := by
  obtain ⟨hpaced, hbounded, htypes, -⟩ := h
  refine ⟨?_, by rwa [hsent], fun event hevent => ?_, fun event rest hyield => absurd hyield (hpc event rest)⟩
  · rw [hsent]
    rcases hyielded with heq | heq
    · rw [heq]
      exact hpaced
    · rw [heq]
      exact hpaced.append (.heartbeat rfl rfl (.nil _))
  · rcases hyielded with heq | heq
    · exact htypes event (heq ▸ hevent)
    · rw [heq] at hevent
      rcases List.mem_append.mp hevent with hevent | hevent
      · exact htypes event hevent
      · exact .inr (by rw [List.mem_singleton.mp hevent])

theorem Paces.statusCheck (h : Paces base gen) (job : JobId) (store : JobStore) (done : Bool) :
    Paces base (Streams.statusCheck job store { gen with done := done }) := by
  rcases statusCheck_cases job store { gen with done := done } with heq | heq
  · rw [heq]
    exact h.pause rfl (.inl rfl) (by simp)
  · rw [heq]
    exact h.pause rfl (.inr rfl) (by simp)

theorem Paces.takeSnapshot (h : Paces base gen) {job : JobId} {store : JobStore}
    (hlog : ∀ log, store.log job = .ok log → Gapless log) :
    Paces base (Streams.takeSnapshot job store gen) := by
  unfold Streams.takeSnapshot
  cases heq : store.log job with
  | error error => exact h.pause rfl (.inl rfl) (by simp)
  | ok log =>
      have hsnapshot := (hlog log heq).eventsSince gen.sent
      dsimp only
      cases hevents : Jobs.eventsSince log (some gen.sent) with
      | nil => exact h.pause rfl (.inl rfl) (by simp)
      | cons event rest =>
          rw [hevents] at hsnapshot
          exact h.yieldEvent hsnapshot.1 hsnapshot.2

theorem Paces.resume (h : Paces base gen) {job : JobId} {store : JobStore}
    (hlog : ∀ log, store.log job = .ok log → Gapless log) {gen' : Gen}
    (hs : Streams.resume job store gen = some gen') : Paces base gen' := by
  unfold Streams.resume at hs
  cases hpc : gen.pc with
  | created =>
      simp only [hpc, Option.some.injEq] at hs
      exact hs ▸ h.takeSnapshot hlog
  | sleeping =>
      simp only [hpc, Option.some.injEq] at hs
      exact hs ▸ h.takeSnapshot hlog
  | yielding event rest =>
      simp only [hpc, Option.some.injEq] at hs
      subst hs
      obtain ⟨done, hdone⟩ : ∃ done, (if isTerminalType event.type then { gen with done := true }
          else gen) = { gen with done := done } := by
        split
        · exact ⟨true, rfl⟩
        · exact ⟨gen.done, rfl⟩
      unfold afterEvent
      rw [hdone]
      cases rest with
      | nil => exact h.statusCheck job store done
      | cons next rest =>
          obtain ⟨hids, hlogged⟩ := h.pending event (next :: rest) hpc
          have hdone : Paces base { gen with done := done } :=
            ⟨h.paced, h.bounded, h.types, h.pending⟩
          exact hdone.yieldEvent hids hlogged
  | checking =>
      simp only [hpc, Option.some.injEq] at hs
      exact hs ▸ h.statusCheck job store gen.done
  | heartbeat =>
      simp only [hpc, Option.some.injEq] at hs
      subst hs
      exact h.pause rfl (.inl rfl) (by simp)
  | ended => simp [hpc] at hs
  | failed => simp [hpc] at hs
  | closed => simp [hpc] at hs

theorem paces_openStream {lastEventId : Option Nat} (h : lastEventId.getD 0 ≤ eventLogBound) :
    Paces (lastEventId.getD 0) (openStream lastEventId) :=
  ⟨.nil _, h, by simp [openStream], by simp [openStream]⟩

-- What a generator has yielded stays yielded.
theorem resume_yielded {job : JobId} {store : JobStore} {gen' : Gen}
    (hs : Streams.resume job store gen = some gen') :
    ∃ frames, gen'.yielded = gen.yielded ++ frames := by
  have hcheck : ∀ g : Gen, ∃ frames, (statusCheck job store g).yielded = g.yielded ++ frames := by
    intro g
    rcases statusCheck_cases job store g with heq | heq
    · exact ⟨[], by simp [heq]⟩
    · exact ⟨_, by rw [heq]⟩
  have hsnapshot : ∃ frames, (takeSnapshot job store gen).yielded = gen.yielded ++ frames := by
    unfold takeSnapshot
    split
    · exact ⟨[], by simp⟩
    · split
      · exact ⟨[], by simp⟩
      · exact ⟨_, rfl⟩
  unfold Streams.resume at hs
  cases hpc : gen.pc with
  | yielding event rest =>
      simp only [hpc, Option.some.injEq] at hs
      subst hs
      unfold afterEvent
      cases rest with
      | nil =>
          obtain ⟨frames, hframes⟩ := hcheck
            (if isTerminalType event.type then { gen with done := true } else gen)
          refine ⟨frames, hframes.trans ?_⟩
          split <;> rfl
      | cons next rest =>
          refine ⟨[next], ?_⟩
          simp only [Streams.yieldEvent]
          split <;> rfl
  | heartbeat =>
      simp only [hpc, Option.some.injEq] at hs
      exact ⟨[], by simp [← hs]⟩
  | checking =>
      simp only [hpc, Option.some.injEq] at hs
      exact hs ▸ hcheck gen
  | _ => simp_all

end Generator

section Runner

variable {fingerprint : Text → Python.Dict → Text} {job : JobId}

-- What is known of every job's events.
structure Recorded (s : Jobs.State) : Prop extends Sound s where
  lives : ∀ job life, s.life job = some life →
    life.Coherent ∧ ∀ event ∈ life.history, KnownType event

theorem recorded_initial : Recorded Jobs.initial :=
  ⟨sound_initial, by simp [State.life, Jobs.initial, JobStore.empty]⟩

theorem Recorded.step {s s' : Jobs.State} (h : Recorded s) {a : Jobs.Action}
    (hs : Jobs.step fingerprint s a = some s') : Recorded s' := by
  refine ⟨h.toSound.step hs, step_lives h.serial hs (fun record hq _ _ _ => ?_)
    (fun _ _ _ _ _ hstep hlife => ⟨hstep.coherent hlife.1, hstep.knownType hlife.1 hlife.2⟩)
    h.lives⟩
  refine ⟨coherent_created hq, fun event hevent => ?_⟩
  rw [List.mem_singleton.mp hevent]
  exact .inr ⟨.queued, rfl⟩

-- The job has logged no more events than its log can hold.
def Short (job : JobId) (s : Jobs.State) : Prop :=
  ∀ life, s.life job = some life → life.history.length ≤ eventLogBound

theorem short_of_step {s s' : Jobs.State} (h : Recorded s) {a : Jobs.Action}
    (hs : Jobs.step fingerprint s a = some s') (hshort : Short job s') : Short job s := by
  intro life hlife
  obtain ⟨life', hlife'⟩ := Option.isSome_iff_exists.mp
    (step_life_isSome h.serial hs (by rw [hlife]; rfl : (s.life job).isSome = true))
  have hbound := hshort life' hlife'
  rcases step_life h.serial hs hlife' with ⟨hnone, -⟩ | hsame | ⟨earlier, hearlier, hstep⟩
  · rw [hlife] at hnone
    cases hnone
  · obtain rfl := Option.some.inj (hlife.symm.trans hsame)
    exact hbound
  · obtain rfl := Option.some.inj (hlife.symm.trans hearlier)
    rcases hstep.history_cases with heq | ⟨type, data, heq⟩
    · rwa [heq] at hbound
    · rw [heq, List.length_append] at hbound
      omega

theorem Recorded.gapless {s : Jobs.State} (h : Recorded s) (hshort : Short job s)
    {log : List JobEvent} (hlog : s.store.log job = .ok log) : Gapless log := by
  unfold JobStore.log at hlog
  split at hlog
  · cases hlog
  · rename_i record hget
    obtain ⟨life, hlife, -⟩ := life_isSome hget
    have hhistory : life.history = s.history job := by
      obtain ⟨record, -, rfl⟩ := Option.map_eq_some_iff.mp hlife
      rfl
    have hbound := hshort life hlife
    have hevents : s.store.events job = life.history := by
      rw [h.serial.log, ← hhistory, JobStore.bounded, Nat.sub_eq_zero_of_le hbound, List.drop_zero]
    obtain rfl : life.history = log := hevents.symm.trans (Except.ok.inj hlog)
    have hnumbered := h.numbered job life hlife
    refine ⟨hnumbered, fun event hevent => ⟨(h.lives job life hlife).2 event hevent, ?_⟩⟩
    have hid : event.id ∈ life.history.map (·.id) := List.mem_map_of_mem hevent
    rw [hnumbered, List.mem_range'_1] at hid
    omega

end Runner

section Client

variable (numbers : Json.NumberText)

theorem oneLine_isAscii {event : JobEvent} (h : KnownType event ∨ event.type = heartbeatType) :
    OneLine event.type ∧ IsAscii event.type := by
  have hvalue : ∀ status : JobStatus, OneLine status.value ∧ IsAscii status.value := by
    intro status
    cases status <;> (unfold OneLine; decide)
  rcases h with (htype | ⟨status, htype⟩) | htype
  · rw [htype]
    unfold OneLine
    decide
  · rw [htype]
    exact hvalue status
  · rw [htype]
    unfold OneLine
    decide

-- A client that reads a response: `earlier` was delivered from the connections
-- before, the rest is what the bytes read so far have completed.
structure Reads (client : Client) (state : SseState) (connection : Connection)
    (earlier : List JobEvent) (base : Nat) : Prop where
  past : Paced 0 earlier base
  paces : Paces base connection.gen
  read : connection.read ≤ (connection.text numbers).length
  parser : (feedSse initialSseState ((connection.text numbers).take connection.read)).state = state
  delivered : client.delivered = earlier.map (parsed numbers) ++
    (feedSse initialSseState ((connection.text numbers).take connection.read)).events

structure Exact (client : Client) (connection : Option Connection) : Prop where
  idle : client.decoder.utf8.needed = 0
  remembers : client.Remembers
  reached : ∃ events high, client.delivered = events.map (parsed numbers) ∧
    Paced 0 events high ∧ high ≤ eventLogBound
  reading : ∀ state, client.pc = .reading state → ∃ current earlier base,
    connection = some current ∧ Reads numbers client state current earlier base

variable {numbers}

-- The bytes read, as the parser sees them: whole frames of the stream.
theorem Reads.reached {client : Client} {state : SseState} {connection : Connection}
    {earlier : List JobEvent} {base : Nat}
    (h : Reads numbers client state connection earlier base) :
    ∃ events high, client.delivered = events.map (parsed numbers) ∧
      Paced 0 events high ∧ high ≤ eventLogBound := by
  have htype : ∀ event ∈ connection.gen.yielded, OneLine event.type := fun event hevent =>
    (oneLine_isAscii (h.paces.types event hevent)).1
  obtain ⟨count, hcount⟩ := feedSse_cut numbers (s := initialSseState) ⟨rfl, rfl, rfl⟩
    connection.gen.yielded htype (List.take_append_drop connection.read _)
  obtain ⟨high, hle, htake⟩ := h.paces.paced.take count
  refine ⟨earlier ++ connection.gen.yielded.take count, high, ?_, h.past.append htake,
    hle.trans h.paces.bounded⟩
  rw [h.delivered, List.map_append]
  exact congrArg (earlier.map (parsed numbers) ++ ·) hcount

-- Losing or leaving the connection.
theorem Exact.leave {client : Client} {connection : Option Connection}
    (h : Exact numbers client connection) {client' : Client}
    (hdecoder : client'.decoder = client.decoder) (hid : client'.lastId = client.lastId)
    (hdelivered : client'.delivered = client.delivered)
    (hpc : ∀ state, client'.pc ≠ .reading state) : Exact numbers client' none := by
  obtain ⟨hidle, hremembers, hreached, -⟩ := h
  refine ⟨by rw [hdecoder]; exact hidle, ?_, by rw [hdelivered]; exact hreached,
    fun state hreading => absurd hreading (hpc state)⟩
  unfold Client.Remembers at hremembers ⊢
  rw [hid, hdelivered]
  exact hremembers

theorem Exact.failed {client : Client} {connection : Option Connection}
    (h : Exact numbers client connection) (maxRetries : Nat) :
    Exact numbers (client.failed maxRetries) none := by
  refine h.leave rfl rfl rfl fun state => ?_
  simp only [Client.failed]
  split <;> simp

theorem Exact.finished {client : Client} {connection : Option Connection}
    (h : Exact numbers client connection) : Exact numbers client.finished none :=
  h.leave rfl rfl rfl (by simp [Client.finished])

-- The header names the last id reached.
theorem Exact.header {client : Client} {connection : Option Connection}
    (h : Exact numbers client connection) {events : List JobEvent} {high : Nat}
    (hdelivered : client.delivered = events.map (parsed numbers)) (hpaced : Paced 0 events high) :
    client.lastEventIdHeader = events.getLast?.map fun _ => decimal high := by
  have hlast := hpaced.last
  have hremembers := h.remembers
  rw [Client.Remembers, hdelivered, List.getLast?_map] at hremembers
  rw [Client.lastEventIdHeader, hremembers]
  cases hevents : events.getLast? with
  | none => rfl
  | some event =>
      have hid : event.id = high := by simpa [hevents] using hlast
      simp [parsed, hid]

theorem lastEventIdOf_decimal {high : Nat} (h : high ≤ eventLogBound) :
    lastEventIdOf (some (decimal high)) = some (some high) := by
  have hdigits : (decimal high).all isDecimalDigit = true :=
    List.all_eq_true.mpr fun u hu => isDecimalDigit_of_mem hu
  have hall : (decimal high).all isDigit = true := by
    refine List.all_eq_true.mpr fun u hu => ?_
    rw [isDigit, isDecimalDigit_of_mem hu]
    rfl
  have hlength : (decimal high).length ≤ maxStrDigits := by
    have := length_decimal_le high
    unfold eventLogBound at h
    unfold maxStrDigits
    omega
  simp [lastEventIdOf, decimal_ne_nil, hall, intOf, hdigits, hlength, ofDecimal_decimal]

-- A new connection goes on where the ones before it stopped.
theorem Exact.connected {client : Client} {connection : Option Connection}
    (h : Exact numbers client connection) {lastEventId : Option Nat}
    (hraw : lastEventIdOf client.lastEventIdHeader = some lastEventId) :
    Exact numbers client.connected (some ⟨openStream lastEventId, 0⟩) := by
  obtain ⟨events, high, hdelivered, hpaced, hbound⟩ := h.reached
  have hheader := h.header hdelivered hpaced
  have hbase : lastEventId.getD 0 = high := by
    cases hevents : events.getLast? with
    | none =>
        have hnil := List.getLast?_eq_none_iff.mp hevents
        rw [hheader, hevents] at hraw
        obtain rfl : none = lastEventId := Option.some.inj hraw
        subst hnil
        cases hpaced
        rfl
    | some event =>
        rw [hheader, hevents, Option.map_some, lastEventIdOf_decimal hbound] at hraw
        rw [← Option.some.inj hraw]
        rfl
  refine ⟨h.idle, h.remembers, h.reached, fun state hreading => ?_⟩
  obtain rfl : initialSseState = state := ClientPc.reading.inj hreading
  refine ⟨_, events, high, rfl, hpaced, hbase ▸ paces_openStream (by omega), Nat.zero_le _, ?_, ?_⟩
  · rfl
  · rw [List.take_zero]
    exact hdelivered.trans (List.append_nil _).symm

theorem Connection.text_resume {connection : Connection} {gen : Gen} {frames : List JobEvent}
    (h : gen.yielded = connection.gen.yielded ++ frames) :
    Connection.text numbers { connection with gen := gen } =
      connection.text numbers ++ frames.flatMap (sse numbers) := by
  simp [Connection.text, h]

theorem Exact.resume {client : Client} {connection : Connection}
    (h : Exact numbers client (some connection)) {job : JobId} {store : JobStore}
    (hlog : ∀ log, store.log job = .ok log → Gapless log) {gen : Gen}
    (hs : Streams.resume job store connection.gen = some gen) :
    Exact numbers client (some { connection with gen := gen }) := by
  refine ⟨h.idle, h.remembers, h.reached, fun state hreading => ?_⟩
  obtain ⟨_, earlier, base, ⟨⟩, hreads⟩ := h.reading state hreading
  obtain ⟨frames, hframes⟩ := resume_yielded hs
  have htext := @Connection.text_resume numbers connection gen frames hframes
  have htake : (Connection.text numbers { connection with gen := gen }).take connection.read =
      (connection.text numbers).take connection.read := by
    rw [htext, List.take_append_of_le_length hreads.read]
  refine ⟨_, earlier, base, rfl, hreads.past, hreads.paces.resume hlog hs, ?_, ?_, ?_⟩
  · rw [htext, List.length_append]
    exact hreads.read.trans (Nat.le_add_right _ _)
  · rw [htake]
    exact hreads.parser
  · rw [htake]
    exact hreads.delivered

theorem take_add_chunk (text : Text) (read count : Nat) :
    text.take (read + ((text.drop read).take count).length) =
      text.take read ++ (text.drop read).take count := by
  rw [List.take_add, List.length_take, ← List.take_eq_take_min]

-- The parser after one more chunk, and what the chunk completes.
theorem Reads.chunk {client : Client} {state : SseState} {connection : Connection}
    {earlier : List JobEvent} {base : Nat}
    (h : Reads numbers client state connection earlier base) (count : Nat) :
    let chunk := ((connection.text numbers).drop connection.read).take count
    IsAscii chunk ∧ feedSse initialSseState
        ((connection.text numbers).take (connection.read + chunk.length)) =
      (feedSse initialSseState ((connection.text numbers).take connection.read)).andThen
        (feedSse state chunk) := by
  intro chunk
  have hyielded := fun event hevent => oneLine_isAscii (h.paces.types event hevent)
  constructor
  · intro u hu
    have hmem : u ∈ connection.text numbers := List.mem_of_mem_drop (List.mem_of_mem_take hu)
    exact isAscii_flatMap numbers (fun event hevent => (hyielded event hevent).2) u hmem
  · have hcr : cr ∉ (connection.text numbers).take connection.read := by
      intro hmem
      exact cr_notMem_flatMap numbers (fun event hevent => (hyielded event hevent).1)
        (List.mem_of_mem_take hmem)
    rw [take_add_chunk, feedSse_append _ _ _ (.inl (endsCr_of_notMem (by simpa [initialSseState] using hcr))),
      h.parser]

theorem Exact.receive {client : Client} {connection : Connection}
    (h : Exact numbers client (some connection)) {state : SseState}
    (hreading : client.pc = .reading state) (count : Nat) :
    let chunk := ((connection.text numbers).drop connection.read).take count
    Exact numbers (client.receive state (asciiBytes chunk))
      (some { connection with read := connection.read + chunk.length }) := by
  intro chunk
  obtain ⟨_, earlier, base, ⟨⟩, hreads⟩ := h.reading state hreading
  obtain ⟨hascii, hfeed⟩ := hreads.chunk count
  obtain ⟨hidle, htext⟩ := decode_ascii h.idle hascii
  set fed := feedSse state chunk with hfed
  have hclient : client.receive state (asciiBytes chunk) = fed.events.foldl Client.deliver
      { client with
        decoder := (client.decoder.decode (asciiBytes chunk)).1, pc := .reading fed.state } := by
    rw [Client.receive, htext]
  obtain ⟨hdelivered, hpc, hdecoder⟩ := foldl_deliver fed.events
    { client with
      decoder := (client.decoder.decode (asciiBytes chunk)).1, pc := .reading fed.state }
  rw [← hclient] at hdelivered hpc hdecoder
  have hnext : Reads numbers (client.receive state (asciiBytes chunk)) fed.state
      { connection with read := connection.read + chunk.length } earlier base := by
    have hparser := congrArg SseFeed.state hfeed
    refine ⟨hreads.past, hreads.paces, ?_, hparser, ?_⟩
    · have hlength : chunk.length ≤ (connection.text numbers).length - connection.read := by
        rw [List.length_take, List.length_drop]
        omega
      have := hreads.read
      simp only [Connection.text] at hlength this ⊢
      omega
    · rw [hdelivered, hreads.delivered, List.append_assoc]
      exact congrArg (earlier.map (parsed numbers) ++ ·) (congrArg SseFeed.events hfeed).symm
  refine ⟨hdecoder ▸ hidle, ?_, hnext.reached, fun state' hreading' => ?_⟩
  · rw [hclient]
    refine remembers_foldl (fun event hevent => ?_) h.remembers
    obtain ⟨events, high, hevents, -⟩ := hnext.reached
    have hmem : event ∈ (client.receive state (asciiBytes chunk)).delivered := by
      rw [hdelivered]
      exact List.mem_append_right _ hevent
    rw [hevents] at hmem
    obtain ⟨source, -, rfl⟩ := List.mem_map.mp hmem
    simp [parsed]
  · rw [hpc] at hreading'
    obtain rfl := ClientPc.reading.inj hreading'
    exact ⟨_, earlier, base, rfl, hnext⟩

end Client

section Streams

variable {fingerprint : Text → Python.Dict → Text} {job : JobId}

-- What a step of the stream is for its two halves.
theorem runner_of_stream {s s' : Streams.State} {a : Jobs.Action}
    (hs : Streams.step fingerprint job s (.runner a) = some s') :
    Jobs.step fingerprint s.runner a = some s'.runner := by
  have hmap : ∀ a, (Jobs.step fingerprint s.runner a).map (fun runner =>
      ({ s with runner := runner } : Streams.State)) = some s' →
      Jobs.step fingerprint s.runner a = some s'.runner := by
    intro a hmap
    obtain ⟨runner, hr, rfl⟩ := Option.map_eq_some_iff.mp hmap
    exact hr
  cases a with
  | loop action =>
      simp only [Streams.step] at hs
      split at hs
      · cases hs
      · exact hmap _ hs
  | nextSection => exact hmap _ hs
  | thread job' action => exact hmap _ hs

theorem gen_of_resume {s s' : Streams.State} (hs : Streams.step fingerprint job s .resume = some s') :
    Streams.resume job s.runner.store s.gen = some s'.gen := by
  simp only [Streams.step] at hs
  split at hs
  · obtain ⟨gen, hgen, rfl⟩ := Option.map_eq_some_iff.mp hs
    exact hgen
  · cases hs

end Streams

section Runs

variable {fingerprint : Text → Python.Dict → Text} {numbers : Json.NumberText}
  {job : JobId} {maxRetries : Nat}

structure Linked (numbers : Json.NumberText) (job : JobId) (s : State) : Prop where
  recorded : Recorded s.runner
  exact : Short job s.runner → Exact numbers s.client s.connection

theorem linked_initial : Linked numbers job initial := by
  refine ⟨recorded_initial, fun _ => ⟨rfl, rfl, ⟨[], 0, rfl, .nil 0, Nat.zero_le _⟩, ?_⟩⟩
  simp [initial, createEventStream]

theorem exact_connect {s : State} (h : Exact numbers s.client s.connection) :
    Exact numbers (connect job maxRetries s).client (connect job maxRetries s).connection := by
  unfold connect
  split
  · rename_i hraw
    exact h.connected hraw
  · exact h.failed maxRetries

theorem step_linked {s s' : State} (h : Linked numbers job s) {a : Action}
    (hs : step numbers fingerprint job maxRetries s a = some s') : Linked numbers job s' := by
  obtain ⟨hrecorded, hexact⟩ := h
  -- a step that leaves the runner alone
  have hstays : ∀ {s'' : State}, s''.runner = s.runner →
      (Exact numbers s.client s.connection → Exact numbers s''.client s''.connection) →
      Linked numbers job s'' := by
    intro s'' hrunner hstep
    exact ⟨by rwa [hrunner], fun hshort => hstep (hexact (by rwa [hrunner] at hshort))⟩
  cases a with
  | runner action =>
      have hrun : ∀ runner, Jobs.step fingerprint s.runner action = some runner →
          Linked numbers job { s with runner := runner } := fun runner hr =>
        ⟨hrecorded.step hr, fun hshort => hexact (short_of_step hrecorded hr hshort)⟩
      simp only [step] at hs
      split at hs
      · obtain ⟨runner, hr, rfl⟩ := Option.map_eq_some_iff.mp hs
        exact hrun runner hr
      · obtain ⟨stream, hr, rfl⟩ := Option.map_eq_some_iff.mp hs
        exact hrun stream.runner (runner_of_stream hr)
  | connect =>
      simp only [step] at hs
      split at hs
      · cases hs
        refine hstays ?_ exact_connect
        unfold connect
        split <;> rfl
      · cases hs
  | connectFails =>
      simp only [step] at hs
      split at hs
      · cases hs
        exact hstays rfl fun h => h.failed maxRetries
      · cases hs
  | resume =>
      simp only [step] at hs
      split at hs
      · rename_i connection hconnection
        obtain ⟨stream, hr, rfl⟩ := Option.map_eq_some_iff.mp hs
        refine ⟨hrecorded, fun hshort => ?_⟩
        have hgen := gen_of_resume hr
        have hbefore := hexact hshort
        rw [hconnection] at hbefore
        exact hbefore.resume (fun log hlog => hrecorded.gapless hshort hlog) hgen
      · cases hs
  | receive count =>
      simp only [step] at hs
      split at hs
      · rename_i state connection hreading hconnection
        cases hs
        refine hstays rfl fun h => ?_
        rw [hconnection] at h
        exact h.receive hreading count
      · cases hs
  | drop =>
      simp only [step] at hs
      split at hs
      · cases hs
        exact hstays rfl fun h => h.failed maxRetries
      · cases hs
  | done =>
      simp only [step] at hs
      split at hs
      · split at hs
        · split at hs
          · cases hs
            exact hstays rfl fun h => h.finished
          · cases hs
        · cases hs
      · cases hs
  | abort =>
      cases hs
      exact hstays rfl fun h => h.finished

-- Whatever is dropped, the events delivered have the ids 1, 2, 3, ... and each
-- request would name the last of them.
theorem exactly_once {s : State}
    (h : Reachable (step numbers fingerprint job maxRetries) initial s)
    (hseq : s.runner.store.seq job ≤ eventLogBound) :
    let events := s.client.delivered.filter fun event => event.event ≠ heartbeatType
    events.map (·.id) = (List.range' 1 events.length).map (fun id => some (decimal id)) ∧
      match events.getLast? with
      | some event => s.client.lastEventIdHeader = event.id
      | none => s.client.lastEventIdHeader = none ∨ s.client.lastEventIdHeader = some (ascii "0") := by
  obtain ⟨hrecorded, hexact⟩ := h.invariant (Linked numbers job) linked_initial
    fun _ _ _ hinv _ hs => step_linked hinv hs
  have hshort : Short job s.runner := by
    intro life hlife
    obtain ⟨record, -, rfl⟩ := Option.map_eq_some_iff.mp hlife
    rwa [hrecorded.serial.seq] at hseq
  obtain ⟨sent, high, hdelivered, hpaced, -⟩ := (hexact hshort).reached
  have hheader := (hexact hshort).header hdelivered hpaced
  intro events
  have hevents : events = (sent.filter fun event => event.type ≠ heartbeatType).map
      (parsed numbers) := by
    show s.client.delivered.filter _ = _
    rw [hdelivered, List.filter_map]
    rfl
  have hids : events.map (·.id) = (List.range' 1 high).map fun id => some (decimal id) := by
    have hpace := congrArg (List.map fun id => some (decimal id)) hpaced.ids
    rw [List.map_map] at hpace
    rw [hevents, List.map_map]
    exact hpace
  have hlength : events.length = high := by
    have := congrArg List.length hids
    simpa using this
  refine ⟨by rw [hlength]; exact hids, ?_⟩
  have hlast := congrArg List.getLast? hids
  rw [List.getLast?_map, List.getLast?_map] at hlast
  by_cases hhigh : high = 0
  · have hnone : events.getLast? = none := by
      rw [List.getLast?_eq_none_iff, ← List.length_eq_zero_iff, hlength, hhigh]
    rw [hnone, hheader, hhigh]
    cases sent.getLast? with
    | none => exact .inl rfl
    | some event => exact .inr rfl
  · have hsome : sent.getLast? ≠ none := by
      intro hnone
      have hnil := List.getLast?_eq_none_iff.mp hnone
      rw [hevents, hnil] at hlength
      exact hhigh hlength.symm
    have hrange : (List.range' 1 high).getLast? = some high := by
      rw [List.getLast?_range', if_neg hhigh]
      congr 1
      omega
    obtain ⟨event, hevent⟩ := Option.ne_none_iff_exists'.mp hsome
    rw [hrange] at hlast
    obtain ⟨final, hfinal, hid⟩ := Option.map_eq_some_iff.mp hlast
    rw [hfinal, hheader, hevent]
    exact hid.symm

-- A connection is lost in the middle of the second frame's id.
def sampleDrop : List Action :=
  sampleStart.map .runner ++ [.connect, .resume, .receive 30, .resume, .receive 4, .drop,
    .connect, .resume, .receive 40]

theorem exactly_once_sampleDrop :
    ∃ s, run (step sampleNumbers sampleFingerprint sampleJob 5) initial sampleDrop = some s ∧
      s.client.delivered.length = 2 ∧
      let events := s.client.delivered.filter fun event => event.event ≠ heartbeatType
      events.map (·.id) = (List.range' 1 events.length).map (fun id => some (decimal id)) ∧
        match events.getLast? with
        | some event => s.client.lastEventIdHeader = event.id
        | none => s.client.lastEventIdHeader = none ∨
            s.client.lastEventIdHeader = some (ascii "0") := by
  obtain ⟨s, hs⟩ : ∃ s, run (step sampleNumbers sampleFingerprint sampleJob 5) initial sampleDrop =
      some s := ⟨_, rfl⟩
  obtain ⟨hlength, hseq⟩ : s.client.delivered.length = 2 ∧ s.runner.store.seq sampleJob = 2 := by
    cases hs
    exact ⟨rfl, rfl⟩
  exact ⟨s, hs, hlength, exactly_once (Reachable.of_run hs) (by rw [hseq]; decide)⟩

end Runs

end Cosmos3.Link
