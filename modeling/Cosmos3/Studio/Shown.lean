import Cosmos3.Studio.Told

namespace Cosmos3.Studio

open Basis Jobs Sse Streams

section Trackings

variable {numbers : Json.NumberText} {fingerprint : Text → Python.Dict → Text} {s s' : Jobs.State}
  {t : Tracking}

-- The client has read whole frames of its job's events, as far as it has come.
structure Tracking.Sound (numbers : Json.NumberText) (s : Jobs.State) (t : Tracking) : Prop where
  idle : t.client.decoder.utf8.needed = 0
  sourced : ∀ connection, t.connection = some connection → Sourced s t.job connection.gen
  read : ∀ connection, t.connection = some connection → connection.read ≤ (connection.text numbers).length
  parser : ∀ state, t.client.pc = .reading state → ∃ connection, t.connection = some connection ∧
    (feedSse initialSseState ((connection.text numbers).take connection.read)).state = state

theorem Tracking.Sound.step {a : Jobs.Action} (h : t.Sound numbers s) (ht : Truthful s)
    (hs : Jobs.step fingerprint s a = some s') : t.Sound numbers s' :=
  ⟨h.idle, fun connection heq => (h.sourced connection heq).step ht hs, h.read, h.parser⟩

theorem sound_new (job : JobId) : Tracking.Sound numbers s ⟨job, none, createEventStream, false⟩ :=
  ⟨rfl, by simp, by simp, by simp [createEventStream]⟩

-- What a step of the stream comes to.
structure Streamed (numbers : Json.NumberText) (s : Jobs.State) (t : Tracking) (link : Link.State) : Prop where
  sound : (t.follow link).Sound numbers s
  delivered : ∃ events : List JobEvent, link.client.delivered = t.client.delivered ++ events.map (parsed numbers) ∧
    ∀ event ∈ events, Frame s t.job event

-- Losing or leaving the connection.
theorem Tracking.Sound.leave (h : t.Sound numbers s) {link : Link.State} (hconnection : link.connection = none)
    (hdecoder : link.client.decoder = t.client.decoder) (hdelivered : link.client.delivered = t.client.delivered)
    (hpc : ∀ state, link.client.pc ≠ .reading state) : Streamed numbers s t link := by
  refine ⟨⟨?_, ?_, ?_, fun state hreading => absurd hreading (hpc state)⟩, [], ?_, by simp⟩
  · exact (congrArg (fun decoder => decoder.utf8.needed) hdecoder).trans h.idle
  · simp [Tracking.follow, hconnection]
  · simp [Tracking.follow, hconnection]
  · simp [hdelivered]

theorem failed_pc (client : Client) (maxRetries : ℕ) (state : SseState) :
    (client.failed maxRetries).pc ≠ .reading state := by
  unfold Client.failed
  dsimp only
  split_ifs <;> simp

theorem Tracking.Sound.failed (h : t.Sound numbers s) (maxRetries : ℕ) :
    Streamed numbers s t ⟨s, none, t.client.failed maxRetries⟩ :=
  h.leave rfl rfl rfl (failed_pc t.client maxRetries)

theorem Tracking.Sound.finished (h : t.Sound numbers s) : Streamed numbers s t ⟨s, none, t.client.finished⟩ :=
  h.leave rfl rfl rfl (by simp [Client.finished])

theorem Tracking.Sound.connect (h : t.Sound numbers s) (maxRetries : ℕ) :
    Streamed numbers s t (Link.connect t.job maxRetries (t.link s)) := by
  unfold Link.connect
  split
  · rename_i record lastEventId hget hid
    have hknown : (s.life t.job).isSome = true := by
      obtain ⟨life, hlife, -⟩ := life_isSome hget
      exact Option.isSome_of_eq_some hlife
    refine ⟨⟨h.idle, ?_, ?_, ?_⟩, [], (List.append_nil _).symm, by simp⟩
    · intro connection heq
      obtain rfl := Option.some.inj heq
      exact sourced_openStream hknown lastEventId
    · intro connection heq
      obtain rfl := Option.some.inj heq
      exact Nat.zero_le _
    · intro state hreading
      obtain rfl := ClientPc.reading.inj hreading
      exact ⟨_, rfl, rfl⟩
  · exact h.failed maxRetries

theorem Tracking.Sound.resume (h : t.Sound numbers s) (ht : Truthful s) {connection : Link.Connection}
    (hconnection : t.connection = some connection) {gen : Gen}
    (hs : Streams.resume t.job s.store connection.gen = some gen) :
    Streamed numbers s t ⟨s, some { connection with gen := gen }, t.client⟩ := by
  obtain ⟨frames, hframes⟩ := Link.resume_yielded hs
  have htext := @Link.Connection.text_resume numbers connection gen frames hframes
  have hread := h.read connection hconnection
  refine ⟨⟨h.idle, ?_, ?_, ?_⟩, [], (List.append_nil _).symm, by simp⟩
  · intro other heq
    obtain rfl := Option.some.inj heq
    exact (h.sourced connection hconnection).resume ht hs
  · intro other heq
    obtain rfl := Option.some.inj heq
    rw [htext, List.length_append]
    exact hread.trans (Nat.le_add_right _ _)
  · intro state hreading
    obtain ⟨other, heq, hparser⟩ := h.parser state hreading
    obtain rfl := Option.some.inj (hconnection.symm.trans heq)
    refine ⟨_, rfl, ?_⟩
    rw [htext, List.take_append_of_le_length hread]
    exact hparser

-- One more chunk completes frames of the text.
theorem Tracking.Sound.chunk (h : t.Sound numbers s) (ht : Truthful s) {connection : Link.Connection}
    (hconnection : t.connection = some connection) {state : SseState} (hreading : t.client.pc = .reading state)
    (count : ℕ) :
    let chunk := ((connection.text numbers).drop connection.read).take count
    IsAscii chunk ∧
      (feedSse initialSseState ((connection.text numbers).take (connection.read + chunk.length))).state =
        (feedSse state chunk).state ∧
      ∃ events : List JobEvent, (feedSse state chunk).events = events.map (parsed numbers) ∧
        ∀ event ∈ events, Frame s t.job event := by
  intro chunk
  have hsourced := h.sourced connection hconnection
  have htypes : ∀ event ∈ connection.gen.yielded, OneLine event.type ∧ IsAscii event.type :=
    fun event hevent => Link.oneLine_isAscii ((hsourced.yielded event hevent).known ht)
  obtain ⟨other, heq, hparser⟩ := h.parser state hreading
  obtain rfl := Option.some.inj (hconnection.symm.trans heq)
  have hcr : cr ∉ (connection.text numbers).take connection.read := fun hmem =>
    cr_notMem_flatMap numbers (fun event hevent => (htypes event hevent).1) (List.mem_of_mem_take hmem)
  have hfeed : feedSse initialSseState ((connection.text numbers).take (connection.read + chunk.length)) =
      (feedSse initialSseState ((connection.text numbers).take connection.read)).andThen (feedSse state chunk) := by
    rw [Link.take_add_chunk, feedSse_append _ _ _ (.inl (endsCr_of_notMem (by simpa [initialSseState] using hcr))),
      hparser]
  refine ⟨fun u hu => ?_, (congrArg SseFeed.state hfeed).trans rfl, ?_⟩
  · have hmem : u ∈ connection.text numbers := List.mem_of_mem_drop (List.mem_of_mem_take hu)
    exact isAscii_flatMap numbers (fun event hevent => (htypes event hevent).2) u hmem
  · obtain ⟨whole, hwhole⟩ := feedSse_cut numbers (s := initialSseState) ⟨rfl, rfl, rfl⟩ connection.gen.yielded
      (fun event hevent => (htypes event hevent).1)
      (List.take_append_drop (connection.read + chunk.length) _)
    -- the frames that were complete before come first
    have hsplit : (connection.gen.yielded.take whole).map (parsed numbers) =
        (feedSse initialSseState ((connection.text numbers).take connection.read)).events ++
          (feedSse state chunk).events :=
      hwhole.symm.trans (congrArg SseFeed.events hfeed)
    obtain ⟨earlier, events, hevents, -, hlater⟩ := List.map_eq_append_iff.mp hsplit
    refine ⟨events, hlater.symm, fun event hevent => hsourced.yielded event ?_⟩
    exact List.mem_of_mem_take (hevents ▸ List.mem_append_right earlier hevent)

theorem Tracking.Sound.receive (h : t.Sound numbers s) (ht : Truthful s) {connection : Link.Connection}
    (hconnection : t.connection = some connection) {state : SseState} (hreading : t.client.pc = .reading state)
    (count : ℕ) : Streamed numbers s t (Link.receive numbers (t.link s) connection state count) := by
  obtain ⟨hascii, hstate, events, hevents, hframes⟩ := h.chunk ht hconnection hreading count
  have hread := h.read connection hconnection
  unfold Link.receive
  dsimp only
  generalize hchunk : ((connection.text numbers).drop connection.read).take count = chunk at *
  obtain ⟨hidle, htext⟩ := decode_ascii h.idle hascii
  have hclient : t.client.receive state (asciiBytes chunk) = (feedSse state chunk).events.foldl Client.deliver
      { t.client with
        decoder := (t.client.decoder.decode (asciiBytes chunk)).1, pc := .reading (feedSse state chunk).state } := by
    rw [Client.receive, htext]
  obtain ⟨hdelivered, hpc, hdecoder⟩ := foldl_deliver (feedSse state chunk).events
    { t.client with
      decoder := (t.client.decoder.decode (asciiBytes chunk)).1, pc := .reading (feedSse state chunk).state }
  rw [← hclient] at hdelivered hpc hdecoder
  refine ⟨⟨?_, ?_, ?_, ?_⟩, events, ?_, hframes⟩
  · exact (congrArg (fun decoder => decoder.utf8.needed) hdecoder).trans hidle
  · intro other heq
    obtain rfl := Option.some.inj heq
    exact h.sourced connection hconnection
  · intro other heq
    obtain rfl := Option.some.inj heq
    have hlength : chunk.length ≤ (connection.text numbers).length - connection.read := by
      rw [← hchunk, List.length_take, List.length_drop]
      omega
    simp only [Link.Connection.text] at hlength hread ⊢
    omega
  · intro other hother
    obtain rfl := ClientPc.reading.inj (hpc.symm.trans hother)
    exact ⟨_, rfl, hstate⟩
  · rw [← hevents]
    exact hdelivered

theorem Tracking.Sound.follow (h : t.Sound numbers s) (ht : Truthful s) {action : Link.Action}
    (hpermits : t.permits action = true) {maxRetries : ℕ} {link : Link.State}
    (hs : Link.step numbers fingerprint t.job maxRetries (t.link s) action = some link) :
    Streamed numbers s t link := by
  cases action with
  | runner action => exact absurd hpermits (by simp [Tracking.permits])
  | connect =>
      simp only [Link.step] at hs
      split at hs
      · exact Option.some.inj hs ▸ h.connect maxRetries
      · simp at hs
  | connectFails =>
      simp only [Link.step] at hs
      split at hs
      · exact Option.some.inj hs ▸ h.failed maxRetries
      · simp at hs
  | resume =>
      simp only [Link.step] at hs
      split at hs
      · rename_i connection hconnection
        obtain ⟨stream, hr, rfl⟩ := Option.map_eq_some_iff.mp hs
        exact h.resume ht hconnection (Link.gen_of_resume hr)
      · simp at hs
  | receive count =>
      simp only [Link.step] at hs
      split at hs
      · rename_i state connection hreading hconnection
        exact Option.some.inj hs ▸ h.receive ht hconnection hreading count
      · simp at hs
  | drop =>
      simp only [Link.step] at hs
      split at hs
      · exact Option.some.inj hs ▸ h.failed maxRetries
      · simp at hs
  | done =>
      simp only [Link.step] at hs
      split at hs
      · split at hs
        · split at hs
          · exact Option.some.inj hs ▸ h.finished
          · simp at hs
        · simp at hs
      · simp at hs
  | abort =>
      simp only [Link.step] at hs
      exact Option.some.inj hs ▸ h.finished

end Trackings

section Views

variable {numbers : Json.NumberText} {fingerprint : Text → Python.Dict → Text} {s s' : Jobs.State}
  {heard : List JobId} {view : JobView}

-- What an event can do to the status.
theorem reduceJobEvent_cases (numbers : Json.NumberText) (view : JobView) (ev : SseEvent) :
    ((reduceJobEvent numbers view ev).status = view.status ∧
      (reduceJobEvent numbers view ev).terminal = view.terminal) ∨
    ((reduceJobEvent numbers view ev).status = .job .running ∧ (reduceJobEvent numbers view ev).terminal = false ∧
      (ev.event = JobStatus.running.value ∨ ev.event = progressType)) ∨
    ∃ said : JobStatus, said.isTerminal = true ∧ ev.event = said.value ∧
      (reduceJobEvent numbers view ev).status = .job said := by
  unfold reduceJobEvent
  dsimp only
  split_ifs with hrunning hended hprogress hended hsucceeded hfailed hcancelled hwarning
  · exact .inl ⟨rfl, rfl⟩
  · exact .inr (.inl ⟨rfl, by simpa using hended, .inl hrunning⟩)
  · exact .inl ⟨rfl, rfl⟩
  · exact .inr (.inl ⟨rfl, by simpa using hended, .inr hprogress⟩)
  · exact .inr (.inr ⟨.succeeded, rfl, hsucceeded, rfl⟩)
  · exact .inr (.inr ⟨.failed, rfl, hfailed, rfl⟩)
  · exact .inr (.inr ⟨.cancelled, rfl, hcancelled, rfl⟩)
  · exact .inl ⟨rfl, rfl⟩
  · exact .inl ⟨rfl, rfl⟩

-- The status shown was true of a job that the view has heard of.
def Shows (s : Jobs.State) (heard : List JobId) (view : JobView) : Prop :=
  ∃ said : JobStatus, view.status = .job said ∧ (view.terminal = true → said.isTerminal = true) ∧
    (said = .queued ∨ ∃ job ∈ heard, Backed s job said)

theorem Shows.step {a : Jobs.Action} (h : Shows s heard view) (ht : Truthful s)
    (hs : Jobs.step fingerprint s a = some s') : Shows s' heard view := by
  obtain ⟨said, hstatus, hended, hbacked⟩ := h
  refine ⟨said, hstatus, hended, hbacked.imp_right ?_⟩
  exact fun ⟨job, hjob, hb⟩ => ⟨job, hjob, hb.step ht hs⟩

theorem shows_initialJobView {job : JobId} {said : JobStatus} (h : said = .queued ∨ Backed s job said) :
    Shows s [job] (initialJobView (.job said)) :=
  ⟨said, rfl, by simp [initialJobView], h.imp_right fun hb => ⟨job, List.mem_singleton_self job, hb⟩⟩

theorem shows_none : Shows s heard (initialJobView (.job .queued)) :=
  ⟨.queued, rfl, by simp [initialJobView], .inl rfl⟩

-- An event that says something true of a job.
def Says (s : Jobs.State) (job : JobId) (ev : SseEvent) : Prop :=
  ∃ life, s.life job = some life ∧ Tells ev.event life.record.status

theorem Shows.hear (h : Shows s heard view) {job : JobId} {ev : SseEvent} (hev : Says s job ev) :
    Shows s (job :: heard) (reduceJobEvent numbers view ev) := by
  obtain ⟨life, hlife, htells⟩ := hev
  have hjob := List.mem_cons_self (a := job) (l := heard)
  rcases reduceJobEvent_cases numbers view ev with ⟨hstatus, hterminal⟩ | ⟨hstatus, hterminal, hbegun⟩ |
    ⟨said, hended, htype, hstatus⟩
  · obtain ⟨said, hsaid, hended, hbacked⟩ := h
    refine ⟨said, hstatus.trans hsaid, by rwa [hterminal], hbacked.imp_right ?_⟩
    exact fun ⟨other, hother, hb⟩ => ⟨other, List.mem_cons_of_mem job hother, hb⟩
  · refine ⟨.running, hstatus, by simp [hterminal], .inr ⟨job, hjob, life, hlife, by simp, fun _ => ?_⟩⟩
    exact htells.begun hbegun
  · have hnow := htells.ended said hended htype
    exact ⟨said, hstatus, fun _ => hended, .inr ⟨job, hjob, life, hlife, hnow ▸ .refl _⟩⟩

theorem says_frame {job : JobId} {event : JobEvent} (hf : Frame s job event) (ht : Truthful s) :
    Says s job (parsed numbers event) := hf.tells ht

theorem says_backed {job : JobId} {said : JobStatus} (h : Backed s job said) {ev : SseEvent}
    (hev : ev.event = said.value) : Says s job ev := by
  obtain ⟨life, hlife, hlater⟩ := h
  exact ⟨life, hlife, hev ▸ (tells_value said).later hlater⟩

end Views

section Provider

variable {numbers : Json.NumberText} {fingerprint : Text → Python.Dict → Text} {s s' : Provider}

def Answered (s : Jobs.State) : Call × JobRecord → Prop
  | (.submit _, record) => Backed s record.id record.status
  | (.poll job, record) => Backed s job record.status
  | (.cancel _ job, _) => Backed s job .cancelled

structure Provider.Grounded (numbers : Json.NumberText) (s : Provider) : Prop where
  runner : Truthful s.runner
  calls : ∀ submission, .submit submission ∈ s.calls → submission.key = none
  answers : ∀ answer ∈ s.answers, Answered s.runner answer
  trackings : ∀ t ∈ s.trackings, t.Sound numbers s.runner
  view : ∀ view, s.view = some view → Shows s.runner s.heard view

theorem grounded_initial : Provider.initial.Grounded numbers :=
  ⟨truthful_initial, by simp [Provider.initial], by simp [Provider.initial], by simp [Provider.initial],
    by simp [Provider.initial]⟩

theorem Answered.step {runner runner' : Jobs.State} {a : Jobs.Action} {answer : Call × JobRecord}
    (h : Answered runner answer) (ht : Truthful runner) (hs : Jobs.step fingerprint runner a = some runner') :
    Answered runner' answer := by
  obtain ⟨call, record⟩ := answer
  cases call with
  | submit submission => exact Backed.step h ht hs
  | poll job => exact Backed.step h ht hs
  | cancel task job => exact Backed.step h ht hs

theorem Provider.Grounded.run (h : s.Grounded numbers) {a : Jobs.Action} {runner : Jobs.State}
    (hs : Jobs.step fingerprint s.runner a = some runner) : Provider.Grounded numbers { s with runner := runner } :=
  ⟨h.runner.step hs, h.calls, fun answer hmem => (h.answers answer hmem).step h.runner hs,
    fun t hmem => (h.trackings t hmem).step h.runner hs, fun view heq => (h.view view heq).step h.runner hs⟩

theorem Provider.Grounded.hear (h : s.Grounded numbers) {job : JobId} {ev : SseEvent}
    (hev : Says s.runner job ev) : (s.hear numbers job ev).Grounded numbers := by
  refine ⟨h.runner, h.calls, h.answers, h.trackings, fun view heq => ?_⟩
  obtain rfl := Option.some.inj heq
  refine Shows.hear ?_ hev
  cases hview : s.view with
  | none => exact shows_none
  | some view => exact h.view view hview

theorem Provider.Grounded.hears {job : JobId} {events : List SseEvent} (h : s.Grounded numbers)
    (hevents : ∀ ev ∈ events, Says s.runner job ev) :
    Provider.Grounded numbers (events.foldl (fun s ev => s.hear numbers job ev) s) ∧
      (events.foldl (fun s ev => s.hear numbers job ev) s).runner = s.runner := by
  induction events generalizing s with
  | nil => exact ⟨h, rfl⟩
  | cons ev events ih =>
      obtain ⟨hev, hrest⟩ := List.forall_mem_cons.mp hevents
      exact ih (h.hear hev) hrest

theorem Provider.Grounded.adopt (h : s.Grounded numbers) {job : JobId} {said : JobStatus}
    (hsaid : said = .queued ∨ Backed s.runner job said) : (s.adopt job said).Grounded numbers := by
  refine ⟨h.runner, h.calls, h.answers, h.trackings, fun view heq => ?_⟩
  obtain rfl := Option.some.inj heq
  exact shows_initialJobView hsaid

theorem runnerStep_eq {a : Jobs.Action} {runner : Jobs.State} (hs : s.runnerStep fingerprint a = some runner) :
    Jobs.step fingerprint s.runner a = some runner := by
  unfold Provider.runnerStep at hs
  split at hs
  · split_ifs at hs
    exact hs
  · exact hs

theorem Provider.Grounded.stream (h : s.Grounded numbers) {index : ℕ} {action : Link.Action}
    (hs : s.stream numbers fingerprint index action = some s') :
    s'.Grounded numbers ∧ s'.runner = s.runner := by
  obtain ⟨t, ht, hs⟩ := Option.bind_eq_some_iff.mp hs
  split_ifs at hs with hpermits
  obtain ⟨link, hlink, rfl⟩ := Option.map_eq_some_iff.mp hs
  obtain ⟨hsound, events, hdelivered, hframes⟩ :=
    (h.trackings t (List.mem_of_getElem? ht)).follow h.runner hpermits hlink
  have hnew : link.client.delivered.drop t.client.delivered.length = events.map (parsed numbers) := by
    rw [hdelivered, List.drop_left]
  have hsays : ∀ ev ∈ events.map (parsed numbers), Says s.runner t.job ev := by
    intro ev hev
    obtain ⟨event, hevent, rfl⟩ := List.mem_map.mp hev
    exact says_frame (hframes event hevent) h.runner
  obtain ⟨hgrounded, hrunner⟩ := h.hears hsays
  dsimp only
  rw [hnew]
  refine ⟨⟨hgrounded.runner, ?_, hgrounded.answers, ?_, hgrounded.view⟩, hrunner⟩
  · intro submission hmem
    split_ifs at hmem
    · refine hgrounded.calls submission ((List.mem_append.mp hmem).resolve_right ?_)
      simp
    · exact hgrounded.calls submission hmem
  · intro other hother
    rcases List.mem_or_eq_of_mem_set hother with hmem | rfl
    · exact hgrounded.trackings other hmem
    · rw [hrunner]
      exact hsound

theorem Provider.Grounded.served (h : s.Grounded numbers) {index : ℕ} {call : Call} {record : JobRecord}
    (hanswer : Answered s.runner (call, record)) : (s.served index call record).Grounded numbers := by
  refine ⟨h.runner, fun submission hmem => h.calls submission (List.mem_of_mem_eraseIdx hmem), ?_, h.trackings,
    h.view⟩
  intro answer hmem
  rcases List.mem_append.mp hmem with hmem | hmem
  · exact h.answers answer hmem
  · exact List.mem_singleton.mp hmem ▸ hanswer

-- A submission without a key makes a job.
theorem life_submitted {runner runner' : Jobs.State} {submission : Submission} (hkey : submission.key = none)
    (hs : Jobs.step fingerprint runner (.loop (.submit submission)) = some runner') :
    (runner'.life submission.id).isSome = true := by
  simp only [Jobs.step, loopStep] at hs
  split at hs
  · split_ifs at hs
    obtain rfl := Option.some.inj hs
    simp [Jobs.submit, JobStore.submit, hkey, State.life, JobStore.create, JobStore.put, JobStore.appendEvent]
  · simp at hs

-- A cancel that is about to append its event has updated the record.
theorem backed_cancelled {runner : Jobs.State} (h : Truthful runner) {task : TaskId} {job : JobId}
    (hbusy : runner.busy = some (.appendCancelled task job)) {record : JobRecord}
    (hget : runner.store.jobs job = some record) : Backed runner job .cancelled := by
  obtain ⟨life, hlife, hrecord⟩ := life_isSome hget
  have howed : life.owed = some (JobStatus.cancelled.value, []) := by
    obtain ⟨record', -, rfl⟩ := Option.map_eq_some_iff.mp hlife
    simp [State.owed, hbusy, Section.owed]
  have hstatus := value_injective ((h.lives job life hlife).1.owes _ _ howed)
  exact ⟨life, hlife, hstatus ▸ .refl _⟩

theorem Provider.Grounded.serveCall (h : s.Grounded numbers) {index : ℕ} {call : Call} (hcall : call ∈ s.calls)
    (hs : s.serveCall fingerprint index call = some s') :
    s'.Grounded numbers ∧ (s'.runner = s.runner ∨ ∃ a, Jobs.step fingerprint s.runner a = some s'.runner) := by
  cases call with
  | submit submission =>
      obtain ⟨runner, hrunner, rfl⟩ := Option.map_eq_some_iff.mp hs
      have hstep := runnerStep_eq hrunner
      refine ⟨(h.run hstep).served ?_, .inr ⟨_, hstep⟩⟩
      obtain ⟨life, hlife⟩ := Option.isSome_iff_exists.mp (life_submitted (h.calls submission hcall) hstep)
      exact ⟨life, hlife, by simp [JobStore.newRecord], by simp [JobStore.newRecord]⟩
  | poll job =>
      obtain ⟨record, hget, rfl⟩ := Option.map_eq_some_iff.mp hs
      exact ⟨h.served (backed_record hget), .inl rfl⟩
  | cancel task job =>
      simp only [Provider.serveCall] at hs
      split at hs
      · rename_i task' job' hbusy
        split_ifs at hs with hsame
        obtain ⟨rfl, rfl⟩ := hsame
        obtain ⟨record, hget, rfl⟩ := Option.map_eq_some_iff.mp hs
        exact ⟨h.served (backed_cancelled h.runner hbusy hget), .inl rfl⟩
      · simp at hs

theorem Provider.Grounded.receive (h : s.Grounded numbers) {answer : Call × JobRecord}
    (hanswer : Answered s.runner answer) : (s.receive numbers answer).Grounded numbers := by
  obtain ⟨call, record⟩ := answer
  cases call with
  | submit submission => exact h.adopt (.inr hanswer)
  | poll job => exact h.hear (says_backed hanswer rfl)
  | cancel task job => exact h.hear (says_backed hanswer rfl)

theorem Provider.Grounded.commit (h : s.Grounded numbers) : s.commit.Grounded numbers := by
  refine ⟨h.runner, h.calls, h.answers, fun t hmem => ?_, h.view⟩
  rcases List.mem_append.mp hmem with hmem | hmem
  · obtain ⟨other, hother, rfl⟩ := List.mem_map.mp hmem
    obtain ⟨hidle, hsourced, hread, hparser⟩ := h.trackings other hother
    exact ⟨hidle, hsourced, hread, hparser⟩
  · obtain ⟨job, -, rfl⟩ := List.mem_map.mp hmem
    exact sound_new job

theorem Provider.Grounded.step (h : s.Grounded numbers) {a : ProviderAction}
    (hs : s.step numbers fingerprint a = some s') :
    s'.Grounded numbers ∧ (s'.runner = s.runner ∨ ∃ a, Jobs.step fingerprint s.runner a = some s'.runner) := by
  cases a with
  | runner action =>
      obtain ⟨runner, hrunner, rfl⟩ := Option.map_eq_some_iff.mp hs
      exact ⟨h.run (runnerStep_eq hrunner), .inr ⟨action, runnerStep_eq hrunner⟩⟩
  | stream index action =>
      obtain ⟨hgrounded, hrunner⟩ := h.stream hs
      exact ⟨hgrounded, .inl hrunner⟩
  | submit submission =>
      simp only [Provider.step] at hs
      split_ifs at hs with hkey
      obtain rfl := Option.some.inj hs
      refine ⟨⟨h.runner, fun other hmem => ?_, h.answers, h.trackings, h.view⟩, .inl rfl⟩
      rcases List.mem_append.mp hmem with hmem | hmem
      · exact h.calls other hmem
      · rw [Call.submit.inj (List.mem_singleton.mp hmem)]
        exact hkey
  | serve index =>
      obtain ⟨call, hcall, hs⟩ := Option.bind_eq_some_iff.mp hs
      exact h.serveCall (List.mem_of_getElem? hcall) hs
  | answer index =>
      obtain ⟨answer, hanswer, rfl⟩ := Option.map_eq_some_iff.mp hs
      have hrest : Provider.Grounded numbers { s with answers := s.answers.eraseIdx index } :=
        ⟨h.runner, h.calls, fun other hmem => h.answers other (List.mem_of_mem_eraseIdx hmem), h.trackings, h.view⟩
      refine ⟨hrest.receive (h.answers answer (List.mem_of_getElem? hanswer)), .inl ?_⟩
      obtain ⟨call, record⟩ := answer
      cases call <;> rfl
  | cancel task =>
      obtain ⟨job, -, rfl⟩ := Option.map_eq_some_iff.mp hs
      refine ⟨⟨h.runner, fun other hmem => ?_, h.answers, h.trackings, h.view⟩, .inl rfl⟩
      exact h.calls other ((List.mem_append.mp hmem).resolve_right (by simp))
  | openJob job =>
      obtain rfl := Option.some.inj hs
      exact ⟨h.adopt (.inl rfl), .inl rfl⟩
  | reset =>
      obtain rfl := Option.some.inj hs
      exact ⟨⟨h.runner, h.calls, h.answers, h.trackings, by simp⟩, .inl rfl⟩
  | commit =>
      simp only [Provider.step] at hs
      split_ifs at hs
      obtain rfl := Option.some.inj hs
      exact ⟨h.commit, .inl rfl⟩

theorem reachable_grounded (h : Reachable (Provider.step numbers fingerprint) .initial s) : s.Grounded numbers :=
  h.invariant (Provider.Grounded numbers) grounded_initial fun _ _ _ hinv _ hs => (hinv.step hs).1

-- The record of a job that has ended, whatever comes.
theorem record_stays (h : s.Grounded numbers) (hr : Reachable (Provider.step numbers fingerprint) s s')
    {job : JobId} {record : JobRecord} (hget : s.runner.store.jobs job = some record)
    (hended : record.status.isTerminal = true) : s'.runner.store.jobs job = some record := by
  refine (hr.invariant (fun s => s.Grounded numbers ∧ s.runner.store.jobs job = some record) ⟨h, hget⟩ ?_).2
  intro m a m' hinv _ hs
  obtain ⟨hgrounded, hrunner | ⟨a, hstep⟩⟩ := hinv.1.step hs
  · exact ⟨hgrounded, hrunner ▸ hinv.2⟩
  · obtain ⟨life, hlife, rfl⟩ := life_isSome hinv.2
    obtain ⟨life', hlife', -, -, hsame⟩ := life_step hinv.1.runner hstep hlife
    exact ⟨hgrounded, hsame hended ▸ life_record hlife'⟩

-- What the page shows of the active job is true of it on the server, as long as the view has
-- heard of this job alone: no answer about another one came late.
theorem page_truthful (h : Reachable (Provider.step numbers fingerprint) .initial s) {job : JobId} {view : JobView}
    (hview : s.view = some view) (hown : ∀ other ∈ s.heard, other = job) :
    (view.terminal = true → ∃ record, s.runner.store.jobs job = some record ∧ view.status = .job record.status ∧
      record.status.isTerminal = true ∧ ∀ s', Reachable (Provider.step numbers fingerprint) s s' →
        s'.runner.store.jobs job = some record) ∧
    (view.status = .job .running → ∃ record, s.runner.store.jobs job = some record ∧ record.status ≠ .queued) ∧
    ∀ url, s.active = some job → s.artifactUrl = some url → jobUrl job (ascii "/artifact") = some url ∧
      ∃ record, s.runner.store.jobs job = some record ∧ record.status = .succeeded ∧
        record.artifactPath.isSome = true := by
  have hgrounded := reachable_grounded h
  obtain ⟨said, hstatus, hended, hbacked⟩ := hgrounded.view view hview
  have hsaid : said ≠ .queued → ∃ life, s.runner.life job = some life ∧ Later said life.record.status := by
    intro hne
    obtain ⟨other, hother, hb⟩ := hbacked.resolve_left hne
    rwa [hown other hother] at hb
  have hrecord : ∀ life, s.runner.life job = some life → s.runner.store.jobs job = some life.record :=
    fun life hlife => life_record hlife
  refine ⟨fun hterminal => ?_, fun hrunning => ?_, fun url hactive hurl => ?_⟩
  · have hover := hended hterminal
    obtain ⟨life, hlife, hlater⟩ := hsaid (by rintro rfl; simp at hover)
    have hnow := hlater.1 hover
    rw [← hnow] at hover
    exact ⟨life.record, hrecord life hlife, hnow ▸ hstatus, hover, fun s' hr =>
      record_stays hgrounded hr (hrecord life hlife) hover⟩
  · obtain rfl : said = .running := ViewStatus.job.inj (hstatus.symm.trans hrunning)
    obtain ⟨life, hlife, hlater⟩ := hsaid (by simp)
    exact ⟨life.record, hrecord life hlife, hlater.2 (by simp)⟩
  · rw [Provider.artifactUrl, hactive, Option.bind_some, hview] at hurl
    split_ifs at hurl with hsucceeded
    obtain rfl : said = .succeeded :=
      ViewStatus.job.inj (hstatus.symm.trans (Option.some.inj hsucceeded))
    obtain ⟨life, hlife, hlater⟩ := hsaid (by simp)
    have hnow := hlater.1 rfl
    exact ⟨hurl, life.record, hrecord life hlife, hnow, (hgrounded.runner.told job life hlife).stored hnow⟩

def otherJob : JobId := ascii "b2"

def sampleSubmission (job : JobId) : Submission := ⟨ascii "t2v", .generation, [], none, job, ascii "t0"⟩

-- A job is submitted, becomes the active one, and is cancelled from the page.
def sampleCancelled : List ProviderAction :=
  [.submit (sampleSubmission sampleJob), .serve 0, .answer 0, .commit, .stream 0 .connect, .stream 0 .resume,
    .stream 0 (.receive 20), .cancel 1, .runner (.loop (.cancelCall 1 sampleJob)), .runner .nextSection, .serve 0,
    .runner .nextSection]

theorem page_truthful_sampleCancelled : ∃ s view record,
    run (Provider.step sampleNumbers sampleFingerprint) .initial (sampleCancelled ++ [.answer 0]) = some s ∧
      s.view = some view ∧ view.terminal = true ∧ s.runner.store.jobs sampleJob = some record ∧
      view.status = .job record.status := by
  obtain ⟨s, hs⟩ : ∃ s, run (Provider.step sampleNumbers sampleFingerprint) .initial
      (sampleCancelled ++ [.answer 0]) = some s := ⟨_, rfl⟩
  obtain ⟨view, hview, hterminal, hheard⟩ : ∃ view, s.view = some view ∧ view.terminal = true ∧
      s.heard = [sampleJob, sampleJob] := by
    cases hs
    exact ⟨_, rfl, rfl, rfl⟩
  obtain ⟨record, hget, hstatus, -⟩ :=
    (@page_truthful _ _ _ (Reachable.of_run hs) sampleJob view hview (by simp [hheard])).1 hterminal
  exact ⟨s, view, record, hs, hview, hterminal, hget, hstatus⟩

-- The answer to the cancel comes when another job is active: it is shown as cancelled.
theorem late_answer_shown : ∃ s view record,
    run (Provider.step sampleNumbers sampleFingerprint) .initial
        (sampleCancelled ++ [.submit (sampleSubmission otherJob), .serve 0, .answer 1, .answer 0]) = some s ∧
      s.active = some otherJob ∧ s.view = some view ∧ view.status = .job .cancelled ∧
      s.runner.store.jobs otherJob = some record ∧ record.status = .queued :=
  ⟨_, _, _, rfl, rfl, rfl, rfl, rfl, rfl⟩

end Provider

end Cosmos3.Studio
