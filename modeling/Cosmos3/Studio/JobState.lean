import Cosmos3.Jobs.EventShape
import Cosmos3.Sse.RoundTrip

namespace Cosmos3.Studio

open Basis Jobs Sse

inductive Severity where
  | info
  | warn
  | error
deriving DecidableEq

structure Warning where
  severity : Severity
  code : Text
  message : Text
deriving DecidableEq

-- `JobStatus | "submitting"`.
inductive ViewStatus where
  | submitting
  | job (status : JobStatus)
deriving DecidableEq

structure JobView where
  status : ViewStatus
  progress : Number
  warnings : List Warning
  error : Option Warning
  terminal : Bool
  resultMeta : Option Json

def initialJobView (status : ViewStatus) : JobView := ⟨status, .finite 0, [], none, false, none⟩

variable (numbers : Json.NumberText)

-- `typeof value === "object"` holds of arrays too; `null` is falsy.
def parse (data : Text) : Json :=
  match Json.parse numbers data with
  | some (.object fields) => .object fields
  | some (.array items) => .array items
  | _ => .object []

def clamp01 : Number → Number
  | .finite q => if q < 0 then .finite 0 else if 1 < q then .finite 1 else .finite q
  | .nan => .nan
  | .infinity => .finite 1
  | .negInfinity => .finite 0

-- A member that is a string, or else the default text.
def textOr (default : Text) : Option Json → Text
  | some (.string s) => s
  | _ => default

def failedMessage (d : Json) : Text :=
  match Json.member d (ascii "message") with
  | some (.string s) => if s ≠ [] then s else ascii "The job failed."
  | _ => ascii "The job failed."

def progressOf (view : JobView) (d : Json) : Number :=
  match Json.member d (ascii "progress") with
  | some (.number p) => clamp01 p
  | _ => view.progress

def reduceJobEvent (view : JobView) (ev : SseEvent) : JobView :=
  let d := parse numbers ev.data
  if ev.event = ascii "running" then
    if view.terminal then view else { view with status := .job .running }
  else if ev.event = ascii "progress" then
    if view.terminal then { view with progress := progressOf view d }
    else { view with status := .job .running, progress := progressOf view d }
  else if ev.event = ascii "succeeded" then
    { view with
      status := .job .succeeded, progress := .finite 1, terminal := true, resultMeta := some d }
  else if ev.event = ascii "failed" then
    { view with
      status := .job .failed
      terminal := true
      error := some ⟨.error, ascii "job_failed", failedMessage d⟩ }
  else if ev.event = ascii "cancelled" then
    { view with status := .job .cancelled, terminal := true }
  else if ev.event = ascii "warning" then
    { view with
      warnings := view.warnings ++
        [⟨.warn, textOr (ascii "warning") (Json.member d (ascii "code")),
          textOr (ascii "Warning.") (Json.member d (ascii "message"))⟩] }
  else view

def projectJob (events : List SseEvent) (seed : JobView) : JobView :=
  events.foldl (reduceJobEvent numbers) seed

section Events

variable (view : JobView) (event : JobEvent)

theorem reduceJobEvent_queued (h : event.type = JobStatus.queued.value) :
    reduceJobEvent numbers view (parsed numbers event) = view := by
  have hother : ascii "queued" ≠ ascii "running" ∧ ascii "queued" ≠ ascii "progress" ∧
      ascii "queued" ≠ ascii "succeeded" ∧ ascii "queued" ≠ ascii "failed" ∧
      ascii "queued" ≠ ascii "cancelled" ∧ ascii "queued" ≠ ascii "warning" := by
    decide
  simp [reduceJobEvent, parsed, h, JobStatus.value, hother]

theorem reduceJobEvent_running (h : event.type = JobStatus.running.value)
    (hactive : view.terminal = false) :
    reduceJobEvent numbers view (parsed numbers event) =
      { view with status := .job .running } := by
  simp [reduceJobEvent, parsed, h, JobStatus.value, hactive]

-- A terminal event sets the status it names, whatever the view showed.
theorem reduceJobEvent_terminal {status : JobStatus} (hterminal : status.isTerminal = true)
    (h : event.type = status.value) :
    let view' := reduceJobEvent numbers view (parsed numbers event)
    view'.status = .job status ∧ view'.terminal = true ∧
      view'.progress = if status = .succeeded then .finite 1 else view.progress := by
  have hother : ascii "succeeded" ≠ ascii "running" ∧ ascii "succeeded" ≠ ascii "progress" ∧
      ascii "failed" ≠ ascii "running" ∧ ascii "failed" ≠ ascii "progress" ∧
      ascii "failed" ≠ ascii "succeeded" ∧ ascii "cancelled" ≠ ascii "running" ∧
      ascii "cancelled" ≠ ascii "progress" ∧ ascii "cancelled" ≠ ascii "succeeded" ∧
      ascii "cancelled" ≠ ascii "failed" := by
    decide
  cases status with
  | queued => simp at hterminal
  | running => simp at hterminal
  | succeeded => simp [reduceJobEvent, parsed, h, JobStatus.value, hother]
  | failed => simp [reduceJobEvent, parsed, h, JobStatus.value, hother]
  | cancelled => simp [reduceJobEvent, parsed, h, JobStatus.value, hother]

theorem progressOf_parse {progress : Number} {fields : List (Text × Json)}
    (hfields : fields = [(ascii "progress", .number progress)])
    (hread : Json.Readable numbers (.object fields)) :
    progressOf view (parse numbers (Json.dumps numbers (.object fields))) = clamp01 progress := by
  rw [parse, Json.parse_dumps hread, hfields]
  simp [progressOf, Json.member]

-- A progress event that can be read back sets the progress it was written with.
theorem reduceJobEvent_progress {progress : Number} (h : event.type = progressType)
    (hdata : event.data = [(ascii "progress", .number progress)])
    (hread : Json.Readable numbers (.object event.data)) :
    reduceJobEvent numbers view (parsed numbers event) =
      { view with
        status := if view.terminal then view.status else .job .running
        progress := clamp01 progress } := by
  have hother : ascii "progress" ≠ ascii "running" := by decide
  have hprogress := progressOf_parse numbers view hdata hread
  simp only [reduceJobEvent, parsed, h, progressType, hprogress, if_neg hother, if_true]
  split <;> simp_all

end Events

section Simulation

-- What the tracker shows after the events so far.
def shown (history : List JobEvent) : JobView :=
  projectJob numbers (history.map (parsed numbers)) (initialJobView (.job .queued))

theorem shown_append (history : List JobEvent) (event : JobEvent) :
    shown numbers (history ++ [event]) =
      reduceJobEvent numbers (shown numbers history) (parsed numbers event) := by
  simp [shown, projectJob]

-- Every progress event can be read back from its text.
def ProgressReadable (history : List JobEvent) : Prop :=
  ∀ event ∈ history, event.type = progressType → Json.Readable numbers (.object event.data)

-- The view and the life of a job: they agree, but for the events on their way.
structure Follows (life : Life) (view : JobView) : Prop where
  settled : life.owed = none →
    view.status = .job life.record.status ∧ view.terminal = life.record.status.isTerminal
  owing : life.owed ≠ none → view.terminal = false
  progress : life.thread.isAppending = false →
    (life.owed ≠ none → life.record.status ≠ .succeeded) → view.progress = life.record.progress

theorem follows_created {record : JobRecord} (hq : record.status = .queued)
    (hp : record.progress = .finite 0) :
    Follows ⟨record, none, .absent, [⟨1, JobStatus.queued.value, []⟩]⟩
      (shown numbers [⟨1, JobStatus.queued.value, []⟩]) := by
  have hshown : shown numbers [⟨1, JobStatus.queued.value, []⟩] =
      initialJobView (.job .queued) :=
    reduceJobEvent_queued numbers (initialJobView (.job .queued))
      ⟨1, JobStatus.queued.value, []⟩ rfl
  rw [hshown]
  exact ⟨fun _ => by simp [initialJobView, hq], by simp, fun _ _ => by simp [initialJobView, hp]⟩

theorem follows_lifeStep {reported : Option Number} {life life' : Life}
    (h : LifeStep reported life life') (hc : life.Coherent)
    (hread : ProgressReadable numbers life'.history)
    (hfollows : Follows life (shown numbers life.history)) :
    Follows life' (shown numbers life'.history) := by
  obtain ⟨hsettled, howing, hprogress⟩ := hfollows
  cases h with
  | starts hq ho ht =>
      obtain ⟨-, hterminal⟩ := hsettled ho
      refine ⟨by simp, fun _ => by simpa [hq] using hterminal, fun hidle _ => ?_⟩
      exact hprogress hidle (by simp [ho])
  | fails hs ho ht error =>
      obtain ⟨-, hterminal⟩ := hsettled ho
      refine ⟨by simp, fun _ => hterminal.trans hs, fun hidle _ => ?_⟩
      exact hprogress hidle (by simp [ho])
  | succeeds hs ho ht artifactPath resultMeta =>
      obtain ⟨-, hterminal⟩ := hsettled ho
      exact ⟨by simp, fun _ => by simpa [hs] using hterminal, by simp⟩
  | cancels hs ho =>
      obtain ⟨-, hterminal⟩ := hsettled ho
      refine ⟨by simp, fun _ => hterminal.trans hs, fun hidle _ => ?_⟩
      exact hprogress hidle (by simp [ho])
  | appendsRunning ho =>
      have hrunning : life.record.status = .running := (value_injective (hc.owes _ _ ho)).symm
      have hactive := howing (by simp [ho])
      have hidle : life.thread.isAppending = false := by
        have hbegun := hc.begun hrunning
        rw [ho] at hbegun
        cases hthread : life.thread <;> simp_all
      rw [shown_append, reduceJobEvent_running numbers _ _ rfl hactive]
      refine ⟨fun _ => ?_, by simp, fun _ _ => hprogress hidle (by simp [hrunning])⟩
      simp [hrunning, hactive]
  | @appendsTerminal type data ho ht =>
      obtain rfl := hc.owes _ _ ho
      have hterminal := hc.owes_terminal ho ht
      obtain ⟨hstatus, hended, hlast⟩ :=
        reduceJobEvent_terminal numbers (shown numbers life.history)
          (life.event life.record.status.value data) hterminal rfl
      rw [shown_append]
      refine ⟨fun _ => ⟨hstatus, hended.trans hterminal.symm⟩, by simp, fun hidle _ => ?_⟩
      rw [hlast]
      by_cases hsucceeded : life.record.status = .succeeded
      · rw [if_pos hsucceeded, (hc.complete hsucceeded).1]
      · rw [if_neg hsucceeded]
        exact hprogress hidle fun _ => hsucceeded
  | reports hs ht hf => exact ⟨hsettled, howing, by simp⟩
  | @appendsProgress progress ht =>
      obtain ⟨hrecord, hclamp⟩ := hc.reporting progress ht
      have hevent := hread (life.event progressType [(ascii "progress", .number progress)])
        (by simp) rfl
      rw [shown_append, reduceJobEvent_progress numbers _ _ rfl rfl hevent]
      refine ⟨fun ho => ?_, howing, fun _ _ => hclamp.trans hrecord.symm⟩
      obtain ⟨hstatus, hterminal⟩ := hsettled ho
      refine ⟨?_, hterminal⟩
      by_cases hended : life.record.status.isTerminal = true
      · simpa [hterminal, hended] using hstatus
      · -- a thread that reports for an active job reports for a running one
        have hrunning : life.record.status = .running := by
          rcases isTerminal_eq_false (by simpa using hended) with hq | hr
          · have habsent := (hc.waiting hq).1
            simp [ht] at habsent
          · exact hr
        simp [hterminal, hrunning]
  | ends ht outcome =>
      exact ⟨hsettled, howing, fun _ => hprogress (by simp [ht])⟩

end Simulation

section Log

variable {fingerprint : Text → Python.Dict → Text}

-- The invariant of one job's life.
structure Tracked (life : Life) : Prop extends life.Coherent where
  types : ∀ event ∈ life.history, KnownType event
  follows : ProgressReadable numbers life.history → Follows life (shown numbers life.history)

theorem tracked_lifeStep {reported : Option Number} {life life' : Life}
    (h : LifeStep reported life life') (ht : Tracked numbers life) : Tracked numbers life' := by
  refine ⟨h.coherent ht.toCoherent, h.knownType ht.toCoherent ht.types, fun hread => ?_⟩
  have hbefore : ProgressReadable numbers life.history := by
    intro event hevent
    rcases h.history_cases with heq | ⟨type, data, heq⟩
    · exact hread event (by simpa [heq] using hevent)
    · exact hread event (by simp [heq, hevent])
  exact follows_lifeStep numbers h ht.toCoherent hread (ht.follows hbefore)

theorem tracked_created {record : JobRecord} (hq : record.status = .queued)
    (hp : record.progress = .finite 0) :
    Tracked numbers ⟨record, none, .absent, [⟨1, JobStatus.queued.value, []⟩]⟩ := by
  refine ⟨coherent_created hq, fun event hevent => ?_, fun _ => follows_created numbers hq hp⟩
  rw [List.mem_singleton.mp hevent]
  exact .inr ⟨.queued, rfl⟩

def LivesTracked (s : State) : Prop := ∀ job life, s.life job = some life → Tracked numbers life

theorem step_tracked {s s' : State} {a : Action} (h : Serial s) (ht : LivesTracked numbers s)
    (hs : step fingerprint s a = some s') : LivesTracked numbers s' :=
  step_lives h hs (fun _ hq hp _ _ => tracked_created numbers hq hp)
    (fun _ _ _ _ _ hstep hlife => tracked_lifeStep numbers hstep hlife) ht

theorem oneLine_of_knownType {event : JobEvent} (h : KnownType event) : OneLine event.type := by
  rcases h with htype | ⟨status, htype⟩
  · rw [htype]
    unfold OneLine
    decide
  · rw [htype]
    cases status <;> (unfold OneLine; decide)

-- The tracker's view of a whole log: what is encoded, parsed and folded agrees
-- with the record, once no update waits for its event.
theorem projectJob_log {s : State} (h : Reachable (step fingerprint) initial s) {job : JobId}
    {record : JobRecord} (hget : s.store.jobs job = some record) (howed : s.owed job = none)
    (hthread : (s.threads job).isAppending = false) (hseq : s.store.seq job ≤ eventLogBound)
    (hread : ∀ event ∈ s.store.events job, event.type = progressType →
      Json.Readable numbers (.object event.data)) :
    let text := (s.store.events job).flatMap (sse numbers)
    let view := projectJob numbers (feedSse initialSseState text).events
      (initialJobView (.job .queued))
    view.status = .job record.status ∧
      (view.terminal = true ↔ record.status.isTerminal = true) ∧
      view.progress = record.progress := by
  obtain ⟨hserial, htracked⟩ : Serial s ∧ LivesTracked numbers s :=
    h.invariant (fun s => Serial s ∧ LivesTracked numbers s)
      ⟨serial_initial, by simp [LivesTracked, State.life, initial, JobStore.empty]⟩
      fun _ _ _ hinv _ hs => ⟨(step_moves hinv.1 hs).1, step_tracked numbers hinv.1 hinv.2 hs⟩
  have hlog : s.store.events job = s.history job := by
    rw [hserial.log, JobStore.bounded, ← hserial.seq, Nat.sub_eq_zero_of_le hseq, List.drop_zero]
  have hlife := htracked job ⟨record, s.owed job, s.threads job, s.history job⟩ (by
    rw [State.life, hget]
    rfl)
  rw [hlog] at hread ⊢
  have hframes := feedSse_frames numbers (s := initialSseState) ⟨rfl, rfl, rfl⟩ (s.history job)
    fun event hevent => oneLine_of_knownType (hlife.types event hevent)
  obtain ⟨hsettled, -, hprogress⟩ := hlife.follows hread
  obtain ⟨hstatus, hterminal⟩ := hsettled howed
  simp only [hframes]
  exact ⟨hstatus, by rw [← hterminal]; rfl, hprogress hthread (by simp [howed])⟩

-- The run in which a progress event is appended after the cancelled one.
theorem projectJob_sampleOvertaken :
    ∃ s record, run (step sampleFingerprint) initial sampleOvertaken = some s ∧
      s.store.jobs sampleJob = some record ∧
      let text := (s.store.events sampleJob).flatMap (sse sampleNumbers)
      let view := projectJob sampleNumbers (feedSse initialSseState text).events
        (initialJobView (.job .queued))
      view.status = .job record.status ∧
        (view.terminal = true ↔ record.status.isTerminal = true) ∧
        view.progress = record.progress := by
  obtain ⟨s, hs⟩ : ∃ s, run (step sampleFingerprint) initial sampleOvertaken = some s := ⟨_, rfl⟩
  obtain ⟨record, hget, howed, hthread, hseq, hlog⟩ : ∃ record,
      s.store.jobs sampleJob = some record ∧ s.owed sampleJob = none ∧
      (s.threads sampleJob).isAppending = false ∧ s.store.seq sampleJob = 4 ∧
      s.store.events sampleJob =
        [⟨1, JobStatus.queued.value, []⟩, ⟨2, JobStatus.running.value, []⟩,
          ⟨3, JobStatus.cancelled.value, []⟩,
          ⟨4, progressType, [(ascii "progress", .number (.finite 1))]⟩] := by
    cases hs
    exact ⟨_, rfl, rfl, rfl, rfl, rfl⟩
  have hread : ProgressReadable sampleNumbers (s.store.events sampleJob) := by
    intro event hevent htype
    simp only [hlog, List.mem_cons, List.not_mem_nil, or_false] at hevent
    rcases hevent with rfl | rfl | rfl | rfl
    · exact absurd htype (by decide)
    · exact absurd htype (by decide)
    · exact absurd htype (by decide)
    · exact ⟨⟨by decide, by decide⟩, trivial⟩
  exact ⟨s, record, hs, hget, projectJob_log sampleNumbers (Reachable.of_run hs) hget howed hthread
    (by rw [hseq]; decide) hread⟩

end Log

end Cosmos3.Studio
