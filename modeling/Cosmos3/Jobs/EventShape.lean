import Cosmos3.Jobs.Coherent
import Cosmos3.Jobs.Records

namespace Cosmos3.Jobs

open Basis

-- One queued; then, if at all, one running and any number of progress; then at
-- most one terminal event.
def EventShape (types : List Text) : Prop :=
  ∃ body ending : List Text, types = JobStatus.queued.value :: (body ++ ending) ∧
    (body = [] ∨ ∃ n, body = JobStatus.running.value :: List.replicate n progressType) ∧
    (ending = [] ∨ ∃ status : JobStatus, status.isTerminal = true ∧ ending = [status.value])

-- `cancel` appends its event while the job's worker thread is inside `report`,
-- between the update of the record and the append of the progress event.
def overtakesReport (s : State) (a : Action) : Bool :=
  match a, s.busy with
  | .nextSection, some (.appendCancelled _ job) => (s.threads job).isAppending
  | _, _ => false

namespace Life

def types (life : Life) : List Text := life.history.map (·.type)

-- The events of the worker thread's time, once its running event is there.
def body (life : Life) (n : Nat) : List Text :=
  if life.thread.isAbsent then [] else JobStatus.running.value :: List.replicate n progressType

def ending (life : Life) : List Text :=
  if life.record.status.isTerminal && life.owed.isNone then [life.record.status.value] else []

-- A coherent life whose events so far have the shape, and leave room for what
-- is still to come.
structure Shaped (life : Life) : Prop extends life.Coherent where
  ended : life.record.status.isTerminal = true → life.thread.isAppending = true →
    life.record.status = .cancelled ∧ life.owed ≠ none
  shape : ∃ n, life.types = JobStatus.queued.value :: (life.body n ++ life.ending)

end Life

-- A terminal update leaves the events as they are and owes its own.
theorem Life.Shaped.ends {life : Life} (h : life.Shaped)
    (hactive : life.record.status.isTerminal = false) {record : JobRecord}
    {data : List (Text × Json)}
    (hc : Life.Coherent { life with record := record, owed := some (record.status.value, data) })
    (hthread : life.thread.isAppending = true → record.status = .cancelled) :
    Life.Shaped { life with record := record, owed := some (record.status.value, data) } := by
  obtain ⟨n, hshape⟩ := h.shape
  refine ⟨hc, fun _ happending => ⟨hthread happending, by simp⟩, n, ?_⟩
  simpa [Life.types, Life.body, Life.ending, hactive] using hshape

theorem LifeStep.shaped {reported : Option Number} {life life' : Life}
    (h : LifeStep reported life life') (hshaped : life.Shaped)
    (hquiet : life.owed ≠ none → life'.owed = none → life.record.status = .cancelled →
      life.thread.isAppending = false) : life'.Shaped := by
  have hc := h.coherent hshaped.toCoherent
  obtain ⟨n, hshape⟩ := hshaped.shape
  cases h with
  | starts hq ho ht =>
      refine ⟨hc, by simp, n, ?_⟩
      simpa [Life.types, Life.body, Life.ending, hq] using hshape
  | fails hs ho ht error =>
      refine hshaped.ends hs hc fun happending => ?_
      simp [ThreadPc.isAppending_of_isResting ht] at happending
  | succeeds hs ho ht artifactPath resultMeta =>
      refine hshaped.ends (by rw [hs]; rfl) hc fun happending => ?_
      simp [ThreadPc.isAppending_of_isResting ht] at happending
  | cancels hs ho => exact hshaped.ends hs hc fun _ => rfl
  | appendsRunning ho =>
      have hrunning : life.record.status = .running :=
        (value_injective (hshaped.owes _ _ ho)).symm
      have habsent : life.thread.isAbsent = true := by
        rw [hshaped.begun hrunning, ho]
        rfl
      refine ⟨hc, by simp, 0, ?_⟩
      simp only [Life.types] at hshape ⊢
      rw [List.map_append, hshape]
      simp [Life.body, Life.ending, habsent, hrunning, Life.event]
  | @appendsTerminal type data ho ht =>
      obtain rfl := hshaped.owes _ _ ho
      have hterminal := hshaped.owes_terminal ho ht
      have hidle : life.thread.isAppending = false := by
        by_contra happending
        have hcancelled := (hshaped.ended hterminal (by simpa using happending)).1
        exact happending (hquiet (by simp [ho]) rfl hcancelled)
      refine ⟨hc, by simp [hidle], n, ?_⟩
      simp only [Life.types] at hshape ⊢
      rw [List.map_append, hshape]
      simp [Life.body, Life.ending, hterminal, ho, Life.event]
  | reports hs ht hf =>
      refine ⟨hc, by simp [hs], n, ?_⟩
      simpa [Life.types, Life.body, Life.ending, ht] using hshape
  | @appendsProgress progress ht =>
      have hending : life.ending = [] := by
        by_contra hne
        have hover : life.record.status.isTerminal = true ∧ life.owed = none := by
          simpa [Life.ending] using hne
        exact (hshaped.ended hover.1 (by rw [ht]; rfl)).2 hover.2
      refine ⟨hc, by simp, n + 1, ?_⟩
      have hending' : Life.ending { life with
          thread := .working
          history := life.history ++
            [life.event progressType [(ascii "progress", .number progress)]] } = [] := hending
      rw [hending']
      simp only [Life.types] at hshape ⊢
      rw [List.map_append, hshape, hending]
      simp [Life.body, ht, Life.event, List.replicate_succ']
  | ends ht outcome =>
      refine ⟨hc, by simp, n, ?_⟩
      simpa [Life.types, Life.body, Life.ending, ht] using hshape

theorem Life.Shaped.eventShape {life : Life} (h : life.Shaped) : EventShape life.types := by
  obtain ⟨n, hshape⟩ := h.shape
  refine ⟨life.body n, life.ending, hshape, ?_, ?_⟩
  · unfold Life.body
    by_cases habsent : life.thread.isAbsent = true
    · exact .inl (if_pos habsent)
    · exact .inr ⟨n, if_neg habsent⟩
  · unfold Life.ending
    by_cases hended : (life.record.status.isTerminal && life.owed.isNone) = true
    · rw [Bool.and_eq_true] at hended
      exact .inr ⟨life.record.status, hended.1, if_pos (by simp [hended])⟩
    · exact .inl (if_neg hended)

theorem shaped_created {record : JobRecord} (hq : record.status = .queued) :
    Life.Shaped ⟨record, none, .absent, [⟨1, JobStatus.queued.value, []⟩]⟩ :=
  ⟨coherent_created hq, by simp, 0, by simp [Life.types, Life.body, Life.ending, hq]⟩

theorem threadStep_busy {s s' : State} {job : JobId} {action : ThreadAction}
    (h : threadStep s job action = some s') : s'.busy = s.busy := by
  cases hthread : s.threads job <;> cases action <;> simp [threadStep, hthread] at h
  all_goals subst h
  · unfold report
    split
    · rfl
    · dsimp only
      split <;> rfl
  · rfl
  · rfl

variable {fingerprint : Text → Python.Dict → Text}

-- A step that settles a debt is the append of the section that owed it.
theorem step_settles {s s' : State} {a : Action} (hs : step fingerprint s a = some s')
    {job : JobId} (howed : s.owed job ≠ none) (hpaid : s'.owed job = none) : a = .nextSection := by
  cases a with
  | nextSection => rfl
  | loop action =>
      rw [step] at hs
      cases hbusy : s.busy with
      | none => exact absurd (owed_none hbusy job) howed
      | some part => simp [hbusy] at hs
  | thread job' action =>
      have hbusy := threadStep_busy hs
      exact absurd (by rw [State.owed, ← hbusy]; exact hpaid) howed

theorem owed_cancelled {s : State} {job : JobId} {data : List (Text × Json)}
    (h : s.owed job = some (JobStatus.cancelled.value, data)) :
    ∃ task, s.busy = some (.appendCancelled task job) := by
  obtain ⟨part, hbusy, howed⟩ := Option.bind_eq_some_iff.mp h
  have hne : ∀ status : JobStatus, status ≠ .cancelled → ∀ data', 
      some (status.value, data') ≠ some (JobStatus.cancelled.value, data) := by
    intro status hstatus data' heq
    exact hstatus (value_injective (Prod.mk.inj (Option.some.inj heq)).1)
  cases part with
  | appendRunning job' =>
      simp only [Section.owed] at howed
      split at howed
      · exact absurd howed (hne .running (by decide) _)
      · cases howed
  | appendFailed job' message =>
      simp only [Section.owed] at howed
      split at howed
      · exact absurd howed (hne .failed (by decide) _)
      · cases howed
  | appendSucceeded job' resultMeta =>
      simp only [Section.owed] at howed
      split at howed
      · exact absurd howed (hne .succeeded (by decide) _)
      · cases howed
  | cancelUpdate task job' => cases howed
  | appendCancelled task job' =>
      simp only [Section.owed] at howed
      split at howed
      · rename_i hj
        exact ⟨task, hj ▸ hbusy⟩
      · cases howed

def LivesShaped (s : State) : Prop := ∀ job life, s.life job = some life → life.Shaped

theorem step_shaped {s s' : State} {a : Action} (h : Serial s) (hshaped : LivesShaped s)
    (hquiet : overtakesReport s a = false) (hs : step fingerprint s a = some s') :
    LivesShaped s' := by
  refine step_lives h hs (fun record hq _ _ _ => shaped_created hq) ?_ hshaped
  intro job life life' hlife hlife' hstep hlifeShaped
  refine hstep.shaped hlifeShaped fun howed hpaid hcancelled => ?_
  obtain ⟨record, hget, rfl⟩ := Option.map_eq_some_iff.mp hlife
  obtain ⟨record', hget', rfl⟩ := Option.map_eq_some_iff.mp hlife'
  obtain rfl := step_settles hs howed hpaid
  obtain ⟨⟨type, data⟩, howes⟩ := Option.ne_none_iff_exists'.mp howed
  obtain rfl : type = JobStatus.cancelled.value := by
    rw [← hcancelled]
    exact hlifeShaped.owes type data howes
  obtain ⟨task, hbusy⟩ := owed_cancelled howes
  simpa [overtakesReport, hbusy] using hquiet

-- The events ever appended for a job, in every run in which no `cancel` appends
-- its event in the middle of a progress report.
theorem event_shape_of_quiet_cancel {s : State}
    (h : Path (step fingerprint) (fun s a => overtakesReport s a = false) initial s)
    (job : JobId) (record : JobRecord) (hget : s.store.jobs job = some record) :
    EventShape ((s.history job).map (·.type)) := by
  have hinitial : Serial initial ∧ LivesShaped initial :=
    ⟨serial_initial, by simp [LivesShaped, State.life, initial, JobStore.empty]⟩
  obtain ⟨-, hshaped⟩ := Path.invariant (fun s => Serial s ∧ LivesShaped s) hinitial
    (fun s a s' hinv hok hs => ⟨(step_moves hinv.1 hs).1, step_shaped hinv.1 hinv.2 hok hs⟩) h
  have hlife : s.life job = some ⟨record, s.owed job, s.threads job, s.history job⟩ := by
    rw [State.life, hget]
    rfl
  exact (hshaped job _ hlife).eventShape

-- A cancel that waits for its eviction until the work is over.
def sampleCancel : List Action :=
  sampleStart ++ [.thread sampleJob (.report .infinity), .thread sampleJob .append,
    .loop (.cancelCall 1 sampleJob), .thread sampleJob (.ends (.raised ⟨none, ascii "killed"⟩)),
    .loop .workEnds, .loop (.cancelEvicted 1 true), .nextSection]

theorem event_shape_sampleCancel :
    ∃ s record, run (step sampleFingerprint) initial sampleCancel = some s ∧
      s.store.jobs sampleJob = some record ∧ EventShape ((s.history sampleJob).map (·.type)) := by
  obtain ⟨s, hs⟩ : ∃ s, runWithin (step sampleFingerprint)
      (fun s a => overtakesReport s a = false) initial sampleCancel = some s := ⟨_, rfl⟩
  obtain ⟨record, hrun, hget⟩ : ∃ record, run (step sampleFingerprint) initial sampleCancel =
      some s ∧ s.store.jobs sampleJob = some record := by
    cases hs
    exact ⟨_, rfl, rfl⟩
  exact ⟨s, record, hrun, hget,
    event_shape_of_quiet_cancel (Path.of_runWithin hs) sampleJob record hget⟩

-- The report has updated the record when the cancel, whose eviction is over,
-- updates it too and appends its event; the report's append comes last.
def sampleOvertaken : List Action :=
  sampleStart ++ [.loop (.cancelCall 1 sampleJob), .thread sampleJob (.report .infinity),
    .loop (.cancelEvicted 1 true), .nextSection, .thread sampleJob .append]

theorem progress_after_cancelled :
    ¬∀ s, Reachable (step sampleFingerprint) initial s → ∀ job record,
      s.store.jobs job = some record → EventShape ((s.history job).map (·.type)) := by
  intro h
  obtain ⟨s, hs⟩ : ∃ s, run (step sampleFingerprint) initial sampleOvertaken = some s := ⟨_, rfl⟩
  obtain ⟨record, hget, htypes⟩ : ∃ record, s.store.jobs sampleJob = some record ∧
      (s.history sampleJob).map (·.type) = [JobStatus.queued.value, JobStatus.running.value,
        JobStatus.cancelled.value, progressType] := by
    cases hs
    exact ⟨_, rfl, rfl⟩
  obtain ⟨body, ending, heq, hbody, hending⟩ := h s (Reachable.of_run hs) sampleJob record hget
  rw [htypes, List.cons.injEq] at heq
  have hlength : ending.length ≤ 1 := by
    rcases hending with rfl | ⟨status, -, rfl⟩ <;> simp
  rcases hbody with rfl | ⟨n, rfl⟩
  · rw [List.nil_append] at heq
    rw [← heq.2] at hlength
    simp at hlength
  · cases n with
    | zero =>
        have hrest : [JobStatus.cancelled.value, progressType] = ending := by simpa using heq.2
        rw [← hrest] at hlength
        simp at hlength
    | succ n =>
        rw [List.replicate_succ, List.cons_append, List.cons_append, List.cons.injEq,
          List.cons.injEq] at heq
        exact absurd heq.2.2.1 (by decide)

end Cosmos3.Jobs
