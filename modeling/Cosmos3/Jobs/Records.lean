import Cosmos3.Jobs.Life
import Mathlib.Algebra.Order.Ring.Rat

namespace Cosmos3.Jobs

open Basis

structure JobRecord.WellFormed (record : JobRecord) : Prop where
  progress : ∃ q : ℚ, record.progress = .finite q ∧ 0 ≤ q ∧ q ≤ 1
  complete : record.status = .succeeded → record.progress = .finite 1
  error : record.error.isSome ↔ record.status = .failed
  artifact : record.artifactPath.isSome ↔ record.status = .succeeded

-- queued, then running if at all, then one terminal status.
def JobStatus.canBecome : JobStatus → JobStatus → Bool
  | .queued, .running | .queued, .failed | .queued, .cancelled => true
  | .running, .succeeded | .running, .failed | .running, .cancelled => true
  | _, _ => false

-- Two successive values of one job's record.
def RecordPath : Option JobRecord → Option JobRecord → Prop
  | none, none => True
  | none, some record => record.status = .queued
  | some _, none => False
  | some record, some updated =>
      updated = record ∨ (record.status = .running ∧ updated.status = .running) ∨
        record.status.canBecome updated.status = true

-- A worker thread reports a NaN for a job that is running.
def reportsNan (s : State) (a : Action) : Bool :=
  match a with
  | .thread job (.report .nan) =>
    match s.store.jobs job with
    | some record => record.status = .running
    | none => false
  | _ => false

theorem clamp01_mem {fraction : Number} (h : fraction ≠ .nan) :
    ∃ q : ℚ, clamp01 fraction = .finite q ∧ 0 ≤ q ∧ q ≤ 1 := by
  cases fraction with
  | finite q =>
      by_cases hneg : q < 0
      · exact ⟨0, by simp [clamp01, hneg], le_rfl, zero_le_one⟩
      · by_cases hbig : 1 < q
        · exact ⟨1, by simp [clamp01, hneg, hbig], zero_le_one, le_rfl⟩
        · exact ⟨q, by simp [clamp01, hneg, hbig], not_lt.mp hneg, not_lt.mp hbig⟩
  | nan => exact absurd rfl h
  | infinity => exact ⟨1, rfl, zero_le_one, le_rfl⟩
  | negInfinity => exact ⟨0, rfl, le_rfl, zero_le_one⟩

theorem canBecome_of_active {status : JobStatus} (h : status.isTerminal = false) :
    status.canBecome .failed = true ∧ status.canBecome .cancelled = true := by
  cases status <;> simp_all [JobStatus.isTerminal, JobStatus.canBecome]

theorem LifeStep.recordPath {reported : Option Number} {life life' : Life}
    (h : LifeStep reported life life') : RecordPath (some life.record) (some life'.record) := by
  cases h with
  | starts hq ho ht =>
      right
      right
      simp [hq, JobStatus.canBecome]
  | fails hs ho ht error => exact .inr (.inr (canBecome_of_active hs).1)
  | succeeds hs ho ht artifactPath resultMeta =>
      right
      right
      simp [hs, JobStatus.canBecome]
  | cancels hs ho => exact .inr (.inr (canBecome_of_active hs).2)
  | reports hs ht hf => exact .inr (.inl ⟨hs, hs⟩)
  | appendsRunning ho => exact .inl rfl
  | appendsTerminal ho ht => exact .inl rfl
  | appendsProgress ht => exact .inl rfl
  | ends ht outcome => exact .inl rfl

theorem LifeStep.wellFormed {reported : Option Number} {life life' : Life}
    (h : LifeStep reported life life')
    (hnan : life.record.status = .running → reported ≠ some .nan)
    (hwf : life.record.WellFormed) : life'.record.WellFormed := by
  obtain ⟨hprogress, hcomplete, herror, hartifact⟩ := hwf
  cases h with
  | starts hq ho ht => exact ⟨hprogress, by simp, by simp [herror, hq], by simp [hartifact, hq]⟩
  | fails hs ho ht error =>
      have hne : life.record.status ≠ .succeeded := by
        intro hsucc
        simp [hsucc, JobStatus.isTerminal] at hs
      exact ⟨hprogress, by simp, by simp, by simp [hartifact, hne]⟩
  | succeeds hs ho ht artifactPath resultMeta =>
      exact ⟨⟨1, rfl, zero_le_one, le_rfl⟩, fun _ => rfl, by simp [herror, hs], by simp⟩
  | cancels hs ho =>
      have hne : life.record.status ≠ .succeeded ∧ life.record.status ≠ .failed := by
        constructor <;> intro hstatus <;> simp [hstatus, JobStatus.isTerminal] at hs
      exact ⟨hprogress, by simp, by simp [herror, hne.2], by simp [hartifact, hne.1]⟩
  | reports hs ht hf =>
      have hfraction := clamp01_mem fun hn => hnan hs (hn ▸ hf)
      exact ⟨hfraction, by simp [hs], herror, hartifact⟩
  | appendsRunning ho => exact ⟨hprogress, hcomplete, herror, hartifact⟩
  | appendsTerminal ho ht => exact ⟨hprogress, hcomplete, herror, hartifact⟩
  | appendsProgress ht => exact ⟨hprogress, hcomplete, herror, hartifact⟩
  | ends ht outcome => exact ⟨hprogress, hcomplete, herror, hartifact⟩

theorem wellFormed_created {record : JobRecord} (hq : record.status = .queued)
    (hp : record.progress = .finite 0) (ha : record.artifactPath = none)
    (he : record.error = none) : record.WellFormed :=
  ⟨⟨0, hp, le_rfl, zero_le_one⟩, by simp [hq], by simp [he, hq], by simp [ha, hq]⟩

theorem life_record {s : State} {job : JobId} {life : Life} (h : s.life job = some life) :
    s.store.jobs job = some life.record := by
  obtain ⟨record, hget, rfl⟩ := Option.map_eq_some_iff.mp h
  exact hget

theorem life_isSome {s : State} {job : JobId} {record : JobRecord}
    (h : s.store.jobs job = some record) : ∃ life, s.life job = some life ∧ life.record = record :=
  ⟨⟨record, s.owed job, s.threads job, s.history job⟩, by rw [State.life, h]; rfl, rfl⟩

theorem reported_ne_nan {s : State} {a : Action} (h : reportsNan s a = false) {job : JobId}
    {record : JobRecord} (hget : s.store.jobs job = some record)
    (hrunning : record.status = .running) : a.reported job ≠ some .nan := by
  intro hnan
  cases a with
  | thread job' action =>
      cases action with
      | report fraction =>
          by_cases hj : job' = job
          · obtain rfl : fraction = .nan := by simpa [Action.reported, hj] using hnan
            simp [reportsNan, hj, hget, hrunning] at h
          · simp [Action.reported, hj] at hnan
      | append => simp [Action.reported] at hnan
      | ends outcome => simp [Action.reported] at hnan
  | loop action => simp [Action.reported] at hnan
  | nextSection => simp [Action.reported] at hnan

def LivesWellFormed (s : State) : Prop := ∀ job life, s.life job = some life → life.record.WellFormed

variable {fingerprint : Text → Python.Dict → Text}

theorem step_wellFormed {s s' : State} {a : Action} (h : Serial s) (hwf : LivesWellFormed s)
    (hnan : reportsNan s a = false) (hs : step fingerprint s a = some s') : LivesWellFormed s' :=
  step_lives h hs (fun _ => wellFormed_created)
    (fun _ _ _ hlife _ hstep hrecord =>
      hstep.wellFormed (reported_ne_nan hnan (life_record hlife)) hrecord) hwf

theorem step_recordPath {s s' : State} {a : Action} (h : Serial s)
    (hs : step fingerprint s a = some s') (job : JobId) :
    RecordPath (s.store.jobs job) (s'.store.jobs job) := by
  cases hget' : s'.store.jobs job with
  | none =>
      cases hget : s.store.jobs job with
      | none => exact trivial
      | some record =>
          obtain ⟨life, hlife, -⟩ := life_isSome hget
          have hsome := step_life_isSome h hs (by rw [hlife]; rfl : (s.life job).isSome = true)
          rw [State.life, hget'] at hsome
          cases hsome
  | some record' =>
      obtain ⟨life', hlife', rfl⟩ := life_isSome hget'
      rcases step_life h hs hlife' with ⟨hnone, record, hq, -, -, -, rfl⟩ | hsame | ⟨life, hlife, hl⟩
      · rw [Option.map_eq_none_iff.mp hnone]
        exact hq
      · rw [life_record hsame]
        exact .inl rfl
      · rw [life_record hlife]
        exact hl.recordPath

-- The values of a job's record along a run in which no NaN is reported.
theorem record_path_of_no_nan {as : List Action} {s : State}
    (h : runWithin (step fingerprint) (fun s a => reportsNan s a = false) initial as = some s)
    (job : JobId) :
    ((visited (step fingerprint) initial as).map fun m => m.store.jobs job).IsChain RecordPath ∧
      ∀ m ∈ visited (step fingerprint) initial as, ∀ record,
        m.store.jobs job = some record → record.WellFormed := by
  have hinitial : Serial initial ∧ LivesWellFormed initial :=
    ⟨serial_initial, by simp [LivesWellFormed, State.life, initial, JobStore.empty]⟩
  obtain ⟨hall, hchain⟩ := visited_invariant (fun s => Serial s ∧ LivesWellFormed s)
    (fun s s' => RecordPath (s.store.jobs job) (s'.store.jobs job)) hinitial
    (fun s a s' hinv hok hs =>
      ⟨⟨(step_moves hinv.1 hs).1, step_wellFormed hinv.1 hinv.2 hok hs⟩,
        step_recordPath hinv.1 hs job⟩) h
  refine ⟨(List.isChain_map _).mpr hchain, fun m hm record hget => ?_⟩
  obtain ⟨life, hlife, rfl⟩ := life_isSome hget
  exact (hall m hm).2 job life hlife

def sampleFingerprint (mode : Text) (_ : Python.Dict) : Text := mode

def sampleJob : JobId := ascii "a1"

-- A job is submitted, dequeued, acquires its plane and starts its work.
def sampleStart : List Action :=
  [.loop .startLoop, .loop (.submit ⟨ascii "t2v", .generation, [], none, sampleJob, ascii "t0"⟩),
    .loop .dequeue, .loop .leaseGranted, .loop .acquireReturns, .nextSection]

-- Its work reports a fraction and returns.
def sampleSuccess : List Action :=
  sampleStart ++ [.thread sampleJob (.report .infinity), .thread sampleJob .append,
    .thread sampleJob (.ends (.returned (ascii "a1.mp4") [])), .loop .workEnds, .nextSection]

theorem record_path_sampleSuccess :
    ((visited (step sampleFingerprint) initial sampleSuccess).map fun m =>
        m.store.jobs sampleJob).IsChain RecordPath ∧
      ∀ m ∈ visited (step sampleFingerprint) initial sampleSuccess, ∀ record,
        m.store.jobs sampleJob = some record → record.WellFormed := by
  obtain ⟨s, hs⟩ : ∃ s, runWithin (step sampleFingerprint)
      (fun s a => reportsNan s a = false) initial sampleSuccess = some s := ⟨_, rfl⟩
  exact record_path_of_no_nan hs sampleJob

-- A worker whose progress frame divides to a NaN.
def sampleNan : List Action := sampleStart ++ [.thread sampleJob (.report .nan)]

theorem progress_leaves_interval :
    ¬∀ as s, run (step sampleFingerprint) initial as = some s →
      ∀ job record, s.store.jobs job = some record → record.WellFormed := by
  intro h
  obtain ⟨s, hs⟩ : ∃ s, run (step sampleFingerprint) initial sampleNan = some s := ⟨_, rfl⟩
  obtain ⟨record, hget, hnan⟩ :
      ∃ record, s.store.jobs sampleJob = some record ∧ record.progress = .nan := by
    cases hs
    exact ⟨_, rfl, rfl⟩
  obtain ⟨q, hq, -⟩ := (h sampleNan s hs sampleJob record hget).progress
  rw [hnan] at hq
  cases hq

end Cosmos3.Jobs
