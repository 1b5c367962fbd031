import Cosmos3.Basis.Runs
import Cosmos3.Edge.Enqueue

namespace Cosmos3.Edge

open Basis Basis.Python Jobs Orchestrator

namespace Desk

section Spec

variable {floats : FloatReader} (sha : Bytes → Text) (s : Desk floats)

-- The call made a job, with this record at first.
def Made (i : CallId) (arrival : Arrival floats) (record : JobRecord) : Prop :=
  s.calls i = .enqueuing arrival record ∨ s.calls i = .created arrival record

-- The job that a submission makes.
def newJob (arrival : Arrival floats) (plane : Plane) (params : Dict) : JobRecord :=
  JobStore.newRecord (fingerprint floats sha) (submission arrival plane params)

-- What a call does: it makes a job, unless the submission is invalid or its key has made
-- one before. That one is returned as it is by now, when the payloads are the same.
inductive Answered (i : CallId) (arrival : Arrival floats) (s' : Desk floats) : Prop
  | invalid {error : EdgeError} (hprepare : prepare arrival.host arrival.submit = .error error)
      (heq : s' = s.setCall i (.refused arrival error))
  | replays {plane : Plane} {params : Dict}
      (hprepare : prepare arrival.host arrival.submit = .ok (plane, params))
      {j : CallId} {earlier : Arrival floats} {record current : JobRecord}
      (hmade : s.Made j earlier record) {key : Text} (hkey : arrival.key = some key)
      (hearlier : earlier.key = some key) (hmode : arrival.submit.mode = record.mode)
      (hparams : Same (.dict params) (.dict record.params))
      (hcurrent : s.runner.store.jobs record.id = some current) (hid : current.id = record.id)
      (heq : s' = s.setCall i (.replayed arrival current))
  | conflicts {plane : Plane} {params : Dict}
      (hprepare : prepare arrival.host arrival.submit = .ok (plane, params))
      {j : CallId} {earlier : Arrival floats} {record : JobRecord} (hmade : s.Made j earlier record)
      {key : Text} (hkey : arrival.key = some key) (hearlier : earlier.key = some key)
      (hdifferent : ¬(arrival.submit.mode = record.mode ∧ Same (.dict params) (.dict record.params)))
      (heq : s' = s.setCall i (.refused arrival (.store (.idempotencyConflict key))))
  | creates {plane : Plane} {params : Dict}
      (hprepare : prepare arrival.host arrival.submit = .ok (plane, params))
      (hnew : ∀ key, arrival.key = some key → ∀ j earlier record, s.Made j earlier record →
        earlier.key ≠ some key)
      (hfresh : s.runner.store.jobs arrival.id = none)
      (heq : s' = s.create i arrival
        (s.runner.store.create (fingerprint floats sha) (submission arrival plane params))
        (newJob sha arrival plane params))

end Spec

-- What the store, the queue and the calls have to do with each other.
structure Keyed {floats : FloatReader} (sha : Bytes → Text) (s : Desk floats) : Prop where
  held : ∀ i arrival record, s.Made i arrival record →
    ∃ current, s.runner.store.jobs record.id = some current ∧ current.submitted = record.submitted
  printed : ∀ i arrival record, s.Made i arrival record → record.idempotencyFingerprint =
    arrival.key.map fun _ => fingerprint floats sha record.mode record.params
  readable : ∀ i arrival record, s.Made i arrival record → Readable floats (.dict record.params)
  keyed : ∀ i arrival record key, s.Made i arrival record → arrival.key = some key →
    s.runner.store.idem key = some record.id
  owner : ∀ key job, s.runner.store.idem key = some job →
    ∃ i arrival record, s.Made i arrival record ∧ arrival.key = some key ∧ record.id = job
  distinct : ∀ i j arrival earlier record before, s.Made i arrival record → s.Made j earlier before →
    record.id = before.id → i = j
  waiting : ∀ i arrival record, s.calls i = .enqueuing arrival record → record.id ∉ s.puts
  put : ∀ i arrival record, s.calls i = .created arrival record → record.id ∈ s.puts
  nodup : s.puts.Nodup
  known : ∀ job ∈ s.puts, s.runner.store.jobs job ≠ none
  queue : s.runner.queue <:+ s.puts

section Steps

variable {floats : FloatReader} {sha : Bytes → Text} {s s' : Desk floats} {i : CallId}
  {arrival : Arrival floats}

theorem keyed_initial : (initial : Desk floats).Keyed sha := by
  constructor <;> simp [initial, Made, Jobs.initial, JobStore.empty]

-- Inline media adds a path to the params, if anything.
theorem readable_prepare {plane : Plane} {params : Dict}
    (h : prepare arrival.host arrival.submit = .ok (plane, params)) : Readable floats (.dict params) := by
  unfold prepare at h
  obtain ⟨plane', hplane, h⟩ := bind_eq_ok.mp h
  obtain ⟨params', hparams, h⟩ := bind_eq_ok.mp h
  cases h
  unfold recordParams at hparams
  split at hparams
  · cases hparams
    exact arrival.readable
  · unfold persistInlineMedia at hparams
    split at hparams
    · cases hparams
    · split at hparams
      · cases hparams
      · cases hparams
        exact readable_set arrival.readable _ trivial

theorem storeSubmit_cases (store : JobStore) (fp : Text → Dict → Text) (submission : Submission) :
    (∃ key job existing, submission.key = some key ∧ store.idem key = some job ∧
      store.jobs job = some existing ∧
      store.submit fp submission =
        if existing.idempotencyFingerprint = some (fp submission.mode submission.params) then
          .ok (store, existing, true) else .error (.idempotencyConflict key)) ∨
      ((∀ key, submission.key = some key → ∀ job, store.idem key = some job → store.jobs job = none) ∧
        store.submit fp submission =
          .ok (store.create fp submission, JobStore.newRecord fp submission, false)) := by
  unfold JobStore.submit
  cases hkey : submission.key with
  | none => exact .inr ⟨by simp, rfl⟩
  | some key =>
      cases hidem : store.idem key with
      | none => exact .inr ⟨by simp [hidem], by simp [hidem]⟩
      | some job =>
          cases hjob : store.jobs job with
          | none => exact .inr ⟨by simp [hidem, hjob], by simp [hidem, hjob]⟩
          | some existing => exact .inl ⟨key, job, existing, rfl, hidem, hjob, by simp [hidem, hjob]⟩

theorem Keyed.answers (hsha : Function.Injective sha) (h : s.Keyed sha)
    (hfresh : s.runner.store.jobs arrival.id = none) :
    s.Answered sha i arrival (s.call sha i arrival) := by
  unfold call
  cases hprepare : prepare arrival.host arrival.submit with
  | error error => exact .invalid hprepare rfl
  | ok prepared =>
      obtain ⟨plane, params⟩ := prepared
      dsimp only
      rcases storeSubmit_cases s.runner.store (fingerprint floats sha) (submission arrival plane params)
        with ⟨key, job, existing, hkey, hidem, hjob, heq⟩ | ⟨hnone, heq⟩
      · obtain ⟨j, earlier, record, hmade, hearlier, rfl⟩ := h.owner key job hidem
        obtain ⟨current, hcurrent, hsubmitted⟩ := h.held j earlier record hmade
        obtain rfl : existing = current := Option.some.inj (hjob.symm.trans hcurrent)
        have hid : existing.submitted.id = record.submitted.id := congrArg JobRecord.id hsubmitted
        have hprint : existing.submitted.idempotencyFingerprint =
            record.submitted.idempotencyFingerprint :=
          congrArg JobRecord.idempotencyFingerprint hsubmitted
        have hprinted : existing.idempotencyFingerprint =
            some (fingerprint floats sha record.mode record.params) := by
          have hmap := h.printed j earlier record hmade
          rw [hearlier, Option.map_some] at hmap
          exact hprint.trans hmap
        have hpayload : existing.idempotencyFingerprint = some (fingerprint floats sha
            (submission arrival plane params).mode (submission arrival plane params).params) ↔
              arrival.submit.mode = record.mode ∧ Same (.dict params) (.dict record.params) := by
          rw [hprinted, Option.some.injEq, eq_comm]
          exact fingerprint_eq_iff hsha (readable_prepare hprepare) (h.readable j earlier record hmade)
        rw [heq]
        by_cases hsame : arrival.submit.mode = record.mode ∧ Same (.dict params) (.dict record.params)
        · rw [if_pos (hpayload.mpr hsame)]
          exact .replays hprepare hmade hkey hearlier hsame.1 hsame.2 hcurrent hid rfl
        · rw [if_neg (mt hpayload.mp hsame)]
          exact .conflicts hprepare hmade hkey hearlier hsame rfl
      · rw [heq]
        refine .creates hprepare (fun key hkey j earlier record hmade hearlier => ?_) hfresh rfl
        obtain ⟨current, hcurrent, -⟩ := h.held j earlier record hmade
        have hgone := hnone key hkey record.id (h.keyed j earlier record key hmade hearlier)
        simp [hcurrent] at hgone

-- The runner moves on and calls end that make no job.
theorem Keyed.kept (h : s.Keyed sha) (hkept : Kept s.runner s'.runner)
    (henqueuing : ∀ j a r, s'.calls j = .enqueuing a r ↔ s.calls j = .enqueuing a r)
    (hcreated : ∀ j a r, s'.calls j = .created a r ↔ s.calls j = .created a r)
    (hputs : s'.puts = s.puts) : s'.Keyed sha := by
  have hmade : ∀ j a r, s'.Made j a r ↔ s.Made j a r :=
    fun j a r => or_congr (henqueuing j a r) (hcreated j a r)
  refine ⟨fun j a r hm => ?_, fun j a r hm => h.printed j a r ((hmade j a r).mp hm),
    fun j a r hm => h.readable j a r ((hmade j a r).mp hm), fun j a r key hm hkey => ?_,
    fun key job hidem => ?_, fun j j' a a' r r' hm hm' => ?_, fun j a r hj => ?_, fun j a r hj => ?_,
    hputs ▸ h.nodup, fun job hjob => ?_, ?_⟩
  · obtain ⟨current, hcurrent, hsubmitted⟩ := h.held j a r ((hmade j a r).mp hm)
    have hrecord := hkept.records r.id
    rw [hcurrent, Option.map_some, Option.map_eq_some_iff] at hrecord
    obtain ⟨current', hcurrent', hsame⟩ := hrecord
    exact ⟨current', hcurrent', hsame.trans hsubmitted⟩
  · rw [hkept.idem]
    exact h.keyed j a r key ((hmade j a r).mp hm) hkey
  · rw [hkept.idem] at hidem
    obtain ⟨j, a, r, hm, hrest⟩ := h.owner key job hidem
    exact ⟨j, a, r, (hmade j a r).mpr hm, hrest⟩
  · exact h.distinct j j' a a' r r' ((hmade j a r).mp hm) ((hmade j' a' r').mp hm')
  · rw [hputs]
    exact h.waiting j a r ((henqueuing j a r).mp hj)
  · rw [hputs]
    exact h.put j a r ((hcreated j a r).mp hj)
  · intro hnone
    have hrecord := hkept.records job
    rw [hnone, Option.map_none] at hrecord
    exact h.known job (hputs ▸ hjob) (Option.map_eq_none_iff.mp hrecord.symm)
  · rw [hputs]
    exact hkept.queue.trans h.queue

theorem Keyed.ends (h : s.Keyed sha) (habsent : s.calls i = .absent) {pc : CallPc floats}
    (henqueuing : ∀ a r, pc ≠ .enqueuing a r) (hcreated : ∀ a r, pc ≠ .created a r) :
    (s.setCall i pc).Keyed sha := by
  refine h.kept (.refl _) (fun j a r => ?_) (fun j a r => ?_) rfl
  · by_cases hj : j = i
    · simp [setCall, hj, habsent, henqueuing]
    · simp [setCall, hj]
  · by_cases hj : j = i
    · simp [setCall, hj, habsent, hcreated]
    · simp [setCall, hj]

theorem create_jobs (store : JobStore) (fp : Text → Dict → Text) (submission : Submission)
    (job : JobId) : (store.create fp submission).jobs job =
      if job = submission.id then some (JobStore.newRecord fp submission) else store.jobs job := by
  by_cases hj : job = submission.id
  · simp [JobStore.create, JobStore.appendEvent, JobStore.put, hj]
  · simp [JobStore.create, JobStore.appendEvent, JobStore.put, hj]

theorem create_idem (store : JobStore) (fp : Text → Dict → Text) (submission : Submission)
    (key : Text) : (store.create fp submission).idem key =
      if submission.key = some key then some submission.id else store.idem key := by
  cases hkey : submission.key with
  | none => simp [JobStore.create, JobStore.appendEvent, JobStore.put, hkey]
  | some used =>
      by_cases hsame : used = key
      · simp [JobStore.create, JobStore.appendEvent, JobStore.put, hkey, hsame]
      · simp [JobStore.create, JobStore.appendEvent, JobStore.put, hkey, hsame, Ne.symm hsame]

theorem Keyed.creates (h : s.Keyed sha) (habsent : s.calls i = .absent) {plane : Plane} {params : Dict}
    (hprepare : prepare arrival.host arrival.submit = .ok (plane, params))
    (hnew : ∀ key, arrival.key = some key → ∀ j earlier record, s.Made j earlier record →
      earlier.key ≠ some key)
    (hfresh : s.runner.store.jobs arrival.id = none) :
    (s.create i arrival
      (s.runner.store.create (fingerprint floats sha) (submission arrival plane params))
      (newJob sha arrival plane params)).Keyed sha := by
  have hmade : ∀ j a r, (s.create i arrival
      (s.runner.store.create (fingerprint floats sha) (submission arrival plane params))
      (newJob sha arrival plane params)).Made j a r ↔
        s.Made j a r ∨ j = i ∧ a = arrival ∧ r = newJob sha arrival plane params := by
    intro j a r
    by_cases hj : j = i
    · simp [Made, create, setCall, hj, habsent, eq_comm]
    · simp [Made, create, setCall, hj]
  have hother : ∀ j a r, s.Made j a r → r.id ≠ arrival.id := by
    intro j a r hm heq
    obtain ⟨current, hcurrent, -⟩ := h.held j a r hm
    rw [heq, hfresh] at hcurrent
    cases hcurrent
  have hput : arrival.id ∉ s.puts := fun hmem => h.known arrival.id hmem hfresh
  refine ⟨fun j a r hm => ?_, fun j a r hm => ?_, fun j a r hm => ?_, fun j a r key hm hkey => ?_,
    fun key job hidem => ?_, fun j j' a a' r r' hm hm' hid => ?_, fun j a r hj => ?_,
    fun j a r hj => ?_, h.nodup, fun job hjob => ?_, h.queue⟩
  · rcases (hmade j a r).mp hm with hm | ⟨-, -, rfl⟩
    · obtain ⟨current, hcurrent, hsubmitted⟩ := h.held j a r hm
      refine ⟨current, ?_, hsubmitted⟩
      exact (create_jobs _ _ _ r.id).trans ((if_neg (hother j a r hm)).trans hcurrent)
    · exact ⟨_, (create_jobs _ _ _ arrival.id).trans (if_pos rfl), rfl⟩
  · rcases (hmade j a r).mp hm with hm | ⟨-, rfl, rfl⟩
    · exact h.printed j a r hm
    · rfl
  · rcases (hmade j a r).mp hm with hm | ⟨-, -, rfl⟩
    · exact h.readable j a r hm
    · exact readable_prepare hprepare
  · refine (create_idem _ _ _ key).trans ?_
    rcases (hmade j a r).mp hm with hm | ⟨-, rfl, rfl⟩
    · exact (if_neg fun hused => hnew key hused j a r hm hkey).trans (h.keyed j a r key hm hkey)
    · exact if_pos hkey
  · have hidem := (create_idem _ _ _ key).symm.trans hidem
    by_cases hused : arrival.key = some key
    · obtain rfl := Option.some.inj ((if_pos hused).symm.trans hidem)
      exact ⟨i, arrival, _, (hmade _ _ _).mpr (.inr ⟨rfl, rfl, rfl⟩), hused, rfl⟩
    · obtain ⟨j, a, r, hm, hrest⟩ := h.owner key job ((if_neg hused).symm.trans hidem)
      exact ⟨j, a, r, (hmade j a r).mpr (.inl hm), hrest⟩
  · rcases (hmade j a r).mp hm with hm | ⟨rfl, -, rfl⟩
    · rcases (hmade j' a' r').mp hm' with hm' | ⟨-, -, rfl⟩
      · exact h.distinct j j' a a' r r' hm hm' hid
      · exact absurd hid (hother j a r hm)
    · rcases (hmade j' a' r').mp hm' with hm' | ⟨rfl, -, -⟩
      · exact absurd hid.symm (hother j' a' r' hm')
      · rfl
  · by_cases hji : j = i
    · obtain ⟨-, rfl⟩ : arrival = a ∧ newJob sha arrival plane params = r := by
        simpa [create, setCall, hji] using hj
      exact hput
    · exact h.waiting j a r (by simpa [create, setCall, hji] using hj)
  · have hji : j ≠ i := by
      rintro rfl
      simp [create, setCall] at hj
    exact h.put j a r (by simpa [create, setCall, hji] using hj)
  · have hjob' := h.known job hjob
    have hne : job ≠ arrival.id := fun heq => hput (heq ▸ hjob)
    intro hnone
    exact hjob' ((if_neg hne).symm.trans ((create_jobs _ _ _ job).symm.trans hnone))

theorem Keyed.enqueues (h : s.Keyed sha) {record : JobRecord}
    (hcall : s.calls i = .enqueuing arrival record) : (s.enqueue i arrival record).Keyed sha := by
  have hmade : ∀ j a r, (s.enqueue i arrival record).Made j a r ↔ s.Made j a r := by
    intro j a r
    by_cases hj : j = i
    · simp [Made, enqueue, setCall, hj, hcall]
    · simp [Made, enqueue, setCall, hj]
  have hself : s.Made i arrival record := .inl hcall
  have hnot : record.id ∉ s.puts := h.waiting i arrival record hcall
  refine ⟨fun j a r hm => h.held j a r ((hmade j a r).mp hm),
    fun j a r hm => h.printed j a r ((hmade j a r).mp hm),
    fun j a r hm => h.readable j a r ((hmade j a r).mp hm),
    fun j a r key hm => h.keyed j a r key ((hmade j a r).mp hm), fun key job hidem => ?_,
    fun j j' a a' r r' hm hm' => h.distinct j j' a a' r r' ((hmade j a r).mp hm) ((hmade j' a' r').mp hm'),
    fun j a r hj => ?_, fun j a r hj => ?_, ?_, fun job hjob => ?_, ?_⟩
  · obtain ⟨j, a, r, hm, hrest⟩ := h.owner key job hidem
    exact ⟨j, a, r, (hmade j a r).mpr hm, hrest⟩
  · have hji : j ≠ i := by
      rintro rfl
      simp [enqueue, setCall] at hj
    have hj : s.calls j = .enqueuing a r := by simpa [enqueue, setCall, hji] using hj
    simp only [enqueue, setCall, List.mem_append, List.mem_singleton, not_or]
    exact ⟨h.waiting j a r hj, fun hid => hji (h.distinct j i a arrival r record (.inl hj) hself hid)⟩
  · simp only [enqueue, setCall, List.mem_append, List.mem_singleton]
    by_cases hji : j = i
    · obtain ⟨-, rfl⟩ : arrival = a ∧ record = r := by simpa [enqueue, setCall, hji] using hj
      exact .inr rfl
    · exact .inl (h.put j a r (by simpa [enqueue, setCall, hji] using hj))
  · exact List.nodup_append.mpr ⟨h.nodup, List.pairwise_singleton _ _, fun job hjob other hother => by
      rintro rfl
      exact hnot (List.mem_singleton.mp hother ▸ hjob)⟩
  · rcases List.mem_append.mp hjob with hjob | hjob
    · exact h.known job hjob
    · obtain ⟨current, hcurrent, -⟩ := h.held i arrival record hself
      rw [List.mem_singleton.mp hjob]
      simp [enqueue, setCall, hcurrent]
  · obtain ⟨taken, htaken⟩ := h.queue
    exact ⟨taken, by simp [enqueue, setCall, ← htaken]⟩

theorem step_call {s' : Desk floats} (hs : step sha s (.call i arrival) = some s') :
    s.calls i = .absent ∧ s.runner.store.jobs arrival.id = none ∧ s' = s.call sha i arrival := by
  simp only [step] at hs
  split_ifs at hs with hfree
  split at hs
  · rename_i habsent
    exact ⟨habsent, by simpa using hfree.2, (Option.some.inj hs).symm⟩
  · cases hs

theorem step_keyed (hsha : Function.Injective sha) (h : s.Keyed sha) {a : DeskAction floats}
    (hs : step sha s a = some s') : s'.Keyed sha := by
  cases a with
  | call i arrival =>
      obtain ⟨habsent, hfresh, rfl⟩ := step_call hs
      have hanswers : s.Answered sha i arrival (s.call sha i arrival) := h.answers hsha hfresh
      cases hanswers with
      | invalid _ heq => exact heq ▸ h.ends habsent (by simp) (by simp)
      | replays _ _ _ _ _ _ _ _ heq => exact heq ▸ h.ends habsent (by simp) (by simp)
      | conflicts _ _ _ _ _ heq => exact heq ▸ h.ends habsent (by simp) (by simp)
      | creates hprepare hnew _ heq => exact heq ▸ h.creates habsent hprepare hnew hfresh
  | enqueue i =>
      simp only [step] at hs
      split_ifs at hs
      split at hs
      · rename_i hcall
        obtain rfl := Option.some.inj hs
        exact h.enqueues hcall
      · cases hs
  | runner action =>
      simp only [step] at hs
      split_ifs at hs with hsubmit
      obtain ⟨runner, hrunner, rfl⟩ := Option.map_eq_some_iff.mp hs
      refine h.kept (step_kept (fun submission heq => ?_) hrunner) (fun _ _ _ => Iff.rfl)
        (fun _ _ _ => Iff.rfl) rfl
      exact hsubmit (by rw [heq]; rfl)

theorem reachable_keyed (hsha : Function.Injective sha) (hr : Reachable (step sha) initial s) :
    s.Keyed sha :=
  hr.invariant (Keyed sha) keyed_initial fun _ _ _ h _ hs => step_keyed hsha h hs

theorem step_made (hs : step sha s (.call i arrival) = some s') {j : CallId} {a : Arrival floats}
    {record : JobRecord} (hm : s.Made j a record) : s'.Made j a record := by
  obtain ⟨habsent, -, rfl⟩ := step_call hs
  have hj : j ≠ i := by
    rintro rfl
    simp [Made, habsent] at hm
  have hcall : (s.call sha i arrival).calls j = s.calls j := by
    unfold call
    split
    · simp [setCall, hj]
    · split <;> simp [setCall, create, hj]
  simpa only [Made, hcall] using hm

theorem made_of_step {a : DeskAction floats} (hs : step sha s a = some s') {j : CallId}
    {earlier : Arrival floats} {record : JobRecord} (hm : s.Made j earlier record) :
    s'.Made j earlier record := by
  cases a with
  | call i arrival => exact step_made hs hm
  | enqueue i =>
      simp only [step] at hs
      split_ifs at hs
      split at hs
      · rename_i hcall
        obtain rfl := Option.some.inj hs
        by_cases hj : j = i
        · simpa [Made, enqueue, setCall, hj, hcall] using hm
        · simpa [Made, enqueue, setCall, hj] using hm
      · cases hs
  | runner action =>
      simp only [step] at hs
      split_ifs at hs
      obtain ⟨runner, -, rfl⟩ := Option.map_eq_some_iff.mp hs
      exact hm

end Steps

def sampleArrival : Arrival FloatText.ofFractions.unread where
  host := sampleHost
  submit := ⟨ascii "t2v", [(ascii "prompt", .str (ascii "rain"))], none⟩
  key := some (ascii "k")
  id := ascii "a1"
  createdAt := ascii "2026-01-01"
  readable := by simp [Readable, ReadableFields]

end Desk

end Cosmos3.Edge
