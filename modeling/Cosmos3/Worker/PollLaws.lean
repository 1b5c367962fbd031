import Cosmos3.Worker.Polls

namespace Cosmos3.Worker

open Basis Basis.Python Edge Jobs

section Job

variable {K ε α : Type} [Field K] [LinearOrder K]
variable (shown : Shown) (transport : Transport ε) (report : K → Except ε Unit) (polling : Polling K)

def submission (form : Except Exn Form) : Traced (Event K) (JobError ε) Value :=
  (Traced.ofExcept (form.mapError .python)).seq fun form =>
    (Traced.call (.postForm basePath form) (transport.postForm.mapError .transport)).seq fun submitted =>
      (submittedId shown submitted).seq fun id =>
        (safeReport report 0).seq fun _ => Traced.ret id

def rounds (kind : String) (fuel : ℕ) (id : Value) : Traced (Event K) (JobError ε) Dict :=
  polls polling.pollInterval (jobPath shown id) (timeoutError shown polling kind id)
    (look shown transport polling id) fuel 0 0

-- What the two jobs have in common: they submit, go through the rounds, and finish.
def polledJob (form : Except Exn Form) (kind : String)
    (finish : Value → Dict → Traced (Event K) (JobError ε) α) (fuel : ℕ) :
    Traced (Event K) (JobError ε) α :=
  (submission shown transport report form).seq fun id =>
    (rounds shown transport polling kind fuel id).seq (finish id)

def download (id : Value) : Traced (Event K) (JobError ε) Bytes :=
  Traced.call (.getBytes (jobPath shown id ++ ascii "/content")) (transport.getBytes.mapError .transport)

def finishAction (wantVideo : Bool) (id : Value) (body : Dict) :
    Traced (Event K) (JobError ε) (Dict × Option Bytes) :=
  match usableAction (Dict.get body (ascii "action")) with
  | none => Traced.raise (fail "generation_failed"
      (ascii "action job " ++ strOf shown id ++ ascii " returned no usable action payload: " ++
        repr shown ((Dict.get body (ascii "action")).getD .none)))
  | some action =>
    if wantVideo then (download shown transport id).seq fun video => Traced.ret (action, some video)
    else Traced.ret (action, none)

theorem runVideoJob_eq (record : JobRecord) (fuel : ℕ) (reference : Option FilePart) :
    runVideoJob shown transport report polling record fuel reference =
      polledJob shown transport report polling (buildVideoForm shown record reference) "video"
        (fun id _ => download shown transport id) fuel := by
  simp only [runVideoJob, polledJob, rounds, submission, download, Traced.bind_eq_seq, Traced.seq_assoc,
    Traced.ret_seq, videoPolls_eq]

theorem runActionJob_eq (record : JobRecord) (fuel : ℕ) (reference : FilePart) (wantVideo : Bool) :
    runActionJob shown transport report polling record fuel reference wantVideo =
      polledJob shown transport report polling (buildActionForm shown record reference) "action"
        (finishAction shown transport wantVideo) fuel := by
  simp only [runActionJob, polledJob, rounds, submission, Traced.bind_eq_seq, Traced.seq_assoc,
    Traced.ret_seq, actionPolls_eq]
  rfl

end Job

section Laws

variable {K ε : Type} [Field K] [LinearOrder K]

-- The id that the server gives the job, if it gives one.
def submittedAs (transport : Transport ε) : Option Value :=
  match transport.postForm with
  | .ok (.dict submitted) => (Dict.get submitted (ascii "id")).filter truth
  | _ => none

def RepliedAt (shown : Shown) (transport : Transport ε) (state : PollState) (n : ℕ) : Prop :=
  ∃ body fraction, transport.getJson n = .ok (200, .dict body) ∧
    parseStatus shown body = .ok (state, fraction)

def OverdueAt (polling : Polling K) (n : ℕ) : Prop :=
  polling.overallTimeout < polling.now (2 * n + 1) - polling.now 0

-- The deadline passes while the job is pending.
def TimedOut (shown : Shown) (transport : Transport ε) (polling : Polling K) (fuel : ℕ) : Prop :=
  ∃ n < fuel, OverdueAt polling n ∧
    ∀ m < n, ¬OverdueAt polling m ∧ RepliedAt shown transport .pending m

-- Every sleep takes at least `d`.
def SleepsFor (polling : Polling K) (d : K) : Prop :=
  ∀ n, polling.now (2 * n + 2) + d ≤ polling.now (2 * n + 3)

structure PollLaws {α : Type} (shown : Shown) (transport : Transport ε) (polling : Polling K) (fuel : ℕ)
    (job : Traced (Event K) (JobError ε) α) : Prop where
  posts : job.events.countP Event.isPost = 1
  sorted : (job.events.filterMap Event.fraction?).Pairwise (· ≤ ·)
  range : ∀ fraction ∈ job.events.filterMap Event.fraction?, 0 ≤ fraction ∧ fraction ≤ 95 / 100
  downloads : ∀ front path back, job.events = front ++ .getBytes path :: back →
    ∃ n, front.countP Event.isPoll = n + 1 ∧ RepliedAt shown transport .completed n
  timeout : (submittedAs transport).isSome → TimedOut shown transport polling fuel →
    job.events.countP Event.isDelete = 1 ∧ job.events.countP Event.isDownload = 0 ∧
      ∃ error, job.outcome = .raised error ∧ error.isTimeout = true
  inTime : ¬TimedOut shown transport polling fuel →
    job.events.countP Event.isDelete = 0 ∧
      ∀ error, job.outcome = .raised error → error.isTimeout = false
  bounded : ∀ d, 0 < d → Monotone polling.now → SleepsFor polling d →
    (job.events.countP Event.isPoll : K) ≤ max 0 (polling.overallTimeout / d + 1) ∧
      (0 < fuel → polling.overallTimeout / d + 1 < fuel → job.outcome ≠ .running)

section Submission

variable {shown : Shown} {transport : Transport ε} {report : K → Except ε Unit} {polling : Polling K}
  {form : Form}

theorem isTimeout_fail {code : String} (hcode : ascii code ≠ ascii "timeout") {message : Text} :
    (fail code message : JobError ε).isTimeout = false := decide_eq_false hcode

omit [LinearOrder K] in
theorem submission_of_some {id : Value} (hid : submittedAs transport = some id) :
    submission shown transport report (.ok form) =
      .cons (.postForm basePath form) (.cons (.report 0) (.ret id)) := by
  unfold submittedAs at hid
  split at hid
  · rename_i submitted hreply
    simp [submission, hreply, Except.mapError, submittedId, getOf, Traced.bind_eq_seq, hid, safeReport]
  · cases hid

omit [LinearOrder K] in
theorem submission_of_none (hid : submittedAs transport = none) :
    ∃ error : JobError ε, error.isTimeout = false ∧
      submission shown transport report (.ok form) = .cons (.postForm basePath form) (.raise error) := by
  unfold submittedAs at hid
  split at hid
  · rename_i submitted hreply
    refine ⟨fail "internal_error"
      (ascii "submit response carried no job id: " ++ repr shown (.dict submitted)), ?_, ?_⟩
    · exact isTimeout_fail (by decide)
    · simp [submission, hreply, Except.mapError, submittedId, getOf, Traced.bind_eq_seq, hid]
  · rename_i hother
    cases hreply : transport.postForm with
    | error error => exact ⟨.transport error, rfl, by simp [submission, hreply, Except.mapError]⟩
    | ok submitted =>
        refine ⟨.python .attributeError, rfl, ?_⟩
        cases submitted with
        | dict fields => exact absurd hreply (hother fields)
        | _ => simp [submission, hreply, Except.mapError, submittedId, getOf, Traced.bind_eq_seq]

end Submission

section Shape

variable {shown : Shown} {transport : Transport ε} {report : K → Except ε Unit} {polling : Polling K}

theorem repliedAt_iff {state : PollState} {n : ℕ} {body : Dict} {found : PollState × Option ℚ}
    (hreply : transport.getJson n = .ok (200, .dict body)) (hstatus : parseStatus shown body = .ok found) :
    RepliedAt shown transport state n ↔ found.1 = state := by
  constructor
  · rintro ⟨body', fraction, hreply', hstatus'⟩
    obtain rfl : body = body' := by simpa [hreply] using hreply'
    obtain rfl : found = (state, fraction) := by simpa [hstatus] using hstatus'
    rfl
  · rintro rfl
    exact ⟨body, found.2, hreply, hstatus⟩

theorem not_repliedAt {state : PollState} {n : ℕ}
    (h : ∀ body, transport.getJson n = .ok (200, .dict body) → ∃ exn, parseStatus shown body = .error exn) :
    ¬RepliedAt shown transport state n := by
  rintro ⟨body, fraction, hreply, hstatus⟩
  obtain ⟨exn, hexn⟩ := h body hreply
  rw [hexn] at hstatus
  cases hstatus

-- All that a round can find.
theorem look_cases (id : Value) (n : ℕ) :
    OverdueAt polling n ∧ look shown transport polling id n = .late ∨
      ¬OverdueAt polling n ∧
        ((∃ error : JobError ε, error.isTimeout = false ∧ ¬RepliedAt shown transport .pending n ∧
            look shown transport polling id n = .stops error) ∨
          (∃ body, (transport.getJson n = .ok (200, .dict body) ∧
              ∃ fraction, parseStatus shown body = .ok (.completed, fraction)) ∧
            ¬RepliedAt shown transport .pending n ∧
            look shown transport polling id n = .completed body) ∨
          ∃ server, RepliedAt shown transport .pending n ∧
            look shown transport polling id n = .pending (progressFraction server
              (polling.now (2 * n + 2) - polling.now 0) (expectedOf polling))) := by
  by_cases hlate : OverdueAt polling n
  · exact .inl ⟨hlate, if_pos hlate⟩
  · refine .inr ⟨hlate, ?_⟩
    have hlook : look shown transport polling id n = _ := if_neg hlate
    rw [hlook]
    cases hreply : transport.getJson n with
    | error error =>
        exact .inl ⟨.transport error, rfl, not_repliedAt (by simp [hreply]), rfl⟩
    | ok reply =>
        obtain ⟨code, body⟩ := reply
        by_cases hcode : code = 200
        · subst hcode
          cases body with
          | dict body =>
              cases hstatus : parseStatus shown body with
              | error exn =>
                  refine .inl ⟨.python exn, rfl, not_repliedAt fun body' hreply' => ⟨exn, ?_⟩, ?_⟩
                  · obtain rfl : body = body' := by simpa [hreply] using hreply'
                    exact hstatus
                  · simp [hstatus]
              | ok found =>
                  have hreplied := @repliedAt_iff _ shown transport .pending _ _ _ hreply hstatus
                  obtain ⟨state, server⟩ := found
                  cases state with
                  | failed =>
                      refine .inl ⟨failedError shown id body, isTimeout_fail (by decide), ?_, ?_⟩
                      · rw [hreplied]
                        simp
                      · simp [hstatus]
                  | completed =>
                      refine .inr (.inl ⟨body, ⟨rfl, server, hstatus⟩, ?_, ?_⟩)
                      · rw [hreplied]
                        simp
                      · simp [hstatus]
                  | pending =>
                      exact .inr (.inr ⟨server, hreplied.mpr rfl, by simp [hstatus]⟩)
          | _ => exact .inl ⟨.python .attributeError, rfl, not_repliedAt (by simp [hreply]), rfl⟩
        · refine .inl ⟨pollStatusError shown id code body, isTimeout_fail (by decide), ?_, ?_⟩
          · exact not_repliedAt (by simp [hreply, hcode])
          · simp [hcode]

theorem lateAt_look {id : Value} {n : ℕ} :
    LateAt (look shown transport polling id) 0 n ↔
      OverdueAt polling n ∧ ∀ m < n, ¬OverdueAt polling m ∧ RepliedAt shown transport .pending m := by
  unfold LateAt
  simp only [Nat.zero_add]
  refine and_congr ?_ (forall₂_congr fun m _ => ?_)
  · rcases @look_cases _ _ _ _ shown transport polling id n with
      ⟨hlate, h⟩ | ⟨hlate, ⟨_, -, -, h⟩ | ⟨_, -, -, h⟩ | ⟨_, -, h⟩⟩ <;> simp [h, hlate]
  · rcases @look_cases _ _ _ _ shown transport polling id m with
      ⟨hlate, h⟩ | ⟨hlate, ⟨_, -, hreply, h⟩ | ⟨_, -, hreply, h⟩ | ⟨_, hreply, h⟩⟩
    · simp [h, hlate]
    · simp [h, hlate, hreply]
    · simp [h, hlate, hreply]
    · simp [h, hlate, hreply]

theorem isTimeout_of_stops {id : Value} {n : ℕ} {error : JobError ε}
    (hfound : look shown transport polling id n = .stops error) : error.isTimeout = false := by
  rcases @look_cases _ _ _ _ shown transport polling id n with
    ⟨-, h⟩ | ⟨-, ⟨error', herror, -, h⟩ | ⟨_, -, -, h⟩ | ⟨_, -, h⟩⟩
  · cases h.symm.trans hfound
  · cases h.symm.trans hfound
    exact herror
  · cases h.symm.trans hfound
  · cases h.symm.trans hfound

theorem reply_of_completed {id : Value} {n : ℕ} {body : Dict}
    (hfound : look shown transport polling id n = .completed body) :
    transport.getJson n = .ok (200, .dict body) ∧
      ∃ fraction, parseStatus shown body = .ok (.completed, fraction) := by
  rcases @look_cases _ _ _ _ shown transport polling id n with
    ⟨-, h⟩ | ⟨-, ⟨_, -, -, h⟩ | ⟨body', hreply, -, h⟩ | ⟨_, -, h⟩⟩
  · cases h.symm.trans hfound
  · cases h.symm.trans hfound
  · cases h.symm.trans hfound
    exact hreply
  · cases h.symm.trans hfound

theorem repliedAt_of_pending {id : Value} {n : ℕ} {fraction : K}
    (hfound : look shown transport polling id n = .pending fraction) : RepliedAt shown transport .pending n := by
  rcases @look_cases _ _ _ _ shown transport polling id n with
    ⟨-, h⟩ | ⟨-, ⟨_, -, -, h⟩ | ⟨_, -, -, h⟩ | ⟨_, hreply, -⟩⟩
  · cases h.symm.trans hfound
  · cases h.symm.trans hfound
  · cases h.symm.trans hfound
  · exact hreply

theorem exists_progress_of_pending {id : Value} {n : ℕ} {fraction : K}
    (hfound : look shown transport polling id n = .pending fraction) :
    ∃ server elapsed expected, fraction = progressFraction server elapsed expected := by
  rcases @look_cases _ _ _ _ shown transport polling id n with
    ⟨-, h⟩ | ⟨-, ⟨_, -, -, h⟩ | ⟨_, -, -, h⟩ | ⟨server, -, h⟩⟩
  · cases h.symm.trans hfound
  · cases h.symm.trans hfound
  · cases h.symm.trans hfound
  · cases h.symm.trans hfound
    exact ⟨server, _, _, rfl⟩

end Shape

section Clock

variable [IsStrictOrderedRing K] {polling : Polling K} {d : K} {n : ℕ}

theorem progressFraction_mem (server : Option ℚ) (elapsed expected : K) :
    0 ≤ progressFraction server elapsed expected ∧ progressFraction server elapsed expected ≤ 95 / 100 := by
  have hcap : (0 : K) ≤ pollProgressCap := by
    unfold pollProgressCap
    positivity
  unfold progressFraction
  split
  · exact ⟨le_min hcap (le_max_left _ _), min_le_left _ _⟩
  · split_ifs
    · exact ⟨le_rfl, hcap⟩
    · exact ⟨le_min hcap (le_max_left _ _), min_le_left _ _⟩

-- By the time of a check there have been as many sleeps as rounds.
theorem now_check (hmono : Monotone polling.now) (hsleep : SleepsFor polling d) (n : ℕ) :
    polling.now 0 + n * d ≤ polling.now (2 * n + 1) := by
  induction n with
  | zero =>
      have := hmono (Nat.zero_le 1)
      simpa using this
  | succ n ih =>
      have hread := hmono (show 2 * n + 1 ≤ 2 * n + 2 by omega)
      have hnext := hsleep n
      rw [show 2 * (n + 1) + 1 = 2 * n + 3 by omega]
      push_cast
      linarith

theorem round_le (hd : 0 < d) (hmono : Monotone polling.now) (hsleep : SleepsFor polling d)
    (hlate : ¬OverdueAt polling n) : ((n + 1 : ℕ) : K) ≤ polling.overallTimeout / d + 1 := by
  have hcheck := now_check hmono hsleep n
  have htime : n * d ≤ polling.overallTimeout := by
    unfold OverdueAt at hlate
    linarith
  have hdiv := (le_div_iff₀ hd).mpr htime
  push_cast
  linarith

end Clock

section Jobs

variable {α : Type} {shown : Shown} {transport : Transport ε} {report : K → Except ε Unit}
  {polling : Polling K} {form : Form} {kind : String} {fuel : ℕ}
  {finish : Value → Dict → Traced (Event K) (JobError ε) α}

-- A job finishes with one download or none, and not in a timeout.
structure Finishes (finish : Value → Dict → Traced (Event K) (JobError ε) α) : Prop where
  events : ∀ id body, (finish id body).events = [] ∨ ∃ path, (finish id body).events = [.getBytes path]
  raised : ∀ id body error, (finish id body).outcome = .raised error → error.isTimeout = false
  ends : ∀ id body, (finish id body).outcome ≠ .running

omit [Field K] [LinearOrder K] in
theorem finishes_download : Finishes fun id (_ : Dict) => download (K := K) shown transport id := by
  refine ⟨fun id _ => .inr ⟨_, Traced.events_call _ _⟩, fun id _ error h => ?_, fun id _ h => ?_⟩
  · unfold download at h
    cases hreply : transport.getBytes with
    | error e =>
        rw [hreply] at h
        cases h
        rfl
    | ok bytes =>
        rw [hreply] at h
        cases h
  · unfold download at h
    cases hreply : transport.getBytes <;> rw [hreply] at h <;> cases h

omit [Field K] [LinearOrder K] in
theorem finishes_finishAction (wantVideo : Bool) :
    Finishes (finishAction (K := K) shown transport wantVideo) := by
  have hdownload : Finishes fun id (_ : Dict) => download (K := K) shown transport id :=
    finishes_download
  refine ⟨fun id body => ?_, fun id body error h => ?_, fun id body h => ?_⟩
  · unfold finishAction
    split
    · exact .inl rfl
    · split_ifs
      · cases hreply : transport.getBytes with
        | error e => exact .inr ⟨_, by simp [download, hreply, Except.mapError]; rfl⟩
        | ok bytes => exact .inr ⟨_, by simp [download, hreply, Except.mapError]; rfl⟩
      · exact .inl rfl
  · unfold finishAction at h
    split at h
    · cases h
      exact isTimeout_fail (by decide)
    · split_ifs at h
      · rcases Traced.outcome_seq_raised.mp h with h | ⟨_, -, h⟩
        · exact hdownload.raised id body error h
        · cases h
      · cases h
  · unfold finishAction at h
    split at h
    · cases h
    · split_ifs at h
      · unfold download at h
        cases hreply : transport.getBytes <;> rw [hreply] at h <;> cases h
      · cases h

omit [Field K] [LinearOrder K] in
-- What finishing adds to the rounds.
theorem seq_finish (hfinish : Finishes finish) (x : Traced (Event K) (JobError ε) Dict) (id : Value) :
    (∃ tail, (x.seq (finish id)).events = x.events ++ tail ∧
      (tail = [] ∨ ∃ path body, tail = [.getBytes path] ∧ x.outcome = .returned body)) ∧
    (∀ error, x.outcome = .raised error → (x.seq (finish id)).outcome = .raised error) ∧
    (∀ error, (x.seq (finish id)).outcome = .raised error →
      x.outcome = .raised error ∨ error.isTimeout = false) ∧
    ((x.seq (finish id)).outcome = .running → x.outcome = .running) := by
  rcases x with ⟨events, outcome⟩
  cases outcome with
  | running => exact ⟨⟨[], by simp [Traced.seq], .inl rfl⟩, by simp, by simp [Traced.seq], by simp⟩
  | raised error =>
      refine ⟨⟨[], by simp [Traced.seq], .inl rfl⟩, by simp [Traced.seq], fun _ h => ?_, by simp [Traced.seq]⟩
      exact .inl (by simpa [Traced.seq] using h)
  | returned body =>
      refine ⟨⟨(finish id body).events, rfl, ?_⟩, by simp, fun error h => ?_, fun h => ?_⟩
      · refine (hfinish.events id body).imp_right ?_
        rintro ⟨path, hpath⟩
        exact ⟨path, body, hpath, rfl⟩
      · exact .inr (hfinish.raised id body error h)
      · exact absurd h (hfinish.ends id body)

theorem polledJob_of_some {id : Value} (hid : submittedAs transport = some id) :
    polledJob shown transport report polling (.ok form) kind finish fuel =
      .cons (.postForm basePath form) (.cons (.report 0)
        ((rounds shown transport polling kind fuel id).seq (finish id))) := by
  rw [polledJob, submission_of_some hid, Traced.cons_seq, Traced.cons_seq, Traced.ret_seq]

theorem pollLaws_of_none (hid : submittedAs transport = none) :
    PollLaws shown transport polling fuel
      (polledJob shown transport report polling (.ok form) kind finish fuel) := by
  obtain ⟨error, herror, hsubmission⟩ := @submission_of_none K ε _ shown transport report form hid
  have hjob : polledJob shown transport report polling (.ok form) kind finish fuel =
      .cons (.postForm basePath form) (.raise error) := by
    rw [polledJob, hsubmission, Traced.cons_seq, Traced.raise_seq]
  rw [hjob]
  refine ⟨rfl, by simp [Event.fraction?, List.filterMap_cons],
    by simp [Event.fraction?, List.filterMap_cons], fun front path back h => ?_, ?_, fun _ => ⟨rfl, ?_⟩,
    fun d _ _ _ => ⟨?_, by simp⟩⟩
  · cases front with
    | nil => cases h
    | cons head front => simp at h
  · simp [hid]
  · rintro _ ⟨⟩
    exact herror
  · simp [Event.isPoll]

variable [IsStrictOrderedRing K]

theorem pollLaws_of_some (hfinish : Finishes finish) {id : Value} (hid : submittedAs transport = some id) :
    PollLaws shown transport polling fuel
      (polledJob shown transport report polling (.ok form) kind finish fuel) := by
  rw [polledJob_of_some hid]
  obtain ⟨⟨tail, hevents, htail⟩, hraised, hraises, hrunning⟩ :=
    seq_finish hfinish (rounds shown transport polling kind fuel id) id
  have hquiet : ∀ event ∈ (rounds shown transport polling kind fuel id).events,
      event.isPost = false ∧ event.isDownload = false := fun event hevent =>
    ⟨(polls_quiet hevent).1, (polls_quiet hevent).2.1⟩
  have htailCount : tail.countP Event.isPost = 0 ∧ tail.countP Event.isDelete = 0 ∧
      tail.countP Event.isPoll = 0 ∧ tail.filterMap Event.fraction? = [] := by
    rcases htail with rfl | ⟨path, body, rfl, -⟩
    · simp
    · simp [Event.isPost, Event.isDelete, Event.isPoll, Event.fraction?, List.filterMap_cons]
  obtain ⟨hpostTail, hdeleteTail, hpollTail, hreportTail⟩ := htailCount
  have hreports : (0 :: (rounds shown transport polling kind fuel id).events.filterMap
      Event.fraction?).Pairwise (· ≤ ·) ∧
      ∀ fraction ∈ (rounds shown transport polling kind fuel id).events.filterMap Event.fraction?,
        fraction ≤ 95 / 100 := by
    refine polls_reports (fun n fraction hfound => ?_) (by positivity)
    obtain ⟨server, elapsed, expected, rfl⟩ := exists_progress_of_pending hfound
    exact (progressFraction_mem server elapsed expected).2
  have hfractions : (Traced.cons (.postForm basePath form) (Traced.cons (.report 0)
      ((rounds shown transport polling kind fuel id).seq (finish id)))).events.filterMap Event.fraction? =
        0 :: (rounds shown transport polling kind fuel id).events.filterMap Event.fraction? := by
    simp [hevents, Event.fraction?, List.filterMap_cons, hreportTail]
  have hdeletes : (Traced.cons (.postForm basePath form) (Traced.cons (.report 0)
      ((rounds shown transport polling kind fuel id).seq (finish id)))).events.countP Event.isDelete =
        (rounds shown transport polling kind fuel id).events.countP Event.isDelete := by
    simp [hevents, Event.isDelete, hdeleteTail]
  have hpolls : (Traced.cons (.postForm basePath form) (Traced.cons (.report 0)
      ((rounds shown transport polling kind fuel id).seq (finish id)))).events.countP Event.isPoll =
        (rounds shown transport polling kind fuel id).events.countP Event.isPoll := by
    simp [hevents, Event.isPoll, hpollTail]
  have htimeout := @polls_timeout K ε _ polling.pollInterval (jobPath shown id)
    (timeoutError shown polling kind id) (look shown transport polling id) fuel 0 0
    fun n error => isTimeout_of_stops
  simp only [lateAt_look] at htimeout
  refine ⟨?_, ?_, ?_, ?_, ?_, ?_, ?_⟩
  · simp only [Traced.events_cons, hevents, List.countP_cons, List.countP_append, hpostTail]
    rw [List.countP_eq_zero.mpr fun event hevent => by simp [(hquiet event hevent).1]]
    rfl
  · rw [hfractions]
    exact hreports.1
  · rw [hfractions]
    intro fraction hfraction
    rcases List.mem_cons.mp hfraction with rfl | hfraction
    · exact ⟨le_rfl, by positivity⟩
    · exact ⟨(List.pairwise_cons.mp hreports.1).1 fraction hfraction, hreports.2 fraction hfraction⟩
  · intro front path back h
    obtain ⟨hfront, body, hreturned⟩ : front = .postForm basePath form :: .report 0 ::
        (rounds shown transport polling kind fuel id).events ∧
          ∃ body, (rounds shown transport polling kind fuel id).outcome = .returned body := by
      simp only [Traced.events_cons, hevents] at h
      have hnotMem : Event.getBytes path ∉ Event.postForm basePath form :: .report 0 ::
          (rounds shown transport polling kind fuel id).events := by
        simp only [List.mem_cons, reduceCtorEq, false_or]
        exact fun hmem => by simpa [Event.isDownload] using (hquiet _ hmem).2
      obtain ⟨rest, rfl, hrest⟩ := append_eq_of_notMem hnotMem (by simpa using h)
      rcases htail with rfl | ⟨path', body, rfl, hreturned⟩
      · simp at hrest
      · cases rest with
        | nil => exact ⟨by simp, body, hreturned⟩
        | cons head rest => simp at hrest
    obtain ⟨n, hcount, hfound⟩ := polls_returned hreturned
    rw [Nat.zero_add] at hfound
    obtain ⟨hreply, fraction, hstatus⟩ := reply_of_completed hfound
    refine ⟨n, ?_, _, fraction, hreply, hstatus⟩
    rw [hfront, List.countP_cons_of_neg (by simp [Event.isPoll]),
      List.countP_cons_of_neg (by simp [Event.isPoll])]
    exact hcount
  · intro _ hlate
    rcases htimeout with ⟨-, houtcome, hcount⟩ | ⟨hnot, -⟩
    · refine ⟨hdeletes.trans hcount, ?_, _, hraised _ houtcome, by simp [timeoutError, fail, JobError.isTimeout]⟩
      have hnil : tail = [] := by
        rcases htail with rfl | ⟨path, body, -, hreturned⟩
        · rfl
        · rw [rounds, houtcome] at hreturned
          cases hreturned
      simp only [Traced.events_cons, hevents, hnil, List.append_nil, List.countP_cons]
      rw [List.countP_eq_zero.mpr fun event hevent => by simp [(hquiet event hevent).2]]
      rfl
    · obtain ⟨n, hn, hlate⟩ := hlate
      exact absurd hlate (hnot n hn)
  · intro hnot
    rcases htimeout with ⟨⟨n, hn, hlate⟩, -⟩ | ⟨-, houtcome, hcount⟩
    · exact absurd ⟨n, hn, hlate⟩ hnot
    · refine ⟨hdeletes.trans hcount, fun error h => ?_⟩
      rcases hraises error h with h | h
      · exact houtcome error h
      · exact h
  · intro d hd hmono hsleep
    have hcount : ((rounds shown transport polling kind fuel id).events.countP Event.isPoll : K) ≤
        max 0 (polling.overallTimeout / d + 1) := by
      cases hn : (rounds shown transport polling kind fuel id).events.countP Event.isPoll with
      | zero => simp
      | succ n =>
          obtain ⟨hfound, -⟩ := polls_count (hn.symm ▸ Nat.lt_succ_self n : n < List.countP Event.isPoll
            (rounds shown transport polling kind fuel id).events)
          refine le_max_of_le_right (round_le hd hmono hsleep fun hlate => hfound ?_)
          rw [Nat.zero_add]
          exact if_pos hlate
    refine ⟨hpolls ▸ hcount, fun hfuel htime h => ?_⟩
    rw [rounds, polls_running (hrunning h)] at hcount
    rcases le_max_iff.mp hcount with hcount | hcount
    · have : (0 : K) < fuel := by exact_mod_cast hfuel
      linarith
    · linarith

theorem pollLaws_polledJob (hfinish : Finishes finish) :
    PollLaws shown transport polling fuel
      (polledJob shown transport report polling (.ok form) kind finish fuel) := by
  cases hid : submittedAs transport with
  | none => exact pollLaws_of_none hid
  | some id => exact pollLaws_of_some hfinish hid

end Jobs

section Same

variable {α β : Type} {shown : Shown} {transport : Transport ε} {report : K → Except ε Unit}
  {polling : Polling K} {form form' : Form} {kind kind' : String} {fuel : ℕ}
  {finish : Value → Dict → Traced (Event K) (JobError ε) α}
  {finish' : Value → Dict → Traced (Event K) (JobError ε) β}

-- What the loops do by themselves.
def Event.isLoop (event : Event K) : Bool :=
  event.isPoll || event.isDelete || event.fraction?.isSome

theorem filter_polledJob (hfinish : Finishes finish) {id : Value} (hid : submittedAs transport = some id) :
    (polledJob shown transport report polling (.ok form) kind finish fuel).events.filter Event.isLoop =
      .report 0 :: (rounds shown transport polling kind fuel id).events.filter Event.isLoop := by
  obtain ⟨⟨tail, hevents, htail⟩, -⟩ := seq_finish hfinish (rounds shown transport polling kind fuel id) id
  have hnil : tail.filter Event.isLoop = [] := by
    rcases htail with rfl | ⟨path, body, rfl, -⟩ <;> rfl
  rw [polledJob_of_some hid, Traced.events_cons, Traced.events_cons, hevents,
    List.filter_cons_of_neg (by simp [Event.isLoop, Event.isPoll, Event.isDelete, Event.fraction?]),
    List.filter_cons_of_pos (by simp [Event.isLoop, Event.isPoll, Event.isDelete, Event.fraction?]),
    List.filter_append, hnil, List.append_nil]

-- The same replies and the same clock make the two loops do the same.
theorem same_loop (hfinish : Finishes finish) (hfinish' : Finishes finish') :
    (polledJob shown transport report polling (.ok form) kind finish fuel).events.filter Event.isLoop =
      (polledJob shown transport report polling (.ok form') kind' finish' fuel).events.filter
        Event.isLoop := by
  cases hid : submittedAs transport with
  | none =>
      obtain ⟨error, -, hsubmission⟩ := @submission_of_none K ε _ shown transport report form hid
      obtain ⟨error', -, hsubmission'⟩ := @submission_of_none K ε _ shown transport report form' hid
      rw [polledJob, polledJob, hsubmission, hsubmission', Traced.cons_seq, Traced.cons_seq]
      rfl
  | some id =>
      rw [filter_polledJob hfinish hid, filter_polledJob hfinish' hid, rounds, rounds,
        events_polls (timeoutError shown polling kind id) (timeoutError shown polling kind' id)]

end Same

variable [IsStrictOrderedRing K]

-- The laws of the two poll loops, and that the copies do not drift apart.
theorem poll_loops_lawful {shown : Shown} {record record' : JobRecord} {reference : Option FilePart}
    {reference' : FilePart} {form form' : Form}
    (hvideo : buildVideoForm shown record reference = .ok form)
    (haction : buildActionForm shown record' reference' = .ok form') (transport : Transport ε)
    (report : K → Except ε Unit) (polling : Polling K) (wantVideo : Bool) (fuel : ℕ) :
    PollLaws shown transport polling fuel
        (runVideoJob shown transport report polling record fuel reference) ∧
      PollLaws shown transport polling fuel
        (runActionJob shown transport report polling record' fuel reference' wantVideo) ∧
      (runVideoJob shown transport report polling record fuel reference).events.filter Event.isLoop =
        (runActionJob shown transport report polling record' fuel reference' wantVideo).events.filter
          Event.isLoop := by
  rw [runVideoJob_eq, runActionJob_eq, hvideo, haction]
  exact ⟨pollLaws_polledJob finishes_download, pollLaws_polledJob (finishes_finishAction wantVideo),
    same_loop finishes_download (finishes_finishAction wantVideo)⟩

end Laws

section Sample

def sampleRecord (mode : String) : JobRecord where
  id := ascii "a1"
  mode := ascii mode
  plane := .generation
  status := .running
  createdAt := ascii "2026-01-01T00:00:00Z"
  params := [(ascii "prompt", .str (ascii "rain"))]

def sampleReference : FilePart := ⟨ascii "frame.png", ascii "image/png", [137, 80, 78, 71]⟩

-- The server reports its progress once and completes the job at the second poll.
def sampleTransport : Transport Unit where
  postForm := .ok (.dict [(ascii "id", .str (ascii "vid-123"))])
  postFormBytes := .error ()
  postJson := .error ()
  getJson n := .ok (200, .dict (if n = 0 then [(ascii "progress", .int 60)]
    else [(ascii "status", .str (ascii "completed"))]))
  getBytes := .ok [1, 2]
  delete := .ok ()

-- Every reading of the clock is a second after the one before it.
def samplePolling (overallTimeout : ℚ) : Polling ℚ where
  pollInterval := 5
  overallTimeout := overallTimeout
  now n := n
  seconds _ := ascii "0"

theorem poll_loops_lawful_sampleTransport :
    PollLaws .quoted sampleTransport (samplePolling 60) 9
      (runVideoJob .quoted sampleTransport (fun _ => .ok ()) (samplePolling 60) (sampleRecord "t2v") 9
        none) := by
  have hvideo : (buildVideoForm .quoted (sampleRecord "t2v") none).toOption.isSome = true := by
    decide +kernel
  have haction : (buildActionForm .quoted (sampleRecord "policy") sampleReference).toOption.isSome =
      true := by decide +kernel
  cases hform : buildVideoForm .quoted (sampleRecord "t2v") none with
  | error exn => simp [hform, Except.toOption] at hvideo
  | ok form =>
      cases hform' : buildActionForm .quoted (sampleRecord "policy") sampleReference with
      | error exn => simp [hform', Except.toOption] at haction
      | ok form' => exact (poll_loops_lawful hform hform' sampleTransport _ (samplePolling 60) true 9).1

-- A timeout below zero passes at once, without a poll.
theorem negative_timeout_polls :
    Monotone (samplePolling (-2)).now ∧ SleepsFor (samplePolling (-2)) 1 ∧
      ¬((runVideoJob .quoted sampleTransport (fun _ => .ok ()) (samplePolling (-2)) (sampleRecord "t2v")
        9 none).events.countP Event.isPoll : ℚ) ≤ (samplePolling (-2)).overallTimeout / 1 + 1 := by
  refine ⟨fun m n h => ?_, fun n => ?_, ?_⟩
  · simpa [samplePolling] using h
  · simp only [samplePolling]
    push_cast
    linarith
  · have hpolls : (runVideoJob .quoted sampleTransport (fun _ => .ok ()) (samplePolling (-2))
        (sampleRecord "t2v") 9 none).events.countP Event.isPoll = 0 := by decide +kernel
    rw [hpolls]
    norm_num [samplePolling]

end Sample

end Cosmos3.Worker
