import Cosmos3.Worker.Client
import Mathlib.Algebra.Order.Ring.Cast
import Mathlib.Tactic.Linarith

namespace Cosmos3.Worker

open Basis Basis.Python Edge Jobs

section Events

variable {K : Type}

def Event.isPost : Event K → Bool
  | .postForm _ _ | .postFormBytes _ _ _ | .postJson _ _ _ => true
  | _ => false

def Event.isPoll : Event K → Bool
  | .getJson _ => true
  | _ => false

def Event.isDownload : Event K → Bool
  | .getBytes _ => true
  | _ => false

def Event.isDelete : Event K → Bool
  | .delete _ => true
  | _ => false

def Event.fraction? : Event K → Option K
  | .report fraction => some fraction
  | _ => none

def Event.written? : Event K → Option (Text × Bytes)
  | .write path bytes => some (path, bytes)
  | _ => none

def JobError.isTimeout {ε : Type} : JobError ε → Bool
  | .job error => error.code = ascii "timeout"
  | _ => false

end Events

section Look

variable {K ε : Type} [Field K] [LinearOrder K]

-- What one round of a poll loop finds.
inductive Look (K ε : Type) where
  | late
  | stops (error : JobError ε)
  | completed (body : Dict)
  | pending (fraction : K)

variable (shown : Shown) (transport : Transport ε) (report : K → Except ε Unit) (polling : Polling K)

def look (id : Value) (round : ℕ) : Look K ε :=
  if polling.overallTimeout < polling.now (2 * round + 1) - polling.now 0 then .late
  else
    match transport.getJson round with
    | .error error => .stops (.transport error)
    | .ok (code, body) =>
      if code ≠ 200 then .stops (pollStatusError shown id code body)
      else
        match body with
        | .dict body =>
          match parseStatus shown body with
          | .error exn => .stops (.python exn)
          | .ok (.failed, _) => .stops (failedError shown id body)
          | .ok (.completed, _) => .completed body
          | .ok (.pending, serverFraction) => .pending (progressFraction serverFraction
              (polling.now (2 * round + 2) - polling.now 0) (expectedOf polling))
        | _ => .stops (.python .attributeError)

-- The rounds of a loop, given what each of them finds.
def polls (interval : K) (path : Text) (timeout : JobError ε) (found : ℕ → Look K ε) :
    ℕ → ℕ → K → Traced (Event K) (JobError ε) Dict
  | 0, _, _ => Traced.running
  | fuel + 1, round, reported =>
    match found round with
    | .late => .cons (.delete path) (.raise timeout)
    | .stops error => .cons (.getJson path) (.raise error)
    | .completed body => .cons (.getJson path) (.ret body)
    | .pending fraction =>
      .cons (.getJson path) <| .cons (.report (max reported fraction)) <| .cons (.sleep interval) <|
        polls interval path timeout found fuel (round + 1) (max reported fraction)

-- The two loops are the same rounds; they differ in the timeout that they raise and in what
-- they keep of the reply that ends them.
theorem videoPolls_eq (id : Value) (fuel round : ℕ) (reported : K) :
    videoPolls shown transport report polling id fuel round reported =
      (polls polling.pollInterval (jobPath shown id) (timeoutError shown polling "video" id)
        (look shown transport polling id) fuel round reported).seq fun _ => Traced.ret () := by
  induction fuel generalizing round reported with
  | zero => rfl
  | succ fuel ih =>
      simp only [videoPolls, polls, look, Traced.bind_eq_seq, safeReport, Traced.suppress_call_seq,
        Traced.call_ok_seq, ih]
      split_ifs with hlate
      · simp
      · cases hreply : transport.getJson round with
        | error error => simp [Except.mapError]
        | ok reply =>
            obtain ⟨code, body⟩ := reply
            by_cases hcode : code = 200
            · cases body with
              | dict body =>
                  cases hstatus : parseStatus shown body with
                  | error exn => simp [Except.mapError, hcode, hstatus]
                  | ok status =>
                      obtain ⟨state, serverFraction⟩ := status
                      cases state <;> simp [Except.mapError, hcode, hstatus]
              | _ => simp [Except.mapError, hcode]
            · simp [Except.mapError, hcode]

theorem actionPolls_eq (id : Value) (fuel round : ℕ) (reported : K) :
    actionPolls shown transport report polling id fuel round reported =
      (polls polling.pollInterval (jobPath shown id) (timeoutError shown polling "action" id)
        (look shown transport polling id) fuel round reported).seq
        fun body => Traced.ret (Dict.get body (ascii "action")) := by
  induction fuel generalizing round reported with
  | zero => rfl
  | succ fuel ih =>
      simp only [actionPolls, polls, look, Traced.bind_eq_seq, safeReport, Traced.suppress_call_seq,
        Traced.call_ok_seq, ih]
      split_ifs with hlate
      · simp
      · cases hreply : transport.getJson round with
        | error error => simp [Except.mapError]
        | ok reply =>
            obtain ⟨code, body⟩ := reply
            by_cases hcode : code = 200
            · cases body with
              | dict body =>
                  cases hstatus : parseStatus shown body with
                  | error exn => simp [Except.mapError, hcode, hstatus]
                  | ok status =>
                      obtain ⟨state, serverFraction⟩ := status
                      cases state <;> simp [Except.mapError, hcode, hstatus]
              | _ => simp [Except.mapError, hcode]
            · simp [Except.mapError, hcode]

end Look

section Late

variable {K ε : Type} {found : ℕ → Look K ε} {round : ℕ}

-- The rounds before `n` are pending, and `n` is late.
def LateAt (found : ℕ → Look K ε) (round n : ℕ) : Prop :=
  found (round + n) = .late ∧ ∀ m < n, ∃ fraction, found (round + m) = .pending fraction

theorem lateAt_zero : LateAt found round 0 ↔ found round = .late := by
  simp [LateAt]

theorem lateAt_succ {fraction : K} (hfound : found round = .pending fraction) {n : ℕ} :
    LateAt found round (n + 1) ↔ LateAt found (round + 1) n := by
  unfold LateAt
  rw [show round + (n + 1) = round + 1 + n by omega]
  refine and_congr_right fun _ => ⟨fun h m hm => ?_, fun h m hm => ?_⟩
  · rw [show round + 1 + m = round + (m + 1) by omega]
    exact h (m + 1) (by omega)
  · cases m with
    | zero => exact ⟨fraction, hfound⟩
    | succ m =>
        rw [show round + (m + 1) = round + 1 + m by omega]
        exact h m (by omega)

end Late

section Rounds

variable {K ε : Type} [LinearOrder K] {interval : K} {path : Text} {timeout : JobError ε}
  {found : ℕ → Look K ε} {fuel round : ℕ} {reported : K}

-- The rounds themselves neither submit nor download, and write no file.
theorem polls_quiet {event : Event K}
    (hevent : event ∈ (polls interval path timeout found fuel round reported).events) :
    event.isPost = false ∧ event.isDownload = false ∧ event.written? = none := by
  induction fuel generalizing round reported with
  | zero => simp [polls, Traced.running] at hevent
  | succ fuel ih =>
      rw [polls] at hevent
      split at hevent
      · simp only [Traced.events_cons, Traced.events_raise, List.mem_singleton] at hevent
        subst hevent
        exact ⟨rfl, rfl, rfl⟩
      · simp only [Traced.events_cons, Traced.events_raise, List.mem_singleton] at hevent
        subst hevent
        exact ⟨rfl, rfl, rfl⟩
      · simp only [Traced.events_cons, Traced.events_ret, List.mem_singleton] at hevent
        subst hevent
        exact ⟨rfl, rfl, rfl⟩
      · simp only [Traced.events_cons, List.mem_cons] at hevent
        rcases hevent with rfl | rfl | rfl | hevent
        · exact ⟨rfl, rfl, rfl⟩
        · exact ⟨rfl, rfl, rfl⟩
        · exact ⟨rfl, rfl, rfl⟩
        · exact ih hevent

-- Every report is at least the one before it, and the cap is never passed.
theorem polls_reports {cap : K} (hcap : ∀ n fraction, found n = .pending fraction → fraction ≤ cap)
    (hreported : reported ≤ cap) :
    (reported :: (polls interval path timeout found fuel round reported).events.filterMap
        Event.fraction?).Pairwise (· ≤ ·) ∧
      ∀ fraction ∈ (polls interval path timeout found fuel round reported).events.filterMap
        Event.fraction?, fraction ≤ cap := by
  induction fuel generalizing round reported with
  | zero => simp [polls, Traced.running]
  | succ fuel ih =>
      rw [polls]
      split
      · simp [Event.fraction?, List.filterMap_cons]
      · simp [Event.fraction?, List.filterMap_cons]
      · simp [Event.fraction?, List.filterMap_cons]
      · rename_i fraction hfound
        have hmax : max reported fraction ≤ cap := max_le hreported (hcap round fraction hfound)
        obtain ⟨hsorted, hle⟩ := @ih (round + 1) _ hmax
        simp only [Traced.events_cons, List.filterMap_cons, Event.fraction?]
        refine ⟨List.pairwise_cons.mpr ⟨fun other hother => ?_, hsorted⟩,
          List.forall_mem_cons.mpr ⟨hmax, hle⟩⟩
        rcases List.mem_cons.mp hother with rfl | hother
        · exact le_max_left reported fraction
        · exact (le_max_left reported fraction).trans ((List.pairwise_cons.mp hsorted).1 other hother)

-- The rounds end in a timeout, with the one delete, or they delete nothing.
theorem polls_timeout (hstops : ∀ n error, found n = .stops error → error.isTimeout = false) :
    ((∃ n < fuel, LateAt found round n) ∧
        (polls interval path timeout found fuel round reported).outcome = .raised timeout ∧
        (polls interval path timeout found fuel round reported).events.countP Event.isDelete = 1) ∨
      ((∀ n < fuel, ¬LateAt found round n) ∧
        (∀ error, (polls interval path timeout found fuel round reported).outcome = .raised error →
          error.isTimeout = false) ∧
        (polls interval path timeout found fuel round reported).events.countP Event.isDelete = 0) := by
  induction fuel generalizing round reported with
  | zero => exact .inr ⟨by simp, by simp [polls, Traced.running], rfl⟩
  | succ fuel ih =>
      rw [polls]
      have hnotLate : ∀ {other : Look K ε}, found round = other → other ≠ .late →
          (∀ fraction, other ≠ .pending fraction) → ∀ n < fuel + 1, ¬LateAt found round n := by
        rintro other rfl hlate hpending n - ⟨hn, hbefore⟩
        cases n with
        | zero => exact hlate hn
        | succ n =>
            obtain ⟨fraction, hfraction⟩ := hbefore 0 (by omega)
            exact hpending fraction hfraction
      split
      · rename_i hfound
        exact .inl ⟨⟨0, by omega, lateAt_zero.mpr hfound⟩, rfl, rfl⟩
      · rename_i error hfound
        refine .inr ⟨hnotLate hfound (by simp) (by simp), ?_, rfl⟩
        rintro _ ⟨⟩
        exact hstops round error hfound
      · rename_i body hfound
        exact .inr ⟨hnotLate hfound (by simp) (by simp), by simp, rfl⟩
      · rename_i fraction hfound
        refine (@ih (round + 1) (max reported fraction)).imp ?_ ?_
        · rintro ⟨⟨n, hn, hlate⟩, houtcome, hcount⟩
          refine ⟨⟨n + 1, by omega, (lateAt_succ hfound).mpr hlate⟩, houtcome, ?_⟩
          simpa [Event.isDelete] using hcount
        · rintro ⟨hlate, houtcome, hcount⟩
          refine ⟨fun n hn h => ?_, houtcome, by simpa [Event.isDelete] using hcount⟩
          cases n with
          | zero => exact absurd ((lateAt_zero.mp h).symm.trans hfound) (by simp)
          | succ n => exact hlate n (by omega) ((lateAt_succ hfound).mp h)

-- What comes back is the reply to the last poll.
theorem polls_returned {body : Dict}
    (h : (polls interval path timeout found fuel round reported).outcome = .returned body) :
    ∃ n, (polls interval path timeout found fuel round reported).events.countP Event.isPoll = n + 1 ∧
      found (round + n) = .completed body := by
  induction fuel generalizing round reported with
  | zero => cases h
  | succ fuel ih =>
      rw [polls] at h ⊢
      split at h
      · cases h
      · cases h
      · rename_i hfound
        cases h
        exact ⟨0, rfl, hfound⟩
      · obtain ⟨n, hcount, hfound⟩ := ih h
        refine ⟨n + 1, by simpa [Event.isPoll, List.countP_cons] using hcount, ?_⟩
        rwa [show round + (n + 1) = round + 1 + n by omega]

-- Each poll is one of a round that was not late.
theorem polls_count {n : ℕ}
    (h : n < (polls interval path timeout found fuel round reported).events.countP Event.isPoll) :
    found (round + n) ≠ .late ∧ ∀ m < n, ∃ fraction, found (round + m) = .pending fraction := by
  induction fuel generalizing round reported n with
  | zero => cases h
  | succ fuel ih =>
      rw [polls] at h
      split at h
      · simp [Event.isPoll] at h
      · rename_i hfound
        obtain rfl : n = 0 := by simpa [Event.isPoll] using h
        exact ⟨by simp [hfound], by simp⟩
      · rename_i hfound
        obtain rfl : n = 0 := by simpa [Event.isPoll] using h
        exact ⟨by simp [hfound], by simp⟩
      · rename_i fraction hfound
        cases n with
        | zero => exact ⟨by simp [hfound], by simp⟩
        | succ n =>
            obtain ⟨hlate, hbefore⟩ := ih (n := n) (by simpa [Event.isPoll, List.countP_cons] using h)
            refine ⟨by rwa [show round + (n + 1) = round + 1 + n by omega], fun m hm => ?_⟩
            cases m with
            | zero => exact ⟨fraction, hfound⟩
            | succ m =>
                rw [show round + (m + 1) = round + 1 + m by omega]
                exact hbefore m (by omega)

-- The error of the timeout has no part in what is done.
theorem events_polls (timeout timeout' : JobError ε) :
    (polls interval path timeout found fuel round reported).events =
      (polls interval path timeout' found fuel round reported).events := by
  induction fuel generalizing round reported with
  | zero => rfl
  | succ fuel ih =>
      rw [polls, polls]
      split
      · rfl
      · rfl
      · rfl
      · rw [Traced.events_cons, Traced.events_cons, Traced.events_cons, ih]
        rfl

theorem polls_running (h : (polls interval path timeout found fuel round reported).outcome = .running) :
    (polls interval path timeout found fuel round reported).events.countP Event.isPoll = fuel := by
  induction fuel generalizing round reported with
  | zero => rfl
  | succ fuel ih =>
      rw [polls] at h ⊢
      split at h
      · cases h
      · cases h
      · cases h
      · simpa [Event.isPoll, List.countP_cons] using ih h

end Rounds

end Cosmos3.Worker
