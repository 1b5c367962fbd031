import Cosmos3.Basis.Traced
import Mathlib.Algebra.Order.Floor.Semiring
import Mathlib.Data.Rat.Floor
import Mathlib.Tactic.Linarith

namespace Cosmos3.Orchestrator

open Basis

-- What a plane worker sees while it waits: the clock, whether its container or process runs, and
-- whether the probe passes, each by how often it was looked at.
structure Watch where
  now : ℕ → ℚ
  alive : ℕ → Bool
  probe : ℕ → Bool

inductive WaitEvent where
  | look
  | probe
  | sleep (seconds : ℚ)

def WaitEvent.isSleep : WaitEvent → Bool
  | .sleep _ => true
  | _ => false

section Wait

variable (w : Watch) (poll deadline : ℚ)

-- The loop that both workers have. They differ in what they ask when the deadline has passed.
def waitLoop (last : ℕ → Traced WaitEvent Empty Bool) : ℕ → ℕ → Traced WaitEvent Empty Bool
  | 0, _ => Traced.running
  | fuel + 1, round =>
    if w.now (round + 1) < deadline then do
      let alive ← Traced.call .look (.ok (w.alive round))
      if alive = false then Traced.ret false
      else do
        let passed ← Traced.call .probe (.ok (w.probe round))
        if passed = true then Traced.ret true
        else do
          Traced.call (.sleep poll) (.ok ())
          waitLoop last fuel (round + 1)
    else last round

-- `self._controller.is_running() and self._probe(...)`
def containerLast (round : ℕ) : Traced WaitEvent Empty Bool := do
  let alive ← Traced.call .look (.ok (w.alive round))
  if alive = true then Traced.call .probe (.ok (w.probe round)) else Traced.ret false

def subprocessLast (round : ℕ) : Traced WaitEvent Empty Bool := Traced.call .probe (.ok (w.probe round))

variable (timeout : ℚ) (fuel : ℕ)

def containerWaitReady : Traced WaitEvent Empty Bool :=
  waitLoop w poll (w.now 0 + timeout) (containerLast w) fuel 0

-- A worker that was not started waits for nothing.
def subprocessWaitReady (started : Bool) : Traced WaitEvent Empty Bool :=
  if started = false then Traced.ret false
  else waitLoop w poll (w.now 0 + timeout) (subprocessLast w) fuel 0

end Wait

section Rounds

variable {w : Watch} {poll deadline : ℚ} {last : ℕ → Traced WaitEvent Empty Bool}

-- A round that does not end the wait: the worker runs, but it does not answer yet.
def Waits (w : Watch) (deadline : ℚ) (round : ℕ) : Prop :=
  w.now (round + 1) < deadline ∧ w.alive round = true ∧ w.probe round = false

instance (round : ℕ) : Decidable (Waits w deadline round) := inferInstanceAs (Decidable (_ ∧ _))

theorem waitLoop_of_waits {round : ℕ} (h : Waits w deadline round) (fuel : ℕ) :
    waitLoop w poll deadline last (fuel + 1) round =
      .cons .look (.cons .probe (.cons (.sleep poll) (waitLoop w poll deadline last fuel (round + 1)))) := by
  obtain ⟨hnow, halive, hprobe⟩ := h
  simp only [waitLoop, if_pos hnow, Traced.bind_eq_seq, Traced.call_ok_seq, halive, hprobe,
    Bool.true_eq_false, Bool.false_eq_true, if_false]

-- A failed probe alone never ends the wait, and costs one sleep.
theorem waitLoop_add {rounds : ℕ} {round : ℕ} (h : ∀ i < rounds, Waits w deadline (round + i)) (fuel : ℕ) :
    (waitLoop w poll deadline last (rounds + fuel) round).outcome =
        (waitLoop w poll deadline last fuel (round + rounds)).outcome ∧
      (waitLoop w poll deadline last (rounds + fuel) round).events.countP WaitEvent.isSleep =
        rounds + (waitLoop w poll deadline last fuel (round + rounds)).events.countP WaitEvent.isSleep := by
  induction rounds generalizing round with
  | zero => simp
  | succ rounds ih =>
      have hfirst : Waits w deadline round := h 0 (Nat.succ_pos rounds)
      obtain ⟨houtcome, hsleeps⟩ := @ih (round + 1) fun i hi => by
        rw [Nat.add_right_comm, Nat.add_assoc]
        exact h (i + 1) (Nat.succ_lt_succ hi)
      have hround : round + (rounds + 1) = round + 1 + rounds := by omega
      rw [Nat.succ_add, waitLoop_of_waits hfirst, hround]
      refine ⟨houtcome, ?_⟩
      simp only [Traced.events_cons, List.countP_cons, WaitEvent.isSleep, hsleeps]
      simp
      omega

-- What the wait comes to in the round that ends it.
theorem waitLoop_of_not_waits {round : ℕ} {answer : Bool} (h : ¬ Waits w deadline round)
    (hlast : deadline ≤ w.now (round + 1) → (last round).outcome = .returned answer ∧
      (last round).events.countP WaitEvent.isSleep = 0)
    (hfirst : w.now (round + 1) < deadline → answer = (w.alive round && w.probe round)) (fuel : ℕ) :
    (waitLoop w poll deadline last (fuel + 1) round).outcome = .returned answer ∧
      (waitLoop w poll deadline last (fuel + 1) round).events.countP WaitEvent.isSleep = 0 := by
  by_cases hnow : w.now (round + 1) < deadline
  · have hanswer := hfirst hnow
    simp only [waitLoop, if_pos hnow, Traced.bind_eq_seq, Traced.call_ok_seq]
    cases halive : w.alive round with
    | false =>
        rw [halive] at hanswer
        subst hanswer
        simp [WaitEvent.isSleep]
    | true =>
        cases hprobe : w.probe round with
        | false => exact absurd ⟨hnow, halive, hprobe⟩ h
        | true =>
            rw [halive, hprobe] at hanswer
            subst hanswer
            simp [WaitEvent.isSleep]
  · rw [waitLoop, if_neg hnow]
    exact hlast (not_lt.mp hnow)

-- A whole wait: the rounds that do not end it, then the one that does.
theorem waitLoop_ends {n : ℕ} {answer : Bool} (hbefore : ∀ i < n, Waits w deadline i)
    (hstop : ¬ Waits w deadline n)
    (hlast : deadline ≤ w.now (n + 1) → (last n).outcome = .returned answer ∧
      (last n).events.countP WaitEvent.isSleep = 0)
    (hfirst : w.now (n + 1) < deadline → answer = (w.alive n && w.probe n)) (more : ℕ) :
    (waitLoop w poll deadline last (n + (more + 1)) 0).outcome = .returned answer ∧
      (waitLoop w poll deadline last (n + (more + 1)) 0).events.countP WaitEvent.isSleep = n := by
  have hrounds : ∀ i < n, Waits w deadline (0 + i) := by simpa using hbefore
  obtain ⟨houtcome, hsleeps⟩ := @waitLoop_add w poll deadline last n 0 hrounds (more + 1)
  obtain ⟨hfinal, hquiet⟩ := @waitLoop_of_not_waits w poll deadline last n answer hstop hlast hfirst more
  rw [Nat.zero_add] at houtcome hsleeps
  exact ⟨houtcome.trans hfinal, by rw [hsleeps, hquiet, Nat.add_zero]⟩

-- The clock moves on by at least the pause between two rounds.
def Ticks (w : Watch) (poll : ℚ) : Prop :=
  w.now 0 ≤ w.now 1 ∧ ∀ k, w.now (k + 1) + poll ≤ w.now (k + 2)

theorem now_ge (h : Ticks w poll) (k : ℕ) : w.now 0 + k * poll ≤ w.now (k + 1) := by
  induction k with
  | zero => simpa using h.1
  | succ k ih =>
      have := h.2 k
      push_cast
      linarith

-- Both waits end in the same round, at most one for each pause that fits into the timeout. The
-- container is ready when it runs and answers in that round; the process, after the deadline,
-- when its probe passes, even if it runs no more.
theorem wait_ready_exact (hpoll : 0 < poll) (hclock : Ticks w poll) (timeout : ℚ) {fuel : ℕ}
    (hfuel : ⌈timeout / poll⌉₊ < fuel) :
    ∃ n ≤ ⌈timeout / poll⌉₊, (∀ i < n, Waits w (w.now 0 + timeout) i) ∧
      ((containerWaitReady w poll timeout fuel).outcome = .returned (w.alive n && w.probe n) ∧
        (containerWaitReady w poll timeout fuel).events.countP WaitEvent.isSleep = n) ∧
      ((subprocessWaitReady w poll timeout fuel true).outcome =
          .returned (w.probe n && (w.alive n || decide (w.now 0 + timeout ≤ w.now (n + 1)))) ∧
        (subprocessWaitReady w poll timeout fuel true).events.countP WaitEvent.isSleep = n) := by
  have hend : ¬ Waits w (w.now 0 + timeout) ⌈timeout / poll⌉₊ := by
    rintro ⟨hnow, -⟩
    have hge := now_ge hclock ⌈timeout / poll⌉₊
    have hceil : timeout ≤ ⌈timeout / poll⌉₊ * poll := (div_le_iff₀ hpoll).mp (Nat.le_ceil _)
    linarith
  have hex : ∃ n, ¬ Waits w (w.now 0 + timeout) n := ⟨_, hend⟩
  have hle : Nat.find hex ≤ ⌈timeout / poll⌉₊ := Nat.find_min' hex hend
  have hbefore : ∀ i < Nat.find hex, Waits w (w.now 0 + timeout) i := fun i hi =>
    not_not.mp (Nat.find_min hex hi)
  have hstop := Nat.find_spec hex
  generalize Nat.find hex = n at hle hbefore hstop
  obtain ⟨more, rfl⟩ : ∃ more, fuel = n + (more + 1) := ⟨fuel - n - 1, by omega⟩
  refine ⟨n, hle, hbefore, ?_, ?_⟩
  · have hlast : (containerLast w n).outcome = .returned (w.alive n && w.probe n) ∧
        (containerLast w n).events.countP WaitEvent.isSleep = 0 := by
      simp only [containerLast, Traced.bind_eq_seq, Traced.call_ok_seq]
      cases w.alive n <;> simp [Traced.call, Traced.ofExcept, WaitEvent.isSleep]
    exact waitLoop_ends hbefore hstop (fun _ => hlast) (fun _ => rfl) more
  · have hlast : (subprocessLast w n).outcome = .returned (w.probe n) ∧
        (subprocessLast w n).events.countP WaitEvent.isSleep = 0 := by
      simp [subprocessLast, Traced.call, Traced.ofExcept, WaitEvent.isSleep]
    rw [subprocessWaitReady, if_neg (by simp)]
    refine waitLoop_ends hbefore hstop (fun hpassed => by simpa [hpassed] using hlast) (fun hnow => ?_) more
    rw [decide_eq_false (not_le.mpr hnow), Bool.or_false, Bool.and_comm]

-- A process that has touched its ready file and died, seen when the deadline has passed.
def sampleWatch : Watch where
  now k := 5 * k
  alive _ := false
  probe _ := true

theorem wait_ready_exact_sampleWatch :
    (containerWaitReady sampleWatch 5 4 2).outcome = .returned false ∧
      (subprocessWaitReady sampleWatch 5 4 2 true).outcome = .returned true := by
  have hclock : Ticks sampleWatch 5 := by
    refine ⟨by norm_num [sampleWatch], fun k => ?_⟩
    simp only [sampleWatch]
    push_cast
    linarith
  have hfuel : ⌈(4 / 5 : ℚ)⌉₊ < 2 := by
    have hone : ⌈(4 / 5 : ℚ)⌉₊ ≤ 1 := Nat.ceil_le.mpr (by norm_num)
    omega
  obtain ⟨n, -, -, ⟨hcontainer, -⟩, hsubprocess, -⟩ := wait_ready_exact (by norm_num) hclock 4 hfuel
  have hpassed : sampleWatch.now 0 + 4 ≤ sampleWatch.now (n + 1) := by
    simp only [sampleWatch]
    push_cast
    linarith [(Nat.cast_nonneg n : (0 : ℚ) ≤ n)]
  refine ⟨hcontainer, ?_⟩
  rw [hsubprocess, decide_eq_true hpassed]
  rfl

end Rounds

end Cosmos3.Orchestrator
