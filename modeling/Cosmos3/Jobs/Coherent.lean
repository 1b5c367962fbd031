import Cosmos3.Jobs.Life
import Mathlib.Algebra.Order.Ring.Rat

namespace Cosmos3.Jobs

open Basis

def ThreadPc.isAppending : ThreadPc → Bool
  | .appending _ => true
  | _ => false

def ThreadPc.isAbsent : ThreadPc → Bool
  | .absent => true
  | _ => false

@[simp] theorem isAbsent_absent : ThreadPc.absent.isAbsent = true := rfl

@[simp] theorem isAbsent_working : ThreadPc.working.isAbsent = false := rfl

@[simp] theorem isAbsent_appending (progress : Number) :
    (ThreadPc.appending progress).isAbsent = false := rfl

@[simp] theorem isAbsent_finished (outcome : WorkOutcome) :
    (ThreadPc.finished outcome).isAbsent = false := rfl

@[simp] theorem isAppending_absent : ThreadPc.absent.isAppending = false := rfl

@[simp] theorem isAppending_working : ThreadPc.working.isAppending = false := rfl

@[simp] theorem isAppending_appending (progress : Number) :
    (ThreadPc.appending progress).isAppending = true := rfl

@[simp] theorem isAppending_finished (outcome : WorkOutcome) :
    (ThreadPc.finished outcome).isAppending = false := rfl

theorem ThreadPc.isAppending_of_isResting {thread : ThreadPc} (h : thread.isResting = true) :
    thread.isAppending = false := by
  cases thread <;> simp_all [ThreadPc.isResting]

theorem value_injective {status status' : JobStatus} (h : status.value = status'.value) :
    status = status' := by
  revert h
  cases status <;> cases status' <;> decide

theorem isTerminal_eq_false {status : JobStatus} (h : status.isTerminal = false) :
    status = .queued ∨ status = .running := by
  cases status <;> simp_all [JobStatus.isTerminal]

theorem clamp01_idem (fraction : Number) : clamp01 (clamp01 fraction) = clamp01 fraction := by
  have hone : clamp01 (.finite 1) = .finite 1 := by simp [clamp01, zero_le_one.not_gt]
  cases fraction with
  | finite q =>
      by_cases hneg : q < 0
      · simp [clamp01, hneg]
      · by_cases hbig : 1 < q
        · simp [clamp01, hneg, hbig]
        · simp [clamp01, hneg, hbig]
  | nan => rfl
  | infinity => exact hone
  | negInfinity => simp [clamp01]

-- How the record, the event owed for it and the worker thread agree at any time.
structure Life.Coherent (life : Life) : Prop where
  owes : ∀ type data, life.owed = some (type, data) → type = life.record.status.value
  waiting : life.record.status = .queued → life.thread.isAbsent = true ∧ life.owed = none
  begun : life.record.status = .running → life.thread.isAbsent = life.owed.isSome
  reporting : ∀ progress, life.thread = .appending progress →
    life.record.progress = progress ∧ clamp01 progress = progress
  complete : life.record.status = .succeeded →
    life.record.progress = .finite 1 ∧ life.thread.isAppending = false

theorem coherent_created {record : JobRecord} (hq : record.status = .queued) :
    Life.Coherent ⟨record, none, .absent, [⟨1, JobStatus.queued.value, []⟩]⟩ :=
  ⟨by simp, by simp, by simp [hq], by simp, by simp [hq]⟩

-- An owed event that is not the running event is a terminal one.
theorem Life.Coherent.owes_terminal {life : Life} (h : life.Coherent) {type : Text}
    {data : List (Text × Json)} (ho : life.owed = some (type, data))
    (ht : type ≠ JobStatus.running.value) : life.record.status.isTerminal = true := by
  by_contra hactive
  rcases isTerminal_eq_false (by simpa using hactive) with hq | hr
  · simp [(h.waiting hq).2] at ho
  · exact ht (by rw [h.owes _ _ ho, hr])

-- The thread that ran when the job was running is as it was.
theorem Life.Coherent.ends {life : Life} (h : life.Coherent) {record : JobRecord}
    (hterminal : record.status.isTerminal = true)
    (hprogress : life.thread.isAppending = true → record.progress = life.record.progress)
    (hcomplete : record.status = .succeeded →
      record.progress = .finite 1 ∧ life.thread.isAppending = false)
    (data : List (Text × Json)) :
    Life.Coherent { life with record := record, owed := some (record.status.value, data) } := by
  refine ⟨by simp, ?_, ?_, fun progress hthread => ?_, hcomplete⟩
  · intro (hq : record.status = .queued)
    simp [hq] at hterminal
  · intro (hr : record.status = .running)
    simp [hr] at hterminal
  · obtain ⟨heq, hclamp⟩ := h.reporting progress hthread
    rw [hthread] at hprogress
    exact ⟨(hprogress rfl).trans heq, hclamp⟩

theorem LifeStep.coherent {reported : Option Number} {life life' : Life}
    (h : LifeStep reported life life') (hc : life.Coherent) : life'.Coherent := by
  cases h with
  | starts hq ho ht => exact ⟨by simp, by simp, by simp [ht], by simp [ht], by simp⟩
  | fails hs ho ht error =>
      exact @Life.Coherent.ends life hc
        { life.record with status := .failed, error := some error } rfl (fun _ => rfl) (by simp) _
  | succeeds hs ho ht artifactPath resultMeta =>
      have hidle := ThreadPc.isAppending_of_isResting ht
      exact hc.ends rfl (by simp [hidle]) (fun _ => ⟨rfl, hidle⟩) _
  | cancels hs ho =>
      exact @Life.Coherent.ends life hc { life.record with status := .cancelled } rfl
        (fun _ => rfl) (by simp) _
  | appendsRunning ho =>
      have hrunning : life.record.status = .running := (value_injective (hc.owes _ _ ho)).symm
      exact ⟨by simp, by simp [hrunning], by simp, by simp, by simp [hrunning]⟩
  | appendsTerminal ho ht =>
      have hterminal := hc.owes_terminal ho ht
      refine ⟨by simp, ?_, ?_, hc.reporting, hc.complete⟩
      · intro (hq : life.record.status = .queued)
        simp [hq] at hterminal
      · intro (hr : life.record.status = .running)
        simp [hr] at hterminal
  | @reports hs ht fraction hf =>
      refine ⟨hc.owes, by simp [hs], ?_, ?_, by simp [hs]⟩
      · intro hr
        have hbegun := hc.begun hs
        rw [ht] at hbegun
        simpa using hbegun
      · intro progress hthread
        obtain rfl := ThreadPc.appending.inj hthread
        exact ⟨rfl, clamp01_idem fraction⟩
  | @appendsProgress progress ht =>
      have hbegun := hc.begun
      have hwaiting := hc.waiting
      rw [ht] at hbegun hwaiting
      exact ⟨hc.owes, hwaiting, hbegun, by simp, fun hs => ⟨(hc.complete hs).1, rfl⟩⟩
  | ends ht outcome =>
      have hbegun := hc.begun
      have hwaiting := hc.waiting
      rw [ht] at hbegun hwaiting
      exact ⟨hc.owes, hwaiting, hbegun, by simp, fun hs => ⟨(hc.complete hs).1, rfl⟩⟩

-- The type of an event is the value of a status or `progress`.
def KnownType (event : JobEvent) : Prop :=
  event.type = progressType ∨ ∃ status : JobStatus, event.type = status.value

theorem LifeStep.knownType {reported : Option Number} {life life' : Life}
    (h : LifeStep reported life life') (hc : life.Coherent)
    (hknown : ∀ event ∈ life.history, KnownType event) :
    ∀ event ∈ life'.history, KnownType event := by
  have hlast : ∀ event, KnownType event → ∀ earlier ∈ life.history ++ [event], KnownType earlier := by
    intro event hevent earlier hearlier
    rcases List.mem_append.mp hearlier with hmem | hmem
    · exact hknown earlier hmem
    · exact List.mem_singleton.mp hmem ▸ hevent
  cases h with
  | appendsRunning ho => exact hlast _ (.inr ⟨.running, rfl⟩)
  | appendsTerminal ho ht => exact hlast _ (.inr ⟨_, hc.owes _ _ ho⟩)
  | appendsProgress ht => exact hlast _ (.inl rfl)
  | _ => exact hknown

def LivesCoherent (s : State) : Prop := ∀ job life, s.life job = some life → life.Coherent

variable {fingerprint : Text → Python.Dict → Text}

theorem step_coherent {s s' : State} {a : Action} (h : Serial s) (hc : LivesCoherent s)
    (hs : step fingerprint s a = some s') : LivesCoherent s' :=
  step_lives h hs (fun _ hq _ _ _ => coherent_created hq)
    (fun _ _ _ _ _ hstep hlife => hstep.coherent hlife) hc

end Cosmos3.Jobs
