import Cosmos3.Orchestrator.Exclusive
import Cosmos3.Orchestrator.Progress

namespace Cosmos3.Orchestrator

open Basis State

section Core

variable {c c' : Core} {lab : CoreLabel}

-- A worker leaves the slot when its `evict` has returned, and at no other time.
theorem CoreStep.resident_stays (h : CoreStep c lab c') (hfits : c.Fits) {worker : Worker}
    (hresident : c.resident = some worker) :
    c'.resident = some worker ∨
      ∃ site value, c.phase = some (site, .done (.returned value)) ∧ site.evicts = some worker := by
  cases h with
  | @evicted target plan other value hphase =>
      obtain ⟨hother, -⟩ := hfits _ _ hphase
      rw [hresident] at hother
      exact .inr ⟨_, value, hphase, hother.symm⟩
  | @evictedAll idle other value hphase =>
      have hother := hfits _ _ hphase
      rw [Site.Fits, hresident] at hother
      exact .inr ⟨_, value, hphase, hother.symm⟩
  | ready task hphase =>
      obtain ⟨hnone, -⟩ := hfits _ _ hphase
      rw [hresident] at hnone
      cases hnone
  | _ => exact .inl hresident

-- A function handed to a thread is over when the thread leaves it.
theorem CoreStep.done_cases (h : CoreStep c lab c') {site : Site} {outcome : Outcome}
    (hphase : c'.phase = some (site, .done outcome)) :
    c.phase = some (site, .done outcome) ∨
      (c.phase = some (site, .running) ∧ lab = .leaves outcome) := by
  cases h with
  | leaves result hrunning =>
      cases hphase
      exact .inr ⟨hrunning, rfl⟩
  | hit task target hnone =>
      rw [hnone] at hphase
      cases hphase
  | stutter => exact .inl hphase
  | orphanLeaves => exact .inl hphase
  | _ => cases hphase

end Core

section Tasks

variable {idleTimeout : ℚ} {s s' : State} {task : TaskId} {a : Action}

theorem cancelTask_tasks (s : State) (task other : TaskId) :
    (cancelTask s task).tasks other = s.tasks other ∨
      (other = task ∧ (cancelTask s task).tasks other = .finished .cancelled) := by
  have hset : ∀ tasks : TaskId → Pc, tasks = Function.update s.tasks task (.finished .cancelled) →
      tasks other = s.tasks other ∨ (other = task ∧ tasks other = .finished .cancelled) := by
    rintro tasks rfl
    by_cases hother : other = task
    · subst hother
      exact .inr ⟨rfl, Function.update_self _ _ _⟩
    · exact .inl (Function.update_of_ne hother _ _)
  have hend : ∀ (base : State) idle, (endIdle base idle).tasks = base.tasks := by
    intro base idle
    cases idle <;> rfl
  unfold cancelTask
  cases hpc : s.tasks task with
  | absent => exact .inl rfl
  | created => exact hset _ rfl
  | lockWait operation =>
      cases operation with
      | acquire target => exact hset _ rfl
      | evictAll idle => exact hset _ (hend _ idle)
  | awaiting site call =>
      have hleave : ∀ base : State, base.tasks = s.tasks → (base.leave task .cancelled).tasks =
          Function.update s.tasks task (.finished .cancelled) := by
        intro base hbase
        rw [← hbase]
        rfl
      cases site with
      | evictAll idle worker =>
          refine hset _ ((hend _ idle).trans (hleave _ ?_))
          split <;> rfl
      | _ =>
          refine hset _ (hleave _ ?_)
          split <;> rfl
  | finished result => exact .inl rfl

theorem notifyIdle_tasks (idleTimeout : ℚ) (s : State) (other : TaskId) :
    (notifyIdle idleTimeout s).tasks other = s.tasks other ∨
      (s.idleTask = some other ∧ (notifyIdle idleTimeout s).tasks other = .finished .cancelled) := by
  have htimer : (cancelIdleTimer s).tasks other = s.tasks other ∨
      (s.idleTask = some other ∧ (cancelIdleTimer s).tasks other = .finished .cancelled) := by
    unfold cancelIdleTimer
    cases s.idleTask with
    | none => exact .inl rfl
    | some task =>
        refine (cancelTask_tasks (cancelIdleHandle s) task other).imp_right ?_
        rintro ⟨rfl, hcancelled⟩
        exact ⟨rfl, hcancelled⟩
  unfold notifyIdle
  dsimp only
  split <;> exact htimer

-- `evict_all` returns with the slot empty.
theorem evictAllLocked_returned (made : Bool)
    (h : (enter s task (.evictAll false) made).tasks task = .finished .returned) :
    (enter s task (.evictAll false) made).worker = none := by
  simp only [enter, evictAllLocked] at h ⊢
  cases hworker : (cancelIdleHandle s).worker with
  | none => rfl
  | some worker => simp [hworker, State.toThread, State.setPc] at h

theorem resume_returned {site : Site} {outcome : Outcome} (hsite : site.operation = .evictAll false)
    (made : Bool) (h : (resume s task site outcome made).tasks task = .finished .returned) :
    (resume s task site outcome made).worker = none := by
  cases site with
  | evictAll idle worker =>
      cases hsite
      cases outcome with
      | returned value => rfl
      | raised => simp [resume, endIdle, State.leave, State.setPc] at h
  | _ => cases hsite

-- Of the other tasks a step cancels the idle one at most.
theorem step_others {p : Operation} (h : Consistent s) (hidle : IdleOnce s)
    (hs : step idleTimeout s a = some s') (hown : a.own ≠ some task)
    (hop : (s.tasks task).operation = some p) :
    s'.tasks task = s.tasks task ∨
      ((s.idleTask = some task ∨ a = .cancelled task) ∧ s'.tasks task = .finished .cancelled) := by
  by_cases hacts : ∃ own, a.own = some own
  · obtain ⟨own, hacts⟩ := hacts
    have hne : task ≠ own := by
      rintro rfl
      exact hown hacts
    obtain ⟨operation, -, hadv, -⟩ := step_advances h hidle hacts hs
    exact (hadv.others task hne).imp_right fun hcancelled => ⟨.inl hcancelled.1, hcancelled.2⟩
  · cases a with
    | call t operation made =>
        simp only [step] at hs
        split at hs <;> cases hs
        rename_i hcall
        have hne : task ≠ t := by
          rintro rfl
          rw [hcall.1] at hop
          cases hop
        have hidleTask : s.idleTask = some t ↔ operation = .evictAll true := by
          rw [hidle.task t, hcall.1]
          simp [hcall.2]
        rcases request_advances h.locking hidle (by simp [hcall.1]) hidleTask made with
          ⟨-, hadv, -⟩ | heq
        · exact (hadv.others task hne).imp_right fun hcancelled => ⟨.inl hcancelled.1, hcancelled.2⟩
        · rw [heq]
          exact .inl (by simp [State.setPc, hne])
    | cancelled t =>
        simp only [step] at hs
        split at hs <;> cases hs
        refine (cancelTask_tasks s t task).imp_right ?_
        rintro ⟨rfl, hcancelled⟩
        exact ⟨.inr rfl, hcancelled⟩
    | orphanLeaves index outcome =>
        simp only [step] at hs
        split at hs <;> cases hs
        exact .inl rfl
    | notifyIdle =>
        cases hs
        exact (notifyIdle_tasks idleTimeout s task).imp_right fun hcancelled =>
          ⟨.inl hcancelled.1, hcancelled.2⟩
    | timerFires t =>
        simp only [step] at hs
        split at hs <;> cases hs
        rename_i hfires
        have hne : task ≠ t := by
          rintro rfl
          rw [hfires.2] at hop
          cases hop
        exact .inl (by simp [onIdleTimeout, State.setPc, hne])
    | _ => exact absurd ⟨_, rfl⟩ hacts

-- A coroutine stays in the operation it is in, or its task is over.
theorem step_operation {p : Operation} (h : Consistent s) (hidle : IdleOnce s)
    (hs : step idleTimeout s a = some s') (hop : (s.tasks task).operation = some p) :
    (s'.tasks task).operation = some p ∨ ∃ result, s'.tasks task = .finished result := by
  by_cases hown : a.own = some task
  · obtain ⟨operation, hoperation, hadv, -⟩ := step_advances h hidle hown hs
    rw [hop] at hoperation
    cases hoperation
    exact hadv.here
  · rcases step_others h hidle hs hown hop with hsame | ⟨-, hcancelled⟩
    · exact .inl (by rw [hsame, hop])
    · exact .inr ⟨_, hcancelled⟩

theorem own_evictAll_returned (hs : step idleTimeout s a = some s') (hown : a.own = some task)
    (hop : (s.tasks task).operation = some (.evictAll false))
    (hreturned : s'.tasks task = .finished .returned) : s'.worker = none := by
  cases a with
  | granted t made =>
      obtain rfl := Option.some.inj hown
      simp only [step] at hs
      split at hs
      · rename_i operation hpc
        split at hs <;> cases hs
        rw [hpc] at hop
        cases hop
        exact evictAllLocked_returned made hreturned
      · cases hs
  | threadEnters t =>
      obtain rfl := Option.some.inj hown
      simp only [step] at hs
      split at hs <;> cases hs
      simp [State.emit, State.setPc] at hreturned
  | threadLeaves t outcome =>
      obtain rfl := Option.some.inj hown
      simp only [step] at hs
      split at hs <;> cases hs
      simp [State.emit, State.setPc] at hreturned
  | resumes t made =>
      obtain rfl := Option.some.inj hown
      simp only [step] at hs
      split at hs <;> cases hs
      rename_i site outcome hpc
      rw [hpc] at hop
      exact resume_returned (Option.some.inj hop) made hreturned
  | idleStarts t =>
      obtain rfl := Option.some.inj hown
      simp only [step] at hs
      split at hs <;> cases hs
      rename_i hpc
      rw [hpc] at hop
      cases hop
  | _ => cases hown

theorem call_evictAll_returned {made : Bool}
    (hs : step idleTimeout s (.call task (.evictAll false) made) = some s')
    (hreturned : s'.tasks task = .finished .returned) : s'.worker = none := by
  simp only [step] at hs
  split at hs
  · cases hs
    unfold request at hreturned ⊢
    dsimp only at hreturned ⊢
    split
    · rename_i howner
      rw [if_pos howner] at hreturned
      exact evictAllLocked_returned made hreturned
    · rename_i howner
      rw [if_neg howner] at hreturned
      simp [State.setPc] at hreturned
  · cases hs

theorem step_evictAll_returned (h : Consistent s) (hidle : IdleOnce s)
    (hs : step idleTimeout s a = some s') (hop : (s.tasks task).operation = some (.evictAll false))
    (hreturned : s'.tasks task = .finished .returned) : s'.worker = none := by
  by_cases hown : a.own = some task
  · exact own_evictAll_returned hs hown hop hreturned
  · exfalso
    rcases step_others h hidle hs hown hop with hsame | ⟨-, hcancelled⟩
    · rw [← hsame, hreturned] at hop
      cases hop
    · rw [hreturned] at hcancelled
      cases hcancelled

theorem call_operation {made : Bool} {p : Operation} (h : Consistent s) (hidle : IdleOnce s)
    (hs : step idleTimeout s (.call task p made) = some s') :
    (s'.tasks task).operation = some p ∨ ∃ result, s'.tasks task = .finished result := by
  simp only [step] at hs
  split at hs <;> cases hs
  rename_i hcall
  have hidleTask : s.idleTask = some task ↔ p = .evictAll true := by
    rw [hidle.task task, hcall.1]
    simp [hcall.2]
  rcases request_advances h.locking hidle (by simp [hcall.1]) hidleTask made with ⟨-, hadv, -⟩ | heq
  · exact hadv.here
  · rw [heq]
    exact .inl (by simp [State.setPc])

theorem label_leaves {outcome : Outcome} (hlabel : label s a = .leaves outcome) :
    ∃ task, a = .threadLeaves task outcome := by
  cases a with
  | threadLeaves task result =>
      cases hlabel
      exact ⟨task, rfl⟩
  | cancelled task =>
      simp only [label] at hlabel
      split at hlabel <;> cases hlabel
  | notifyIdle =>
      simp only [label] at hlabel
      split at hlabel <;> cases hlabel
  | orphanLeaves index result =>
      simp only [label] at hlabel
      split at hlabel <;> cases hlabel
  | _ => cases hlabel

end Tasks

end Cosmos3.Orchestrator
