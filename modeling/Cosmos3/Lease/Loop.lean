import Cosmos3.Jobs.EventShape
import Cosmos3.Lease.System

namespace Cosmos3.Lease

open Basis Jobs

-- The job for which the loop, not a cancel, runs a section.
def loopJob : Section → Option JobId
  | .appendRunning job | .appendFailed job _ | .appendSucceeded job _ => some job
  | .cancelUpdate _ _ | .appendCancelled _ _ => none

-- The loop has left `acquire` behind: its job runs, or is about to run or to fail.
def pastAcquire (r : Jobs.State) : Prop :=
  (∃ job, r.loop = .working job ∨ r.loop = .failEvicting job) ∨
    ∃ part job, r.busy = some part ∧ loopJob part = some job

-- Where the loop stands agrees with `_current` and with the section it runs.
structure Placed (r : Jobs.State) : Prop where
  serial : Serial r
  coherent : LivesCoherent r
  current : ∀ job, r.current = some job →
    (∃ record, r.loop = .leaseWait job record) ∨ heldJob r.loop = some job
  busy : ∀ part job, r.busy = some part → loopJob part = some job → heldJob r.loop = some job

theorem placed_initial : Placed Jobs.initial := by
  refine ⟨serial_initial, ?_, ?_, ?_⟩ <;>
    simp [LivesCoherent, State.life, Jobs.initial, JobStore.empty]

-- A step that leaves the loop in the same phase.
structure Steady (r r' : Jobs.State) : Prop where
  heldJob : heldJob r'.loop = heldJob r.loop
  past : pastAcquire r' → pastAcquire r

-- A step that ends `_process` or brings it to one more section of its own.
inductive Turn (r r' : Jobs.State) (job : JobId) : Prop
  | ends (hloop : r'.loop = .idle) (hbusy : r'.busy = none) (hcurrent : r'.current = none)
  | goesOn (hloop : r'.loop = r.loop) (hcurrent : r'.current = r.current) (part : Section)
      (hbusy : r'.busy = some part) (hpart : loopJob part = some job)

section Turns

variable {r : Jobs.State}

theorem update_cases (r : Jobs.State) (job : JobId)
    (fn : JobRecord → Except JobTransitionError JobRecord)
    (returned raised : Jobs.State → Jobs.State) :
    (∃ store, r.update job fn returned raised = returned { r with store := store }) ∨
      r.update job fn returned raised = raised r := by
  unfold State.update
  split
  · exact .inl ⟨_, rfl⟩
  · exact .inr rfl

theorem turn_finish (hbusy : r.busy = none) (job : JobId) : Turn r (r.finish job) job :=
  .ends rfl hbusy rfl

theorem turn_update (hbusy : r.busy = none) (job : JobId)
    (fn : JobRecord → Except JobTransitionError JobRecord) {part : Section}
    (hpart : loopJob part = some job) :
    Turn r (r.update job fn (fun s => { s with busy := some part }) fun s => s.finish job) job := by
  rcases update_cases r job fn (fun s => { s with busy := some part })
    (fun s => s.finish job) with ⟨store, heq⟩ | heq
  · rw [heq]
    exact .goesOn rfl rfl part rfl hpart
  · rw [heq]
    exact turn_finish hbusy job

theorem turn_failJob (hbusy : r.busy = none) (job : JobId) (exc : Raised) :
    Turn r (failJob r job exc) job := by
  unfold failJob
  split
  · exact turn_finish hbusy job
  · exact turn_update hbusy job _ rfl

theorem turn_acquired (hbusy : r.busy = none) (job : JobId) : Turn r (acquired r job) job := by
  unfold acquired
  split
  · exact turn_finish hbusy job
  · exact turn_update hbusy job _ rfl

theorem turn_worked (hbusy : r.busy = none) (job : JobId) (outcome : WorkOutcome) :
    Turn r (worked r job outcome) job := by
  cases outcome with
  | raised exc => exact turn_failJob hbusy job exc
  | returned artifactPath resultMeta =>
      unfold worked
      dsimp only
      split
      · exact turn_finish hbusy job
      · exact turn_update hbusy job _ rfl

end Turns

section Effects

variable {fingerprint : Text → Python.Dict → Text} {r r' : Jobs.State}

-- What an action of the runner is for the lease.
def Effect (r r' : Jobs.State) : Jobs.Action → Prop
  | .loop .leaseGranted =>
      heldJob r.loop = none ∧ ¬pastAcquire r' ∧ ∃ job record, r'.loop = .acquiring job record
  | .loop .acquireReturns | .loop (.acquireRaises _) =>
      ∃ job, heldJob r.loop = some job ∧ Turn r r' job
  | .loop .workEnds | .loop .failureEvicted =>
      pastAcquire r ∧ ∃ job, heldJob r.loop = some job ∧ Turn r r' job
  | .loop (.cancelCall canceller job) => Steady r r' ∧
      ((∃ j, r'.cancels canceller = .evicting j) → pastAcquire r ∧ heldJob r.loop = some job)
  | .nextSection =>
      match r.busy with
      | some (.appendFailed job _) =>
          heldJob r.loop = some job ∧ r'.loop = .failEvicting job
      | some (.appendSucceeded job _) => heldJob r.loop = some job ∧ Turn r r' job
      | _ => Steady r r'
  | _ => Steady r r'

-- What `Placed` says of the control state alone.
structure Control (r : Jobs.State) : Prop where
  current : ∀ job, r.current = some job →
    (∃ record, r.loop = .leaseWait job record) ∨ heldJob r.loop = some job
  busy : ∀ part job, r.busy = some part → loopJob part = some job → heldJob r.loop = some job

theorem Control.congr (h : Control r) (hloop : r'.loop = r.loop) (hcurrent : r'.current = r.current)
    (hbusy : ∀ part, r'.busy = some part → r.busy = some part ∨ loopJob part = none) :
    Control r' := by
  refine ⟨?_, fun part job hpart hjob => ?_⟩
  · rw [hloop, hcurrent]
    exact h.current
  · rw [hloop]
    rcases hbusy part hpart with hsame | hnone
    · exact h.busy part job hsame hjob
    · rw [hjob] at hnone
      cases hnone

theorem steady_congr (hloop : r'.loop = r.loop)
    (hbusy : ∀ part, r'.busy = some part → r.busy = some part ∨ loopJob part = none) :
    Steady r r' := by
  refine ⟨by rw [hloop], fun hpast => ?_⟩
  rcases hpast with ⟨job, hworking⟩ | ⟨part, job, hpart, hjob⟩
  · exact .inl ⟨job, hloop ▸ hworking⟩
  · rcases hbusy part hpart with hsame | hnone
    · exact .inr ⟨part, job, hsame, hjob⟩
    · rw [hjob] at hnone
      cases hnone

theorem Turn.control (h : Control r) {job : JobId} (hheld : heldJob r.loop = some job)
    (ht : Turn r r' job) : Control r' := by
  cases ht with
  | ends hloop hbusy hcurrent => exact ⟨by simp [hcurrent], by simp [hbusy]⟩
  | goesOn hloop hcurrent part hbusy hpart =>
      refine ⟨by rw [hloop, hcurrent]; exact h.current, fun part' job' hpart' hjob' => ?_⟩
      rw [hbusy] at hpart'
      cases hpart'
      rw [hpart] at hjob'
      cases hjob'
      rw [hloop]
      exact hheld

-- A job that `cancel` finds running and current is past its acquire.
theorem Placed.past_of_running (h : Placed r) (hbusy : r.busy = none) {job : JobId}
    {record : JobRecord} (hget : r.store.jobs job = some record)
    (hrunning : record.status = .running) (hcurrent : r.current = some job) :
    pastAcquire r ∧ heldJob r.loop = some job := by
  have hthread : r.threads job ≠ .absent := by
    have hlife := h.coherent job ⟨record, r.owed job, r.threads job, r.history job⟩ (by
      rw [State.life, hget]
      rfl)
    have hbegun := hlife.begun hrunning
    rw [owed_none hbusy] at hbegun
    intro habsent
    simp [habsent] at hbegun
  have hwaiting : ∀ record', r.loop ≠ .leaseWait job record' ∧ r.loop ≠ .acquiring job record' :=
    fun record' => ⟨fun hloop => hthread (h.serial.waiting job record' (.inl hloop)),
      fun hloop => hthread (h.serial.waiting job record' (.inr hloop))⟩
  have hheld : heldJob r.loop = some job :=
    (h.current job hcurrent).resolve_left fun hloop => hloop.elim fun record' hloop => (hwaiting record').1 hloop
  refine ⟨.inl ⟨job, ?_⟩, hheld⟩
  cases hloop : r.loop with
  | acquiring job' record' =>
      rw [hloop] at hheld
      cases hheld
      exact absurd hloop (hwaiting record').2
  | working job' =>
      rw [hloop] at hheld
      cases hheld
      exact .inl rfl
  | failEvicting job' =>
      rw [hloop] at hheld
      cases hheld
      exact .inr rfl
  | stopped => simp [hloop, heldJob] at hheld
  | idle => simp [hloop, heldJob] at hheld
  | leaseWait job' record' => simp [hloop, heldJob] at hheld

theorem cancelUpdate_steady (r : Jobs.State) (task : Jobs.TaskId) (job : JobId) :
    (cancelUpdate r task job).loop = r.loop ∧ (cancelUpdate r task job).current = r.current ∧
      ∀ part, (cancelUpdate r task job).busy = some part → loopJob part = none := by
  unfold cancelUpdate
  rcases update_cases r job cancel (fun s => { s with busy := some (.appendCancelled task job) })
    (fun s => { s with busy := none }.setCancel task (.finished false)) with ⟨store, heq⟩ | heq
  · rw [heq]
    refine ⟨rfl, rfl, fun part hpart => ?_⟩
    cases hpart
    rfl
  · rw [heq]
    exact ⟨rfl, rfl, by simp [State.setCancel]⟩

theorem cancelCall_effect (h : Placed r) (hbusy : r.busy = none) (task : Jobs.TaskId)
    (habsent : ∀ j, r.cancels task ≠ .evicting j) (job : JobId) :
    Control (cancelCall r task job) ∧
      Effect r (cancelCall r task job) (.loop (.cancelCall task job)) := by
  have hcontrol : Control r := ⟨h.current, h.busy⟩
  unfold cancelCall
  cases hget : r.store.tryGet job with
  | none =>
      refine ⟨hcontrol.congr rfl rfl fun _ hpart => .inl hpart,
        steady_congr rfl fun _ hpart => .inl hpart, ?_⟩
      simp [State.setCancel]
  | some record =>
      dsimp only
      split
      · refine ⟨hcontrol.congr rfl rfl fun _ hpart => .inl hpart,
          steady_congr rfl fun _ hpart => .inl hpart, ?_⟩
        simp [State.setCancel]
      · split
        · rename_i hrunning
          refine ⟨hcontrol.congr rfl rfl fun _ hpart => .inl hpart,
            steady_congr rfl fun _ hpart => .inl hpart, fun _ => ?_⟩
          exact h.past_of_running hbusy hget hrunning.1 hrunning.2
        · have hpart : ∀ part, some (Section.cancelUpdate task job) = some part →
              r.busy = some part ∨ loopJob part = none := by
            intro part hpart
            cases hpart
            exact .inr rfl
          refine ⟨hcontrol.congr rfl rfl hpart, steady_congr rfl hpart, ?_⟩
          rintro ⟨j, hj⟩
          exact absurd hj (habsent j)

theorem loopStep_effect (h : Placed r) (hbusy : r.busy = none) {action : LoopAction}
    (hstop : action ≠ .stopLoop) (hs : loopStep fingerprint r action = some r') :
    Control r' ∧ Effect r r' (.loop action) := by
  have hcontrol : Control r := ⟨h.current, h.busy⟩
  have hturn : ∀ {job : JobId}, heldJob r.loop = some job → Turn r r' job →
      Control r' ∧ ∃ job, heldJob r.loop = some job ∧ Turn r r' job :=
    fun hheld ht => ⟨ht.control hcontrol hheld, _, hheld, ht⟩
  cases action with
  | stopLoop => exact absurd rfl hstop
  | startLoop =>
      simp only [loopStep] at hs
      split at hs
      · rename_i hloop
        cases hs
        refine ⟨⟨fun job hcurrent => ?_, by simp [hbusy]⟩, by simp [heldJob, hloop], ?_⟩
        · rcases h.current job hcurrent with ⟨record, hwait⟩ | hheld
          · simp [hloop] at hwait
          · simp [hloop, heldJob] at hheld
        · rintro (⟨job, hworking⟩ | ⟨part, job, hpart, -⟩)
          · simp at hworking
          · simp [hbusy] at hpart
      · cases hs
  | submit submission =>
      simp only [loopStep] at hs
      split at hs
      · cases hs
        rcases @submit_cases fingerprint r submission with heq | heq
        · rw [heq]
          exact ⟨hcontrol, rfl, id⟩
        · rw [heq]
          exact ⟨hcontrol.congr rfl rfl fun _ hpart => .inl hpart,
            steady_congr rfl fun _ hpart => .inl hpart⟩
      · cases hs
  | dequeue =>
      simp only [loopStep] at hs
      split at hs
      · rename_i job queue hloop hqueue
        cases hs
        have hnone : ∀ j, r.current ≠ some j := by
          intro j hcurrent
          rcases h.current j hcurrent with ⟨record, hwait⟩ | hheld
          · simp [hloop] at hwait
          · simp [hloop, heldJob] at hheld
        have hsame : ∀ {m : Jobs.State}, m.loop = r.loop → m.current = r.current →
            m.busy = r.busy → Control m ∧ Steady r m := fun hl hc hb =>
          ⟨hcontrol.congr hl hc fun _ hpart => .inl (hb ▸ hpart),
            steady_congr hl fun _ hpart => .inl (hb ▸ hpart)⟩
        unfold dequeue
        dsimp only
        split
        · exact hsame rfl rfl rfl
        · split
          · exact hsame rfl rfl rfl
          · rename_i record hget
            split
            · exact hsame rfl rfl rfl
            · refine ⟨⟨fun j hj => ?_, by simp [hbusy]⟩, by simp [heldJob, hloop], ?_⟩
              · cases hj
                exact .inl ⟨record, rfl⟩
              · rintro (⟨j, hworking⟩ | ⟨part, j, hpart, -⟩)
                · simp at hworking
                · simp [hbusy] at hpart
      · cases hs
  | leaseGranted =>
      simp only [loopStep] at hs
      split at hs
      · rename_i job record hloop
        cases hs
        refine ⟨⟨fun j hcurrent => ?_, by simp [hbusy]⟩, by simp [heldJob, hloop], ?_, job, record,
          rfl⟩
        · right
          rcases h.current j hcurrent with ⟨record', hwait⟩ | hheld
          · rw [hloop] at hwait
            cases hwait
            rfl
          · simp [hloop, heldJob] at hheld
        · rintro (⟨j, hworking⟩ | ⟨part, j, hpart, -⟩)
          · simp at hworking
          · simp [hbusy] at hpart
      · cases hs
  | acquireReturns =>
      simp only [loopStep] at hs
      split at hs
      · rename_i job record hloop
        cases hs
        exact hturn (by rw [hloop]; rfl) (turn_acquired hbusy job)
      · cases hs
  | acquireRaises exc =>
      simp only [loopStep] at hs
      split at hs
      · rename_i job record hloop
        cases hs
        exact hturn (by rw [hloop]; rfl) (turn_failJob hbusy job exc)
      · cases hs
  | workEnds =>
      simp only [loopStep] at hs
      split at hs
      · rename_i job hloop
        split at hs
        · cases hs
          obtain ⟨hafter, heffect⟩ := hturn (by rw [hloop]; rfl) (turn_worked hbusy job _)
          exact ⟨hafter, .inl ⟨job, .inl hloop⟩, heffect⟩
        · cases hs
      · cases hs
  | failureEvicted =>
      simp only [loopStep] at hs
      split at hs
      · rename_i job hloop
        cases hs
        obtain ⟨hafter, heffect⟩ := hturn (by rw [hloop]; rfl) (turn_finish hbusy job)
        exact ⟨hafter, .inl ⟨job, .inr hloop⟩, heffect⟩
      · cases hs
  | cancelCall task job =>
      simp only [loopStep] at hs
      split at hs
      · rename_i habsent
        cases hs
        exact cancelCall_effect h hbusy task (by simp [habsent]) job
      · cases hs
  | cancelEvicted task returned =>
      simp only [loopStep] at hs
      split at hs
      · rename_i job hevicting
        cases hs
        split
        · obtain ⟨hloop, hcurrent, hpart⟩ := cancelUpdate_steady r task job
          exact ⟨hcontrol.congr hloop hcurrent fun part hp => .inr (hpart part hp),
            steady_congr hloop fun part hp => .inr (hpart part hp)⟩
        · exact ⟨hcontrol.congr rfl rfl fun _ hpart => .inl hpart,
            steady_congr rfl fun _ hpart => .inl hpart⟩
      · cases hs

theorem runSection_effect (h : Placed r) {part : Section} (hbusy : r.busy = some part) :
    Control (runSection r part) ∧ Effect r (runSection r part) .nextSection := by
  have hcontrol : Control r := ⟨h.current, h.busy⟩
  simp only [Effect, hbusy]
  cases part with
  | appendRunning job =>
      have hheld := h.busy _ job hbusy rfl
      refine ⟨⟨fun j hcurrent => ?_, by simp [runSection]⟩, ?_, fun _ => ?_⟩
      · right
        rcases h.current j hcurrent with ⟨record, hwait⟩ | hsame
        · rw [hwait] at hheld
          cases hheld
        · exact hheld.symm.trans hsame
      · rw [hheld]
        rfl
      · exact .inr ⟨_, job, hbusy, rfl⟩
  | appendFailed job message =>
      have hheld := h.busy _ job hbusy rfl
      refine ⟨⟨fun j hcurrent => ?_, by simp [runSection]⟩, hheld, rfl⟩
      right
      rcases h.current j hcurrent with ⟨record, hwait⟩ | hsame
      · rw [hwait] at hheld
        cases hheld
      · exact hheld.symm.trans hsame
  | appendSucceeded job data =>
      have hheld := h.busy _ job hbusy rfl
      have hturn : Turn r (runSection r (.appendSucceeded job data)) job := .ends rfl rfl rfl
      exact ⟨hturn.control hcontrol hheld, hheld, hturn⟩
  | cancelUpdate task job =>
      obtain ⟨hloop, hcurrent, hpart⟩ := cancelUpdate_steady r task job
      exact ⟨hcontrol.congr hloop hcurrent fun part hp => .inr (hpart part hp),
        steady_congr hloop fun part hp => .inr (hpart part hp)⟩
  | appendCancelled task job =>
      have hnone : ∀ part, (runSection r (.appendCancelled task job)).busy = some part →
          r.busy = some part ∨ loopJob part = none := by
        intro part hpart
        cases hpart
      exact ⟨hcontrol.congr rfl rfl hnone, steady_congr rfl hnone⟩

theorem threadStep_control {job : JobId} {action : ThreadAction}
    (hs : threadStep r job action = some r') : r'.loop = r.loop ∧ r'.current = r.current := by
  cases hthread : r.threads job <;> cases action <;> simp [threadStep, hthread] at hs
  all_goals subst hs
  · unfold report
    split
    · exact ⟨rfl, rfl⟩
    · dsimp only
      split <;> exact ⟨rfl, rfl⟩
  · exact ⟨rfl, rfl⟩
  · exact ⟨rfl, rfl⟩

theorem step_effect (h : Placed r) {a : Jobs.Action} (hstop : a ≠ .loop .stopLoop)
    (hs : Jobs.step fingerprint r a = some r') : Placed r' ∧ Effect r r' a := by
  have hserial := (step_moves h.serial hs).1
  have hcoherent := step_coherent h.serial h.coherent hs
  obtain ⟨hcontrol, heffect⟩ : Control r' ∧ Effect r r' a := by
    cases a with
    | loop action =>
        rw [Jobs.step] at hs
        cases hbusy : r.busy with
        | none =>
            have hloop : action ≠ .stopLoop := fun heq => hstop (by rw [heq])
            exact loopStep_effect h hbusy hloop (by simpa [hbusy] using hs)
        | some part => simp [hbusy] at hs
    | nextSection =>
        rw [Jobs.step] at hs
        obtain ⟨part, hbusy, rfl⟩ := Option.map_eq_some_iff.mp hs
        exact runSection_effect h hbusy
    | thread job action =>
        obtain ⟨hloop, hcurrent⟩ := threadStep_control hs
        have hbusy : ∀ part, r'.busy = some part → r.busy = some part ∨ loopJob part = none := by
          intro part hpart
          exact .inl (threadStep_busy hs ▸ hpart)
        exact ⟨Control.congr ⟨h.current, h.busy⟩ hloop hcurrent hbusy, steady_congr hloop hbusy⟩
  exact ⟨⟨hserial, hcoherent, hcontrol.current, hcontrol.busy⟩, heffect⟩

end Effects

end Cosmos3.Lease
