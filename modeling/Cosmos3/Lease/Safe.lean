import Cosmos3.Lease.Loop
import Cosmos3.Lease.Stable

namespace Cosmos3.Lease

open Basis Orchestrator
open Jobs (JobId)

section Holders

variable {s s' : State}

-- The holder's acquire call is over: the holder has gone on from it.
def State.past (s : State) : Holder → Prop
  | .loop => pastAcquire s.runner
  | .stream id => ∃ task, s.streams id = .relaying task ∨ s.streams id = .failing task

structure Safe (s : State) : Prop where
  stable : Stable s.orch s.issued s.stage
  placed : Placed s.runner
  holds : ∀ holder call, s.callOf holder = some call → s.lease.owner = some holder
  done : ∀ holder t job, s.past holder → s.callOf holder = some (t, job) →
    ∃ result, s.orch.tasks t = .finished result

-- What a step leaves to the holder of the lease, until the holder releases it.
structure Follows (s s' : State) : Prop where
  kept : Kept s.orch s'.orch s'.issued s.stage s'.stage
  issued : ∀ t, s.orch.tasks t ≠ .absent → s'.issued t = s.issued t
  holder : ∀ holder call, s.lease.owner = some holder → s.callOf holder = some call →
    s'.lease.owner = none ∨ (s'.lease.owner = some holder ∧ s'.callOf holder = some call)

theorem safe_initial : Safe initial := by
  refine ⟨stable_initial, placed_initial, fun holder call hcall => ?_, fun holder t job hpast _ => ?_⟩
  · cases holder with
    | loop => cases hcall
    | stream id => cases hcall
  · cases holder with
    | loop => simp [State.past, pastAcquire, initial, Jobs.initial] at hpast
    | stream id => simp [State.past, initial] at hpast

theorem stage_of_owner {holder : Holder} (howner : s.lease.owner = some holder) :
    s.stage = s.callOf holder := by
  rw [State.stage, howner, Option.bind_some]

theorem Safe.stage_of_call (h : Safe s) {holder : Holder} {call : Orchestrator.TaskId × Option JobId}
    (hcall : s.callOf holder = some call) : s.stage = some call := by
  rw [stage_of_owner (h.holds holder call hcall), hcall]

-- A step at which no holder makes its call or leaves it.
theorem Safe.same (h : Safe s) (hplaced : Placed s'.runner)
    (hcalls : ∀ holder, s'.callOf holder = s.callOf holder)
    (hlease : s'.lease.owner = s.lease.owner ∨
      (s.lease.owner = none ∧ ∀ holder, s'.lease.owner = some holder → s.callOf holder = none))
    (hpast : ∀ holder t job, s'.past holder → s.callOf holder = some (t, job) →
      s.past holder ∨ ∃ result, s.orch.tasks t = .finished result)
    (hstable : Stable s'.orch s'.issued s.stage)
    (hkept : Kept s.orch s'.orch s'.issued s.stage s.stage)
    (hissued : ∀ t, s.orch.tasks t ≠ .absent → s'.issued t = s.issued t) :
    Safe s' ∧ Follows s s' := by
  have hfun : s'.callOf = s.callOf := funext hcalls
  have hstage : s'.stage = s.stage := by
    unfold State.stage
    rw [hfun]
    rcases hlease with heq | ⟨hfree, hnone⟩
    · rw [heq]
    · rw [hfree]
      cases howner : s'.lease.owner with
      | none => rfl
      | some holder => exact hnone holder howner
  have hheld : ∀ holder call, s.callOf holder = some call → s'.lease.owner = some holder := by
    intro holder call hcall
    have howner := h.holds holder call hcall
    rcases hlease with heq | ⟨hfree, -⟩
    · rw [heq, howner]
    · rw [hfree] at howner
      cases howner
  refine ⟨⟨hstage ▸ hstable, hplaced, fun holder call hcall => ?_, fun holder t job hp hcall => ?_⟩,
    ⟨hstage ▸ hkept, hissued, fun holder call _ hcall => .inr ⟨hheld holder call hcall, ?_⟩⟩⟩
  · exact hheld holder call (hfun ▸ hcall)
  · rw [hfun] at hcall
    have hover : ∃ result, s.orch.tasks t = .finished result :=
      (hpast holder t job hp hcall).elim (fun hp => h.done holder t job hp hcall) id
    obtain ⟨result, hfinished⟩ := hover
    exact ⟨result, hkept.finished t result hfinished⟩
  · rw [hfun, hcall]

-- The other holders are not concerned by a step of this one.
structure Frame (s s' : State) (holder : Holder) : Prop where
  callOf : ∀ other, other ≠ holder → s'.callOf other = s.callOf other
  past : ∀ other, other ≠ holder → s'.past other → s.past other

theorem frame_loop (hstreams : s'.streams = s.streams) : Frame s s' .loop := by
  constructor <;> intro other hne <;> cases other <;>
    simp_all [State.callOf, State.past]

theorem frame_stream {id : Nat} (hrunner : s'.runner = s.runner)
    (hcall : s'.loopAcquire = s.loopAcquire) (hstreams : ∀ other, other ≠ id →
      s'.streams other = s.streams other) : Frame s s' (.stream id) := by
  constructor <;> intro other hne <;> cases other <;>
    simp_all [State.callOf, State.past]

theorem grant_eq_some {lease lease' : FifoLock Holder} {holder : Holder}
    (h : grant lease holder = some lease') :
    lease'.owner = some holder ∧ (lease.owner = none ∨ lease.owner = some holder) := by
  unfold grant at h
  split at h
  · rename_i howner
    cases h
    exact ⟨howner, .inr howner⟩
  · split at h
    · rename_i hwoken
      cases h
      obtain ⟨hfree, rest, -, hover⟩ := FifoLock.woken_eq_some hwoken
      exact ⟨by rw [hover], .inl hfree⟩
    · cases h

-- The holder has its turn and calls acquire.
theorem Safe.begins (h : Safe s) {holder : Holder} (hframe : Frame s s' holder)
    (hplaced : Placed s'.runner) (hfree : s.callOf holder = none)
    (hgrant : grant s.lease holder = some s'.lease) {task : Orchestrator.TaskId}
    {job : Option JobId} (hcall : s'.callOf holder = some (task, job)) (hpast : ¬s'.past holder)
    {target : ResidencyId} {made : Bool} (habsent : s.orch.tasks task = .absent)
    (horch : s'.orch = request s.orch task (.acquire target) made)
    (hissued : s'.issued = Function.update s.issued task (some (.acquire target)))
    (hconsistent : Consistent s'.orch) : Safe s' ∧ Follows s s' := by
  obtain ⟨howner, hbefore⟩ := grant_eq_some hgrant
  have hnone : s.stage = none := by
    rcases hbefore with hb | hb
    · rw [State.stage, hb]
      rfl
    · rw [stage_of_owner hb, hfree]
  have hstage : s'.stage = some (task, job) := by
    rw [stage_of_owner howner, hcall]
  have hothers : ∀ other call, other ≠ holder → s.callOf other ≠ some call := by
    intro other call hne hother
    have := h.holds other call hother
    rcases hbefore with hb | hb <;> rw [hb] at this <;> cases this
    exact hne rfl
  have hstable := h.stable
  rw [hnone] at hstable
  rw [horch] at hconsistent
  refine ⟨⟨?_, hplaced, fun other call hother => ?_, fun other t j hp hother => ?_⟩,
    ⟨?_, fun t ht => ?_, fun other call _ hother => ?_⟩⟩
  · rw [hstage, horch, hissued]
    exact hstable.callAcquire habsent hconsistent job
  · rcases eq_or_ne other holder with rfl | hne
    · exact howner
    · exact absurd (hframe.callOf other hne ▸ hother) (hothers other call hne)
  · rcases eq_or_ne other holder with rfl | hne
    · exact absurd hp hpast
    · exact absurd (hframe.callOf other hne ▸ hother) (hothers other _ hne)
  · rw [hnone, hstage, horch, hissued]
    exact hstable.callAcquire_kept habsent target made job
  · rw [hissued, Function.update_of_ne]
    rintro rfl
    exact ht habsent
  · rcases eq_or_ne other holder with rfl | hne
    · rw [hfree] at hother
      cases hother
    · exact absurd hother (hothers other call hne)

-- The holder, whose call is over, releases the lease.
theorem Safe.ends (h : Safe s) {holder : Holder} (hframe : Frame s s' holder)
    (hplaced : Placed s'.runner) {t : Orchestrator.TaskId} {job : Option JobId} {result : Result}
    (hcall : s.callOf holder = some (t, job)) (hfinished : s.orch.tasks t = .finished result)
    (hfree : s'.callOf holder = none) (hlease : s'.lease.owner = none)
    (horch : s'.orch = s.orch ∨ ∃ idleTimeout, s'.orch = notifyIdle idleTimeout s.orch)
    (hissued : s'.issued = s.issued) : Safe s' ∧ Follows s s' := by
  have hbefore := h.stage_of_call hcall
  have hstage : s'.stage = none := by
    rw [State.stage, hlease]
    rfl
  have hnone : ∀ other, s'.callOf other = none := by
    intro other
    rcases eq_or_ne other holder with rfl | hne
    · exact hfree
    · rw [hframe.callOf other hne]
      by_contra hother
      obtain ⟨call, hother⟩ := Option.ne_none_iff_exists'.mp hother
      have howner := h.holds holder _ hcall
      rw [h.holds other call hother] at howner
      exact hne (Option.some.inj howner)
  have hidle := h.stable.idleTask_none hbefore hfinished
  refine ⟨⟨?_, hplaced, fun other call hother => ?_, fun other t' j _ hother => ?_⟩,
    ⟨?_, fun t' _ => by rw [hissued], fun _ _ _ _ => .inl hlease⟩⟩
  · rw [hstage, hissued]
    rcases horch with heq | ⟨idleTimeout, heq⟩
    · rw [heq]
      exact h.stable.release hbefore hfinished
    · rw [heq]
      exact h.stable.notifyIdle hbefore hfinished idleTimeout
  · rw [hnone other] at hother
    cases hother
  · rw [hnone other] at hother
    cases hother
  · rcases horch with heq | ⟨idleTimeout, heq⟩
    · exact .of_tasks (by rw [heq]) (by rw [heq]) _
    · rw [heq]
      exact notifyIdle_kept hidle idleTimeout _

end Holders

section Steps

variable {fingerprint : Text → Python.Dict → Text} {label : Python.Value → String} {idleTimeout : ℚ}
  {s s' : State}

theorem call_eq_some {task : Orchestrator.TaskId} {operation : Operation} {made : Bool}
    {purpose : Purpose} (hs : call idleTimeout s task operation made purpose = some s')
    (h : Consistent s.orch) :
    s.orch.tasks task = .absent ∧ Consistent (request s.orch task operation made) ∧
      s' = { s with
        orch := request s.orch task operation made
        issued := Function.update s.issued task (some purpose) } := by
  obtain ⟨orch, hstep, rfl⟩ := Option.map_eq_some_iff.mp hs
  have hconsistent := step_consistent h hstep
  simp only [Orchestrator.step] at hstep
  split at hstep
  · rename_i hcall
    cases hstep
    exact ⟨hcall.1, hconsistent, rfl⟩
  · cases hstep

theorem callOf_loop {job : JobId} (hheld : heldJob s.runner.loop = some job) :
    s.callOf .loop = some (s.loopAcquire, some job) := by
  rw [State.callOf, hheld]
  rfl

-- The runner goes on in the same phase of its loop.
theorem Safe.steady (h : Safe s) {runner : Jobs.State} (hplaced : Placed runner)
    (hsteady : Steady s.runner runner) :
    Safe { s with runner := runner } ∧ Follows s { s with runner := runner } := by
  refine h.same hplaced (fun holder => ?_) (.inl rfl) (fun holder t job hpast _ => .inl ?_) h.stable
    (.of_tasks rfl rfl _) (fun _ _ => rfl)
  · cases holder with
    | loop => simp [State.callOf, hsteady.heldJob]
    | stream id => rfl
  · cases holder with
    | loop => exact hsteady.past hpast
    | stream id => exact hpast

-- `_process` goes on past its acquire, or is over.
theorem Safe.turns (h : Safe s) {runner : Jobs.State} (hplaced : Placed runner) {job : JobId}
    (hheld : heldJob s.runner.loop = some job) (hturn : Turn s.runner runner job)
    {result : Result} (hfinished : s.orch.tasks s.loopAcquire = .finished result) :
    Safe (settle idleTimeout { s with runner := runner }) ∧
      Follows s (settle idleTimeout { s with runner := runner }) := by
  cases hturn with
  | ends hloop hbusy hcurrent =>
      have hsettle : settle idleTimeout { s with runner := runner } =
          { s with
            runner := runner
            lease := s.lease.release
            orch := notifyIdle idleTimeout s.orch } := by
        simp [settle, hloop]
      rw [hsettle]
      refine h.ends (frame_loop rfl) hplaced (callOf_loop hheld) hfinished ?_ rfl (.inr ⟨idleTimeout, rfl⟩) rfl
      simp [State.callOf, hloop, heldJob]
  | goesOn hloop hcurrent part hbusy hpart =>
      have hsettle : settle idleTimeout { s with runner := runner } = { s with runner := runner } := by
        unfold settle
        dsimp only
        rw [hloop]
        cases hidle : s.runner.loop with
        | idle => simp [hidle, heldJob] at hheld
        | _ => rfl
      rw [hsettle]
      refine h.same hplaced (fun holder => ?_) (.inl rfl) (fun holder t job' hpast hcall => ?_) h.stable
        (.of_tasks rfl rfl _) (fun _ _ => rfl)
      · cases holder with
        | loop => simp [State.callOf, hloop]
        | stream id => rfl
      · cases holder with
        | loop =>
            rw [callOf_loop hheld] at hcall
            cases hcall
            exact .inr ⟨result, hfinished⟩
        | stream id => exact .inl hpast

-- An eviction issued for the job whose acquire is over.
theorem Safe.evicts (h : Safe s) {runner : Jobs.State} (hplaced : Placed runner) {job : JobId}
    (hheld : heldJob s.runner.loop = some job) (hsame : heldJob runner.loop = some job)
    (hpast : pastAcquire s.runner) {task : Orchestrator.TaskId} {made : Bool}
    (habsent : s.orch.tasks task = .absent)
    (hconsistent : Consistent (request s.orch task (.evictAll false) made))
    {loopEvict : Orchestrator.TaskId} {cancelEvict : Jobs.TaskId → Orchestrator.TaskId}
    (hs : s' = { s with
      runner := runner
      loopEvict := loopEvict
      cancelEvict := cancelEvict
      orch := request s.orch task (.evictAll false) made
      issued := Function.update s.issued task (some (.evictAll job)) }) :
    Safe s' ∧ Follows s s' := by
  have hcall := callOf_loop hheld
  have hstage := h.stage_of_call hcall
  obtain ⟨result, hfinished⟩ := h.done .loop _ _ hpast hcall
  have hstable := h.stable
  rw [hstage] at hstable
  subst hs
  refine h.same hplaced (fun holder => ?_) (.inl rfl) (fun holder t job' hp _ => .inl ?_) ?_ ?_ ?_
  · cases holder with
    | loop => simp [State.callOf, hheld, hsame]
    | stream id => rfl
  · cases holder with
    | loop => exact hpast
    | stream id => exact hp
  · rw [hstage]
    exact hstable.callEvictAll hfinished habsent hconsistent
  · rw [hstage]
    exact hstable.callEvictAll_kept hfinished habsent made
  · intro t ht
    refine Function.update_of_ne ?_ _ _
    rintro rfl
    exact ht habsent

-- A coroutine that has not made its call joins the line for the lease.
theorem Safe.joins (h : Safe s) {holder : Holder} (hfree : s.callOf holder = none)
    (hplaced : Placed s'.runner) (hcalls : ∀ other, s'.callOf other = s.callOf other)
    (hpast : ∀ other, s'.past other → s.past other)
    (hlease : s'.lease = s.lease.acquire holder) (horch : s'.orch = s.orch)
    (hissued : s'.issued = s.issued) : Safe s' ∧ Follows s s' := by
  refine h.same hplaced hcalls ?_ (fun other _ _ hp _ => .inl (hpast other hp)) ?_ ?_ ?_
  · rcases s.lease.acquire_cases holder with ⟨hunlocked, -, heq⟩ | ⟨-, heq⟩
    · right
      refine ⟨hunlocked, fun other howner => ?_⟩
      rw [hlease, heq] at howner
      cases howner
      exact hfree
    · left
      rw [hlease, heq]
  · rw [horch, hissued]
    exact h.stable
  · exact .of_tasks (by rw [horch]) (by rw [horch]) _
  · exact fun _ _ => by rw [hissued]

theorem runnerStep_safe (h : Safe s) {action : Jobs.Action} {task : Orchestrator.TaskId}
    {made : Bool} (hs : runnerStep fingerprint label idleTimeout s action task made = some s') :
    Safe s' ∧ Follows s s' := by
  obtain ⟨runner, hrunner, hs⟩ := Option.bind_eq_some_iff.mp hs
  have hstop : action ≠ .loop .stopLoop := by
    rintro rfl
    cases hs
  obtain ⟨hplaced, heffect⟩ := step_effect h.placed hstop hrunner
  cases action with
  | thread job action =>
      cases hs
      exact h.steady hplaced heffect
  | nextSection =>
      simp only [Effect] at heffect
      dsimp only at hs
      split at hs
      · rename_i job message hbusy
        rw [hbusy] at heffect
        obtain ⟨habsent, hconsistent, hs⟩ := call_eq_some hs h.stable.consistent
        have hpast : pastAcquire s.runner := .inr ⟨_, job, hbusy, rfl⟩
        exact h.evicts hplaced heffect.1 (by rw [heffect.2]; rfl) hpast habsent hconsistent hs
      · rename_i job data hbusy
        rw [hbusy] at heffect
        cases hs
        have hpast : pastAcquire s.runner := .inr ⟨_, job, hbusy, rfl⟩
        obtain ⟨result, hfinished⟩ := h.done .loop _ _ hpast (callOf_loop heffect.1)
        exact h.turns hplaced heffect.1 heffect.2 hfinished
      · rename_i hfailed hsucceeded
        cases hs
        refine h.steady hplaced ?_
        split at heffect
        · rename_i job message hbusy
          exact absurd hbusy (hfailed job message)
        · rename_i job data hbusy
          exact absurd hbusy (hsucceeded job data)
        · exact heffect
  | loop action =>
      cases action with
      | stopLoop => cases hs
      | startLoop =>
          cases hs
          exact h.steady hplaced heffect
      | submit submission =>
          cases hs
          exact h.steady hplaced heffect
      | dequeue =>
          have hsteady := h.steady hplaced heffect
          dsimp only at hs
          split at hs
          · rename_i job record hloop
            cases hs
            refine h.joins ?_ hplaced (fun other => ?_) (fun other hp => ?_) rfl rfl rfl
            · rw [State.callOf, ← Steady.heldJob heffect, hloop]
              rfl
            · cases other with
              | loop => simp [State.callOf, Steady.heldJob heffect]
              | stream id => rfl
            · cases other with
              | loop => exact Steady.past heffect hp
              | stream id => exact hp
          · cases hs
            exact hsteady
      | leaseGranted =>
          obtain ⟨hfree, hpast, job, record, hloop⟩ := heffect
          simp only [hloop] at hs
          obtain ⟨lease, hgrant, hs⟩ := Option.bind_eq_some_iff.mp hs
          obtain ⟨habsent, hconsistent, rfl⟩ := call_eq_some hs h.stable.consistent
          refine h.begins (frame_loop rfl) hplaced ?_ hgrant (@callOf_loop _ job ?_) hpast habsent
            rfl rfl hconsistent
          · rw [State.callOf, hfree]
            rfl
          · simp [hloop, heldJob]
      | acquireReturns =>
          obtain ⟨job, hheld, hturn⟩ := heffect
          dsimp only at hs
          split at hs
          · rename_i hfinished
            cases hs
            exact h.turns hplaced hheld hturn hfinished
          · cases hs
      | acquireRaises exc =>
          obtain ⟨job, hheld, hturn⟩ := heffect
          dsimp only at hs
          split at hs
          · rename_i hfinished
            cases hs
            exact h.turns hplaced hheld hturn hfinished
          · cases hs
      | workEnds =>
          obtain ⟨hpast, job, hheld, hturn⟩ := heffect
          cases hs
          obtain ⟨result, hfinished⟩ := h.done .loop _ _ hpast (callOf_loop hheld)
          exact h.turns hplaced hheld hturn hfinished
      | failureEvicted =>
          obtain ⟨hpast, job, hheld, hturn⟩ := heffect
          obtain ⟨result, hfinished⟩ := h.done .loop _ _ hpast (callOf_loop hheld)
          dsimp only at hs
          split at hs
          · cases hs
            exact h.turns hplaced hheld hturn hfinished
          · cases hs
      | cancelCall canceller job =>
          obtain ⟨hsteady, hevicting⟩ := heffect
          dsimp only at hs
          split at hs
          · rename_i other hcancel
            obtain ⟨hpast, hheld⟩ := hevicting ⟨other, hcancel⟩
            obtain ⟨habsent, hconsistent, hs⟩ := call_eq_some hs h.stable.consistent
            have hsame := hsteady.heldJob.trans hheld
            exact h.evicts hplaced hheld hsame hpast habsent hconsistent hs
          · cases hs
            exact h.steady hplaced hsteady
      | cancelEvicted canceller returned =>
          dsimp only at hs
          split at hs
          · split at hs
            · cases hs
              exact h.steady hplaced heffect
            · cases hs
          · cases hs

theorem orchStep_safe (h : Safe s) {action : Orchestrator.Action} {o : Orchestrator.State}
    (hself : ofItself action = true) (hs : Orchestrator.step idleTimeout s.orch action = some o) :
    Safe { s with orch := o } ∧ Follows s { s with orch := o } := by
  have hconsistent := step_consistent h.stable.consistent hs
  suffices hstep : Stable o s.issued s.stage ∧ Kept s.orch o s.issued s.stage s.stage from
    h.same h.placed (fun _ => rfl) (.inl rfl) (fun _ _ _ hpast _ => .inl hpast) hstep.1 hstep.2
      fun _ _ => rfl
  have hown : ∀ task, action.own = some task →
      Stable o s.issued s.stage ∧ Kept s.orch o s.issued s.stage s.stage := by
    intro task htask
    obtain ⟨operation, hop, hadv, hin⟩ := step_advances h.stable.consistent h.stable.idle htask hs
    exact ⟨h.stable.own hconsistent hop hadv hin, h.stable.own_kept hop hadv⟩
  cases action with
  | granted task made => exact hown task rfl
  | threadEnters task => exact hown task rfl
  | threadLeaves task outcome => exact hown task rfl
  | resumes task made => exact hown task rfl
  | idleStarts task => exact hown task rfl
  | orphanLeaves index outcome => simp [Orchestrator.step, h.stable.orphans] at hs
  | timerFires task =>
      simp only [Orchestrator.step] at hs
      split at hs
      · rename_i hfires
        cases hs
        exact ⟨h.stable.timerFires hconsistent hfires.1 hfires.2, timerFires_kept hfires.2⟩
      · cases hs
  | call task operation made => cases hself
  | cancelled task => cases hself
  | notifyIdle => cases hself

theorem callOf_setStream (s : State) (id : Nat) (pc : StreamPc) :
    (s.setStream id pc).callOf (.stream id) = pc.acquireCall.map fun task => (task, none) := by
  simp [State.callOf, State.setStream]

theorem callOf_stream {id : Nat} {pc : StreamPc} (hpc : s.streams id = pc) :
    s.callOf (.stream id) = pc.acquireCall.map fun task => (task, none) := by
  rw [State.callOf, hpc]

-- A stream that has its answer relays it or reports the failure.
theorem Safe.answered (h : Safe s) {id : Nat} {task : Orchestrator.TaskId} {result : Result}
    (hpc : s.streams id = .acquiring task) (hfinished : s.orch.tasks task = .finished result)
    {pc : StreamPc} (hcall : pc.acquireCall = some task) :
    Safe (s.setStream id pc) ∧ Follows s (s.setStream id pc) := by
  have hframe : Frame s (s.setStream id pc) (.stream id) :=
    frame_stream rfl rfl fun other hne => by simp [State.setStream, hne]
  refine h.same h.placed (fun holder => ?_) (.inl rfl) (fun holder t job hpast hbefore => ?_) h.stable
    (.of_tasks rfl rfl _) (fun _ _ => rfl)
  · rcases eq_or_ne holder (.stream id) with rfl | hne
    · rw [callOf_setStream, callOf_stream hpc, hcall]
      rfl
    · exact hframe.callOf holder hne
  · rcases eq_or_ne holder (.stream id) with rfl | hne
    · rw [callOf_stream hpc] at hbefore
      cases hbefore
      exact .inr ⟨result, hfinished⟩
    · exact .inl (hframe.past holder hne hpast)

-- A stream whose call is over releases the lease.
theorem Safe.closes (h : Safe s) {id : Nat} {task : Orchestrator.TaskId}
    (hpc : s.streams id = .relaying task ∨ s.streams id = .failing task) {o : Orchestrator.State}
    (horch : o = s.orch ∨ ∃ idleTimeout, o = notifyIdle idleTimeout s.orch) :
    Safe { s.setStream id .finished with lease := s.lease.release, orch := o } ∧
      Follows s { s.setStream id .finished with lease := s.lease.release, orch := o } := by
  have hcall : s.callOf (.stream id) = some (task, none) := by
    rcases hpc with heq | heq <;> rw [callOf_stream heq] <;> rfl
  obtain ⟨result, hfinished⟩ := h.done (.stream id) task none ⟨task, hpc⟩ hcall
  have hframe : Frame s { s.setStream id .finished with lease := s.lease.release, orch := o }
      (.stream id) := frame_stream rfl rfl fun other hne => by simp [State.setStream, hne]
  exact h.ends hframe h.placed hcall hfinished (callOf_setStream s id .finished) rfl horch rfl

-- A stream that has no call yet comes to the line or leaves it.
theorem Safe.queues (h : Safe s) {id : Nat} {pc : StreamPc} (hbefore : (s.streams id).acquireCall = none)
    (hafter : pc.acquireCall = none) {lease : FifoLock Holder}
    (hlease : lease = s.lease.acquire (.stream id) ∨ lease = s.lease.abandon (.stream id)) :
    Safe { s.setStream id pc with lease := lease } ∧
      Follows s { s.setStream id pc with lease := lease } := by
  have hframe : Frame s { s.setStream id pc with lease := lease } (.stream id) :=
    frame_stream rfl rfl fun other hne => by simp [State.setStream, hne]
  have hfree : s.callOf (.stream id) = none := by
    rw [callOf_stream rfl, hbefore]
    rfl
  have hcalls : ∀ other, State.callOf { s.setStream id pc with lease := lease } other =
      s.callOf other := by
    intro other
    rcases eq_or_ne other (.stream id) with rfl | hne
    · rw [hfree]
      exact (callOf_setStream s id pc).trans (by rw [hafter]; rfl)
    · exact hframe.callOf other hne
  have hpast : ∀ other, State.past { s.setStream id pc with lease := lease } other →
      s.past other := by
    intro other hp
    rcases eq_or_ne other (.stream id) with rfl | hne
    · obtain ⟨task, hpc⟩ := hp
      simp only [State.setStream, Function.update_self] at hpc
      rcases hpc with heq | heq <;> rw [heq] at hafter <;> cases hafter
    · exact hframe.past other hne hp
  rcases hlease with rfl | rfl
  · exact h.joins hfree h.placed hcalls hpast rfl rfl rfl
  · exact h.same h.placed hcalls (.inl rfl) (fun other _ _ hp _ => .inl (hpast other hp)) h.stable
      (.of_tasks rfl rfl _) fun _ _ => rfl

theorem step_safe (h : Safe s) {a : Action}
    (hs : step fingerprint label idleTimeout s a = some s') : Safe s' ∧ Follows s s' := by
  cases a with
  | runner action task made => exact runnerStep_safe h hs
  | orch action =>
      simp only [step] at hs
      split at hs
      · rename_i hself
        obtain ⟨o, ho, rfl⟩ := Option.map_eq_some_iff.mp hs
        exact orchStep_safe h hself ho
      · cases hs
  | openStream id =>
      simp only [step] at hs
      split at hs
      · rename_i hpc
        cases hs
        exact h.queues (by rw [hpc]; rfl) rfl (.inl rfl)
      · cases hs
  | streamGranted id task made =>
      simp only [step] at hs
      split at hs
      · rename_i hpc
        obtain ⟨lease, hgrant, hs⟩ := Option.bind_eq_some_iff.mp hs
        obtain ⟨habsent, hconsistent, rfl⟩ := call_eq_some hs h.stable.consistent
        refine h.begins (frame_stream rfl rfl fun other hne => ?_) h.placed ?_ hgrant
          (callOf_setStream s id (.acquiring task)) ?_ habsent rfl rfl hconsistent
        · simp [State.setStream, hne]
        · rw [callOf_stream hpc]
          rfl
        · rintro ⟨other, hother⟩
          simp [State.setStream] at hother
      · cases hs
  | streamAcquired id =>
      simp only [step] at hs
      split at hs
      · rename_i task hpc
        split at hs
        · rename_i hfinished
          cases hs
          exact h.answered hpc hfinished rfl
        · cases hs
      · cases hs
  | streamRefused id =>
      simp only [step] at hs
      split at hs
      · rename_i task hpc
        split at hs
        · rename_i hfinished
          cases hs
          exact h.answered hpc hfinished rfl
        · cases hs
      · cases hs
  | closeStream id =>
      simp only [step] at hs
      split at hs
      · rename_i task hpc
        cases hs
        exact h.closes (.inl hpc) (.inr ⟨idleTimeout, rfl⟩)
      · rename_i task hpc
        cases hs
        exact h.closes (.inr hpc) (.inl rfl)
      · rename_i hpc
        split at hs
        · cases hs
        · cases hs
          exact h.queues (by rw [hpc]; rfl) rfl (.inr rfl)
      · cases hs

theorem reachable_safe (hs : Reachable (step fingerprint label idleTimeout) initial s) : Safe s :=
  hs.invariant Safe safe_initial fun _ _ _ h _ hstep => (step_safe h hstep).1

end Steps

end Cosmos3.Lease
