import Cosmos3.Link.ExactlyOnce
import Cosmos3.Studio.Provider

namespace Cosmos3.Studio

open Basis Jobs Sse Streams

section Lives

-- A status that was read stays good for this much.
def Later (said now : JobStatus) : Prop :=
  (said.isTerminal = true → now = said) ∧ (said ≠ .queued → now ≠ .queued)

theorem Later.refl (said : JobStatus) : Later said said := ⟨fun _ => rfl, id⟩

theorem Later.trans {said now later : JobStatus} (h : Later said now) (h' : Later now later) : Later said later := by
  refine ⟨fun hended => ?_, fun hbegun => h'.2 (h.2 hbegun)⟩
  have hnow := h.1 hended
  rw [← hnow]
  exact h'.1 (by rwa [hnow])

-- What the type of an event says of a record from then on.
structure Tells (type : Text) (now : JobStatus) : Prop where
  ended : ∀ said : JobStatus, said.isTerminal = true → type = said.value → now = said
  begun : type = JobStatus.running.value ∨ type = progressType → now ≠ .queued

theorem Tells.later {type : Text} {now later : JobStatus} (h : Tells type now) (hl : Later now later) :
    Tells type later := by
  refine ⟨fun said hended htype => ?_, fun hbegun => hl.2 (h.begun hbegun)⟩
  have hnow := h.ended said hended htype
  exact (hl.1 (by rwa [hnow])).trans hnow

theorem progress_ne_value (said : JobStatus) : progressType ≠ said.value := by
  cases said <;> decide

theorem tells_value (now : JobStatus) : Tells now.value now := by
  refine ⟨fun said _ heq => value_injective heq, ?_⟩
  rintro (heq | heq) rfl
  · exact absurd (value_injective heq) (by decide)
  · exact progress_ne_value .queued heq.symm

structure Told (life : Life) : Prop where
  events : ∀ event ∈ life.history, Tells event.type life.record.status
  stored : life.record.status = .succeeded → life.record.artifactPath.isSome = true

variable {reported : Option Number} {life life' : Life}

theorem later_lifeStep (h : LifeStep reported life life') : Later life.record.status life'.record.status := by
  have hactive : life.record.status.isTerminal = false → life'.record.status ≠ .queued →
      Later life.record.status life'.record.status :=
    fun hs hstatus => ⟨fun hended => by simp [hs] at hended, fun _ => hstatus⟩
  cases h with
  | starts hq ho ht => exact hactive (by rw [hq]; rfl) (by simp)
  | fails hs ho ht error => exact hactive hs (by simp)
  | succeeds hs ho ht artifactPath resultMeta => exact hactive (by rw [hs]; rfl) (by simp)
  | cancels hs ho => exact hactive hs (by simp)
  | _ => exact .refl _

-- A record that has ended stays as it is.
theorem record_lifeStep (h : LifeStep reported life life') (hended : life.record.status.isTerminal = true) :
    life'.record = life.record := by
  cases h with
  | starts hq ho ht => simp [hq] at hended
  | fails hs ho ht error => simp [hs] at hended
  | succeeds hs ho ht artifactPath resultMeta => simp [hs] at hended
  | cancels hs ho => simp [hs] at hended
  | reports hs ht hf => simp [hs] at hended
  | _ => rfl

theorem stored_lifeStep (h : LifeStep reported life life')
    (hstored : life.record.status = .succeeded → life.record.artifactPath.isSome = true) :
    life'.record.status = .succeeded → life'.record.artifactPath.isSome = true := by
  cases h with
  | succeeds hs ho ht artifactPath resultMeta => exact fun _ => rfl
  | starts hq ho ht => simp
  | fails hs ho ht error => simp
  | cancels hs ho => simp
  | _ => exact hstored

theorem told_lifeStep (h : LifeStep reported life life') (hc : life.Coherent) (ht : Told life) : Told life' := by
  have hlater := later_lifeStep h
  have hlast : ∀ event : JobEvent, Tells event.type life'.record.status →
      ∀ other ∈ life.history ++ [event], Tells other.type life'.record.status := by
    intro event hevent other hother
    rcases List.mem_append.mp hother with hmem | hmem
    · exact (ht.events other hmem).later hlater
    · exact List.mem_singleton.mp hmem ▸ hevent
  refine ⟨?_, stored_lifeStep h ht.stored⟩
  cases h with
  | appendsRunning ho => exact hlast _ (hc.owes _ _ ho ▸ tells_value _)
  | appendsTerminal ho htype => exact hlast _ (hc.owes _ _ ho ▸ tells_value _)
  | appendsProgress hthread =>
      -- a job that is queued has no thread
      have hbegun : life.record.status ≠ .queued := by
        intro hq
        have habsent := (hc.waiting hq).1
        simp [hthread] at habsent
      exact hlast _ ⟨fun said _ heq => absurd heq (progress_ne_value said), fun _ => hbegun⟩
  | _ => exact fun event hevent => (ht.events event hevent).later hlater

theorem told_created {record : JobRecord} (hq : record.status = .queued) :
    Told ⟨record, none, .absent, [⟨1, JobStatus.queued.value, []⟩]⟩ := by
  refine ⟨fun event hevent => ?_, by simp [hq]⟩
  rw [List.mem_singleton.mp hevent]
  exact hq ▸ tells_value record.status

end Lives

section Runner

variable {fingerprint : Text → Python.Dict → Text} {s s' : Jobs.State} {a : Jobs.Action}

structure Truthful (s : Jobs.State) : Prop extends Link.Recorded s where
  told : ∀ job life, s.life job = some life → Told life

theorem truthful_initial : Truthful Jobs.initial :=
  ⟨Link.recorded_initial, by simp [State.life, Jobs.initial, JobStore.empty]⟩

theorem Truthful.step (h : Truthful s) (hs : Jobs.step fingerprint s a = some s') : Truthful s' := by
  refine ⟨h.toRecorded.step hs, ?_⟩
  -- a life is coherent before its step
  have hboth : ∀ job life, s'.life job = some life → life.Coherent ∧ Told life :=
    step_lives h.serial hs (fun record hq _ _ _ => ⟨coherent_created hq, told_created hq⟩)
      (fun _ _ _ _ _ hstep hlife => ⟨hstep.coherent hlife.1, told_lifeStep hstep hlife.1 hlife.2⟩)
      fun job life hlife => ⟨(h.lives job life hlife).1, h.told job life hlife⟩
  exact fun job life hlife => (hboth job life hlife).2

-- What a step leaves of a job that is known.
theorem life_step (h : Truthful s) (hs : Jobs.step fingerprint s a = some s') {job : JobId} {life : Life}
    (hlife : s.life job = some life) : ∃ life', s'.life job = some life' ∧
      Later life.record.status life'.record.status ∧ life.history ⊆ life'.history ∧
      (life.record.status.isTerminal = true → life'.record = life.record) := by
  obtain ⟨life', hlife'⟩ := Option.isSome_iff_exists.mp
    (step_life_isSome h.serial hs (Option.isSome_of_eq_some hlife))
  refine ⟨life', hlife', ?_⟩
  rcases step_life h.serial hs hlife' with ⟨hnone, -⟩ | hsame | ⟨before, hbefore, hstep⟩
  · exact absurd (hlife.symm.trans hnone) (by simp)
  · obtain rfl := Option.some.inj (hsame.symm.trans hlife)
    exact ⟨.refl _, List.Subset.refl _, fun _ => rfl⟩
  · obtain rfl := Option.some.inj (hbefore.symm.trans hlife)
    refine ⟨later_lifeStep hstep, ?_, record_lifeStep hstep⟩
    rcases hstep.history_cases with heq | ⟨type, data, heq⟩
    · rw [heq]
      exact List.Subset.refl _
    · rw [heq]
      exact List.subset_append_left _ _

-- The server has said of a job that it has the status.
def Backed (s : Jobs.State) (job : JobId) (said : JobStatus) : Prop :=
  ∃ life, s.life job = some life ∧ Later said life.record.status

theorem Backed.step {job : JobId} {said : JobStatus} (hb : Backed s job said) (h : Truthful s)
    (hs : Jobs.step fingerprint s a = some s') : Backed s' job said := by
  obtain ⟨life, hlife, hlater⟩ := hb
  obtain ⟨life', hlife', hlater', -⟩ := life_step h hs hlife
  exact ⟨life', hlife', hlater.trans hlater'⟩

theorem backed_record {job : JobId} {record : JobRecord} (hget : s.store.jobs job = some record) :
    Backed s job record.status := by
  obtain ⟨life, hlife, rfl⟩ := life_isSome hget
  exact ⟨life, hlife, .refl _⟩

end Runner

section Frames

-- A frame of the stream of a job that is known.
def Frame (s : Jobs.State) (job : JobId) (event : JobEvent) : Prop :=
  ∃ life, s.life job = some life ∧ (event.type = heartbeatType ∨ event ∈ life.history)

variable {fingerprint : Text → Python.Dict → Text} {s s' : Jobs.State} {a : Jobs.Action} {job : JobId}

theorem Frame.step {event : JobEvent} (hf : Frame s job event) (h : Truthful s)
    (hs : Jobs.step fingerprint s a = some s') : Frame s' job event := by
  obtain ⟨life, hlife, hevent⟩ := hf
  obtain ⟨life', hlife', -, hhistory, -⟩ := life_step h hs hlife
  exact ⟨life', hlife', hevent.imp_right fun hmem => hhistory hmem⟩

theorem Frame.tells {event : JobEvent} (hf : Frame s job event) (h : Truthful s) :
    ∃ life, s.life job = some life ∧ Tells event.type life.record.status := by
  obtain ⟨life, hlife, htype | hmem⟩ := hf
  · refine ⟨life, hlife, fun said _ heq => ?_, fun hbegun => ?_⟩
    · rw [htype] at heq
      exact absurd heq (by cases said <;> decide)
    · rw [htype] at hbegun
      exact absurd hbegun (by decide)
  · exact ⟨life, hlife, (h.told job life hlife).events event hmem⟩

theorem Frame.known {event : JobEvent} (hf : Frame s job event) (h : Truthful s) :
    KnownType event ∨ event.type = heartbeatType := by
  obtain ⟨life, hlife, htype | hmem⟩ := hf
  · exact .inr htype
  · exact .inl ((h.lives job life hlife).2 event hmem)

-- A generator of the job's events, and the rest of its snapshot.
structure Sourced (s : Jobs.State) (job : JobId) (gen : Gen) : Prop where
  known : (s.life job).isSome = true
  yielded : ∀ event ∈ gen.yielded, Frame s job event
  rest : ∀ event rest, gen.pc = .yielding event rest → ∀ later ∈ rest, Frame s job later

theorem Sourced.step {gen : Gen} (hg : Sourced s job gen) (h : Truthful s)
    (hs : Jobs.step fingerprint s a = some s') : Sourced s' job gen :=
  ⟨step_life_isSome h.serial hs hg.known, fun event hevent => (hg.yielded event hevent).step h hs,
    fun event rest hpc later hlater => (hg.rest event rest hpc later hlater).step h hs⟩

theorem sourced_openStream (h : (s.life job).isSome = true) (lastEventId : Option ℕ) :
    Sourced s job (openStream lastEventId) :=
  ⟨h, by simp [openStream], by simp [openStream]⟩

theorem Sourced.yieldEvent {gen : Gen} (hg : Sourced s job gen) {event : JobEvent} {rest : List JobEvent}
    (hall : ∀ later ∈ event :: rest, Frame s job later) : Sourced s job (Streams.yieldEvent gen event rest) := by
  obtain ⟨hevent, hrest⟩ := List.forall_mem_cons.mp hall
  refine ⟨hg.known, fun other hother => ?_, fun event' rest' hpc => ?_⟩
  · rcases List.mem_append.mp hother with hmem | hmem
    · exact hg.yielded other hmem
    · exact List.mem_singleton.mp hmem ▸ hevent
  · obtain ⟨-, rfl⟩ := GenPc.yielding.inj hpc
    exact hrest

theorem Sourced.statusCheck {gen : Gen} (hg : Sourced s job gen) (store : JobStore) :
    Sourced s job (Streams.statusCheck job store gen) := by
  rcases statusCheck_cases job store gen with heq | heq
  · rw [heq]
    exact ⟨hg.known, hg.yielded, by simp⟩
  · rw [heq]
    refine ⟨hg.known, fun other hother => ?_, by simp⟩
    rcases List.mem_append.mp hother with hmem | hmem
    · exact hg.yielded other hmem
    · obtain ⟨life, hlife⟩ := Option.isSome_iff_exists.mp hg.known
      rw [List.mem_singleton.mp hmem]
      exact ⟨life, hlife, .inl rfl⟩

-- The log holds events of the history only.
theorem frame_log (h : Truthful s) {log : List JobEvent} (hlog : s.store.log job = .ok log) :
    ∀ event ∈ log, Frame s job event := by
  unfold JobStore.log at hlog
  split at hlog
  · exact absurd hlog (by simp)
  · rename_i record hget
    obtain rfl := Except.ok.inj hlog
    intro event hevent
    refine ⟨_, by rw [State.life, hget]; rfl, .inr ?_⟩
    rw [h.serial.log, JobStore.bounded] at hevent
    exact List.mem_of_mem_drop hevent

theorem Sourced.takeSnapshot {gen : Gen} (hg : Sourced s job gen) (h : Truthful s) :
    Sourced s job (Streams.takeSnapshot job s.store gen) := by
  unfold Streams.takeSnapshot
  split
  · exact ⟨hg.known, hg.yielded, by simp⟩
  · rename_i log hlog
    split
    · exact ⟨hg.known, hg.yielded, by simp⟩
    · rename_i event rest hsince
      refine hg.yieldEvent fun later hlater => frame_log h hlog later ?_
      rw [← hsince] at hlater
      exact (List.mem_filter.mp hlater).1

theorem Sourced.resume {gen gen' : Gen} (hg : Sourced s job gen) (h : Truthful s)
    (hs : Streams.resume job s.store gen = some gen') : Sourced s job gen' := by
  unfold Streams.resume at hs
  cases hpc : gen.pc with
  | created | sleeping =>
      simp only [hpc, Option.some.injEq] at hs
      exact hs ▸ hg.takeSnapshot h
  | checking =>
      simp only [hpc, Option.some.injEq] at hs
      exact hs ▸ hg.statusCheck s.store
  | heartbeat =>
      simp only [hpc, Option.some.injEq] at hs
      exact hs ▸ ⟨hg.known, hg.yielded, by simp⟩
  | yielding event rest =>
      simp only [hpc, Option.some.injEq] at hs
      subst hs
      have hrest := hg.rest event rest hpc
      unfold afterEvent
      have hnoted : Sourced s job (if isTerminalType event.type then { gen with done := true } else gen) := by
        split
        · exact ⟨hg.known, hg.yielded, hg.rest⟩
        · exact hg
      cases rest with
      | nil => exact hnoted.statusCheck s.store
      | cons next rest => exact hnoted.yieldEvent hrest
  | ended | failed | closed => simp [hpc] at hs

end Frames

end Cosmos3.Studio
