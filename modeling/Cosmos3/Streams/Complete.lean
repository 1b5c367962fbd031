import Cosmos3.Streams.Generator

namespace Cosmos3.Streams

open Basis Jobs

-- The last id of a snapshot's remaining events.
def top (sent : Nat) (rest : List JobEvent) : Nat := (rest.getLast?.map (·.id)).getD sent

-- The rest of a snapshot still holds every event of the log between the last
-- one sent and its own end.
structure Pending (log : List JobEvent) (sent seq : Nat) (rest : List JobEvent) : Prop where
  increasing : Increasing rest
  range : ∀ event ∈ rest, sent < event.id ∧ event.id ≤ seq
  covers : (window log sent (top sent rest)).Sublist rest

theorem top_cons (sent : Nat) (event : JobEvent) (rest : List JobEvent) :
    top sent (event :: rest) = top event.id rest := by
  cases rest <;> simp [top, List.getLast?_cons]

theorem le_top {log rest : List JobEvent} {sent seq : Nat} (h : Pending log sent seq rest) :
    sent ≤ top sent rest ∧ (rest ≠ [] → top sent rest ≤ seq) := by
  cases hlast : rest.getLast? with
  | none =>
      have hnil := List.getLast?_eq_none_iff.mp hlast
      simp [top, hnil]
  | some event =>
      have hrange := h.range event (List.mem_of_getLast? hlast)
      simp only [top, hlast, Option.map_some, Option.getD_some]
      exact ⟨by omega, fun _ => hrange.2⟩

-- Sending the next event of the snapshot: it is the only event of the log up to
-- its id, and the rest of the snapshot covers what follows.
theorem Pending.next {log rest : List JobEvent} {event : JobEvent} {sent seq : Nat}
    (h : Pending log sent seq (event :: rest)) :
    (window log sent event.id).Sublist [event] ∧ Pending log event.id seq rest := by
  obtain ⟨hfirst, hrest⟩ := List.pairwise_cons.mp h.increasing
  have hevent := h.range event List.mem_cons_self
  have hnext : ∀ later ∈ rest, event.id < later.id ∧ later.id ≤ seq := fun later hlater =>
    ⟨hfirst later hlater, (h.range later (List.mem_cons_of_mem event hlater)).2⟩
  have hcovers := h.covers
  rw [top_cons] at hcovers
  have htop : event.id ≤ top event.id rest := by
    cases hlast : rest.getLast? with
    | none => simp [top, hlast]
    | some later =>
        have := hnext later (List.mem_of_getLast? hlast)
        simp only [top, hlast, Option.map_some, Option.getD_some]
        omega
  constructor
  · have hbelow := hcovers.filter fun e => e.id ≤ event.id
    have hleft : (window log sent (top event.id rest)).filter (fun e => e.id ≤ event.id) =
        window log sent event.id := by
      rw [window, List.filter_filter, window]
      refine List.filter_congr fun e _ => ?_
      by_cases he : e.id ≤ event.id
      · have hle : e.id ≤ top event.id rest := le_trans he htop
        simp [he, hle]
      · simp [he]
    have hright : (event :: rest).filter (fun e => e.id ≤ event.id) = [event] := by
      rw [List.filter_cons_of_pos (by simp), List.filter_eq_nil_iff.mpr]
      intro later hlater
      have := hnext later hlater
      simp only [decide_eq_true_eq]
      omega
    rwa [hleft, hright] at hbelow
  · refine ⟨hrest, hnext, ?_⟩
    have habove := hcovers.filter fun e => event.id < e.id
    have hleft : (window log sent (top event.id rest)).filter (fun e => event.id < e.id) =
        window log event.id (top event.id rest) := by
      rw [window, List.filter_filter, window]
      refine List.filter_congr fun e _ => ?_
      by_cases he : event.id < e.id
      · have hlt : sent < e.id := hevent.1.trans he
        simp [he, hlt]
      · simp [he]
    have hright : (event :: rest).filter (fun e => event.id < e.id) = rest := by
      rw [List.filter_cons_of_neg (by simp), List.filter_eq_self]
      intro later hlater
      simpa using (hnext later hlater).1
    rwa [hleft, hright] at habove

-- An append to the log, whose oldest event may be dropped.
theorem Pending.append {log log' rest : List JobEvent} {event : JobEvent} {sent seq : Nat}
    (h : Pending log sent seq rest) (hid : event.id = seq + 1)
    (hlog : log'.Sublist (log ++ [event])) : Pending log' sent (seq + 1) rest := by
  refine ⟨h.increasing, fun later hlater => ?_, ?_⟩
  · have := h.range later hlater
    exact ⟨this.1, by omega⟩
  · by_cases hnil : rest = []
    · subst hnil
      rw [window_of_le (by simp [top])]
    · have htop := (le_top h).2 hnil
      have hwindow := window_sublist hlog sent (top sent rest)
      rw [window_append_of_lt (by omega)] at hwindow
      exact hwindow.trans h.covers

-- What the store's log of a job looks like.
structure LogFacts (log : List JobEvent) (seq : Nat) : Prop where
  increasing : Increasing log
  bounded : ∀ event ∈ log, event.id ≤ seq
  newest : 0 < seq → ∃ event ∈ log, event.id = seq
  positive : ∀ event ∈ log, 0 < event.id

theorem LogFacts.of_history {history : List JobEvent}
    (h : history.map (·.id) = List.range' 1 history.length) :
    LogFacts (JobStore.bounded history) history.length := by
  have hsub : (JobStore.bounded history).Sublist history := List.drop_sublist _ _
  have hid : ∀ event ∈ history, 1 ≤ event.id ∧ event.id < 1 + history.length := by
    intro event hevent
    have hmem : event.id ∈ history.map (·.id) := List.mem_map_of_mem hevent
    rw [h] at hmem
    exact List.mem_range'_1.mp hmem
  refine ⟨?_, fun event hevent => ?_, fun hpos => ?_, fun event hevent => ?_⟩
  · have hpairs : (history.map (·.id)).Pairwise (· < ·) := by
      rw [h]
      exact List.pairwise_lt_range'
    exact Increasing.sublist (List.pairwise_map.mp hpairs) hsub
  · have := hid event (hsub.subset hevent)
    omega
  · have hne : history ≠ [] := List.length_pos_iff.mp hpos
    refine ⟨history.getLast hne, ?_, ?_⟩
    · have hlt : history.length - eventLogBound < history.length := by
        have : 0 < eventLogBound := by decide
        omega
      have hdrop : history.drop (history.length - eventLogBound) ≠ [] := by
        rw [Ne, List.drop_eq_nil_iff]
        omega
      rw [JobStore.bounded, ← List.getLast_drop hdrop]
      exact List.getLast_mem _
    · have hlast : (history.map (·.id)).getLast (by simpa using hne) = (history.getLast hne).id :=
        List.getLast_map _
      rw [← hlast]
      simp only [h]
      rw [List.getLast_range']
      omega
  · exact (hid event (hsub.subset hevent)).1

theorem pending_snapshot {log : List JobEvent} {seq : Nat} (h : LogFacts log seq) (sent : Nat) :
    Pending log sent seq (eventsSince log (some sent)) := by
  rw [eventsSince_eq_window h.bounded]
  have hrange : ∀ event ∈ window log sent seq, sent < event.id ∧ event.id ≤ seq := by
    intro event hevent
    simpa [window] using (List.mem_filter.mp hevent).2
  refine ⟨h.increasing.sublist List.filter_sublist, hrange, ?_⟩
  cases hlast : (window log sent seq).getLast? with
  | none =>
      rw [window_of_le (by simp [top, hlast])]
      exact List.nil_sublist _
  | some event =>
      have hbound := (hrange event (List.mem_of_getLast? hlast)).2
      refine List.monotone_filter_right log fun later hlater => ?_
      simp only [top, hlast, Option.map_some, Option.getD_some, Bool.and_eq_true,
        decide_eq_true_eq] at hlater ⊢
      omega

-- The stream's progress through the log: what the log holds up to the last event
-- sent was yielded, and the snapshot covers the log as far as it goes.
structure Covers (last : Nat) (job : JobId) (s : State) : Prop where
  low : last ≤ s.gen.sent
  high : s.gen.sent = last ∨ s.gen.sent ≤ s.runner.store.seq job
  yielded : ∀ event ∈ s.gen.yielded, event.id ≤ s.gen.sent
  base : (window (s.runner.store.events job) last s.gen.sent).Sublist s.gen.yielded
  known : (s.runner.life job).isSome = true ∨
    (s.gen.sent = last ∧ (s.gen.pc = .created ∨ s.gen.pc = .failed))
  pending : ∀ event rest, s.gen.pc = .yielding event rest →
    Pending (s.runner.store.events job) s.gen.sent (s.runner.store.seq job) rest

-- The runner's side of the invariant.
structure Sound (s : Jobs.State) : Prop where
  serial : Serial s
  numbered : ∀ job life, s.life job = some life → life.Numbered

theorem sound_initial : Sound Jobs.initial :=
  ⟨serial_initial, by simp [State.life, Jobs.initial, JobStore.empty]⟩

variable {fingerprint : Text → Python.Dict → Text} {job : JobId} {last : Nat}

theorem Sound.step {s s' : Jobs.State} (h : Sound s) {a : Jobs.Action}
    (hs : Jobs.step fingerprint s a = some s') : Sound s' :=
  ⟨(step_moves h.serial hs).1, step_numbered h.serial hs h.numbered⟩

theorem Sound.logFacts {s : Jobs.State} (h : Sound s) (hlife : (s.life job).isSome = true) :
    LogFacts (s.store.events job) (s.store.seq job) := by
  obtain ⟨life, hlife⟩ := Option.isSome_iff_exists.mp hlife
  have hnum := h.numbered job life hlife
  obtain ⟨record, -, rfl⟩ := Option.map_eq_some_iff.mp hlife
  rw [h.serial.log, h.serial.seq]
  exact .of_history hnum

-- One step of the runner appends at most one event to the log of a known job.
theorem Sound.log_cases {s s' : Jobs.State} (h : Sound s) {a : Jobs.Action}
    (hs : Jobs.step fingerprint s a = some s') (hlife : (s.life job).isSome = true) :
    (s'.store.events job = s.store.events job ∧ s'.store.seq job = s.store.seq job) ∨
      ∃ event : JobEvent, event.id = s.store.seq job + 1 ∧
        (s'.store.events job).Sublist (s.store.events job ++ [event]) ∧
        s'.store.seq job = s.store.seq job + 1 := by
  have hserial := h.serial
  have hserial' := (step_moves hserial hs).1
  obtain ⟨life', hlife'⟩ := Option.isSome_iff_exists.mp (step_life_isSome hserial hs hlife)
  have hhistory' : life'.history = s'.history job := by
    obtain ⟨record, -, rfl⟩ := Option.map_eq_some_iff.mp hlife'
    rfl
  have hhistory : ∀ life, s.life job = some life → life.history = s.history job := by
    intro life hlife
    obtain ⟨record, -, rfl⟩ := Option.map_eq_some_iff.mp hlife
    rfl
  rw [hserial'.log, hserial'.seq, hserial.log, hserial.seq, ← hhistory']
  rcases step_life hserial hs hlife' with ⟨hnone, -⟩ | hsame | ⟨life, hlife, hstep⟩
  · rw [hnone] at hlife
    cases hlife
  · left
    rw [hhistory life' hsame]
    exact ⟨rfl, rfl⟩
  · rw [← hhistory life hlife]
    rcases hstep.history_cases with heq | ⟨type, data, heq⟩
    · left
      rw [heq]
      exact ⟨rfl, rfl⟩
    · right
      refine ⟨life.event type data, rfl, ?_, by simp [heq]⟩
      rw [heq, ← bounded_append]
      exact List.drop_sublist _ _

theorem covers_runner {s : State} (hsound : Sound s.runner) (h : Covers last job s)
    {a : Jobs.Action} {runner : Jobs.State} (hs : Jobs.step fingerprint s.runner a = some runner) :
    Covers last job { s with runner := runner } := by
  rcases h.known with hlife | ⟨hsent, hpc⟩
  · have hknown := step_life_isSome hsound.serial hs hlife
    rcases hsound.log_cases hs hlife with ⟨hlog, hseq⟩ | ⟨event, hid, hlog, hseq⟩
    · refine ⟨h.low, by simpa [hseq] using h.high, h.yielded, by simpa [hlog] using h.base,
        .inl hknown, fun event rest hpc => ?_⟩
      simpa [hlog, hseq] using h.pending event rest hpc
    · refine ⟨h.low, ?_, h.yielded, ?_, .inl hknown, fun event' rest hpc => ?_⟩
      · rcases h.high with hhigh | hhigh
        · exact .inl hhigh
        · right
          simp only [hseq]
          omega
      · rcases h.high with hhigh | hhigh
        · rw [window_of_le (by simp [hhigh])]
          exact List.nil_sublist _
        · have hwindow := window_sublist hlog last s.gen.sent
          rw [window_append_of_lt (by omega)] at hwindow
          exact hwindow.trans h.base
      · simp only [hseq]
        exact (h.pending event' rest hpc).append hid hlog
  · refine ⟨h.low, .inl hsent, h.yielded, ?_, .inr ⟨hsent, hpc⟩, fun event rest hyield => ?_⟩
    · rw [window_of_le (by simp [hsent])]
      exact List.nil_sublist _
    · rcases hpc with hpc | hpc <;> simp [hpc] at hyield

-- Yielding the next event of the snapshot.
theorem covers_yieldEvent {s : State} (h : Covers last job s)
    (hfacts : LogFacts (s.runner.store.events job) (s.runner.store.seq job))
    (hlife : (s.runner.life job).isSome = true) {event : JobEvent} {rest : List JobEvent}
    (hpending : Pending (s.runner.store.events job) s.gen.sent (s.runner.store.seq job)
      (event :: rest)) (done : Bool) :
    Covers last job { s with gen := yieldEvent { s.gen with done := done } event rest } := by
  obtain ⟨hnext, hrest⟩ := hpending.next
  have hrange := hpending.range event List.mem_cons_self
  have hlow := h.low
  refine ⟨?_, .inr hrange.2, ?_, ?_, .inl hlife, fun event' rest' hpc => ?_⟩
  · simp only [yieldEvent]
    omega
  · intro earlier hearlier
    simp only [yieldEvent, List.mem_append, List.mem_singleton] at hearlier ⊢
    rcases hearlier with hearlier | rfl
    · have := h.yielded earlier hearlier
      omega
    · exact le_rfl
  · simp only [yieldEvent]
    rw [window_split hfacts.increasing hlow (by omega)]
    exact h.base.append hnext
  · obtain ⟨rfl, rfl⟩ := GenPc.yielding.inj hpc
    exact hrest

-- A step of the generator that sends nothing or a heartbeat.
theorem covers_pause {s : State} (h : Covers last job s) {gen : Gen}
    (hsent : gen.sent = s.gen.sent)
    (hyielded : gen.yielded = s.gen.yielded ∨
      gen.yielded = s.gen.yielded ++ [⟨s.gen.sent, heartbeatType, []⟩])
    (hpc : ∀ event rest, gen.pc ≠ .yielding event rest)
    (hknown : (s.runner.life job).isSome = true ∨
      (gen.sent = last ∧ (gen.pc = .created ∨ gen.pc = .failed))) :
    Covers last job { s with gen := gen } := by
  refine ⟨by simpa [hsent] using h.low, by simpa [hsent] using h.high, fun event hevent => ?_, ?_,
    hknown, fun event rest hyield => absurd hyield (hpc event rest)⟩
  · simp only [hsent]
    rcases hyielded with heq | heq
    · exact h.yielded event (by simpa [heq] using hevent)
    · simp only [heq, List.mem_append, List.mem_singleton] at hevent
      rcases hevent with hevent | rfl
      · exact h.yielded event hevent
      · exact le_rfl
  · simp only [hsent]
    rcases hyielded with heq | heq
    · rw [heq]
      exact h.base
    · rw [heq]
      exact h.base.trans (List.sublist_append_left _ _)

theorem statusCheck_cases (job : JobId) (store : JobStore) (gen : Gen) :
    statusCheck job store gen = { gen with pc := .ended } ∨
      statusCheck job store gen = { gen with
        yielded := gen.yielded ++ [⟨gen.sent, heartbeatType, []⟩], pc := .heartbeat } := by
  unfold statusCheck
  split
  · exact .inl rfl
  · exact .inr rfl

theorem covers_statusCheck {s : State} (h : Covers last job s)
    (hlife : (s.runner.life job).isSome = true) (done : Bool) :
    Covers last job
      { s with gen := statusCheck job s.runner.store { s.gen with done := done } } := by
  rcases statusCheck_cases job s.runner.store { s.gen with done := done } with heq | heq
  · rw [heq]
    exact covers_pause h rfl (.inl rfl) (by simp) (.inl hlife)
  · rw [heq]
    exact covers_pause h rfl (.inr rfl) (by simp) (.inl hlife)

theorem covers_takeSnapshot {s : State} (hsound : Sound s.runner) (h : Covers last job s)
    (hstart : (s.runner.life job).isSome = true ∨ s.gen.sent = last) :
    Covers last job { s with gen := takeSnapshot job s.runner.store s.gen } := by
  unfold takeSnapshot JobStore.log
  cases hget : s.runner.store.jobs job with
  | none =>
      have hnone : s.runner.life job = none := Option.map_eq_none_iff.mpr hget
      have hsent : s.gen.sent = last := hstart.resolve_left (by simp [hnone])
      exact covers_pause h rfl (.inl rfl) (by simp) (.inr ⟨hsent, .inr rfl⟩)
  | some record =>
      have hlife : (s.runner.life job).isSome = true := by
        rw [State.life, hget]
        rfl
      have hfacts := hsound.logFacts hlife
      have hpending := pending_snapshot hfacts s.gen.sent
      dsimp only
      cases hsnapshot : eventsSince (s.runner.store.events job) (some s.gen.sent) with
      | nil => exact covers_pause h rfl (.inl rfl) (by simp) (.inl hlife)
      | cons event rest =>
          rw [hsnapshot] at hpending
          exact covers_yieldEvent h hfacts hlife hpending s.gen.done

theorem Covers.isKnown {s : State} (h : Covers last job s) (hcreated : s.gen.pc ≠ .created)
    (hfailed : s.gen.pc ≠ .failed) : (s.runner.life job).isSome = true := by
  rcases h.known with hlife | ⟨-, hpc | hpc⟩
  · exact hlife
  · exact absurd hpc hcreated
  · exact absurd hpc hfailed

theorem covers_resume {s : State} (hsound : Sound s.runner) (h : Covers last job s) {gen : Gen}
    (hs : Streams.resume job s.runner.store s.gen = some gen) :
    Covers last job { s with gen := gen } := by
  unfold Streams.resume at hs
  cases hpc : s.gen.pc with
  | created =>
      simp only [hpc, Option.some.injEq] at hs
      subst hs
      exact covers_takeSnapshot hsound h (h.known.imp_right (·.1))
  | sleeping =>
      simp only [hpc, Option.some.injEq] at hs
      subst hs
      exact covers_takeSnapshot hsound h (.inl (h.isKnown (by simp [hpc]) (by simp [hpc])))
  | yielding event rest =>
      have hlife := h.isKnown (by simp [hpc]) (by simp [hpc])
      simp only [hpc, Option.some.injEq] at hs
      subst hs
      have hdone : ∃ done, (if isTerminalType event.type then { s.gen with done := true }
          else s.gen) = { s.gen with done := done } := by
        split
        · exact ⟨true, rfl⟩
        · exact ⟨s.gen.done, rfl⟩
      obtain ⟨done, hdone⟩ := hdone
      unfold afterEvent
      rw [hdone]
      cases rest with
      | nil => exact covers_statusCheck h hlife done
      | cons next rest =>
          exact covers_yieldEvent h (hsound.logFacts hlife) hlife (h.pending _ _ hpc) done
  | checking =>
      simp only [hpc, Option.some.injEq] at hs
      subst hs
      exact covers_statusCheck h (h.isKnown (by simp [hpc]) (by simp [hpc])) s.gen.done
  | heartbeat =>
      simp only [hpc, Option.some.injEq] at hs
      subst hs
      exact covers_pause h rfl (.inl rfl) (by simp) (.inl (h.isKnown (by simp [hpc]) (by simp [hpc])))
  | ended => simp [hpc] at hs
  | failed => simp [hpc] at hs
  | closed => simp [hpc] at hs

theorem covers_disconnect {s : State} (h : Covers last job s) {gen : Gen}
    (hs : Streams.disconnect s.gen = some gen) : Covers last job { s with gen := gen } := by
  have hclosed : s.gen.pc ≠ .created ∧ s.gen.pc ≠ .failed ∧ gen = { s.gen with pc := .closed } := by
    unfold Streams.disconnect at hs
    split at hs <;> simp_all
  obtain ⟨hcreated, hfailed, rfl⟩ := hclosed
  exact covers_pause h rfl (.inl rfl) (by simp) (.inl (h.isKnown hcreated hfailed))

def Joint (last : Nat) (job : JobId) (s : State) : Prop := Sound s.runner ∧ Covers last job s

theorem step_joint {s s' : State} (h : Joint last job s) {a : Action}
    (hs : step fingerprint job s a = some s') : Joint last job s' := by
  obtain ⟨hsound, hcovers⟩ := h
  have hrunner : ∀ a, (Jobs.step fingerprint s.runner a).map (fun runner =>
      { s with runner := runner }) = some s' → Joint last job s' := by
    intro a hmap
    obtain ⟨runner, hr, rfl⟩ := Option.map_eq_some_iff.mp hmap
    exact ⟨hsound.step hr, covers_runner hsound hcovers hr⟩
  cases a with
  | runner action =>
      cases action with
      | loop action =>
          simp only [step] at hs
          split at hs
          · cases hs
          · exact hrunner _ hs
      | nextSection => exact hrunner _ hs
      | thread job' action => exact hrunner _ hs
  | resume =>
      simp only [step] at hs
      split at hs
      · obtain ⟨gen, hgen, rfl⟩ := Option.map_eq_some_iff.mp hs
        exact ⟨hsound, covers_resume hsound hcovers hgen⟩
      · cases hs
  | disconnect =>
      obtain ⟨gen, hgen, rfl⟩ := Option.map_eq_some_iff.mp hs
      exact ⟨hsound, covers_disconnect hcovers hgen⟩

theorem joint_openStream {runner : Jobs.State} (h : Sound runner) (lastEventId : Option Nat) :
    Joint (lastEventId.getD 0) job ⟨runner, openStream lastEventId⟩ := by
  refine ⟨h, le_rfl, .inl rfl, by simp [openStream], ?_, .inr ⟨rfl, .inl rfl⟩, by simp [openStream]⟩
  rw [window_of_le (by simp [openStream])]
  exact List.nil_sublist _

-- The id that a generator will have sent at the end of its snapshot.
def ahead (gen : Gen) : Option Nat :=
  match gen.pc with
  | .yielding _ rest => some (top gen.sent rest)
  | .checking => some gen.sent
  | _ => none

-- A generator ends in its status check at the end of a snapshot, and sends nothing there.
theorem resume_ended {store : JobStore} {gen gen' : Gen}
    (hs : Streams.resume job store gen = some gen') (hend : gen'.pc = .ended) :
    gen'.sent = gen.sent ∧ gen'.yielded = gen.yielded ∧ ahead gen = some gen.sent := by
  have hcheck : ∀ g : Gen, (statusCheck job store g).pc = .ended →
      (statusCheck job store g).sent = g.sent ∧ (statusCheck job store g).yielded = g.yielded := by
    intro g hg
    rcases statusCheck_cases job store g with heq | heq
    · rw [heq]
      exact ⟨rfl, rfl⟩
    · rw [heq] at hg
      cases hg
  have hsnapshot : (takeSnapshot job store gen).pc ≠ .ended := by
    unfold takeSnapshot
    split
    · simp
    · split
      · simp
      · simp [yieldEvent]
  unfold Streams.resume at hs
  cases hpc : gen.pc with
  | created =>
      simp only [hpc, Option.some.injEq] at hs
      exact absurd (hs ▸ hend) hsnapshot
  | sleeping =>
      simp only [hpc, Option.some.injEq] at hs
      exact absurd (hs ▸ hend) hsnapshot
  | yielding event rest =>
      simp only [hpc, Option.some.injEq] at hs
      subst hs
      cases rest with
      | nil =>
          obtain ⟨hsent, hyielded⟩ := hcheck _ hend
          refine ⟨hsent.trans ?_, hyielded.trans ?_, by rw [ahead, hpc]; rfl⟩
          · split
            · rfl
            · rfl
          · split
            · rfl
            · rfl
      | cons next rest => simp [afterEvent, yieldEvent] at hend
  | checking =>
      simp only [hpc, Option.some.injEq] at hs
      subst hs
      obtain ⟨hsent, hyielded⟩ := hcheck gen hend
      exact ⟨hsent, hyielded, by rw [ahead, hpc]⟩
  | heartbeat =>
      simp only [hpc, Option.some.injEq] at hs
      subst hs
      cases hend
  | ended => simp [hpc] at hs
  | failed => simp [hpc] at hs
  | closed => simp [hpc] at hs

section Snapshot

def takesSnapshot (s : State) : Action → Bool
  | .resume =>
    match s.gen.pc with
    | .created | .sleeping => true
    | _ => false
  | _ => false

-- The stream took its last snapshot of the log in the state `q`.
structure SnapshotAt (fingerprint : Text → Python.Dict → Text) (job : JobId) (start q m : State) : Prop where
  reached : Reachable (step fingerprint job) start q
  takes : takesSnapshot q .resume = true
  since : ∃ mid, step fingerprint job q .resume = some mid ∧
    Path (step fingerprint job) (fun s a => takesSnapshot s a = false) mid m

-- What it will have sent at the end of it is the newest event that there was.
def Walked (job : JobId) (q m : State) : Prop :=
  ∀ n, ahead m.gen = some n → q.runner.store.seq job ≤ m.runner.store.seq job ∧
    n = max q.gen.sent (q.runner.store.seq job)

-- The newest event of the log is the last one of a snapshot.
theorem top_snapshot {log : List JobEvent} {seq : Nat} (h : LogFacts log seq) (sent : Nat) :
    top sent (eventsSince log (some sent)) = max sent seq := by
  have hpending := pending_snapshot h sent
  rw [eventsSince_eq_window h.bounded] at hpending ⊢
  have hincreasing := hpending.increasing
  cases hlast : (window log sent seq).getLast? with
  | none =>
      have hnil := List.getLast?_eq_none_iff.mp hlast
      rw [top, hlast, Option.map_none, Option.getD_none]
      by_contra hne
      obtain ⟨event, hevent, hid⟩ := h.newest (by omega)
      have hmem : event ∈ window log sent seq := by
        rw [window, List.mem_filter]
        simp only [Bool.and_eq_true, decide_eq_true_eq]
        exact ⟨hevent, by omega, by omega⟩
      rw [hnil] at hmem
      cases hmem
  | some last =>
      have hrange := hpending.range last (List.mem_of_getLast? hlast)
      obtain ⟨event, hevent, hid⟩ := h.newest (by omega)
      have hmem : event ∈ window log sent seq := by
        rw [window, List.mem_filter]
        simp only [Bool.and_eq_true, decide_eq_true_eq]
        exact ⟨hevent, by omega, by omega⟩
      obtain ⟨front, hfront⟩ := List.getLast?_eq_some_iff.mp hlast
      have hle : event.id ≤ last.id := by
        rw [hfront] at hmem hincreasing
        rcases List.mem_append.mp hmem with hmem | hmem
        · exact ((List.pairwise_append.mp hincreasing).2.2 event hmem last (List.mem_singleton_self last)).le
        · rw [List.mem_singleton.mp hmem]
      rw [top, hlast, Option.map_some, Option.getD_some]
      omega

theorem walked_snapshot {q mid : State} (hsound : Sound q.runner) (htakes : takesSnapshot q .resume = true)
    (hs : step fingerprint job q .resume = some mid) : Walked job q mid := by
  obtain ⟨gen, hgen, rfl⟩ : ∃ gen, Streams.resume job q.runner.store q.gen = some gen ∧
      { q with gen := gen } = mid := by
    simp only [step] at hs
    split at hs
    · exact Option.map_eq_some_iff.mp hs
    · cases hs
  have hresume : takeSnapshot job q.runner.store q.gen = gen := by
    unfold takesSnapshot at htakes
    unfold Streams.resume at hgen
    cases hpc : q.gen.pc <;> simp_all
  subst hresume
  intro n hn
  refine ⟨le_rfl, ?_⟩
  unfold takeSnapshot JobStore.log at hn
  cases hget : q.runner.store.jobs job with
  | none => simp [hget, ahead] at hn
  | some record =>
      have hfacts := hsound.logFacts (show (q.runner.life job).isSome = true by rw [State.life, hget]; rfl)
      rw [← top_snapshot hfacts]
      simp only [hget] at hn
      cases hevents : eventsSince (q.runner.store.events job) (some q.gen.sent) with
      | nil =>
          rw [hevents] at hn
          exact (Option.some.inj hn).symm
      | cons event rest =>
          rw [hevents] at hn
          rw [top_cons]
          exact (Option.some.inj hn).symm

theorem walked_step {q m m' : State} (hjoint : Joint last job m) (hwalked : Walked job q m) {a : Action}
    (hkeeps : takesSnapshot m a = false) (hs : step fingerprint job m a = some m') : Walked job q m' := by
  have hrunner : ∀ a runner, Jobs.step fingerprint m.runner a = some runner →
      Walked job q { m with runner := runner } := by
    intro a runner hr n hn
    obtain ⟨hseq, hmax⟩ := hwalked n hn
    have hlife : (m.runner.life job).isSome = true := by
      refine hjoint.2.isKnown (fun hpc => ?_) (fun hpc => ?_)
      · simp [ahead, hpc] at hn
      · simp [ahead, hpc] at hn
    refine ⟨?_, hmax⟩
    rcases hjoint.1.log_cases hr hlife with ⟨-, hsame⟩ | ⟨-, -, -, hnext⟩
    · simpa [hsame] using hseq
    · simp only [hnext]
      omega
  have hcheck : ∀ g : Gen, ahead (statusCheck job m.runner.store g) = none := by
    intro g
    rcases statusCheck_cases job m.runner.store g with heq | heq
    · rw [heq]; rfl
    · rw [heq]; rfl
  cases a with
  | runner action =>
      cases action with
      | loop action =>
          simp only [step] at hs
          split at hs
          · cases hs
          · obtain ⟨runner, hr, rfl⟩ := Option.map_eq_some_iff.mp hs
            exact hrunner _ runner hr
      | nextSection =>
          obtain ⟨runner, hr, rfl⟩ := Option.map_eq_some_iff.mp hs
          exact hrunner _ runner hr
      | thread job' action =>
          obtain ⟨runner, hr, rfl⟩ := Option.map_eq_some_iff.mp hs
          exact hrunner _ runner hr
  | resume =>
      simp only [step] at hs
      split at hs
      · obtain ⟨gen, hgen, rfl⟩ := Option.map_eq_some_iff.mp hs
        intro n hn
        unfold Streams.resume at hgen
        cases hpc : m.gen.pc with
        | created => simp [takesSnapshot, hpc] at hkeeps
        | sleeping => simp [takesSnapshot, hpc] at hkeeps
        | yielding event rest =>
            simp only [hpc, Option.some.injEq] at hgen
            subst hgen
            cases rest with
            | nil =>
                simp only [afterEvent, hcheck] at hn
                cases hn
            | cons next rest =>
                refine hwalked n ?_
                rw [ahead, hpc]
                exact (congrArg some (top_cons m.gen.sent next rest)).trans hn
        | checking =>
            simp only [hpc, Option.some.injEq] at hgen
            subst hgen
            rw [hcheck] at hn
            cases hn
        | heartbeat =>
            simp only [hpc, Option.some.injEq] at hgen
            subst hgen
            cases hn
        | ended => simp [hpc] at hgen
        | failed => simp [hpc] at hgen
        | closed => simp [hpc] at hgen
      · cases hs
  | disconnect =>
      obtain ⟨gen, hgen, rfl⟩ := Option.map_eq_some_iff.mp hs
      intro n hn
      unfold Streams.disconnect at hgen
      split at hgen
      · cases hgen; cases hn
      · cases hgen; cases hn
      · cases hgen; cases hn
      all_goals cases hgen

-- A stream that has begun took a snapshot.
theorem exists_snapshot {start m : State} (hstart : Joint last job start) (hcreated : start.gen.pc = .created)
    (h : Reachable (step fingerprint job) start m) :
    m.gen.pc = .created ∨ ∃ q, SnapshotAt fingerprint job start q m ∧ Walked job q m := by
  induction h with
  | start => exact .inl hcreated
  | @next m m' a hreach _ hs ih =>
      have hjoint : Joint last job m := hreach.invariant _ hstart fun _ _ _ hinv _ hstep => step_joint hinv hstep
      cases htakes : takesSnapshot m a with
      | true =>
          obtain rfl : a = .resume := by
            cases a with
            | resume => rfl
            | runner _ => cases htakes
            | disconnect => cases htakes
          exact .inr ⟨m, ⟨hreach, htakes, m', hs, .start⟩, walked_snapshot hjoint.1 htakes hs⟩
      | false =>
          rcases ih with hpc | ⟨q, ⟨hq, hqtakes, mid, hmid, hpath⟩, hwalked⟩
          · left
            cases a with
            | runner action =>
                have hgen : m'.gen = m.gen := by
                  cases action with
                  | loop action =>
                      simp only [step] at hs
                      split at hs
                      · cases hs
                      · obtain ⟨runner, -, rfl⟩ := Option.map_eq_some_iff.mp hs
                        rfl
                  | nextSection => obtain ⟨runner, -, rfl⟩ := Option.map_eq_some_iff.mp hs; rfl
                  | thread job' action => obtain ⟨runner, -, rfl⟩ := Option.map_eq_some_iff.mp hs; rfl
                rw [hgen, hpc]
            | resume => simp [takesSnapshot, hpc] at htakes
            | disconnect => simp [step, Streams.disconnect, hpc] at hs
          · exact .inr ⟨q, ⟨hq, hqtakes, mid, hmid, .next hpath htakes hs⟩, walked_step hjoint hwalked htakes hs⟩

end Snapshot

-- Every event of the log after the given id has been yielded, in log order.
def Complete (lastEventId : Option Nat) (job : JobId) (s : State) : Prop :=
  (eventsSince (s.runner.store.events job) lastEventId).Sublist s.gen.yielded

theorem LogFacts.eventsSince_eq {log : List JobEvent} {seq : Nat} (h : LogFacts log seq)
    (lastEventId : Option Nat) :
    eventsSince log lastEventId = window log (lastEventId.getD 0) seq := by
  cases lastEventId with
  | some last => exact eventsSince_eq_window h.bounded last
  | none =>
      rw [eventsSince, window, Eq.comm, List.filter_eq_self]
      intro event hevent
      have hpos := h.positive event hevent
      have hbound := h.bounded event hevent
      simp only [Option.getD_none, Bool.and_eq_true, decide_eq_true_eq]
      omega

-- A stream that ends of itself is complete exactly when, at its last look at the
-- record's status, the newest event of the job is one it has sent: when nothing has been
-- appended since its last snapshot, or nothing above the id that it was at then.
theorem complete_iff {runner : Jobs.State}
    (hrunner : Reachable (Jobs.step fingerprint) Jobs.initial runner) {lastEventId : Option Nat}
    {m s : State} (h : Reachable (step fingerprint job) ⟨runner, openStream lastEventId⟩ m)
    (hs : step fingerprint job m .resume = some s) (hend : s.gen.pc = .ended) :
    (Complete lastEventId job s ↔ m.runner.store.seq job ≤ m.gen.sent) ∧
      ∃ q, SnapshotAt fingerprint job ⟨runner, openStream lastEventId⟩ q m ∧
        (Complete lastEventId job s ↔ m.runner.store.seq job = q.runner.store.seq job ∨
          m.runner.store.seq job ≤ q.gen.sent) := by
  have hsound : Sound runner :=
    hrunner.invariant Sound sound_initial fun _ _ _ hinv _ hstep => hinv.step hstep
  have hstart : Joint (lastEventId.getD 0) job ⟨runner, openStream lastEventId⟩ :=
    joint_openStream hsound lastEventId
  have hjoint : Joint (lastEventId.getD 0) job m :=
    h.invariant _ hstart fun _ _ _ hinv _ hstep => step_joint hinv hstep
  obtain ⟨hsound', hcovers⟩ := step_joint hjoint hs
  obtain ⟨hrun, hsent, hahead⟩ : s.runner = m.runner ∧ s.gen.sent = m.gen.sent ∧
      ahead m.gen = some m.gen.sent := by
    simp only [step] at hs
    split at hs
    · obtain ⟨gen, hgen, rfl⟩ := Option.map_eq_some_iff.mp hs
      obtain ⟨hsent, -, hahead⟩ := resume_ended hgen hend
      exact ⟨rfl, hsent, hahead⟩
    · cases hs
  have hfacts := hsound'.logFacts (hcovers.isKnown (by simp [hend]) (by simp [hend]))
  have hlow := hcovers.low
  have hiff : Complete lastEventId job s ↔ m.runner.store.seq job ≤ m.gen.sent := by
    rw [Complete, hfacts.eventsSince_eq, ← hrun, ← hsent]
    constructor
    · intro hsub
      by_contra hnewer
      obtain ⟨event, hmem, hid⟩ := hfacts.newest (by omega)
      have hwindow : event ∈ window (s.runner.store.events job) (lastEventId.getD 0)
          (s.runner.store.seq job) := by
        rw [window, List.mem_filter]
        simp only [Bool.and_eq_true, decide_eq_true_eq]
        exact ⟨hmem, by omega, by omega⟩
      have := hcovers.yielded event (hsub.subset hwindow)
      omega
    · intro hle
      have hmono : (window (s.runner.store.events job) (lastEventId.getD 0)
          (s.runner.store.seq job)).Sublist
          (window (s.runner.store.events job) (lastEventId.getD 0) s.gen.sent) := by
        refine List.monotone_filter_right _ fun event hevent => ?_
        simp only [Bool.and_eq_true, decide_eq_true_eq] at hevent ⊢
        omega
      exact hmono.trans hcovers.base
  refine ⟨hiff, ?_⟩
  rcases exists_snapshot hstart rfl h with hcreated | ⟨q, hsnapshot, hwalked⟩
  · simp [ahead, hcreated] at hahead
  · obtain ⟨hseq, hmax⟩ := hwalked _ hahead
    exact ⟨q, hsnapshot, by rw [hiff]; omega⟩

def runnerAfter (as : List Jobs.Action) : Jobs.State :=
  (run (Jobs.step sampleFingerprint) Jobs.initial as).getD Jobs.initial

def streamAfter (runner : Jobs.State) (as : List Action) : State :=
  (run (step sampleFingerprint sampleJob) ⟨runner, openStream none⟩ as).getD
    ⟨runner, openStream none⟩

-- The stream of a job that had succeeded before it was opened.
def replayed : State := streamAfter (runnerAfter sampleSuccess) (List.replicate 4 .resume)

def replayEnded : State := (step sampleFingerprint sampleJob replayed .resume).getD replayed

theorem complete_replayEnded : Complete none sampleJob replayEnded := by
  have hrunner : run (Jobs.step sampleFingerprint) Jobs.initial sampleSuccess =
      some (runnerAfter sampleSuccess) := rfl
  have hstream : run (step sampleFingerprint sampleJob)
      ⟨runnerAfter sampleSuccess, openStream none⟩ (List.replicate 4 .resume) = some replayed := rfl
  have hs : step sampleFingerprint sampleJob replayed .resume = some replayEnded := rfl
  exact (complete_iff (Reachable.of_run hrunner) (Reachable.of_run hstream) hs rfl).1.mpr (by decide)

-- The stream is suspended at the last event of its snapshot while the job
-- succeeds; the next thing it reads is the record's terminal status.
def sampleMissed : List Action :=
  [.resume, .resume, .runner (.thread sampleJob (.ends (.returned (ascii "a1.mp4") []))),
    .runner (.loop .workEnds), .runner .nextSection]

def missing : State := streamAfter (runnerAfter sampleStart) sampleMissed

def missed : State := (step sampleFingerprint sampleJob missing .resume).getD missing

theorem stream_misses_terminal :
    ¬∀ runner lastEventId job m s, Reachable (Jobs.step sampleFingerprint) Jobs.initial runner →
      Reachable (step sampleFingerprint job) ⟨runner, openStream lastEventId⟩ m →
      step sampleFingerprint job m .resume = some s → s.gen.pc = .ended →
      Complete lastEventId job s := by
  intro h
  have hrunner : run (Jobs.step sampleFingerprint) Jobs.initial sampleStart =
      some (runnerAfter sampleStart) := rfl
  have hstream : run (step sampleFingerprint sampleJob)
      ⟨runnerAfter sampleStart, openStream none⟩ sampleMissed = some missing := rfl
  have hs : step sampleFingerprint sampleJob missing .resume = some missed := rfl
  have hcomplete := h _ none sampleJob missing missed (Reachable.of_run hrunner)
    (Reachable.of_run hstream) hs rfl
  have hlength := List.Sublist.length_le hcomplete
  have hlog : (eventsSince (missed.runner.store.events sampleJob) none).length = 3 := rfl
  have hyielded : missed.gen.yielded.length = 2 := rfl
  omega

end Cosmos3.Streams
