import Cosmos3.Reasoning.Relay
import Cosmos3.Sse.RoundTrip
import Mathlib.Data.List.ReduceOption

namespace Cosmos3.Reasoning

open Basis

-- What the pump puts into the queue, from the start and from where it stands.
def Upstream.ending (upstream : Upstream) : List Item :=
  upstream.raises.toList.map .raised ++ [.sentinel]

def Upstream.items (upstream : Upstream) : List Item :=
  upstream.deltas.map .delta ++ upstream.ending

def PumpPc.rest (upstream : Upstream) : PumpPc → List Item
  | .idle => upstream.items
  | .reading remaining => remaining.map .delta ++ upstream.ending
  | .checking delta remaining | .posting delta remaining =>
      .delta delta :: (remaining.map .delta ++ upstream.ending)
  | .failing message => [.raised message, .sentinel]
  | .closing => [.sentinel]
  | .finished => []

def GetTask.item : GetTask → List Item
  | .done item => [item]
  | .scheduled | .suspended | .woken => []

@[simp] theorem item_done (item : Item) : (GetTask.done item).item = [item] := rfl

@[simp] theorem item_suspended : GetTask.suspended.item = [] := rfl

@[simp] theorem item_woken : GetTask.woken.item = [] := rfl

@[simp] theorem item_scheduled : GetTask.scheduled.item = [] := rfl

-- What the consumer has not seen of it, in the order in which it will.
def Relay.pending (upstream : Upstream) (s : Relay) : List Item :=
  (s.getTask.map GetTask.item).getD [] ++ s.queue ++ s.callbacks ++ s.pump.rest upstream

section Invariant

variable (numbers : Json.NumberText) (upstream : Upstream)

-- A token for a delta, a heartbeat otherwise.
def chunk : Option Text → Text
  | some delta => sse numbers .token delta
  | none => sse numbers .heartbeat []

def errorChunks : List Text := upstream.raises.toList.map (sse numbers .error)

-- The chunks so far, by where the generator stands.
inductive Relayed (s : Relay) : RelayPc → Prop
  | created (hpump : s.pump = .idle) (hcallbacks : s.callbacks = []) (hqueue : s.queue = [])
      (hget : s.getTask = none) (hchunks : s.chunks = []) : Relayed s .created
  | streaming {pc : RelayPc} (body : List (Option Text)) (hpc : pc = .yielded ∨ pc = .waiting)
      (hget : pc = .waiting → s.getTask ≠ none)
      (hchunks : s.chunks = body.map (chunk numbers))
      (hpending : body.reduceOption.map .delta ++ s.pending upstream = upstream.items) :
      Relayed s pc
  | failed (body : List (Option Text)) (hbody : body.reduceOption = upstream.deltas)
      (hraises : upstream.raises ≠ none)
      (hchunks : s.chunks = body.map (chunk numbers) ++ errorChunks numbers upstream) :
      Relayed s .failed
  | ended {pc : RelayPc} (hpc : pc = .closed ∨ pc = .returned) (body : List (Option Text))
      (hbody : body.reduceOption = upstream.deltas)
      (hchunks : s.chunks =
        body.map (chunk numbers) ++ errorChunks numbers upstream ++ [sse numbers .done []]) :
      Relayed s pc

structure Faithful (s : Relay) : Prop where
  relayed : Relayed numbers upstream s s.pc
  stop : s.pc ≠ .returned → s.stop = false
  idle : s.pump = .idle → s.pc = .created
  suspended : s.getTask = some .suspended → s.queue = []

end Invariant

section Items

variable {upstream : Upstream} {deltas : List Text} {item : Item} {rest : List Item}

-- The first item that is not a delta comes after all of them.
theorem items_cut (h : deltas.map .delta ++ item :: rest = upstream.items) :
    (∃ text, item = .delta text) ∨ deltas = upstream.deltas ∧ item :: rest = upstream.ending := by
  unfold Upstream.items at h
  generalize upstream.deltas = sent at h
  induction deltas generalizing sent with
  | nil =>
      cases sent with
      | nil => exact .inr ⟨rfl, h⟩
      | cons delta sent => exact .inl ⟨delta, (List.cons.inj h).1⟩
  | cons delta deltas ih =>
      cases sent with
      | nil =>
          unfold Upstream.ending at h
          cases hraises : upstream.raises with
          | none => simp [hraises] at h
          | some message => simp [hraises] at h
      | cons first sent =>
          obtain ⟨hfirst, hrest⟩ := List.cons.inj h
          obtain rfl := Item.delta.inj hfirst
          rcases ih sent hrest with htext | ⟨rfl, hending⟩
          · exact .inl htext
          · exact .inr ⟨rfl, hending⟩

theorem raised_of_ending {message : Text} (h : .raised message :: rest = upstream.ending) :
    upstream.raises = some message := by
  unfold Upstream.ending at h
  cases hraises : upstream.raises with
  | none => simp [hraises] at h
  | some text =>
      simp only [hraises, Option.toList_some, List.map_cons, List.cons_append, List.cons.injEq,
        Item.raised.injEq] at h
      rw [h.1]

theorem sentinel_of_ending (h : .sentinel :: rest = upstream.ending) : upstream.raises = none := by
  unfold Upstream.ending at h
  cases hraises : upstream.raises with
  | none => rfl
  | some text => simp [hraises] at h

end Items

section Steps

variable {numbers : Json.NumberText} {upstream : Upstream} {s s' : Relay}

theorem faithful_initial : Faithful numbers upstream Relay.initial :=
  ⟨.created rfl rfl rfl rfl rfl, fun _ => rfl, fun _ => rfl, by simp [Relay.initial]⟩

-- The thread and the loop carry the items on, and the generator stays where it is.
theorem Relayed.carries {pc : RelayPc} (h : Relayed numbers upstream s pc)
    (hcreated : pc ≠ .created) (hchunks : s'.chunks = s.chunks)
    (hget : s.getTask ≠ none → s'.getTask ≠ none)
    (hpending : pc ≠ .returned → s'.pending upstream = s.pending upstream) :
    Relayed numbers upstream s' pc := by
  cases h with
  | created => exact absurd rfl hcreated
  | streaming body hpc hwaiting hbody hitems =>
      have hnot : pc ≠ .returned := by rcases hpc with rfl | rfl <;> simp
      exact .streaming body hpc (fun hpc => hget (hwaiting hpc)) (hchunks.trans hbody)
        (by rw [hpending hnot, hitems])
  | failed body hbody hraises hsent => exact .failed body hbody hraises (hchunks.trans hsent)
  | ended hpc body hbody hsent => exact .ended hpc body hbody (hchunks.trans hsent)

theorem pump_frame (hs : pump upstream s = some s') :
    s'.pc = s.pc ∧ s'.chunks = s.chunks ∧ s'.getTask = s.getTask ∧ s'.queue = s.queue ∧
      s'.stop = s.stop ∧ s.pump ≠ .idle ∧ s'.pump ≠ .idle := by
  unfold pump at hs
  split at hs
  · cases hs
  · cases hs
  · rename_i hpump
    split at hs <;> cases hs <;> simp [hpump]
  · rename_i hpump
    cases hs
    simp [hpump]
  · rename_i hpump
    split at hs <;> cases hs <;> simp [hpump]
  all_goals
    rename_i hpump
    cases hs
    simp [hpump]

theorem pump_pending (hs : pump upstream s = some s') (hstop : s.stop = false) :
    s'.pending upstream = s.pending upstream := by
  unfold pump at hs
  split at hs
  · cases hs
  · cases hs
  · rename_i hpump
    split at hs
    · rename_i message hraises
      cases hs
      simp [Relay.pending, hpump, PumpPc.rest, Upstream.ending, hraises]
    · rename_i hraises
      cases hs
      simp [Relay.pending, hpump, PumpPc.rest, Upstream.ending, hraises]
  · rename_i hpump
    cases hs
    simp [Relay.pending, hpump, PumpPc.rest]
  · rename_i hpump
    rw [if_neg (by simp [hstop])] at hs
    cases hs
    simp [Relay.pending, hpump, PumpPc.rest]
  all_goals
    rename_i hpump
    cases hs
    simp [Relay.pending, hpump, PumpPc.rest]

theorem Faithful.begun (h : Faithful numbers upstream s)
    (hbegun : s.pump ≠ .idle ∨ s.callbacks ≠ [] ∨ s.getTask ≠ none) : s.pc ≠ .created := by
  intro hcreated
  have hrelayed := h.relayed
  rw [hcreated] at hrelayed
  cases hrelayed with
  | created hpump hcallbacks _ hget => simp [hpump, hcallbacks, hget] at hbegun
  | streaming _ hpc => simp at hpc
  | ended hpc => simp at hpc

theorem Faithful.pump (h : Faithful numbers upstream s) (hs : pump upstream s = some s') :
    Faithful numbers upstream s' := by
  obtain ⟨hpc, hchunks, hget, hqueue, hstop, hpump, hpump'⟩ := pump_frame hs
  refine ⟨?_, ?_, fun hidle => absurd hidle hpump', by rw [hget, hqueue]; exact h.suspended⟩
  · rw [hpc]
    exact h.relayed.carries (h.begun (.inl hpump)) hchunks (by rw [hget]; exact id) fun hpc' =>
      pump_pending hs (h.stop hpc')
  · rw [hpc, hstop]
    exact h.stop

theorem Faithful.callback (h : Faithful numbers upstream s) (hs : callback s = some s') :
    Faithful numbers upstream s' := by
  unfold Reasoning.callback at hs
  split at hs
  · cases hs
  · rename_i item callbacks hcallbacks
    cases hs
    have hbegun := h.begun (.inr (.inl (by simp [hcallbacks])))
    refine ⟨h.relayed.carries hbegun rfl ?_ fun _ => ?_, h.stop, h.idle, ?_⟩
    · dsimp only
      split <;> simp
    · unfold Relay.pending
      dsimp only
      split
      · rename_i hget
        simp [hget, hcallbacks]
      · simp [hcallbacks]
    · dsimp only
      split
      · simp
      · rename_i hsuspended
        exact fun hget => absurd hget hsuspended

theorem Faithful.get (h : Faithful numbers upstream s) (hs : get s = some s') :
    Faithful numbers upstream s' := by
  have hruns : ∃ task, s.getTask = some task ∧ task.item = [] ∧
      (s.queue = [] ∧ s' = { s with getTask := some .suspended } ∨
        ∃ item queue, s.queue = item :: queue ∧ s' = { s with queue := queue, getTask := some (.done item) }) := by
    unfold Reasoning.get at hs
    split at hs
    · rename_i hget
      refine ⟨_, hget, rfl, ?_⟩
      split at hs
      · rename_i hqueue
        cases hs
        exact .inl ⟨hqueue, rfl⟩
      · rename_i item queue hqueue
        cases hs
        exact .inr ⟨item, queue, hqueue, rfl⟩
    · rename_i hget
      refine ⟨_, hget, rfl, ?_⟩
      split at hs
      · rename_i hqueue
        cases hs
        exact .inl ⟨hqueue, rfl⟩
      · rename_i item queue hqueue
        cases hs
        exact .inr ⟨item, queue, hqueue, rfl⟩
    · cases hs
  obtain ⟨task, hget, hnone, hruns⟩ := hruns
  have hbegun := h.begun (.inr (.inr (by simp [hget])))
  rcases hruns with ⟨hqueue, rfl⟩ | ⟨item, queue, hqueue, rfl⟩
  · refine ⟨h.relayed.carries hbegun rfl (by simp) fun _ => ?_, h.stop, h.idle, fun _ => hqueue⟩
    simp [Relay.pending, hget, hnone]
  · refine ⟨h.relayed.carries hbegun rfl (by simp) fun _ => ?_, h.stop, h.idle, by simp⟩
    simp [Relay.pending, hget, hnone, hqueue]

theorem Faithful.streams (h : Faithful numbers upstream s) (hpc : s.pc = .yielded ∨ s.pc = .waiting) :
    s.pump ≠ .idle ∧ s.stop = false ∧ ∃ body : List (Option Text),
      s.chunks = body.map (chunk numbers) ∧
        body.reduceOption.map .delta ++ s.pending upstream = upstream.items := by
  have hopen : s.pc ≠ .created ∧ s.pc ≠ .returned ∧ s.pc ≠ .failed ∧ s.pc ≠ .closed := by
    rcases hpc with hpc | hpc <;> simp [hpc]
  refine ⟨fun hpump => hopen.1 (h.idle hpump), h.stop hopen.2.1, ?_⟩
  have hrelayed := h.relayed
  generalize s.pc = pc at hrelayed hopen
  cases hrelayed with
  | created => exact absurd rfl hopen.1
  | streaming body _ _ hchunks hitems => exact ⟨body, hchunks, hitems⟩
  | failed => exact absurd rfl hopen.2.2.1
  | ended hpc => exact absurd hpc (by simp [hopen.2.1, hopen.2.2.2])

-- What the generator makes of a get that is done.
theorem Faithful.takes (h : Faithful numbers upstream s) {item : Item} (hpc : s.pc = .waiting)
    (hget : s.getTask = some (.done item)) (hs : resume numbers s = some s') :
    Faithful numbers upstream s' := by
  obtain ⟨hidle, hstop, body, hchunks, hitems⟩ := h.streams (.inr hpc)
  have hpending : s.pending upstream =
      item :: (s.queue ++ s.callbacks ++ s.pump.rest upstream) := by
    simp [Relay.pending, hget]
  rw [hpending] at hitems
  unfold resume at hs
  simp only [hpc, hget] at hs
  cases item with
  | sentinel =>
      cases hs
      obtain ⟨hbody, hending⟩ := (items_cut hitems).resolve_left (by simp)
      refine ⟨.ended (.inl rfl) body hbody ?_, fun _ => hstop, fun hpump => absurd hpump hidle, by simp⟩
      simp [hchunks, errorChunks, sentinel_of_ending hending]
  | raised message =>
      cases hs
      obtain ⟨hbody, hending⟩ := (items_cut hitems).resolve_left (by simp)
      have hraises := raised_of_ending hending
      refine ⟨.failed body hbody (by simp [hraises]) ?_, fun _ => hstop,
        fun hpump => absurd hpump hidle, by simp⟩
      simp [hchunks, errorChunks, hraises]
  | delta text =>
      cases hs
      refine ⟨.streaming (body ++ [some text]) (.inl rfl) (by simp) ?_ ?_, fun _ => hstop,
        fun hpump => absurd hpump hidle, by simp⟩
      · simp [hchunks, chunk]
      · simpa [Relay.pending, List.reduceOption_append] using hitems

-- A heartbeat leaves the pending get as it is.
theorem Faithful.beats (h : Faithful numbers upstream s) (hpc : s.pc = .waiting) :
    Faithful numbers upstream
      { s with pc := .yielded, chunks := s.chunks ++ [sse numbers .heartbeat []] } := by
  obtain ⟨hidle, hstop, body, hchunks, hitems⟩ := h.streams (.inr hpc)
  refine ⟨.streaming (body ++ [none]) (.inl rfl) (by simp) ?_ ?_, fun _ => hstop,
    fun hpump => absurd hpump hidle, h.suspended⟩
  · simp [hchunks, chunk]
  · simpa [Relay.pending, List.reduceOption_append] using hitems

theorem Faithful.resume (h : Faithful numbers upstream s) (hs : resume numbers s = some s') :
    Faithful numbers upstream s' := by
  have hwaits : s.pc = .waiting ∧ ((∃ item, s.getTask = some (.done item)) ∨
      s' = { s with pc := .yielded, chunks := s.chunks ++ [sse numbers .heartbeat []] }) := by
    unfold Reasoning.resume at hs
    split at hs
    · rename_i item hpc hget
      exact ⟨hpc, .inl ⟨item, hget⟩⟩
    · rename_i hpc _
      exact ⟨hpc, .inr (Option.some.inj hs).symm⟩
    · cases hs
  obtain ⟨hpc, ⟨item, hget⟩ | rfl⟩ := hwaits
  · exact h.takes hpc hget hs
  · exact h.beats hpc

theorem Faithful.pull (h : Faithful numbers upstream s) (hs : pull numbers upstream s = some s') :
    Faithful numbers upstream s' := by
  have hrelayed := h.relayed
  unfold Reasoning.pull at hs
  split at hs
  · rename_i hpc
    cases hs
    rw [hpc] at hrelayed
    cases hrelayed with
    | created hpump hcallbacks hqueue hget hchunks =>
        refine ⟨.streaming [] (.inr rfl) (by simp) hchunks ?_, fun _ => h.stop (by simp [hpc]),
          by simp, by simp⟩
        simp [Relay.pending, hcallbacks, hqueue, PumpPc.rest, Upstream.items]
    | streaming _ hpc => simp at hpc
    | ended hpc => simp at hpc
  · rename_i hpc
    cases hs
    obtain ⟨hidle, hstop, body, hchunks, hitems⟩ := h.streams (.inl hpc)
    refine ⟨.streaming body (.inr rfl) (by simp) hchunks ?_, fun _ => hstop,
      fun hpump => absurd hpump hidle, ?_⟩
    · cases hget : s.getTask <;> simpa [Relay.pending, hget] using hitems
    · cases hget : s.getTask with
      | none => simp
      | some task => simpa [hget] using h.suspended
  · rename_i hpc
    cases hs
    rw [hpc] at hrelayed
    cases hrelayed with
    | failed body hbody hraises hchunks =>
        refine ⟨.ended (.inl rfl) body hbody (by simp [hchunks]), fun _ => h.stop (by simp [hpc]),
          fun hpump => ?_, h.suspended⟩
        simp [h.idle hpump] at hpc
    | streaming _ hpc => simp at hpc
    | ended hpc => simp at hpc
  · rename_i hpc
    cases hs
    rw [hpc] at hrelayed
    cases hrelayed with
    | ended _ body hbody hchunks =>
        refine ⟨.ended (.inr rfl) body hbody hchunks, by simp, fun hpump => ?_, by simp⟩
        simp [h.idle hpump] at hpc
    | streaming _ hpc => simp at hpc
  · cases hs
  · cases hs

theorem reachable_faithful (hr : Reachable (step numbers upstream) Relay.initial s) :
    Faithful numbers upstream s := by
  refine hr.invariant (Faithful numbers upstream) faithful_initial ?_
  intro s a s' h _ hs
  cases a with
  | pump => exact h.pump hs
  | callback => exact h.callback hs
  | get => exact h.get hs
  | resume => exact h.resume hs
  | pull => exact h.pull hs

theorem Relayed.returned (h : Relayed numbers upstream s .returned) :
    ∃ body : List (Option Text), body.reduceOption = upstream.deltas ∧
      s.chunks = body.map (chunk numbers) ++ errorChunks numbers upstream ++ [sse numbers .done []] := by
  cases h with
  | ended _ body hbody hchunks => exact ⟨body, hbody, hchunks⟩
  | streaming _ hpc => simp at hpc

-- A consumer that has read the relay to its end.
theorem relay_fidelity (hr : Reachable (step numbers upstream) Relay.initial s)
    (hreturned : s.pc = .returned) :
    ∃ body : List (Option Text), body.reduceOption = upstream.deltas ∧
      s.chunks = body.map (chunk numbers) ++ upstream.raises.toList.map (sse numbers .error) ++
        [sse numbers .done []] :=
  Relayed.returned (hreturned ▸ (reachable_faithful hr).relayed)

end Steps

-- One delta, a heartbeat while the upstream is silent, and a failure.
def sampleUpstream : Upstream := ⟨[ascii "Hi"], some (ascii "gone")⟩

def sampleRelay : List Action :=
  [.pull, .get, .pump, .pump, .pump, .callback, .get, .resume, .pull, .get, .resume, .pull, .pump,
    .pump, .pump, .callback, .get, .resume, .pull, .pull]

theorem relay_fidelity_sampleRelay :
    ∃ s, run (step Sse.sampleNumbers sampleUpstream) Relay.initial sampleRelay = some s ∧
      ∃ body : List (Option Text), body.reduceOption = sampleUpstream.deltas ∧
        s.chunks = body.map (chunk Sse.sampleNumbers) ++
          sampleUpstream.raises.toList.map (sse Sse.sampleNumbers .error) ++ [sse Sse.sampleNumbers .done []] := by
  obtain ⟨s, hs, hreturned⟩ : ∃ s,
      run (step Sse.sampleNumbers sampleUpstream) Relay.initial sampleRelay = some s ∧ s.pc = .returned :=
    ⟨_, rfl, rfl⟩
  exact ⟨s, hs, relay_fidelity (Reachable.of_run hs) hreturned⟩

section Ends

def PumpPc.weight (upstream : Upstream) : PumpPc → Nat
  | .idle => 11 * upstream.deltas.length + 19
  | .reading remaining => 11 * remaining.length + 19
  | .checking _ remaining => 11 * remaining.length + 29
  | .posting _ remaining => 11 * remaining.length + 28
  | .failing _ => 18
  | .closing => 9
  | .finished => 0

def GetTask.weight : Option GetTask → Nat
  | none | some .scheduled | some .woken => 1
  | some .suspended => 0
  | some (.done _) => 6

def RelayPc.weight : RelayPc → Nat
  | .waiting | .returned => 0
  | .created | .yielded => 1
  | .closed => 2
  | .failed => 3

-- Every step but a heartbeat lowers it.
def Relay.weight (upstream : Upstream) (s : Relay) : Nat :=
  s.pump.weight upstream + 8 * s.callbacks.length + 6 * s.queue.length +
    GetTask.weight s.getTask + s.pc.weight

variable {numbers : Json.NumberText} {upstream : Upstream} {s s' : Relay}

theorem pump_moves (hpump : s.pump.rest upstream ≠ []) (hidle : s.pump ≠ .idle) :
    ∃ s', step numbers upstream s .pump = some s' ∧ s'.weight upstream < s.weight upstream := by
  cases h : s.pump with
  | idle => exact absurd h hidle
  | finished => simp [h, PumpPc.rest] at hpump
  | reading remaining =>
      cases remaining with
      | nil =>
          cases hraises : upstream.raises <;>
            simp [step, pump, h, hraises, Relay.weight, PumpPc.weight]
      | cons delta remaining =>
          simp [step, pump, h, Relay.weight, PumpPc.weight]
          omega
  | checking delta remaining =>
      cases hstop : s.stop <;> simp [step, pump, h, hstop, Relay.weight, PumpPc.weight]
  | posting delta remaining =>
      simp [step, pump, h, Relay.weight, PumpPc.weight]
      omega
  | failing message =>
      simp [step, pump, h, Relay.weight, PumpPc.weight]
      omega
  | closing =>
      simp [step, pump, h, Relay.weight, PumpPc.weight]
      omega

theorem callback_moves (hcallbacks : s.callbacks ≠ []) :
    ∃ s', step numbers upstream s .callback = some s' ∧ s'.weight upstream < s.weight upstream := by
  obtain ⟨item, callbacks, h⟩ := List.exists_cons_of_ne_nil hcallbacks
  simp only [step, callback, h, Option.some.injEq, exists_eq_left', Relay.weight, List.length_append,
    List.length_cons, List.length_nil]
  split
  · rename_i hget
    simp only [hget, GetTask.weight]
    omega
  · omega

theorem get_moves (hget : s.getTask = some .scheduled ∨ s.getTask = some .woken) :
    ∃ s', step numbers upstream s .get = some s' ∧ s'.weight upstream < s.weight upstream := by
  rcases hget with hget | hget
  all_goals
    cases hqueue : s.queue with
    | nil => simp [step, get, hget, hqueue, Relay.weight, GetTask.weight]
    | cons item queue =>
        simp [step, get, hget, hqueue, Relay.weight, GetTask.weight]
        omega

theorem resume_moves {item : Item} (hpc : s.pc = .waiting) (hget : s.getTask = some (.done item)) :
    ∃ s', step numbers upstream s .resume = some s' ∧ s'.weight upstream < s.weight upstream := by
  cases item with
  | _ => simp [step, resume, hpc, hget, Relay.weight, GetTask.weight, RelayPc.weight]

theorem pull_moves (hpump : s.pc = .created → s.pump = .idle ∧ s.getTask = none)
    (hpc : s.pc ≠ .waiting) (hreturned : s.pc ≠ .returned) :
    ∃ s', step numbers upstream s .pull = some s' ∧ s'.weight upstream < s.weight upstream := by
  cases h : s.pc with
  | created =>
      obtain ⟨hidle, hget⟩ := hpump h
      simp [step, pull, h, hidle, hget, Relay.weight, PumpPc.weight, GetTask.weight, RelayPc.weight]
  | yielded =>
      cases hget : s.getTask <;>
        simp [step, pull, h, hget, Relay.weight, GetTask.weight, RelayPc.weight]
  | failed => simp [step, pull, h, Relay.weight, RelayPc.weight]
  | closed =>
      simp only [step, pull, h, Option.some.injEq, exists_eq_left', Relay.weight, GetTask.weight,
        RelayPc.weight]
      omega
  | waiting => exact absurd h hpc
  | returned => exact absurd h hreturned

-- Something other than a heartbeat can always happen until the relay has returned.
theorem Faithful.moves (h : Faithful numbers upstream s) (hreturned : s.pc ≠ .returned) :
    ∃ a s', step numbers upstream s a = some s' ∧ s'.weight upstream < s.weight upstream := by
  by_cases hpc : s.pc = .waiting
  · obtain ⟨hidle, hstop, body, -, hitems⟩ := h.streams (.inr hpc)
    have hget : s.getTask ≠ none := by
      have hrelayed := h.relayed
      rw [hpc] at hrelayed
      cases hrelayed with
      | streaming _ _ hget => exact hget rfl
      | ended hpc => simp at hpc
    cases htask : s.getTask with
    | none => exact absurd htask hget
    | some task =>
        cases task with
        | done item => exact ⟨.resume, resume_moves hpc htask⟩
        | scheduled => exact ⟨.get, get_moves (.inl htask)⟩
        | woken => exact ⟨.get, get_moves (.inr htask)⟩
        | suspended =>
            by_cases hcallbacks : s.callbacks = []
            · refine ⟨.pump, pump_moves (fun hrest => ?_) hidle⟩
              have hmem : Item.sentinel ∈ upstream.items := by
                simp [Upstream.items, Upstream.ending]
              rw [← hitems] at hmem
              simp [Relay.pending, htask, h.suspended htask, hcallbacks, hrest] at hmem
            · exact ⟨.callback, callback_moves hcallbacks⟩
  · refine ⟨.pull, pull_moves (fun hcreated => ?_) hpc hreturned⟩
    have hrelayed := h.relayed
    rw [hcreated] at hrelayed
    cases hrelayed with
    | created hpump _ _ hget => exact ⟨hpump, hget⟩
    | streaming _ hpc => simp at hpc
    | ended hpc => simp at hpc

-- From wherever it is, the relay can be read to its end.
theorem relay_ends (hr : Reachable (step numbers upstream) Relay.initial s) :
    ∃ s', Reachable (step numbers upstream) s s' ∧ s'.pc = .returned := by
  induction hweight : s.weight upstream using Nat.strongRecOn generalizing s with
  | _ weight ih =>
      by_cases hreturned : s.pc = .returned
      · exact ⟨s, .start, hreturned⟩
      · obtain ⟨a, m, hs, hlt⟩ := (reachable_faithful hr).moves hreturned
        obtain ⟨s', hrest, hend⟩ := ih _ (hweight ▸ hlt) (.next hr trivial hs) rfl
        exact ⟨s', (Path.next .start trivial hs).trans hrest, hend⟩

end Ends

end Cosmos3.Reasoning
