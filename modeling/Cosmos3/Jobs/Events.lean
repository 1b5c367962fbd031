import Cosmos3.Basis.Json

namespace Cosmos3.Jobs

open Basis

-- One event of a job's log; `id` is the SSE id, `data` a JSON object.
structure JobEvent where
  id : Nat
  type : Text
  data : List (Text × Json)

def progressType : Text := ascii "progress"

def heartbeatType : Text := ascii "heartbeat"

def eventsSince (log : List JobEvent) (lastEventId : Option Nat) : List JobEvent :=
  match lastEventId with
  | none => log
  | some last => log.filter fun event => last < event.id

section Windows

-- The events of a log with an id above `low`, up to `high`.
def window (log : List JobEvent) (low high : Nat) : List JobEvent :=
  log.filter fun event => low < event.id && event.id ≤ high

def Increasing (log : List JobEvent) : Prop := log.Pairwise fun event later => event.id < later.id

theorem Increasing.sublist {log log' : List JobEvent} (h : Increasing log)
    (hsub : log'.Sublist log) : Increasing log' :=
  List.Pairwise.sublist hsub h

theorem window_of_le {low high : Nat} (h : high ≤ low) (log : List JobEvent) :
    window log low high = [] := by
  rw [window, List.filter_eq_nil_iff]
  intro event _
  simp only [Bool.and_eq_true, decide_eq_true_eq]
  omega

theorem window_sublist {log log' : List JobEvent} (h : log'.Sublist log) (low high : Nat) :
    (window log' low high).Sublist (window log low high) :=
  h.filter _

theorem window_append_of_lt {event : JobEvent} {high : Nat} (h : high < event.id)
    (log : List JobEvent) (low : Nat) :
    window (log ++ [event]) low high = window log low high := by
  rw [window, List.filter_append, List.filter_cons_of_neg (by simp; omega), List.filter_nil,
    List.append_nil, window]

-- A window that goes on where another one stops.
theorem window_split {log : List JobEvent} (h : Increasing log) {low mid high : Nat}
    (hlow : low ≤ mid) (hhigh : mid ≤ high) :
    window log low high = window log low mid ++ window log mid high := by
  induction log with
  | nil => rfl
  | cons event log ih =>
      obtain ⟨hfirst, hrest⟩ := List.pairwise_cons.mp h
      have hsplit := ih hrest
      simp only [window] at hsplit ⊢
      by_cases hmid : event.id ≤ mid
      · by_cases hev : low < event.id
        · rw [List.filter_cons_of_pos (by simp; omega), List.filter_cons_of_pos (by simp; omega),
            List.filter_cons_of_neg (by simp; omega), hsplit, List.cons_append]
        · rw [List.filter_cons_of_neg (by simp; omega), List.filter_cons_of_neg (by simp; omega),
            List.filter_cons_of_neg (by simp; omega), hsplit]
      · have hnone : window log low mid = [] := by
          rw [window, List.filter_eq_nil_iff]
          intro later hlater
          have := hfirst later hlater
          simp only [Bool.and_eq_true, decide_eq_true_eq]
          omega
        simp only [window] at hnone
        by_cases hev : event.id ≤ high
        · rw [List.filter_cons_of_pos (by simp; omega), List.filter_cons_of_neg (by simp; omega),
            List.filter_cons_of_pos (by simp; omega), hsplit, hnone]
          rfl
        · rw [List.filter_cons_of_neg (by simp; omega), List.filter_cons_of_neg (by simp; omega),
            List.filter_cons_of_neg (by simp; omega), hsplit]

theorem eventsSince_eq_window {log : List JobEvent} {high : Nat}
    (h : ∀ event ∈ log, event.id ≤ high) (last : Nat) :
    eventsSince log (some last) = window log last high := by
  rw [eventsSince, window]
  refine List.filter_congr fun event hevent => ?_
  simp [h event hevent]

end Windows

end Cosmos3.Jobs
