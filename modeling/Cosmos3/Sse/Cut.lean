import Cosmos3.Basis.Utf8
import Cosmos3.Sse.RoundTrip

namespace Cosmos3.Sse

open Basis Jobs

variable (numbers : Json.NumberText)

theorem isAscii_decimal (n : Nat) : IsAscii (decimal n) := by
  have hdigit : ∀ u : UInt16, isDecimalDigit u = true → u < 0x80 := by
    intro u hu
    simp only [isDecimalDigit, Bool.and_eq_true, decide_eq_true_eq, UInt16.le_iff_toNat_le,
      UInt16.lt_iff_toNat_lt] at hu ⊢
    have : (57 : UInt16).toNat = 57 ∧ (128 : UInt16).toNat = 128 := by decide
    omega
  exact fun u hu => hdigit u (isDecimalDigit_of_mem hu)

theorem isAscii_dumps (v : Json) : IsAscii (Json.dumps numbers v) := by
  intro u hu
  have hplain := List.all_eq_true.mp (@Json.isPlain_dumps numbers v) u hu
  simp only [Json.isPlain, Bool.and_eq_true, decide_eq_true_eq, UInt16.le_iff_toNat_le,
    UInt16.lt_iff_toNat_lt] at hplain ⊢
  have : (126 : UInt16).toNat = 126 ∧ (128 : UInt16).toNat = 128 := by decide
  omega

theorem isAscii_sse {event : JobEvent} (htype : IsAscii event.type) :
    IsAscii (sse numbers event) := by
  have hline : IsAscii [lf, lf] := by decide
  have hwords : IsAscii (ascii "id: ") ∧ IsAscii (ascii "event: ") ∧ IsAscii (ascii "data: ") := by
    decide
  have hcons : ∀ t : Text, IsAscii t → IsAscii (lf :: t) := by
    intro t ht u hu
    rcases List.mem_cons.mp hu with rfl | hu
    · decide
    · exact ht u hu
  refine (hwords.1.append (isAscii_decimal event.id)).append (hcons _ ?_)
  refine (hwords.2.1.append htype).append (hcons _ ?_)
  exact (hwords.2.2.append (isAscii_dumps numbers _)).append hline

theorem isAscii_flatMap {events : List JobEvent} (h : ∀ event ∈ events, IsAscii event.type) :
    IsAscii (events.flatMap (sse numbers)) := by
  intro u hu
  obtain ⟨event, hevent, hmem⟩ := List.mem_flatMap.mp hu
  exact isAscii_sse numbers (h event hevent) u hmem

theorem cr_notMem_flatMap {events : List JobEvent} (h : ∀ event ∈ events, OneLine event.type) :
    cr ∉ events.flatMap (sse numbers) := by
  intro hu
  obtain ⟨event, hevent, hmem⟩ := List.mem_flatMap.mp hu
  exact cr_notMem_sse numbers (h event hevent) hmem

-- A frame that is cut before its end completes nothing.
theorem feedSse_partialFrame {s : SseState} (hs : s.Fresh) {event : JobEvent}
    (htype : OneLine event.type) {received missing : Text}
    (h : received ++ missing = sse numbers event) (hmissing : missing ≠ []) :
    (feedSse s received).events = [] := by
  have hcr : cr ∉ received := by
    intro hmem
    exact cr_notMem_sse numbers htype (h ▸ List.mem_append_left missing hmem)
  have hlines := splitOn_sse numbers htype
  rw [← h, splitOn_append] at hlines
  set complete := (received.splitOn lf).dropLast
  set fragment := (received.splitOn lf).getLast?.getD []
  -- the fourth line is empty: had it been read, nothing would be missing
  have hlength : complete.length ≤ 3 := by
    by_contra hlong
    have hne := List.splitOn_ne_nil lf (fragment ++ missing)
    have hcount := congrArg List.length hlines
    rw [List.length_append] at hcount
    simp only [List.length_cons, List.length_nil] at hcount
    have hone : ((fragment ++ missing).splitOn lf).length = 1 := by
      have := List.length_pos_iff.mpr hne
      omega
    obtain ⟨line, hline⟩ := List.length_eq_one_iff.mp hone
    have hlast : line = [] := by
      have hget := congrArg List.getLast? hlines
      rw [hline, List.getLast?_append] at hget
      simpa using hget
    have hjoin : [lf].intercalate ((fragment ++ missing).splitOn lf) = fragment ++ missing :=
      List.intercalate_splitOn lf
    rw [hline, hlast] at hjoin
    have hnil : fragment ++ missing = [] := by simpa using hjoin.symm
    exact hmissing (List.append_eq_nil_iff.mp hnil).2
  have hnonempty : ∀ line ∈ complete, line ≠ [] := by
    intro line hline
    have hmem : line ∈ List.take 3 [ascii "id: " ++ decimal event.id, ascii "event: " ++ event.type,
        ascii "data: " ++ Json.dumps numbers (.object event.data), [], []] := by
      rw [← hlines, List.take_append]
      exact List.mem_append_left _ (by rwa [List.take_of_length_le hlength])
    simp only [List.take_succ_cons, List.take_zero, List.mem_cons, List.not_mem_nil,
      or_false] at hmem
    rcases hmem with rfl | rfl | rfl <;> exact List.append_ne_nil_of_left_ne_nil (by decide) _
  rw [feedSse, hs.1, List.nil_append, newlines_of_notMem hcr]
  exact Scan.foldl_events hnonempty s.scan

-- A stream that is cut anywhere: the frames received in full have been parsed.
theorem feedSse_cut {s : SseState} (hs : s.Fresh) (events : List JobEvent)
    (htype : ∀ event ∈ events, OneLine event.type) {received missing : Text}
    (h : received ++ missing = events.flatMap (sse numbers)) :
    ∃ count, (feedSse s received).events = (events.take count).map (parsed numbers) := by
  induction events generalizing s received with
  | nil =>
      obtain ⟨rfl, -⟩ := List.append_eq_nil_iff.mp h
      exact ⟨0, congrArg SseFeed.events (feedSse_frames numbers hs [] (by simp))⟩
  | cons event events ih =>
      have hevent := htype event List.mem_cons_self
      rw [List.flatMap_cons] at h
      rcases List.append_eq_append_iff.mp h with ⟨tail, hframe, -⟩ | ⟨later, hlater, hrest⟩
      · by_cases htail : tail = []
        · rw [htail, List.append_nil] at hframe
          refine ⟨1, ?_⟩
          rw [← hframe, feedSse_sse numbers hs hevent]
          rfl
        · exact ⟨0, feedSse_partialFrame numbers hs hevent hframe.symm htail⟩
      · have hcut : endsCr false (s.fragment ++ sse numbers event) = false :=
          endsCr_of_notMem (by simp [hs.1, cr_notMem_sse numbers hevent])
        have hafter := feedSse_append s (sse numbers event) later (.inl hcut)
        rw [feedSse_sse numbers hs hevent] at hafter
        obtain ⟨count, hcount⟩ := ih (s := ⟨[], [], none, some (decimal event.id)⟩) ⟨rfl, rfl, rfl⟩
          (fun e he => htype e (List.mem_cons_of_mem event he)) hrest.symm
        refine ⟨count + 1, ?_⟩
        rw [hlater, hafter, List.take_succ_cons, List.map_cons, ← hcount]
        rfl

end Cosmos3.Sse
