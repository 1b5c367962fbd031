import Cosmos3.Sse.Parse

namespace Cosmos3.Sse

open Basis

-- A line that adds to the event under way.
def carries (line : Text) : Bool := fieldOf line = ascii "data" || fieldOf line = ascii "event"

-- Whether an event is under way after some lines.
def underWay (before : Bool) (lines : List Text) : Bool :=
  lines.foldl (fun before line => line ≠ [] && (before || carries line)) before

def idAfter (id : Option Text) (lines : List Text) : Option Text :=
  lines.foldl (fun id line => if fieldOf line = ascii "id" then some (valueOf line) else id) id

-- An empty line comes next among those that matter: before it nothing is added to
-- the event, and its id stays as it is.
def closes (id : Option Text) (lines : List Text) : Bool :=
  let before := lines.takeWhile (· ≠ [])
  lines.any (· = []) && before.all (fun line => !carries line) && idAfter id before = id

def completeLines (text : Text) : List Text := ((newlines false text).splitOn lf).dropLast

-- A cut that keeps events whole: not between the two units of a CR LF, unless no
-- event is under way there or an empty line is about to end it anyhow.
def KeepsEvents (s : SseState) (first second : Text) : Prop :=
  endsCr false (s.fragment ++ first) = false ∨ second.head? ≠ some lf ∨
    underWay (s.data ≠ [] || s.event.isSome) (completeLines (s.fragment ++ first)) = false ∨
    closes (idAfter s.id (completeLines (s.fragment ++ first))) (completeLines second.tail) = true

instance (s : SseState) (first second : Text) : Decidable (KeepsEvents s first second) :=
  inferInstanceAs (Decidable (_ ∨ _ ∨ _ ∨ _))

section Lines

def Scan.underWay (scan : Scan) : Bool := scan.data ≠ [] || scan.event.isSome

theorem not_underWay {scan : Scan} (h : scan.underWay = false) :
    scan.data = [] ∧ scan.event = none := by
  simpa [Scan.underWay] using h

theorem fieldOf_comment {line : Text} (h : line.head? = some colon) : fieldOf line = [] := by
  cases line with
  | nil => rfl
  | cons u line =>
      obtain rfl : u = colon := Option.some.inj h
      simp [fieldOf]

theorem Scan.line_underWay (scan : Scan) (line : Text) :
    (scan.line line).underWay = (line ≠ [] && (scan.underWay || carries line)) := by
  have hne : ascii "data" ≠ [] ∧ ascii "event" ≠ [] ∧ ascii "event" ≠ ascii "data" ∧
      ascii "id" ≠ ascii "data" ∧ ascii "id" ≠ ascii "event" := by decide
  unfold Scan.line carries
  split_ifs with h₁ h₂ h₃ h₄ h₅
  · simp [Scan.dispatch, Scan.underWay, h₁]
  · simp [fieldOf_comment h₂, Ne.symm hne.1, Ne.symm hne.2.1, h₁, Scan.underWay]
  · simp [Scan.underWay, h₁, h₃]
  · simp [Scan.underWay, h₁, h₄]
  · simp [Scan.underWay, h₁, h₅, hne]
  · simp [h₁, h₃, h₄]

theorem Scan.line_id (scan : Scan) (line : Text) :
    (scan.line line).id = if fieldOf line = ascii "id" then some (valueOf line) else scan.id := by
  have hne : ascii "id" ≠ [] ∧ ascii "id" ≠ ascii "data" ∧ ascii "id" ≠ ascii "event" := by decide
  unfold Scan.line
  by_cases hid : fieldOf line = ascii "id"
  · have hline : line ≠ [] := by
      rintro rfl
      exact hne.1 hid.symm
    have hcolon : line.head? ≠ some colon := by
      intro hcolon
      exact hne.1 (hid.symm.trans (fieldOf_comment hcolon))
    rw [if_neg hline, if_neg hcolon, hid, if_neg hne.2.1, if_neg hne.2.2, if_pos rfl]
    rfl
  · rw [if_neg hid, if_neg hid]
    split_ifs
    all_goals rfl

theorem Scan.foldl_underWay (scan : Scan) (lines : List Text) :
    (lines.foldl Scan.line scan).underWay = Sse.underWay scan.underWay lines := by
  induction lines generalizing scan with
  | nil => rfl
  | cons line lines ih =>
      rw [List.foldl_cons, ih, Scan.line_underWay]
      rfl

theorem Scan.foldl_id (scan : Scan) (lines : List Text) :
    (lines.foldl Scan.line scan).id = idAfter scan.id lines := by
  induction lines generalizing scan with
  | nil => rfl
  | cons line lines ih =>
      rw [List.foldl_cons, ih, Scan.line_id]
      rfl

-- Lines up to the next empty one, read with an event under way or without one.
theorem Scan.foldl_heartbeats (scan other : Scan) (h : scan.heartbeats = other.heartbeats)
    (lines : List Text) :
    (lines.foldl Scan.line scan).heartbeats = (lines.foldl Scan.line other).heartbeats := by
  induction lines generalizing scan other with
  | nil => exact h
  | cons line lines ih =>
      refine ih _ _ ?_
      unfold Scan.line
      split_ifs
      · exact h
      · exact congrArg (· + 1) h
      all_goals exact h

-- Lines that add nothing to an event leave its data and its name.
theorem Scan.foldl_idle {lines : List Text} (hne : ∀ line ∈ lines, line ≠ [])
    (hidle : lines.all (fun line => !carries line) = true) (scan : Scan) :
    (lines.foldl Scan.line scan).data = scan.data ∧
      (lines.foldl Scan.line scan).event = scan.event := by
  induction lines generalizing scan with
  | nil => exact ⟨rfl, rfl⟩
  | cons line lines ih =>
      rw [List.all_cons, Bool.and_eq_true, Bool.not_eq_true', carries, Bool.or_eq_false_iff,
        decide_eq_false_iff_not, decide_eq_false_iff_not] at hidle
      obtain ⟨⟨hdata, hevent⟩, hrest⟩ := hidle
      obtain ⟨ihdata, ihevent⟩ :=
        ih (fun later hlater => hne later (List.mem_cons_of_mem line hlater)) hrest (scan.line line)
      have hline : (scan.line line).data = scan.data ∧ (scan.line line).event = scan.event := by
        unfold Scan.line
        rw [if_neg (hne line List.mem_cons_self), if_neg hdata, if_neg hevent]
        split_ifs
        all_goals exact ⟨rfl, rfl⟩
      rw [List.foldl_cons, ihdata, ihevent]
      exact hline

end Lines

section Cut

theorem Scan.completed_eq_nil {scan : Scan} : scan.completed = [] ↔ scan.underWay = false := by
  unfold Scan.completed Scan.underWay
  cases scan.event <;> by_cases hdata : scan.data = [] <;> simp [hdata]

theorem Scan.dispatch_idle {scan : Scan} (h : scan.underWay = false) : scan.dispatch = scan := by
  obtain ⟨hdata, hevent⟩ := not_underWay h
  rw [Scan.dispatch, Scan.completed_eq_nil.mpr h, List.append_nil, ← hdata, ← hevent]

theorem Scan.completed_underWay {scan : Scan} (h : scan.underWay = true) :
    scan.completed = [⟨scan.event.getD (ascii "message"), [lf].intercalate scan.data, scan.id⟩] := by
  unfold Scan.completed
  rw [if_pos]
  simpa [Scan.underWay, Option.isSome_iff_ne_none] using h

theorem underWay_of_all_ne {lines : List Text} (hne : ∀ line ∈ lines, line ≠ []) (before : Bool) :
    underWay before lines = (before || lines.any carries) := by
  induction lines generalizing before with
  | nil => simp [underWay]
  | cons line lines ih =>
      have hline : line ≠ [] := hne line List.mem_cons_self
      have hrest := ih (fun later hlater => hne later (List.mem_cons_of_mem line hlater))
        (before || carries line)
      rw [List.any_cons, ← Bool.or_assoc, ← hrest]
      simp [underWay, hline]

-- The lines up to an empty one, read after an event has been cut off or with it.
theorem completed_dispatch_iff {scan : Scan} (h : scan.underWay = true) {lines : List Text}
    (hne : ∀ line ∈ lines, line ≠ []) :
    scan.completed ++ (lines.foldl Scan.line scan.dispatch).completed =
        (lines.foldl Scan.line scan).completed ↔
      lines.all (fun line => !carries line) = true ∧ idAfter scan.id lines = scan.id := by
  have hgoes : (lines.foldl Scan.line scan).underWay = true := by
    rw [Scan.foldl_underWay, underWay_of_all_ne hne, h, Bool.true_or]
  have hcut : (lines.foldl Scan.line scan.dispatch).underWay = lines.any carries := by
    rw [Scan.foldl_underWay, underWay_of_all_ne hne]
    simp [Scan.dispatch, Scan.underWay]
  rw [Scan.completed_underWay h, Scan.completed_underWay hgoes, Scan.foldl_id]
  by_cases hidle : lines.all (fun line => !carries line) = true
  · have hany : lines.any carries = false := by simpa using hidle
    obtain ⟨hdata, hevent⟩ := Scan.foldl_idle hne hidle scan
    rw [Scan.completed_eq_nil.mpr (hcut.trans hany), hdata, hevent]
    simp [hidle, eq_comm]
  · have hany : lines.any carries = true := by simpa using hidle
    rw [Scan.completed_underWay (hcut.trans hany)]
    simp [hidle]

theorem split_at_empty (lines : List Text) :
    (∀ line ∈ lines, line ≠ []) ∨
      ∃ before after, lines = before ++ [] :: after ∧ ∀ line ∈ before, line ≠ [] := by
  induction lines with
  | nil => exact .inl (by simp)
  | cons line lines ih =>
      by_cases hline : line = []
      · exact .inr ⟨[], lines, by rw [hline, List.nil_append], by simp⟩
      · rcases ih with hall | ⟨before, after, rfl, hbefore⟩
        · exact .inl (List.forall_mem_cons.mpr ⟨hline, hall⟩)
        · exact .inr ⟨line :: before, after, rfl, List.forall_mem_cons.mpr ⟨hline, hbefore⟩⟩

theorem closes_of_all_ne {lines : List Text} (hne : ∀ line ∈ lines, line ≠ []) (id : Option Text) :
    closes id lines = false := by
  have hany : lines.any (· = []) = false := by simpa using hne
  simp [closes, hany]

theorem closes_append {before : List Text} (hne : ∀ line ∈ before, line ≠ []) (after : List Text)
    (id : Option Text) :
    closes id (before ++ [] :: after) = true ↔
      before.all (fun line => !carries line) = true ∧ idAfter id before = id := by
  have htake : (before ++ [] :: after).takeWhile (· ≠ []) = before := by
    rw [List.takeWhile_append_of_pos (by simpa using hne)]
    simp
  rw [closes, htake]
  simp

theorem foldl_since_inj {scan : Scan} {first second : List SseEvent} {heartbeats : Nat}
    (lines : List Text) :
    lines.foldl Scan.line (scan.since first heartbeats) =
        lines.foldl Scan.line (scan.since second heartbeats) ↔ first = second := by
  rw [Scan.foldl_since, Scan.foldl_since]
  constructor
  · intro h
    exact List.append_cancel_right (congrArg Scan.events h)
  · intro h
    rw [h]

-- An additional empty line changes nothing of what is read after it.
theorem foldl_dispatch_iff (scan : Scan) (lines : List Text) :
    lines.foldl Scan.line scan.dispatch = lines.foldl Scan.line scan ↔
      scan.underWay = false ∨ closes scan.id lines = true := by
  by_cases hidle : scan.underWay = false
  · rw [Scan.dispatch_idle hidle]
    simp [hidle]
  have hgoes : scan.underWay = true := by simpa using hidle
  rw [or_iff_right hidle]
  rcases split_at_empty lines with hall | ⟨before, after, rfl, hbefore⟩
  · rw [closes_of_all_ne hall]
    refine iff_of_false ?_ (by simp)
    intro h
    have hevents := congrArg Scan.events h
    rw [Scan.foldl_events hall, Scan.foldl_events hall] at hevents
    have hnil : scan.completed = [] := List.append_right_eq_self.mp hevents
    exact hidle (Scan.completed_eq_nil.mp hnil)
  · rw [closes_append hbefore, ← completed_dispatch_iff hgoes hbefore, List.foldl_append,
      List.foldl_append, List.foldl_cons, List.foldl_cons]
    set cut := before.foldl Scan.line scan.dispatch with hcut
    set whole := before.foldl Scan.line scan with hwhole
    have hid : cut.id = whole.id := by rw [hcut, hwhole, Scan.foldl_id, Scan.foldl_id]; rfl
    have hheartbeats : cut.heartbeats = whole.heartbeats :=
      Scan.foldl_heartbeats scan.dispatch scan rfl before
    -- after the empty line the two differ in the events counted so far alone
    set blank : Scan := ⟨[], none, whole.id, [], 0⟩ with hblank
    have hcutLine : cut.line [] =
        blank.since (scan.events ++ (scan.completed ++ cut.completed)) whole.heartbeats := by
      have hevents : cut.events = scan.events ++ scan.completed := by
        rw [hcut, Scan.foldl_events hbefore]
        rfl
      simp only [Scan.line, if_true, Scan.dispatch, Scan.since, hblank, hid, hheartbeats, hevents,
        List.append_assoc, List.append_nil, Nat.add_zero]
    have hwholeLine : whole.line [] =
        blank.since (scan.events ++ whole.completed) whole.heartbeats := by
      have hevents : whole.events = scan.events := by rw [hwhole, Scan.foldl_events hbefore]
      simp only [Scan.line, if_true, Scan.dispatch, Scan.since, hblank, hevents, List.append_nil,
        Nat.add_zero]
    rw [hcutLine, hwholeLine, foldl_since_inj, List.append_right_inj]

end Cut

section Feeds

-- What a feed returns once its loop is over.
def Scan.feed (scan : Scan) (fragment : Text) : SseFeed :=
  ⟨⟨fragment, scan.data, scan.event, scan.id⟩, scan.events, scan.heartbeats⟩

theorem Scan.feed_inj {scan other : Scan} {fragment : Text} :
    scan.feed fragment = other.feed fragment ↔ scan = other := by
  constructor
  · intro h
    simp only [Scan.feed, SseFeed.mk.injEq, SseState.mk.injEq] at h
    obtain ⟨⟨-, hdata, hevent, hid⟩, hevents, hheartbeats⟩ := h
    cases scan
    cases other
    simp_all
  · intro h
    rw [h]

theorem exists_of_endsCr {afterCr : Bool} {t : Text} (h : endsCr afterCr t = true)
    (hne : t ≠ []) : ∃ before, t = before ++ [cr] := by
  induction t generalizing afterCr with
  | nil => exact absurd rfl hne
  | cons u t ih =>
      rw [endsCr] at h
      by_cases ht : t = []
      · subst ht
        exact ⟨[], by simpa [endsCr] using h⟩
      · obtain ⟨before, rfl⟩ := ih h ht
        exact ⟨u :: before, rfl⟩

-- A text that ends with a CR has no fragment.
theorem fragment_of_endsCr {s : SseState} {first : Text}
    (h : endsCr false (s.fragment ++ first) = true) : (feedSse s first).state.fragment = [] := by
  have hne : s.fragment ++ first ≠ [] := by
    intro hnil
    rw [hnil] at h
    cases h
  obtain ⟨before, hbefore⟩ := exists_of_endsCr h hne
  simp only [feedSse]
  have hcr : newlines (endsCr false before) [cr] = [lf] := rfl
  have hne := List.splitOn_ne_nil lf (newlines false before)
  have hlast := notMem_of_mem_splitOn (List.getLast_mem hne)
  rw [hbefore, newlines_append, getLast?_splitOn_append, hcr,
    List.getLast?_eq_some_getLast hne, Option.getD_some,
    List.splitOn_append_cons_self_of_not_mem hlast]
  rfl

-- Between the two units of a CR LF the second feed reads an additional empty line.
theorem feedSse_between (s : SseState) (first rest : Text)
    (h : endsCr false (s.fragment ++ first) = true) :
    feedSse s (first ++ lf :: rest) =
        (feedSse s first).andThen (feedSse (feedSse s first).state (lf :: rest)) ↔
      underWay (s.data ≠ [] || s.event.isSome) (completeLines (s.fragment ++ first)) = false ∨
        closes (idAfter s.id (completeLines (s.fragment ++ first))) (completeLines rest) = true := by
  have hfragment := fragment_of_endsCr h
  set scan := (completeLines (s.fragment ++ first)).foldl Scan.line s.scan with hscan
  have hresume : scan = (feedSse s first).state.scan.since (feedSse s first).events
      (feedSse s first).heartbeats := by
    simp only [Scan.since, SseState.scan, List.append_nil, Nat.add_zero]
    rfl
  have hunderWay : scan.underWay =
      underWay (s.data ≠ [] || s.event.isSome) (completeLines (s.fragment ++ first)) :=
    Scan.foldl_underWay _ _
  have hid : scan.id = idAfter s.id (completeLines (s.fragment ++ first)) := Scan.foldl_id _ _
  rw [← hunderWay, ← hid, ← foldl_dispatch_iff]
  -- at once, the line feed goes with the CR before it
  have hpair : newlines (endsCr false (s.fragment ++ first)) (lf :: rest) = newlines false rest := by
    rw [h]
    rfl
  have hatOnce : feedSse s (first ++ lf :: rest) =
      ((completeLines rest).foldl Scan.line scan).feed
        (((newlines false rest).splitOn lf).getLast?.getD []) := by
    have hlast : ((newlines false (s.fragment ++ first)).splitOn lf).getLast?.getD [] = [] := hfragment
    rw [feedSse, ← List.append_assoc, newlines_append, hpair, dropLast_splitOn_append,
      getLast?_splitOn_append, hlast, List.nil_append, List.foldl_append]
    rfl
  -- in two feeds, it is a line of its own
  have hinTwo : (feedSse s first).andThen (feedSse (feedSse s first).state (lf :: rest)) =
      ((completeLines rest).foldl Scan.line scan.dispatch).feed
        (((newlines false rest).splitOn lf).getLast?.getD []) := by
    have hne := List.splitOn_ne_nil lf (newlines false rest)
    have hempty : lf ∉ ([] : Text) := by simp
    have hlines : (newlines false (lf :: rest)).splitOn lf =
        [] :: (newlines false rest).splitOn lf :=
      List.splitOn_append_cons_self_of_not_mem hempty _
    have hdispatch : scan.dispatch = scan.line [] := rfl
    rw [hdispatch, hresume, Scan.line_since, Scan.foldl_since, feedSse.eq_def _ (lf :: rest),
      hfragment, List.nil_append, hlines]
    dsimp only
    rw [List.dropLast_cons_of_ne_nil hne, List.getLast?_cons_of_ne_nil hne]
    rfl
  rw [hatOnce, hinTwo, Scan.feed_inj, eq_comm]

theorem feedSse_append_iff (s : SseState) (first second : Text) :
    feedSse s (first ++ second) =
        (feedSse s first).andThen (feedSse (feedSse s first).state second) ↔
      KeepsEvents s first second := by
  unfold KeepsEvents
  by_cases hcr : endsCr false (s.fragment ++ first) = false
  · exact iff_of_true (feedSse_append s first second (.inl hcr)) (.inl hcr)
  by_cases hlf : second.head? = some lf
  · cases second with
    | nil => cases hlf
    | cons u rest =>
        obtain rfl : u = lf := Option.some.inj hlf
        rw [feedSse_between s first rest (by simpa using hcr)]
        simp [hcr]
  · exact iff_of_true (feedSse_append s first second (.inr hlf)) (.inr (.inl hlf))

-- Two data lines of one event, cut between the CR and the LF of the first.
theorem cut_splits_event :
    (feedSse initialSseState (ascii "data: a\r" ++ ascii "\ndata: b\r\n\r\n")).events =
        [⟨ascii "message", ascii "a\nb", none⟩] ∧
      ((feedSse initialSseState (ascii "data: a\r")).andThen
          (feedSse (feedSse initialSseState (ascii "data: a\r")).state
            (ascii "\ndata: b\r\n\r\n"))).events =
        [⟨ascii "message", ascii "a", none⟩, ⟨ascii "message", ascii "b", none⟩] := by
  decide

end Feeds

end Cosmos3.Sse
