import Cosmos3.Jobs.Events
import Cosmos3.Sse.Parse

namespace Cosmos3.Sse

open Basis Jobs

variable (numbers : Json.NumberText)

-- `_sse`: one frame of the stream.
def sse (event : JobEvent) : Text :=
  ascii "id: " ++ decimal event.id ++ lf :: (ascii "event: " ++ event.type ++
    lf :: (ascii "data: " ++ Json.dumps numbers (.object event.data) ++ [lf, lf]))

-- What the client makes of the frame.
def parsed (event : JobEvent) : SseEvent :=
  ⟨event.type, Json.dumps numbers (.object event.data), some (decimal event.id)⟩

def OneLine (t : Text) : Prop := cr ∉ t ∧ lf ∉ t

theorem oneLine_decimal (n : Nat) : OneLine (decimal n) :=
  ⟨notMem_decimal (by decide) n, notMem_decimal (by decide) n⟩

theorem oneLine_dumps (v : Json) : OneLine (Json.dumps numbers v) := by
  have hplain := List.all_eq_true.mp (@Json.isPlain_dumps numbers v)
  constructor
  · intro h
    exact absurd (hplain cr h) (by decide)
  · intro h
    exact absurd (hplain lf h) (by decide)

theorem OneLine.append {first second : Text} (h₁ : OneLine first) (h₂ : OneLine second) :
    OneLine (first ++ second) := by
  simp only [OneLine, List.mem_append, not_or]
  exact ⟨⟨h₁.1, h₂.1⟩, ⟨h₁.2, h₂.2⟩⟩

theorem cr_notMem_sse {event : JobEvent} (htype : OneLine event.type) : cr ∉ sse numbers event := by
  have hid := (oneLine_decimal event.id).1
  have hdata := (oneLine_dumps numbers (.object event.data)).1
  have hwords : cr ∉ ascii "id: " ∧ cr ∉ ascii "event: " ∧ cr ∉ ascii "data: " ∧ cr ≠ lf := by
    decide
  simp [sse, hid, hdata, htype.1, hwords]

theorem splitOn_sse {event : JobEvent} (htype : OneLine event.type) :
    (sse numbers event).splitOn lf =
      [ascii "id: " ++ decimal event.id, ascii "event: " ++ event.type,
        ascii "data: " ++ Json.dumps numbers (.object event.data), [], []] := by
  have hid : lf ∉ ascii "id: " ++ decimal event.id :=
    (OneLine.append (by unfold OneLine; decide) (oneLine_decimal event.id)).2
  have hevent : lf ∉ ascii "event: " ++ event.type :=
    (OneLine.append (by unfold OneLine; decide) htype).2
  have hdata : lf ∉ ascii "data: " ++ Json.dumps numbers (.object event.data) :=
    (OneLine.append (by unfold OneLine; decide) (oneLine_dumps numbers _)).2
  rw [sse, List.splitOn_append_cons_self_of_not_mem hid,
    List.splitOn_append_cons_self_of_not_mem hevent,
    List.splitOn_append_cons_self_of_not_mem hdata]
  rfl

section Fields

theorem fieldOf_append {field : Text} (h : colon ∉ field) (value : Text) :
    fieldOf (field ++ colon :: space :: value) = field := by
  rw [fieldOf, List.takeWhile_append_of_pos, List.takeWhile_cons_of_neg (by simp), List.append_nil]
  intro u hu
  simp only [decide_eq_true_eq]
  rintro rfl
  exact h hu

theorem valueOf_append {field : Text} (h : colon ∉ field) (value : Text) :
    valueOf (field ++ colon :: space :: value) = value := by
  have hdrop : (field ++ colon :: space :: value).dropWhile (· ≠ colon) =
      colon :: space :: value := by
    rw [List.dropWhile_append_of_pos, List.dropWhile_cons_of_neg (by simp)]
    intro u hu
    simp only [decide_eq_true_eq]
    rintro rfl
    exact h hu
  rw [valueOf, hdrop]
  rfl

theorem Scan.line_field (scan : Scan) {field : Text} (hne : field ≠ []) (h : colon ∉ field)
    (value : Text) :
    scan.line (field ++ colon :: space :: value) =
      if field = ascii "data" then { scan with data := scan.data ++ [value] }
      else if field = ascii "event" then { scan with event := some value }
      else if field = ascii "id" then { scan with id := some value }
      else scan := by
  obtain ⟨u, t, rfl⟩ := List.exists_cons_of_ne_nil hne
  have hhead : ((u :: t) ++ colon :: space :: value).head? ≠ some colon := by
    simp only [List.cons_append, List.head?_cons, ne_eq, Option.some.injEq]
    rintro rfl
    exact h List.mem_cons_self
  rw [Scan.line, if_neg (by simp), if_neg hhead, fieldOf_append h, valueOf_append h]

end Fields

section RoundTrip

-- The parser between two frames.
def SseState.Fresh (s : SseState) : Prop := s.fragment = [] ∧ s.data = [] ∧ s.event = none

theorem feedSse_sse {s : SseState} (hs : s.Fresh) {event : JobEvent} (htype : OneLine event.type) :
    feedSse s (sse numbers event) =
      ⟨⟨[], [], none, some (decimal event.id)⟩, [parsed numbers event], 0⟩ := by
  obtain ⟨hfragment, hdata, hevent⟩ := hs
  have hid : ∀ scan : Scan, scan.line (ascii "id: " ++ decimal event.id) =
      { scan with id := some (decimal event.id) } := fun scan =>
    scan.line_field (show ascii "id" ≠ [] by decide) (by decide) (decimal event.id)
  have hname : ∀ scan : Scan, scan.line (ascii "event: " ++ event.type) =
      { scan with event := some event.type } := fun scan =>
    scan.line_field (show ascii "event" ≠ [] by decide) (by decide) event.type
  have hjson : ∀ (scan : Scan) (t : Text), scan.line (ascii "data: " ++ t) =
      { scan with data := scan.data ++ [t] } := fun scan =>
    scan.line_field (show ascii "data" ≠ [] by decide) (by decide)
  rw [feedSse, hfragment, List.nil_append, newlines_of_notMem (cr_notMem_sse numbers htype),
    splitOn_sse numbers htype]
  simp only [List.dropLast_cons_cons, List.dropLast_singleton, List.foldl_cons, List.foldl_nil,
    hid, hname, hjson]
  simp [Scan.line, Scan.dispatch, Scan.completed, SseState.scan, hdata, parsed]

-- A chunk at a time or all at once: without a CR no cut matters.
theorem feedAll_eq_feedSse {s : SseState} (hs : OneLine s.fragment) (chunks : List Text)
    (h : cr ∉ chunks.flatten) : feedAll s chunks = feedSse s chunks.flatten := by
  induction chunks generalizing s with
  | nil =>
      rw [feedAll, List.flatten_nil, feedSse, List.append_nil, newlines_of_notMem hs.1,
        List.splitOn_eq_singleton hs.2]
      rfl
  | cons chunk chunks ih =>
      rw [List.flatten_cons, List.mem_append, not_or] at h
      have hcut : endsCr false (s.fragment ++ chunk) = false :=
        endsCr_of_notMem (by simp [hs.1, h.1])
      rw [feedAll, List.flatten_cons, feedSse_append s chunk chunks.flatten (.inl hcut),
        ih ⟨cr_notMem_fragment s chunk, lf_notMem_fragment s chunk⟩ h.2]
      rfl

-- A whole stream at once, frame by frame.
theorem feedSse_frames {s : SseState} (hs : s.Fresh) (events : List JobEvent)
    (htype : ∀ event ∈ events, OneLine event.type) :
    feedSse s (events.flatMap (sse numbers)) =
      ⟨⟨[], [], none, (events.getLast?.map fun event => decimal event.id).or s.id⟩,
        events.map (parsed numbers), 0⟩ := by
  induction events generalizing s with
  | nil =>
      obtain ⟨hfragment, hdata, hevent⟩ := hs
      rw [List.flatMap_nil, feedSse, hfragment]
      simp [newlines, List.splitOn_nil, SseState.scan, hdata, hevent]
  | cons event events ih =>
      have hevent := htype event List.mem_cons_self
      have hcut : endsCr false (s.fragment ++ sse numbers event) = false :=
        endsCr_of_notMem (by simp [hs.1, cr_notMem_sse numbers hevent])
      rw [List.flatMap_cons, feedSse_append _ _ _ (.inl hcut), feedSse_sse numbers hs hevent,
        ih ⟨rfl, rfl, rfl⟩ fun later hlater => htype later (List.mem_cons_of_mem event hlater),
        SseFeed.andThen, List.getLast?_cons]
      cases events.getLast? <;> rfl

-- One parsed event for each encoded event, in order, whatever the chunks.
theorem feedAll_sse (events : List JobEvent) (htype : ∀ event ∈ events, OneLine event.type)
    (chunks : List Text) (h : chunks.flatten = events.flatMap (sse numbers)) :
    feedAll initialSseState chunks =
      ⟨⟨[], [], none, events.getLast?.map fun event => decimal event.id⟩,
        events.map (parsed numbers), 0⟩ := by
  have hcr : cr ∉ chunks.flatten := by
    rw [h, List.mem_flatMap]
    rintro ⟨event, hevent, hmem⟩
    exact cr_notMem_sse numbers (htype event hevent) hmem
  rw [feedAll_eq_feedSse (by simp [initialSseState, OneLine]) chunks hcr, h,
    feedSse_frames numbers ⟨rfl, rfl, rfl⟩ events htype]
  simp [initialSseState]

def half : ℚ := ⟨1, 2, by decide, by decide⟩

-- A printer of the few numbers that the sample runs below use.
def sampleNumbers : Json.NumberText where
  literal q := if q = half then ascii "0.5" else if q = 1 then ascii "1.0" else ascii "0.0"
  value t :=
    if t = ascii "0.5" then .finite half else if t = ascii "1.0" then .finite 1 else .finite 0
  literal_units q := by
    split_ifs <;> exact List.all_eq_true.mp (by decide)

def sampleEvents : List JobEvent :=
  [⟨1, ascii "queued", []⟩, ⟨2, progressType, [(ascii "progress", .number (.finite half))]⟩]

-- Cuts inside a field name, before a colon and between the two line feeds.
def sampleChunks : List Text :=
  [ascii "i", ascii "d: 1\nevent", ascii ": queued\ndata: \x7b\x7d\n",
    ascii "\nid: 2\nevent: progress\ndata: \x7b\"progress\": 0", ascii ".5\x7d\n\n"]

theorem feedAll_sampleChunks :
    feedAll initialSseState sampleChunks =
      ⟨⟨[], [], none, some (ascii "2")⟩,
        [⟨ascii "queued", ascii "\x7b\x7d", some (ascii "1")⟩,
          ⟨ascii "progress", ascii "\x7b\"progress\": 0.5\x7d", some (ascii "2")⟩], 0⟩ :=
  feedAll_sse sampleNumbers sampleEvents (by unfold OneLine; decide) sampleChunks rfl

end RoundTrip

end Cosmos3.Sse
