import Cosmos3.Reasoning.Fidelity
import Cosmos3.Sse.RoundTrip

namespace Cosmos3.Reasoning

open Basis Sse

variable {numbers : Json.NumberText}

-- What the client makes of a chunk.
def parsed (numbers : Json.NumberText) (kind : Kind) (value : Text) : SseEvent :=
  ⟨kind.name, kind.data numbers value, none⟩

theorem oneLine_name (kind : Kind) : OneLine kind.name := by
  cases kind <;> unfold OneLine <;> decide

theorem oneLine_data (kind : Kind) (value : Text) : OneLine (kind.data numbers value) := by
  have hempty : OneLine (ascii "\x7b\x7d") := by unfold OneLine; decide
  cases kind with
  | token => exact oneLine_dumps numbers _
  | error => exact oneLine_dumps numbers _
  | heartbeat => exact hempty
  | done => exact hempty

theorem cr_notMem_chunk (kind : Kind) (value : Text) : cr ∉ sse numbers kind value := by
  have hname := (oneLine_name kind).1
  have hdata := (@oneLine_data numbers kind value).1
  have hwords : cr ∉ ascii "event: " ∧ cr ∉ ascii "data: " ∧ cr ≠ lf := by decide
  simp [sse, hname, hdata, hwords]

theorem splitOn_chunk (kind : Kind) (value : Text) :
    (sse numbers kind value).splitOn lf =
      [ascii "event: " ++ kind.name, ascii "data: " ++ kind.data numbers value, [], []] := by
  have hname : lf ∉ ascii "event: " ++ kind.name :=
    (OneLine.append (by unfold OneLine; decide) (oneLine_name kind)).2
  have hdata : lf ∉ ascii "data: " ++ kind.data numbers value :=
    (OneLine.append (by unfold OneLine; decide) (oneLine_data kind value)).2
  rw [sse, List.splitOn_append_cons_self_of_not_mem hname,
    List.splitOn_append_cons_self_of_not_mem hdata]
  rfl

theorem feedSse_chunk (kind : Kind) (value : Text) :
    feedSse initialSseState (sse numbers kind value) =
      ⟨initialSseState, [parsed numbers kind value], 0⟩ := by
  have hname : ∀ scan : Scan, scan.line (ascii "event: " ++ kind.name) =
      { scan with event := some kind.name } := fun scan =>
    scan.line_field (show ascii "event" ≠ [] by decide) (by decide) kind.name
  have hdata : ∀ (scan : Scan) (t : Text), scan.line (ascii "data: " ++ t) =
      { scan with data := scan.data ++ [t] } := fun scan =>
    scan.line_field (show ascii "data" ≠ [] by decide) (by decide)
  rw [feedSse, initialSseState, List.nil_append, newlines_of_notMem (cr_notMem_chunk kind value),
    splitOn_chunk]
  simp only [List.dropLast_cons_cons, List.dropLast_singleton, List.foldl_cons, List.foldl_nil,
    hname, hdata]
  simp [Scan.line, Scan.dispatch, Scan.completed, SseState.scan, parsed]

-- A whole stream at once, chunk by chunk.
theorem feedSse_chunks (chunks : List (Kind × Text)) :
    feedSse initialSseState (chunks.flatMap fun c => sse numbers c.1 c.2) =
      ⟨initialSseState, chunks.map fun c => parsed numbers c.1 c.2, 0⟩ := by
  induction chunks with
  | nil => simp [feedSse, initialSseState, newlines, List.splitOn_nil, SseState.scan]
  | cons chunk chunks ih =>
      have hcut : endsCr false (initialSseState.fragment ++ sse numbers chunk.1 chunk.2) = false :=
        endsCr_of_notMem (cr_notMem_chunk chunk.1 chunk.2)
      rw [List.flatMap_cons, feedSse_append _ _ _ (.inl hcut), feedSse_chunk, ih]
      rfl

-- However the connection cuts the stream, the client reads one event for each chunk.
theorem feedAll_chunks (chunks : List (Kind × Text)) (cuts : List Text)
    (h : cuts.flatten = chunks.flatMap fun c => sse numbers c.1 c.2) :
    feedAll initialSseState cuts =
      ⟨initialSseState, chunks.map fun c => parsed numbers c.1 c.2, 0⟩ := by
  have hcr : cr ∉ cuts.flatten := by
    rw [h, List.mem_flatMap]
    rintro ⟨chunk, -, hmem⟩
    exact cr_notMem_chunk chunk.1 chunk.2 hmem
  rw [feedAll_eq_feedSse (by simp [initialSseState, OneLine]) cuts hcr, h, feedSse_chunks]

section Read

variable {upstream : Upstream} {s : Relay}

-- The kind and the value of a chunk before the end.
def chunkOf : Option Text → Kind × Text
  | some delta => (.token, delta)
  | none => (.heartbeat, [])

theorem tokens_of_body (body : List (Option Text)) :
    ((body.map fun c => parsed numbers (chunkOf c).1 (chunkOf c).2).filter
      (·.event = Kind.token.name)).map (·.data) =
        body.reduceOption.map (Kind.token.data numbers) := by
  induction body with
  | nil => rfl
  | cons c body ih =>
      cases c with
      | none =>
          have hname : Kind.heartbeat.name ≠ Kind.token.name := by decide
          simpa [chunkOf, parsed, hname, List.reduceOption_cons_of_none] using ih
      | some delta => simpa [chunkOf, parsed, List.reduceOption_cons_of_some] using ih

theorem chunk_eq : chunk numbers = fun c => sse numbers (chunkOf c).1 (chunkOf c).2 := by
  funext c
  cases c <;> rfl

-- What the client reads, of a relay that has been read to its end.
theorem relay_events (hr : Reachable (step numbers upstream) Relay.initial s)
    (hreturned : s.pc = .returned) (cuts : List Text) (hcuts : cuts.flatten = s.chunks.flatten) :
    ∃ body : List (Option Text), body.reduceOption = upstream.deltas ∧
      (feedAll initialSseState cuts).events = (body.map fun c => parsed numbers (chunkOf c).1 (chunkOf c).2) ++
        upstream.raises.toList.map (parsed numbers .error) ++ [parsed numbers .done []] := by
  obtain ⟨body, hbody, hchunks⟩ := Relayed.returned (hreturned ▸ (reachable_faithful hr).relayed)
  have hstream : cuts.flatten = List.flatMap (fun c : Kind × Text => sse numbers c.1 c.2)
      (body.map chunkOf ++ upstream.raises.toList.map (Kind.error, ·) ++ [(Kind.done, [])]) := by
    rw [hcuts, hchunks]
    simp [errorChunks, List.flatMap_def, Function.comp_def, chunk_eq]
  refine ⟨body, hbody, ?_⟩
  rw [feedAll_chunks _ cuts hstream]
  simp [Function.comp_def]

-- Its deltas are the upstream's,
theorem relay_read (hr : Reachable (step numbers upstream) Relay.initial s)
    (hreturned : s.pc = .returned) (cuts : List Text) (hcuts : cuts.flatten = s.chunks.flatten) :
    (((feedAll initialSseState cuts).events.filter (·.event = Kind.token.name)).map (·.data)) =
      upstream.deltas.map (Kind.token.data numbers) := by
  obtain ⟨body, hbody, hevents⟩ := relay_events hr hreturned cuts hcuts
  have hnames : Kind.error.name ≠ Kind.token.name ∧ Kind.done.name ≠ Kind.token.name := by decide
  have herror : ∀ message, (parsed numbers .error message).event ≠ Kind.token.name := fun _ => hnames.1
  have hdone : (parsed numbers .done []).event ≠ Kind.token.name := hnames.2
  rw [hevents, ← hbody, ← tokens_of_body]
  simp [List.filter_append, List.filter_map, Function.comp_def, herror, hdone]

-- and so is its error, if there is one.
theorem relay_errors (hr : Reachable (step numbers upstream) Relay.initial s)
    (hreturned : s.pc = .returned) (cuts : List Text) (hcuts : cuts.flatten = s.chunks.flatten) :
    (feedAll initialSseState cuts).events.filter (·.event = Kind.error.name) =
      upstream.raises.toList.map (parsed numbers .error) := by
  obtain ⟨body, -, hevents⟩ := relay_events hr hreturned cuts hcuts
  have hbody : (body.map fun c => parsed numbers (chunkOf c).1 (chunkOf c).2).filter
      (·.event = Kind.error.name) = [] := by
    refine List.filter_eq_nil_iff.mpr fun event hevent => ?_
    obtain ⟨c, -, rfl⟩ := List.mem_map.mp hevent
    cases c <;> simp [chunkOf, parsed, Kind.name, ascii]
  have hname : Kind.done.name ≠ Kind.error.name := by decide
  have hdone : (parsed numbers .done []).event ≠ Kind.error.name := hname
  have herror : ∀ message, (parsed numbers .error message).event = Kind.error.name := fun _ => rfl
  rw [hevents, List.filter_append, List.filter_append, hbody]
  simp [List.filter_map, Function.comp_def, herror, hdone]

end Read

end Cosmos3.Reasoning
