import Cosmos3.Basis.Text

namespace Cosmos3.Sse

open Basis

structure SseEvent where
  event : Text
  data : Text
  id : Option Text
deriving DecidableEq

-- `fragment` is what follows the last newline, an incomplete line.
structure SseState where
  fragment : Text
  data : List Text
  event : Option Text
  id : Option Text
deriving DecidableEq

structure SseFeed where
  state : SseState
  events : List SseEvent
  heartbeats : Nat
deriving DecidableEq

def initialSseState : SseState := ⟨[], [], none, none⟩

-- `replace(/\r\n?/g, "\n")`: the flag says that the unit before was a CR, whose
-- line feed has been written already.
def newlines : Bool → Text → Text
  | _, [] => []
  | afterCr, u :: t =>
    if u = cr then lf :: newlines true t
    else if u = lf ∧ afterCr then newlines false t
    else u :: newlines false t

-- The local variables of the loop over the lines.
structure Scan where
  data : List Text
  event : Option Text
  id : Option Text
  events : List SseEvent
  heartbeats : Nat

def colon : UInt16 := 58

def space : UInt16 := 32

-- The field and the value of a line, split at its first colon.
def fieldOf (line : Text) : Text := line.takeWhile (· ≠ colon)

def valueOf (line : Text) : Text :=
  let value := (line.dropWhile (· ≠ colon)).tail
  if value.head? = some space then value.tail else value

-- The event an empty line completes, if any field of it was read.
def Scan.completed (scan : Scan) : List SseEvent :=
  if scan.data ≠ [] ∨ scan.event ≠ none then
    [⟨scan.event.getD (ascii "message"), [lf].intercalate scan.data, scan.id⟩]
  else []

def Scan.dispatch (scan : Scan) : Scan :=
  { scan with data := [], event := none, events := scan.events ++ scan.completed }

def Scan.line (scan : Scan) (line : Text) : Scan :=
  if line = [] then scan.dispatch
  else if line.head? = some colon then { scan with heartbeats := scan.heartbeats + 1 }
  else if fieldOf line = ascii "data" then { scan with data := scan.data ++ [valueOf line] }
  else if fieldOf line = ascii "event" then { scan with event := some (valueOf line) }
  else if fieldOf line = ascii "id" then { scan with id := some (valueOf line) }
  else scan

def SseState.scan (s : SseState) : Scan := ⟨s.data, s.event, s.id, [], 0⟩

def feedSse (prev : SseState) (chunk : Text) : SseFeed :=
  let lines := (newlines false (prev.fragment ++ chunk)).splitOn lf
  let fragment := lines.getLast?.getD []
  let scan := lines.dropLast.foldl Scan.line prev.scan
  ⟨⟨fragment, scan.data, scan.event, scan.id⟩, scan.events, scan.heartbeats⟩

-- The caller threads the state through the chunks.
def feedAll (s : SseState) : List Text → SseFeed
  | [] => ⟨s, [], 0⟩
  | chunk :: chunks =>
    let first := feedSse s chunk
    let rest := feedAll first.state chunks
    ⟨rest.state, first.events ++ rest.events, first.heartbeats + rest.heartbeats⟩

section Newlines

-- Whether the unit before the rest of the text is a CR.
def endsCr : Bool → Text → Bool
  | afterCr, [] => afterCr
  | _, u :: t => endsCr (u = cr) t

theorem endsCr_of_notMem {t : Text} (h : cr ∉ t) : endsCr false t = false := by
  induction t with
  | nil => rfl
  | cons u t ih =>
      rw [List.mem_cons, not_or] at h
      rw [endsCr, decide_eq_false (Ne.symm h.1)]
      exact ih h.2

theorem newlines_append (afterCr : Bool) (first second : Text) :
    newlines afterCr (first ++ second) =
      newlines afterCr first ++ newlines (endsCr afterCr first) second := by
  induction first generalizing afterCr with
  | nil => rfl
  | cons u first ih =>
      rw [List.cons_append, newlines, newlines, endsCr]
      by_cases hcr : u = cr
      · rw [if_pos hcr, if_pos hcr, ih, List.cons_append]
        simp [hcr]
      · rw [if_neg hcr, if_neg hcr]
        split
        · rw [ih]
          simp [hcr]
        · rw [ih, List.cons_append]
          simp [hcr]

theorem newlines_of_notMem {t : Text} (h : cr ∉ t) : newlines false t = t := by
  induction t with
  | nil => rfl
  | cons u t ih =>
      rw [List.mem_cons, not_or] at h
      rw [newlines, if_neg (Ne.symm h.1), if_neg (by simp), ih h.2]

theorem cr_notMem_newlines (afterCr : Bool) (t : Text) : cr ∉ newlines afterCr t := by
  induction t generalizing afterCr with
  | nil => simp [newlines]
  | cons u t ih =>
      rw [newlines]
      split_ifs with hcr hlf
      · rw [List.mem_cons, not_or]
        exact ⟨by decide, ih true⟩
      · exact ih false
      · rw [List.mem_cons, not_or]
        exact ⟨Ne.symm hcr, ih false⟩

-- The flag matters to a line feed at the start of the text alone.
theorem newlines_flag {t : Text} (h : t.head? ≠ some lf) (afterCr : Bool) :
    newlines afterCr t = newlines false t := by
  cases t with
  | nil => rfl
  | cons u t =>
      have hu : u ≠ lf := by
        rintro rfl
        exact h rfl
      rw [newlines, newlines]
      simp [hu]

end Newlines

section Scan

-- What a scan adds to the events and heartbeats counted before it.
def Scan.since (scan : Scan) (events : List SseEvent) (heartbeats : Nat) : Scan :=
  { scan with events := events ++ scan.events, heartbeats := heartbeats + scan.heartbeats }

theorem Scan.line_since (scan : Scan) (events : List SseEvent) (heartbeats : Nat) (line : Text) :
    (scan.since events heartbeats).line line = (scan.line line).since events heartbeats := by
  unfold Scan.line
  split_ifs with h₁ h₂ h₃ h₄ h₅
  · have hcompleted : (scan.since events heartbeats).completed = scan.completed := rfl
    rw [Scan.dispatch, hcompleted]
    simp only [Scan.dispatch, Scan.since, List.append_assoc]
  · simp [Scan.since, Nat.add_assoc]
  all_goals rfl

theorem Scan.foldl_since (lines : List Text) (scan : Scan) (events : List SseEvent)
    (heartbeats : Nat) :
    lines.foldl Scan.line (scan.since events heartbeats) =
      (lines.foldl Scan.line scan).since events heartbeats := by
  induction lines generalizing scan with
  | nil => rfl
  | cons line lines ih => rw [List.foldl_cons, List.foldl_cons, Scan.line_since, ih]

-- Only an empty line completes an event.
theorem Scan.line_events {line : Text} (h : line ≠ []) (scan : Scan) :
    (scan.line line).events = scan.events := by
  rw [Scan.line, if_neg h]
  split_ifs <;> rfl

theorem Scan.foldl_events {lines : List Text} (h : ∀ line ∈ lines, line ≠ []) (scan : Scan) :
    (lines.foldl Scan.line scan).events = scan.events := by
  induction lines generalizing scan with
  | nil => rfl
  | cons line lines ih =>
      rw [List.foldl_cons, ih (fun later hlater => h later (List.mem_cons_of_mem line hlater)),
        Scan.line_events (h line List.mem_cons_self)]

end Scan

section Chunks

def SseFeed.andThen (first second : SseFeed) : SseFeed :=
  ⟨second.state, first.events ++ second.events, first.heartbeats + second.heartbeats⟩

theorem fragment_mem (s : SseState) (chunk : Text) :
    (feedSse s chunk).state.fragment ∈ (newlines false (s.fragment ++ chunk)).splitOn lf := by
  have hne := List.splitOn_ne_nil lf (newlines false (s.fragment ++ chunk))
  simp only [feedSse]
  rw [List.getLast?_eq_some_getLast hne, Option.getD_some]
  exact List.getLast_mem hne

theorem cr_notMem_fragment (s : SseState) (chunk : Text) :
    cr ∉ (feedSse s chunk).state.fragment := fun hmem =>
  cr_notMem_newlines _ _ (mem_of_mem_splitOn (fragment_mem s chunk) hmem)

theorem lf_notMem_fragment (s : SseState) (chunk : Text) :
    lf ∉ (feedSse s chunk).state.fragment :=
  notMem_of_mem_splitOn (fragment_mem s chunk)

-- Feeding a text in two parts: the same as at once, unless the cut falls
-- between the two units of a CR LF.
theorem feedSse_append (s : SseState) (first second : Text)
    (hcut : endsCr false (s.fragment ++ first) = false ∨ second.head? ≠ some lf) :
    feedSse s (first ++ second) =
      (feedSse s first).andThen (feedSse (feedSse s first).state second) := by
  have hfragment := cr_notMem_fragment s first
  have hsecond : newlines (endsCr false (s.fragment ++ first)) second = newlines false second := by
    rcases hcut with hcut | hcut
    · rw [hcut]
    · exact newlines_flag hcut _
  set linesFirst := (newlines false (s.fragment ++ first)).splitOn lf with hlines
  have htext : newlines false (s.fragment ++ (first ++ second)) =
      newlines false (s.fragment ++ first) ++ newlines false second := by
    rw [← List.append_assoc, newlines_append, hsecond]
  have hnext : newlines false ((feedSse s first).state.fragment ++ second) =
      (feedSse s first).state.fragment ++ newlines false second := by
    rw [newlines_append, newlines_of_notMem hfragment, endsCr_of_notMem hfragment]
  -- the second feed starts its loop where the first one left the variables
  have hresume : linesFirst.dropLast.foldl Scan.line s.scan =
      (feedSse s first).state.scan.since (feedSse s first).events (feedSse s first).heartbeats := by
    simp only [Scan.since, SseState.scan, List.append_nil, Nat.add_zero]
    rfl
  rw [feedSse, htext, dropLast_splitOn_append, getLast?_splitOn_append, List.foldl_append,
    hresume, Scan.foldl_since, feedSse.eq_def (feedSse s first).state, hnext]
  rfl

end Chunks

end Cosmos3.Sse
