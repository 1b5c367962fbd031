import Cosmos3.Basis.Checks
import Cosmos3.Basis.Files
import Cosmos3.Basis.Reparse

namespace Cosmos3.Viewer

open Basis Basis.Python

section Parsing

structure ParsedTrajectory where
  frames : List (List Number)
  T : ℕ
  width : ℕ

-- `typeof cell === "number" && !Number.isNaN(cell)`
def numberIn : Json → Option Number
  | .number x => if x = .nan then none else some x
  | _ => none

def raggedMessage (t : ℕ) (length : Text) (width : ℕ) : Text :=
  ascii "trajectory is ragged: frame " ++ decimal t ++ ascii " has length " ++ length ++
    ascii ", expected " ++ decimal width

def numericMessage (t d : ℕ) : Text :=
  ascii "trajectory has a non-numeric value at frame " ++ decimal t ++ ascii ", dim " ++ decimal d

-- The cells of frame `t` from dimension `d` on.
def parseCells (t d : ℕ) : List Json → Except Text (List Number)
  | [] => .ok []
  | cell :: cells =>
    match numberIn cell with
    | none => .error (numericMessage t d)
    | some x => (parseCells t (d + 1) cells).map (x :: ·)

-- The rows from frame `t` on.
def parseRows (width t : ℕ) : List Json → Except Text (List (List Number))
  | [] => .ok []
  | row :: rows =>
    match row with
    | .array cells =>
      if cells.length ≠ width then .error (raggedMessage t (decimal cells.length) width)
      else (parseCells t 0 cells).bind fun frame => (parseRows width (t + 1) rows).map (frame :: ·)
    | _ => .error (raggedMessage t (ascii "n/a") width)

def parseTrajectory : Json → Except Text ParsedTrajectory
  | .array (.array (cell :: cells) :: rows) =>
      (parseRows (cells.length + 1) 0 (.array (cell :: cells) :: rows)).map fun frames =>
        ⟨frames, rows.length + 1, cells.length + 1⟩
  | .array (_ :: _) => .error (ascii "trajectory frames must be non-empty arrays")
  | _ => .error (ascii "trajectory must be a non-empty array of frames")

-- The document that holds the frames.
def framesJson (frames : List (List Number)) : Json :=
  .array (frames.map fun frame => .array (frame.map .number))

-- Frames of one width, none of them empty, and every cell a number.
structure ParsedTrajectory.WellFormed (p : ParsedTrajectory) : Prop where
  count : p.T = p.frames.length
  some_frame : p.frames ≠ []
  some_width : p.width ≠ 0
  even : ∀ frame ∈ p.frames, frame.length = p.width
  numeric : ∀ frame ∈ p.frames, Number.nan ∉ frame

theorem numberIn_eq_some {cell : Json} {x : Number} :
    numberIn cell = some x ↔ cell = .number x ∧ x ≠ .nan := by
  cases cell with
  | number y =>
      by_cases hy : y = .nan
      · simp [numberIn, hy, eq_comm]
      · simp only [numberIn, if_neg hy, Option.some.injEq, Json.number.injEq]
        exact ⟨fun h => ⟨h, h ▸ hy⟩, And.left⟩
  | _ => simp [numberIn]

theorem parseCells_eq_ok {t d : ℕ} {cells : List Json} {frame : List Number} :
    parseCells t d cells = .ok frame ↔ cells = frame.map .number ∧ Number.nan ∉ frame := by
  induction cells generalizing d frame with
  | nil =>
      rw [parseCells]
      constructor
      · rintro ⟨⟩
        exact ⟨rfl, List.not_mem_nil⟩
      · rintro ⟨h, -⟩
        rw [List.map_eq_nil_iff.mp h.symm]
  | cons cell cells ih =>
      rw [parseCells]
      cases hcell : numberIn cell with
      | none =>
          simp only [reduceCtorEq, false_iff, not_and]
          intro h hnan
          cases frame with
          | nil => cases h
          | cons x frame =>
              obtain ⟨rfl, -⟩ := List.cons.inj h
              have hx : numberIn (.number x) = some x :=
                numberIn_eq_some.mpr ⟨rfl, fun h => hnan (h ▸ List.mem_cons_self)⟩
              rw [hx] at hcell
              cases hcell
      | some x =>
          obtain ⟨rfl, hx⟩ := numberIn_eq_some.mp hcell
          simp only [map_eq_ok]
          constructor
          · rintro ⟨frame, hframe, rfl⟩
            obtain ⟨rfl, hnan⟩ := ih.mp hframe
            exact ⟨rfl, List.not_mem_cons_of_ne_of_not_mem (Ne.symm hx) hnan⟩
          · rintro ⟨h, hnan⟩
            cases frame with
            | nil => cases h
            | cons y frame =>
                obtain ⟨hy, hcells⟩ := List.cons.inj h
                obtain rfl := Json.number.inj hy
                exact ⟨frame, ih.mpr ⟨hcells, fun hmem => hnan (List.mem_cons_of_mem _ hmem)⟩, rfl⟩

theorem parseRows_eq_ok {width t : ℕ} {rows : List Json} {frames : List (List Number)} :
    parseRows width t rows = .ok frames ↔
      rows = frames.map (fun frame => .array (frame.map .number)) ∧
        ∀ frame ∈ frames, frame.length = width ∧ Number.nan ∉ frame := by
  induction rows generalizing t frames with
  | nil =>
      rw [parseRows]
      constructor
      · rintro ⟨⟩
        exact ⟨rfl, fun frame hframe => absurd hframe List.not_mem_nil⟩
      · rintro ⟨h, -⟩
        rw [List.map_eq_nil_iff.mp h.symm]
  | cons row rows ih =>
      constructor
      · intro h
        cases row with
        | array cells =>
            simp only [parseRows] at h
            split_ifs at h with hwidth
            obtain ⟨frame, hframe, h⟩ := bind_eq_ok.mp h
            obtain ⟨frames, hframes, rfl⟩ := map_eq_ok.mp h
            obtain ⟨rfl, hnan⟩ := parseCells_eq_ok.mp hframe
            obtain ⟨rfl, hrest⟩ := ih.mp hframes
            refine ⟨rfl, List.forall_mem_cons.mpr ⟨⟨?_, hnan⟩, hrest⟩⟩
            simpa using hwidth
        | _ => simp [parseRows] at h
      · rintro ⟨h, hframes⟩
        cases frames with
        | nil => cases h
        | cons frame frames =>
            obtain ⟨rfl, hrows⟩ := List.cons.inj h
            obtain ⟨⟨hwidth, hnan⟩, hrest⟩ := List.forall_mem_cons.mp hframes
            have hcells := @parseCells_eq_ok t 0 _ _ |>.mpr ⟨rfl, hnan⟩
            have hread := (@ih (t + 1) frames).mpr ⟨hrows, hrest⟩
            simp only [parseRows, List.length_map, hwidth, ne_eq, not_true_eq_false, if_false, hcells,
              hread]
            rfl

-- What is accepted is well formed, and it is the document itself.
theorem parseTrajectory_eq_ok {raw : Json} {p : ParsedTrajectory} :
    parseTrajectory raw = .ok p ↔ raw = framesJson p.frames ∧ p.WellFormed := by
  constructor
  · intro h
    unfold parseTrajectory at h
    split at h
    · rename_i cell cells rows
      obtain ⟨frames, hframes, rfl⟩ := map_eq_ok.mp h
      obtain ⟨hraw, hall⟩ := parseRows_eq_ok.mp hframes
      have hlength := congrArg List.length hraw
      rw [List.length_cons, List.length_map] at hlength
      refine ⟨congrArg Json.array hraw, hlength, ?_, Nat.succ_ne_zero _, fun frame hframe =>
        (hall frame hframe).1, fun frame hframe => (hall frame hframe).2⟩
      rintro rfl
      cases hraw
    · cases h
    · cases h
  · rintro ⟨rfl, hp⟩
    obtain ⟨frames, T, width⟩ := p
    obtain ⟨hcount, hframe, hwidth, heven, hnumeric⟩ := hp
    cases frames with
    | nil => exact absurd rfl hframe
    | cons frame frames =>
        have hfirst : frame.length = width := heven frame List.mem_cons_self
        cases frame with
        | nil => exact absurd hfirst.symm hwidth
        | cons x frame =>
            have hrows := (@parseRows_eq_ok width 0 _ ((x :: frame) :: frames)).mpr ⟨rfl, fun other hother =>
              ⟨heven other hother, hnumeric other hother⟩⟩
            simp only [List.map_cons] at hrows
            simp only [framesJson, parseTrajectory, List.map_cons, List.length_map]
            rw [List.length_cons] at hfirst
            rw [hfirst, hrows]
            simp only at hcount
            rw [hcount]
            rfl

end Parsing

section Answers

structure Answer where
  status : ℕ
  contentType : Text
  body : List UInt8

variable (numbers : Json.NumberText)

def isOk (answer : Answer) : Prop := 200 ≤ answer.status ∧ answer.status ≤ 299

instance (answer : Answer) : Decidable (isOk answer) := inferInstanceAs (Decidable (_ ∧ _))

def includes (t word : Text) : Bool := t.tails.any word.isPrefixOf

-- The text of a body: what is cut short at its end is a replacement character.
def bodyText (body : List UInt8) : Text :=
  let read := TextDecoder.new.decode body
  if read.1.utf8.needed = 0 then read.2 else read.2 ++ Utf8.units Utf8.replacement

def safeJson (body : List UInt8) : Json := (Json.parse numbers (bodyText body)).getD .null

-- What one source shows: nothing where the fetch fails, the answer is an error or no JSON, or
-- it holds no trajectory.
def framesOf (answer : Option Answer) : Option (List (List Number)) :=
  match answer with
  | none => none
  | some answer =>
    if ¬ isOk answer then none
    else if includes answer.contentType (ascii "json") = false then none
    else (parseTrajectory (safeJson numbers answer.body)).toOption.map (·.frames)

-- The loop over the two sources of a job that has succeeded.
def resolveTrajectory (retained : Option (List (List Number))) (trajectory artifact : Option Answer) :
    Option (List (List Number)) :=
  match retained with
  | some frames => some frames
  | none => [trajectory, artifact].findSome? (framesOf numbers)

variable (shown : Shown) (volume : Files Text)

def notFound (message : Text) : Answer where
  status := 404
  contentType := ascii "application/json"
  body := asciiBytes (dumps shown.toFloatText
    (.dict [(ascii "code", .str (ascii "not_found")), (ascii "message", .str message)]))

def fileResponse (path : Option Text) (contentType : Text → Text) (missing : Text) : Answer :=
  match path.filter (· ≠ []) with
  | none => notFound shown missing
  | some path =>
    match volume.lookup path with
    | some bytes => ⟨200, contentType path, bytes⟩
    | none => notFound shown missing

def getArtifact (guessType : Text → Option Text) (artifactPath : Option Text) : Answer :=
  fileResponse shown volume artifactPath
    (fun path => (guessType path).getD (ascii "application/octet-stream"))
    (ascii "artifact not available")

def textIn : Value → Option Text
  | .str path => some path
  | _ => none

def getTrajectory (resultMeta : Option Dict) : Answer :=
  fileResponse shown volume ((Dict.get (resultMeta.getD []) (ascii "trajectory_path")).bind textIn)
    (fun _ => ascii "application/json") (ascii "trajectory not available")

end Answers

section Displayed

variable (numbers : Json.NumberText) (floats : FloatText)

-- The number that is read of a printed one.
inductive Denotes : Value → Number → Prop where
  | int (n : ℤ) : Denotes (.int n) (numbers.value (intText n))
  | float (q : ℚ) : Denotes (.float (.finite q)) (numbers.value (floats.literal q))

-- The frames are the rows of the trajectory, number by number.
structure Displays (data : List Value) (frames : List (List Number)) : Prop where
  rows : List.Forall₂ (fun row frame => ∃ cells, row = .list cells ∧
    List.Forall₂ (Denotes numbers floats) cells frame) data frames
  some_frame : frames ≠ []
  even : ∃ width, width ≠ 0 ∧ ∀ frame ∈ frames, frame.length = width
  numeric : ∀ frame ∈ frames, Number.nan ∉ frame

variable {numbers floats}

theorem toJson_eq_number {v : Value} {x : Number} :
    toJson numbers floats v = some (.number x) ↔ Denotes numbers floats v x := by
  constructor
  · intro h
    match v with
    | .int n =>
        rw [toJson] at h
        cases h
        exact .int n
    | .float (.finite q) =>
        rw [toJson] at h
        cases h
        exact .float q
    | .none | .bool _ | .float .nan | .float .infinity | .float .negInfinity | .str _ | .list _ | .dict _ =>
        simp [toJson] at h
  · rintro (n | q) <;> rw [toJson]

theorem toJson_eq_array {v : Value} {values : List Json} :
    toJson numbers floats v = some (.array values) ↔ ∃ items, v = .list items ∧
      List.Forall₂ (fun item value => toJson numbers floats item = some value) items values := by
  constructor
  · intro h
    match v with
    | .list items =>
        rw [toJson] at h
        obtain ⟨values', hitems, hvalues⟩ := Option.map_eq_some_iff.mp h
        obtain rfl := Json.array.inj hvalues
        exact ⟨items, rfl, (toJsonItems_eq_some numbers floats).mp hitems⟩
    | .none | .bool _ | .int _ | .float (.finite _) | .float .nan | .float .infinity | .float .negInfinity
    | .str _ | .dict _ => simp [toJson] at h
  · rintro ⟨items, rfl, hitems⟩
    rw [toJson, (toJsonItems_eq_some numbers floats).mpr hitems]
    rfl

theorem toJson_eq_framesJson {data : List Value} {frames : List (List Number)} :
    toJson numbers floats (.list data) = some (framesJson frames) ↔
      List.Forall₂ (fun row frame => ∃ cells, row = .list cells ∧
        List.Forall₂ (Denotes numbers floats) cells frame) data frames := by
  simp only [framesJson, toJson_eq_array, Value.list.injEq, exists_eq_left', List.forall₂_map_right_iff,
    toJson_eq_number]

theorem bodyText_dumps (v : Value) : bodyText (asciiBytes (dumps floats v)) = dumps floats v := by
  obtain ⟨hneeded, hread⟩ := @decode_ascii .new rfl _ (@isAscii_dumps floats v)
  rw [bodyText]
  simp only [if_pos hneeded, hread]

-- A printed trajectory is shown just when it is one.
theorem framesOf_dumps (hliteral : ∀ q, Json.isLiteral (floats.literal q) = true) {data : List Value}
    {frames : List (List Number)} :
    framesOf numbers (some ⟨200, ascii "application/json", asciiBytes (dumps floats (.list data))⟩) =
      some frames ↔ Displays numbers floats data frames := by
  have hjson : includes (ascii "application/json") (ascii "json") = true := by decide
  have hok : isOk ⟨200, ascii "application/json", asciiBytes (dumps floats (.list data))⟩ :=
    ⟨le_refl 200, Nat.le_add_right 200 99⟩
  have hdocument : ∀ fs, (toJson numbers floats (.list data)).getD .null = framesJson fs ↔
      toJson numbers floats (.list data) = some (framesJson fs) := by
    intro fs
    cases toJson numbers floats (.list data) <;> simp [framesJson]
  simp only [framesOf, hok, not_true_eq_false, if_false, hjson, Bool.true_eq_false, safeJson, bodyText_dumps,
    parse_dumps hliteral, Option.map_eq_some_iff]
  constructor
  · rintro ⟨p, hp, rfl⟩
    have hread : parseTrajectory ((toJson numbers floats (.list data)).getD .null) = .ok p := by
      cases hparse : parseTrajectory ((toJson numbers floats (.list data)).getD .null) with
      | error message => rw [hparse] at hp; cases hp
      | ok p' => rw [hparse] at hp; cases hp; rfl
    obtain ⟨hraw, hwell⟩ := parseTrajectory_eq_ok.mp hread
    exact ⟨toJson_eq_framesJson.mp ((hdocument _).mp hraw), hwell.some_frame,
      ⟨p.width, hwell.some_width, hwell.even⟩, hwell.numeric⟩
  · rintro ⟨hrows, hframe, ⟨width, hwidth, heven⟩, hnumeric⟩
    have hraw := (hdocument _).mpr (toJson_eq_framesJson.mpr hrows)
    have hread := (@parseTrajectory_eq_ok _ ⟨frames, frames.length, width⟩).mpr
      ⟨hraw, rfl, hframe, hwidth, heven, hnumeric⟩
    exact ⟨_, by rw [hread]; rfl, rfl⟩

end Displayed

-- A reader that knows whole numbers.
def sampleNumbers : Json.NumberText where
  literal := FloatText.ofFractions.literal
  value t := if t.all isDecimalDigit then .finite (ofDecimal t) else .nan
  literal_units := FloatText.ofFractions.literal_units

end Cosmos3.Viewer
