import Cosmos3.Checkpoint.Scan
import Cosmos3.Preflight.Sound

namespace Cosmos3.Preflight

open Basis Basis.Python Checkpoint

section Files

variable {ε : Type} (loads : Bytes → Except ε Value)

-- A file whose header the preflight can read.
def IsProper (file : Bytes) : Prop :=
  8 ≤ file.length ∧ InRange (declaredLength file) ∧ ∃ fields, loads (headerBytes file) = .ok (.dict fields)

-- The one malformed file that the preflight has a reason for.
def OutOfRange (file : Bytes) : Prop := 8 ≤ file.length ∧ ¬InRange (declaredLength file)

def ownHeader (file : Bytes) : Table Text Value :=
  match loads (headerBytes file) with
  | .ok (.dict fields) => headerOf fields
  | _ => Table.empty

-- What a run is said to end in.
def IsTyped {α : Type} : Except (PreflightError ε) α → Prop
  | .ok _ | .error (.rejected _) => True
  | .error _ => False

variable {loads} {name : Text} {file : Bytes}

theorem readSafetensorsHeader_proper (h : IsProper loads file) :
    readSafetensorsHeader loads name file = .ok (ownHeader loads file) := by
  obtain ⟨hlength, hrange, fields, hfields⟩ := h
  rw [readSafetensorsHeader, if_neg (Nat.not_lt.mpr hlength), if_neg (not_not.mpr hrange), hfields,
    ownHeader, hfields]

theorem readSafetensorsHeader_outOfRange (h : OutOfRange file) :
    ∃ rejection, readSafetensorsHeader loads name file = .error (.rejected rejection) := by
  rw [readSafetensorsHeader, if_neg (Nat.not_lt.mpr h.1), if_pos h.2]
  exact ⟨_, rfl⟩

-- A file that is cut short, that is no JSON or that is no object ends the run untyped.
theorem readSafetensorsHeader_undecodable (hproper : ¬IsProper loads file) (hout : ¬OutOfRange file) :
    ∃ error : PreflightError ε, readSafetensorsHeader loads name file = .error error ∧
      ∀ rejection, error ≠ .rejected rejection := by
  unfold readSafetensorsHeader
  split_ifs with hlength hrange
  · exact ⟨_, rfl, by simp⟩
  · split
    · exact ⟨_, rfl, by simp⟩
    · rename_i fields hfields
      exact absurd ⟨Nat.not_lt.mp hlength, hrange, fields, hfields⟩ hproper
    · exact ⟨_, rfl, by simp⟩
    · exact ⟨_, rfl, by simp⟩
  · exact absurd ⟨Nat.not_lt.mp hlength, hrange⟩ hout

end Files

section Closed

variable {ε : Type} (shown : Shown) (loads : Bytes → Except ε Value) (disk : Disk) (dir : Path)

def fileAt (path : Path) : Bytes := (disk.lookup path).getD []

-- The items of the merged headers, each where its name first comes.
def mergedItems : List (Text × Value) :=
  (mergedOf ((transformerShards disk dir).map fun path => ownHeader loads (fileAt disk path))
    Table.empty).fields

def FailsClosed : Prop :=
  IsTyped (assertReasonerSource shown loads disk dir) ∧
    (main shown loads disk [dir] = .ok 0 ∨ main shown loads disk [dir] = .ok 1)

-- What the files have to be for that. The length of a header is looked at before the header
-- is, file by file, and the entries last.
structure WellFormed : Prop where
  headers : ∀ front path back, transformerShards disk dir = front ++ path :: back →
    IsProper loads (fileAt disk path) ∨ OutOfRange (fileAt disk path) ∨
      ∃ other ∈ front, OutOfRange (fileAt disk other)
  entries : (∀ path ∈ transformerShards disk dir, IsProper loads (fileAt disk path)) →
    ∀ front item back, mergedItems loads disk dir = front ++ item :: back → IsKeptWeight item.1 →
      (∀ fields, item.2 ≠ .dict fields) → ∃ other ∈ front, IsRejected shown other

variable {shown loads disk dir}

theorem readShard_eq {path : Path} (hpath : path ∈ transformerShards disk dir) :
    readShard loads disk path = readSafetensorsHeader loads (nameOf path) (fileAt disk path) := by
  have hkey : path ∈ disk := (mem_shards.mp hpath).1
  obtain ⟨file, hfile⟩ := Option.isSome_iff_exists.mp (AList.lookup_isSome.mpr hkey)
  rw [readShard, fileAt, hfile]
  rfl

theorem mergeHeaders_append {front back : List Path} {merged : Table Text Value}
    (hfront : ∀ path ∈ front, readShard loads disk path = .ok (ownHeader loads (fileAt disk path))) :
    mergeHeaders loads disk (front ++ back) merged = mergeHeaders loads disk back
      (mergedOf (front.map fun path => ownHeader loads (fileAt disk path)) merged) := by
  induction front generalizing merged with
  | nil => rfl
  | cons path front ih =>
      obtain ⟨hpath, hfront⟩ := List.forall_mem_cons.mp hfront
      rw [List.cons_append, mergeHeaders, hpath]
      exact ih hfront

theorem isTyped_main : FailsClosed shown loads disk dir ↔ IsTyped (assertReasonerSource shown loads disk dir) := by
  refine and_iff_left_of_imp fun htyped => ?_
  rw [main]
  cases hassert : assertReasonerSource shown loads disk dir with
  | ok u => exact .inl rfl
  | error error =>
      rw [hassert] at htyped
      cases error with
      | rejected rejection => exact .inr rfl
      | structError => exact absurd htyped id
      | json error => exact absurd htyped id
      | python exn => exact absurd htyped id
      | missing path => exact absurd htyped id

theorem isTyped_of_read {merged : Table Text Value} (h : readTransformerHeaders loads disk dir = .ok merged) :
    IsTyped (assertReasonerSource shown loads disk dir) ↔
      ¬∃ exn, verdict shown false merged.fields = .error exn := by
  rw [assertReasonerSource, h]
  simp only [bind, Except.bind, reasonerSourceVerdict]
  cases hverdict : verdict shown false merged.fields with
  | error exn => simp [IsTyped]
  | ok rejection => cases rejection <;> simp [IsTyped]

theorem OutOfRange.not_proper {file : Bytes} (h : OutOfRange file) : ¬IsProper loads file :=
  fun hproper => h.2 hproper.2.1

theorem readTransformerHeaders_proper (h : ∀ path ∈ transformerShards disk dir, IsProper loads (fileAt disk path))
    (hne : transformerShards disk dir ≠ []) :
    ∃ merged, readTransformerHeaders loads disk dir = .ok merged ∧ merged.fields = mergedItems loads disk dir := by
  have hread : ∀ path ∈ transformerShards disk dir,
      readShard loads disk path = .ok (ownHeader loads (fileAt disk path)) := fun path hpath => by
    rw [readShard_eq hpath, readSafetensorsHeader_proper (h path hpath)]
  have hmerge : mergeHeaders loads disk (transformerShards disk dir ++ []) Table.empty = _ :=
    mergeHeaders_append hread
  rw [List.append_nil] at hmerge
  rw [readTransformerHeaders, if_neg hne, hmerge]
  exact ⟨_, rfl, rfl⟩

-- The first file that is not proper decides.
theorem readTransformerHeaders_first {front back : List Path} {path : Path}
    (hpaths : transformerShards disk dir = front ++ path :: back)
    (hfront : ∀ other ∈ front, IsProper loads (fileAt disk other)) :
    readTransformerHeaders loads disk dir =
      readSafetensorsHeader loads (nameOf path) (fileAt disk path) >>= fun header =>
        mergeHeaders loads disk back ((mergedOf (front.map fun path => ownHeader loads (fileAt disk path))
          Table.empty).update header) := by
  have hmem : ∀ other ∈ front ++ path :: back, other ∈ transformerShards disk dir := fun other hother =>
    hpaths ▸ hother
  have hread : ∀ other ∈ front, readShard loads disk other = .ok (ownHeader loads (fileAt disk other)) :=
    fun other hother => by
      rw [readShard_eq (hmem other (List.mem_append_left _ hother)),
        readSafetensorsHeader_proper (hfront other hother)]
  have hne : transformerShards disk dir ≠ [] := by
    rw [hpaths]
    simp
  rw [readTransformerHeaders, if_neg hne, hpaths, mergeHeaders_append hread, mergeHeaders,
    readShard_eq (hmem path (by simp))]

theorem failsClosed_iff : FailsClosed shown loads disk dir ↔ WellFormed shown loads disk dir := by
  rw [isTyped_main]
  rcases forall_or_first (fun path => IsProper loads (fileAt disk path)) (transformerShards disk dir) with
    hall | ⟨front, path, back, hpaths, hfront, hpath⟩
  · have hheaders : ∀ front path back, transformerShards disk dir = front ++ path :: back →
        IsProper loads (fileAt disk path) ∨ OutOfRange (fileAt disk path) ∨
          ∃ other ∈ front, OutOfRange (fileAt disk other) :=
      fun front path back hpaths => .inl (hall path (by simp [hpaths]))
    by_cases hne : transformerShards disk dir = []
    · refine iff_of_true ?_ ⟨hheaders, fun _ front item back hitems => ?_⟩
      · rw [assertReasonerSource, readTransformerHeaders, if_pos hne]
        trivial
      · rw [mergedItems, hne] at hitems
        exact absurd hitems (by simp [mergedOf, Table.empty])
    · obtain ⟨merged, hread, hfields⟩ := readTransformerHeaders_proper hall hne
      rw [isTyped_of_read hread, verdict_error_iff, hfields]
      constructor
      · intro hnone
        refine ⟨hheaders, fun _ front item back hitems hweight hobject => ?_⟩
        by_contra hrejected
        push Not at hrejected
        exact hnone ⟨front, item, back, hitems, kindOf_eq_broken_iff.mpr ⟨hweight, hobject⟩, hrejected⟩
      · rintro hwell ⟨front, item, back, hitems, hbroken, hrejected⟩
        obtain ⟨hweight, hobject⟩ := kindOf_eq_broken_iff.mp hbroken
        obtain ⟨other, hother, hreject⟩ := hwell.entries hall front item back hitems hweight hobject
        exact hrejected other hother hreject
  · by_cases hout : OutOfRange (fileAt disk path)
    · obtain ⟨rejection, hread⟩ := @readSafetensorsHeader_outOfRange _ loads (nameOf path) _ hout
      have hnot : ¬∀ other ∈ transformerShards disk dir, IsProper loads (fileAt disk other) := fun hall =>
        hpath (hall path (by simp [hpaths]))
      refine iff_of_true ?_ ⟨fun front' path' back' hpaths' => ?_, fun hall => absurd hall hnot⟩
      · rw [assertReasonerSource, readTransformerHeaders_first hpaths hfront, hread]
        trivial
      · rcases List.append_eq_append_iff.mp (hpaths.symm.trans hpaths') with
          ⟨more, rfl, hmore⟩ | ⟨more, rfl, hmore⟩
        · cases more with
          | nil =>
              obtain ⟨rfl, -⟩ := List.cons.inj hmore
              exact .inr (.inl hout)
          | cons other more =>
              obtain ⟨rfl, -⟩ := List.cons.inj hmore
              exact .inr (.inr ⟨path, by simp, hout⟩)
        · cases more with
          | nil =>
              obtain ⟨rfl, -⟩ := List.cons.inj hmore
              exact .inr (.inl hout)
          | cons other more =>
              obtain ⟨rfl, -⟩ := List.cons.inj hmore
              exact .inl (hfront path' (by simp))
    · obtain ⟨error, hread, herror⟩ := @readSafetensorsHeader_undecodable _ loads (nameOf path) _ hpath hout
      refine iff_of_false ?_ fun hwell => ?_
      · rw [assertReasonerSource, readTransformerHeaders_first hpaths hfront, hread]
        cases error with
        | rejected rejection => exact fun _ => herror rejection rfl
        | structError => exact id
        | json error => exact id
        | python exn => exact id
        | missing path => exact id
      · rcases hwell.headers front path back hpaths with hproper | hout' | ⟨other, hother, hout'⟩
        · exact hpath hproper
        · exact hout hout'
        · exact hout'.not_proper (hfront other hother)

end Closed

section Sample

def shortDisk : Disk := (∅ : Disk).insert (shardPath "a.safetensors") [1, 2, 3]

-- A file of three bytes ends the run with an exception of `struct`.
theorem short_file_escapes : ¬FailsClosed .quoted headerLoads shortDisk [ascii "nano"] := by
  have hshards : transformerShards shortDisk [ascii "nano"] = [] ++ shardPath "a.safetensors" :: [] := by
    decide +kernel
  have hshort : (fileAt shortDisk (shardPath "a.safetensors")).length < 8 := by decide +kernel
  rintro ⟨htyped, -⟩
  rw [assertReasonerSource, readTransformerHeaders_first hshards (by simp), readSafetensorsHeader,
    if_pos hshort] at htyped
  exact htyped

end Sample

end Cosmos3.Preflight
