import Cosmos3.Checkpoint.Rewrite
import Cosmos3.Preflight.Verdict

namespace Cosmos3.Preflight

open Basis Basis.Python Checkpoint

section Reading

variable {ε : Type} (shown : Shown) (loads : Bytes → Except ε Value)

def MAX_HEADER_BYTES : ℕ := 128 * 1024 * 1024

-- What the preflight ends in when it does not return. `json` is an exception of `json.loads`.
inductive PreflightError (ε : Type) where
  | rejected (rejection : Rejection)
  | structError
  | json (error : ε)
  | python (exn : Exn)
  | missing (path : Path)

-- The length that the first eight bytes of a file declare.
def declaredLength (file : Bytes) : ℕ := Wave.little (file.take 8)

def InRange (length : ℕ) : Prop := 0 < length ∧ length ≤ MAX_HEADER_BYTES

instance (length : ℕ) : Decidable (InRange length) := inferInstanceAs (Decidable (_ ∧ _))

def headerBytes (file : Bytes) : Bytes := (file.drop 8).take (declaredLength file)

-- A dict of the fields, without the metadata.
def headerOf (fields : Dict) : Table Text Value := (Table.empty.setAll fields).erase metadataKey

def lengthRejection (name : Text) (length : ℕ) : Rejection where
  code := .malformedHeader
  message := name ++ ascii ": safetensors header length " ++ decimal length ++
    ascii " is implausible (expected 1.." ++ decimal MAX_HEADER_BYTES ++ ascii ") " ++ [8212] ++
    ascii " corrupt or hostile file"

def sourceRejection (dir : Path) : Rejection where
  code := .noTransformerWeights
  message := ascii "no transformer/*.safetensors under " ++ [47].intercalate dir

-- `_read_safetensors_header` on the bytes of an open file.
def readSafetensorsHeader (name : Text) (file : Bytes) : Except (PreflightError ε) (Table Text Value) :=
  if file.length < 8 then .error .structError
  else if ¬InRange (declaredLength file) then
    .error (.rejected (lengthRejection name (declaredLength file)))
  else
    match loads (headerBytes file) with
    | .error error => .error (.json error)
    | .ok (.dict fields) => .ok (headerOf fields)
    | .ok (.list _) => .error (.python .typeError)
    | .ok _ => .error (.python .attributeError)

variable (disk : Disk)

def readShard (path : Path) : Except (PreflightError ε) (Table Text Value) :=
  match disk.lookup path with
  | some file => readSafetensorsHeader loads (nameOf path) file
  | none => .error (.missing path)

def mergeHeaders : List Path → Table Text Value → Except (PreflightError ε) (Table Text Value)
  | [], merged => .ok merged
  | path :: paths, merged => do
    let header ← readShard loads disk path
    mergeHeaders paths (merged.update header)

variable (dir : Path)

def transformerShards : List Path := shards disk (transformerDir dir)

def readTransformerHeaders : Except (PreflightError ε) (Table Text Value) :=
  if transformerShards disk dir = [] then .error (.rejected (sourceRejection dir))
  else mergeHeaders loads disk (transformerShards disk dir) Table.empty

def assertReasonerSource : Except (PreflightError ε) Unit := do
  let headers ← readTransformerHeaders loads disk dir
  match reasonerSourceVerdict shown headers with
  | .error exn => .error (.python exn)
  | .ok none => .ok ()
  | .ok (some rejection) => .error (.rejected rejection)

-- `_main`: the exit code, or an exception that is not one of the preflight's own.
def main : List Path → Except (PreflightError ε) ℕ
  | [dir] =>
    match assertReasonerSource shown loads disk dir with
    | .ok () => .ok 0
    | .error (.rejected _) => .ok 1
    | .error error => .error error
  | _ => .ok 2

end Reading

section Merged

variable {ε : Type} {loads : Bytes → Except ε Value} {disk : Disk}

def mergedOf (headers : List (Table Text Value)) (merged : Table Text Value) : Table Text Value :=
  headers.foldl Table.update merged

theorem mergeHeaders_eq_ok {paths : List Path} {merged result : Table Text Value} :
    mergeHeaders loads disk paths merged = .ok result ↔
      ∃ headers, List.Forall₂ (fun path header => readShard loads disk path = .ok header) paths headers ∧
        mergedOf headers merged = result := by
  induction paths generalizing merged with
  | nil => simp [mergeHeaders, mergedOf]
  | cons path paths ih =>
      rw [mergeHeaders, bind_eq_ok]
      constructor
      · rintro ⟨header, hheader, hrest⟩
        obtain ⟨headers, hheaders, rfl⟩ := ih.mp hrest
        exact ⟨header :: headers, .cons hheader hheaders, rfl⟩
      · rintro ⟨headers, hheaders, rfl⟩
        cases hheaders with
        | cons hheader hheaders => exact ⟨_, hheader, ih.mpr ⟨_, hheaders, rfl⟩⟩

-- The last header that has a name says what is merged under it.
theorem get_mergedOf (headers : List (Table Text Value)) (merged : Table Text Value) (name : Text) :
    (mergedOf headers merged).get name =
      (headers.reverse.findSome? fun header => header.get name).or (merged.get name) := by
  induction headers generalizing merged with
  | nil => rfl
  | cons header headers ih =>
      rw [mergedOf, List.foldl_cons, ← mergedOf, ih, Table.get_update, List.reverse_cons,
        List.findSome?_append, Option.or_assoc, List.findSome?_singleton]

theorem mem_mergedOf {headers : List (Table Text Value)} {name : Text} :
    (∃ entry, (mergedOf headers Table.empty).get name = some entry) ↔
      ∃ header ∈ headers, ∃ entry, header.get name = some entry := by
  simp only [get_mergedOf, Table.get_empty, Option.or_none, ← Option.isSome_iff_exists]
  rw [List.findSome?_isSome_iff]
  simp

end Merged

end Cosmos3.Preflight
