import Cosmos3.Basis.Checks
import Cosmos3.Checkpoint.Safetensors
import Mathlib.Algebra.Ring.Nat
import Mathlib.Data.List.Sort

namespace Cosmos3.Checkpoint

open Basis Basis.Python

abbrev Path := List Text

-- The errors of the tool, each with what its text tells.
inductive MutationError where
  | alreadyMutated
  | missingSource (name : Text)
  | sourceDtype (name dtype : Text)
  | sourceShape (name : Text) (shape : List Nat) (expected : List Value)
  | sourceNotFound (dir : Path) (missing : List Text)
  | eofHashing (path : Path) (start stop : Nat)
  | eofCopying (path : Path) (start stop : Nat)
  | keptMissing (name : Text)
  | keptChanged (name : Text)
  | addedMissing (name : Text)
  | addedChanged (name : Text)
  | sidecarPresent (name : Text)
  | noBackups (dir : Path)

-- Those, and the exceptions of what it calls.
inductive Failure where
  | mutation (error : MutationError)
  | fileNotFound (path : Path)
  | notSafetensors (path : Path)
  | notJson (path : Path)
  | structError
  | python (error : Python.Exn)

section Names

def ACTION_TENSORS : List Text :=
  [ascii "action_modality_embed", ascii "action_proj_in.bias.weight", ascii "action_proj_in.fc.weight",
    ascii "action_proj_out.bias.weight", ascii "action_proj_out.fc.weight"]

def lmHead : Text := ascii "lm_head.weight"

def lmHeadAmax : Text := ascii "lm_head.weight_quantizer._amax"

def lmHeadScale : Text := ascii "lm_head.weight_quantizer._scale"

def DROPPED_LMHEAD : List Text := [lmHead, lmHeadAmax, lmHeadScale]

def ADDED_TENSORS : List Text := ACTION_TENSORS ++ [lmHead]

def bf16 : Text := ascii "BF16"

theorem nodup_added : ADDED_TENSORS.Nodup := by decide

theorem metadataKey_notMem_added : metadataKey ∉ ADDED_TENSORS := by decide

theorem notMem_dropped_of_action {name : Text} (h : name ∈ ACTION_TENSORS) :
    name ∉ DROPPED_LMHEAD := by
  revert name
  decide

end Names

-- Sums and products with floats round, and what they give is a float of a literal again.
structure FloatArith extends FloatReader where
  sub : Number → ℤ → Number
  mul : Number → Number → Number
  readable_sub : ∀ x n, Readable toFloatReader (.float (sub x n))
  readable_mul : ∀ x y, Readable toFloatReader (.float (mul x y))

section Numbers

variable (arith : FloatArith)

def integerOf : Value → Option ℤ
  | .int n => some n
  | .bool b => some (if b then 1 else 0)
  | _ => none

-- `value - n`
def minus (value : Value) (n : ℤ) : Except Exn Value :=
  match integerOf value, value with
  | some m, _ => .ok (.int (m - n))
  | none, .float x => .ok (.float (arith.sub x n))
  | none, _ => .error .typeError

-- `v * w`. What a text or a list times a number gives is no number either.
def times (v w : Value) : Except Exn Value :=
  match integerOf v, integerOf w, v, w with
  | some m, some n, _, _ => .ok (.int (m * n))
  | some _, none, _, .float y => (floatOf v).map fun x => .float (arith.mul x y)
  | none, some _, .float x, _ => (floatOf w).map fun y => .float (arith.mul x y)
  | none, none, .float x, .float y => .ok (.float (arith.mul x y))
  | _, _, _, _ => .error .typeError

-- `n == value`
def eqNat (n : Nat) : Value → Bool
  | .int m => m = n
  | .bool b => (if b then 1 else 0) = n
  | .float (.finite q) => q = n
  | _ => false

-- `shape == expected`
def eqShape : List Nat → List Value → Bool
  | [], [] => true
  | n :: shape, value :: expected => eqNat n value && eqShape shape expected
  | _, _ => false

end Numbers

section Dicts

def asDict : Value → Except Exn Dict
  | .dict d => .ok d
  | _ => .error .typeError

-- `d[key]`
def item (d : Dict) (key : Text) : Except Exn Value :=
  match Dict.get d key with
  | some value => .ok value
  | none => .error .keyError

-- `list(value)`
def iterate : Value → Except Exn (List Value)
  | .list items => .ok items
  | .dict fields => .ok (fields.map fun field => .str field.1)
  | .str s => .ok ((codePoints s).map fun c => .str (Utf8.units c))
  | _ => .error .typeError

end Dicts

section Plan

variable (arith : FloatArith)

structure MutationPlan where
  keep : List Text
  drop : List Text
  add : List Text

-- The order in which a set gives its elements.
structure SetOrder where
  list : List Text → List Text
  perm : ∀ names, (list names).Perm names

def expectedShapes (cfg : Value) : Except Exn (Table Text (List Value)) := do
  let d ← asDict cfg
  let hiddenSize ← item d (ascii "hidden_size")
  let actionDim ← item d (ascii "action_dim")
  let domains ← item d (ascii "num_embodiment_domains")
  let vocabSize ← item d (ascii "vocab_size")
  let inner ← times arith actionDim hiddenSize
  return Table.empty.setAll
    [(ascii "action_modality_embed", [hiddenSize]),
      (ascii "action_proj_in.bias.weight", [domains, hiddenSize]),
      (ascii "action_proj_in.fc.weight", [domains, inner]),
      (ascii "action_proj_out.bias.weight", [domains, actionDim]),
      (ascii "action_proj_out.fc.weight", [domains, inner]),
      (lmHead, [vocabSize, hiddenSize])]

-- `_names`
def names (header : Header) : List Text := header.keys

def already (fp8 : Header) : Bool :=
  ACTION_TENSORS.all (fun name => name ∈ names fp8) && (fp8.get lmHead).map (·.dtype) = some bf16

def checkSource (expected : Table Text (List Value)) (bf16Src : Table Text Entry) (name : Text) :
    Except Failure Unit :=
  match bf16Src.get name with
  | none => .error (.mutation (.missingSource name))
  | some ref =>
    if ref.dtype ≠ bf16 then .error (.mutation (.sourceDtype name ref.dtype))
    else
      match expected.get name with
      | some shape =>
        if eqShape ref.shape shape then .ok ()
        else .error (.mutation (.sourceShape name ref.shape shape))
      | none => .ok ()

def planMutation (order : SetOrder) (fp8 : Header) (bf16Src : Table Text Entry) (cfg : Value) :
    Except Failure MutationPlan := do
  if already fp8 then throw (.mutation .alreadyMutated)
  let expected ← (expectedShapes arith cfg).mapError .python
  runChecks (checkSource expected bf16Src) ADDED_TENSORS
  return {
    keep := (order.list (names fp8)).filter fun name => name ∉ DROPPED_LMHEAD
    drop := DROPPED_LMHEAD.filter fun name => name ∈ names fp8
    add := ADDED_TENSORS }

end Plan

section Layout

variable (arith : FloatArith)

structure Layout where
  order : List Text
  entries : Header
  headerLen : Nat
  dataLen : Nat

-- Where a tensor comes from: the old file if it is kept, else its shard.
def sourceEntry (plan : MutationPlan) (fp8 : Header) (bf16Src : Table Text Entry) (name : Text) :
    Except Failure Entry :=
  let found := if name ∈ fp8.keys ∧ name ∈ plan.keep then fp8.get name else bf16Src.get name
  match found with
  | some entry => .ok entry
  | none => .error (.python .keyError)

-- The tensors one behind the other.
def place : Nat → List (Text × Entry) → List (Text × Entry)
  | _, [] => []
  | cursor, (name, src) :: rest =>
    (name, ⟨src.dtype, src.shape, cursor, cursor + src.size, Nat.le_add_right _ _⟩) ::
      place (cursor + src.size) rest

-- A kept name is in the header, so that there is an offset.
def keptOrdered (plan : MutationPlan) (fp8 : Header) : List Text :=
  plan.keep.insertionSort fun first second =>
    ((fp8.get first).map (·.start)).getD 0 ≤ ((fp8.get second).map (·.start)).getD 0

def buildLayout (plan : MutationPlan) (fp8 : Header) (bf16Src : Table Text Entry) :
    Except Failure Layout := do
  let order := keptOrdered plan fp8 ++ plan.add
  let sources ← order.mapM fun name => (sourceEntry plan fp8 bf16Src name).map fun src => (name, src)
  let entries : Header := Table.empty.setAll (place 0 sources)
  match buildHeaderBytes arith.toFloatReader entries.toDict with
  | none => throw .structError
  | some header =>
    return ⟨order, entries, header.length - 8, (sources.map fun source => source.2.size).sum⟩

end Layout

end Cosmos3.Checkpoint
