import Cosmos3.Checkpoint.Fidelity
import Cosmos3.SelfContained.Verify

namespace Cosmos3.Checkpoint

open Basis Basis.Python

-- What the probe reports, each with what its text tells.
inductive Problem where
  | actionMissing (name : Text)
  | actionDtype (name dtype : Text)
  | actionShape (name : Text) (shape : List Nat) (expected : List Value)
  | lmHeadDtype (dtype : Option Text)
  | embedTokens
  | quantizedOutside (name : Text)
  | quantizedCount (count : Nat) (declared : Value)
  | actionGen
  | recipe (found : Value)
  | quantLmhead
  | lmHeadQuantized
  | droppedActionKeys (found : Value)
  | pickles (names : List Text)
  | preMissing (name : Text)
  | preChanged (name : Text)
  | sidecarPresent (name : Text)
  | addedMissing (name : Text)
  | sourceMissing (name : Text)
  | sourceDiffers (name : Text)

section Names

-- `_FP8`
def FP8 : Text := ascii "F8_E4M3"

-- `_QUANT_SIDECAR`
def QUANT_SIDECAR : List Text :=
  [ascii "weight_quantizer._amax", ascii "weight_quantizer._scale", ascii "weight_packed",
    ascii "weight_block_scale", ascii "weight_global_scale"]

-- `_ALLOWED_PICKLES`
def ALLOWED_PICKLES : List Text := [ascii "modelopt_state.pt"]

def embedTokens : Text := ascii "embed_tokens.weight"

-- `layers\.\d+\.(mlp|mlp_moe_gen)\.` at the front of a text.
def matchesLayer (cs : List Nat) : Bool :=
  let layers := codePoints (ascii "layers.")
  let digits := (cs.drop layers.length).takeWhile fun c => (toDecimal c).isSome
  let rest := cs.drop (layers.length + digits.length)
  layers.isPrefixOf cs && digits ≠ [] &&
    ((codePoints (ascii ".mlp.")).isPrefixOf rest || (codePoints (ascii ".mlp_moe_gen.")).isPrefixOf rest)

-- `\.layers\.\d+\.(mlp|mlp_moe_gen)\.` anywhere in it.
def searchesLayer : List Nat → Bool
  | [] => false
  | c :: cs => (c = 46 && matchesLayer cs) || searchesLayer cs

-- `_MLP_TARGET.search(name)`
def isMlpTarget (name : Text) : Bool := matchesLayer (codePoints name) || searchesLayer (codePoints name)

-- `_is_quant`
def isQuant (name : Text) (entry : Entry) : Bool :=
  entry.dtype = FP8 || QUANT_SIDECAR.any fun suffix => suffix.isSuffixOf name

end Names

section Predicates

variable (arith : FloatArith)

-- `value.get` is there for a dict only.
def fieldsOf : Value → Except Exn Dict
  | .dict d => .ok d
  | _ => .error .attributeError

-- The shapes have one for each action tensor.
def actionProblems (expected : Table Text (List Value)) (header : Header) (name : Text) : List Problem :=
  match header.get name with
  | none => [.actionMissing name]
  | some entry =>
    let shape := (expected.get name).getD []
    (if entry.dtype ≠ bf16 then [.actionDtype name entry.dtype] else []) ++
      if eqShape entry.shape shape then [] else [.actionShape name entry.shape shape]

def checkActionSet (header : Header) (cfg : Value) : Except Exn (List Problem) := do
  let expected ← expectedShapes arith cfg
  return ACTION_TENSORS.flatMap (actionProblems expected header)

def checkInv7Structure (header : Header) : List Problem :=
  let lm := (header.get lmHead).map (·.dtype)
  let embed := (header.get embedTokens).map (·.dtype)
  (if lm ≠ some bf16 then [.lmHeadDtype lm] else []) ++
    (if embed ≠ some bf16 then [.embedTokens] else []) ++
    header.fields.flatMap fun field =>
      if isQuant field.1 field.2 && !isMlpTarget field.1 then [.quantizedOutside field.1] else []

def isF8Weight (field : Text × Entry) : Bool :=
  (ascii ".weight").isSuffixOf field.1 && field.2.dtype = FP8

def f8WeightCount (header : Header) : Nat := (header.fields.filter isF8Weight).length

def checkQuantizedCount (header : Header) (quantizationConfig : Value) : Except Exn (List Problem) := do
  let qc ← fieldsOf quantizationConfig
  let mp ← fieldsOf ((Dict.get qc (ascii "mixed_precision")).getD (.dict []))
  match Dict.get mp (ascii "n_quantized") with
  | none | some .none => return []
  | some declared =>
    return if eqNat (f8WeightCount header) declared then []
      else [.quantizedCount (f8WeightCount header) declared]

-- A tensor of before that is to be there as it was.
def keptProblems (postHashes : Table Text Text) (field : Text × Text) : List Problem :=
  if field.1 ∈ DROPPED_LMHEAD then []
  else match postHashes.get field.1 with
    | none => [.preMissing field.1]
    | some digest => if digest ≠ field.2 then [.preChanged field.1] else []

def checkScopedByteIdentity (preHashes postHashes : Table Text Text) : List Problem :=
  preHashes.fields.flatMap (keptProblems postHashes) ++
    (DROPPED_LMHEAD.flatMap fun name =>
      if ((ascii "._amax").isSuffixOf name || (ascii "._scale").isSuffixOf name) && name ∈ postHashes.keys
      then [.sidecarPresent name] else []) ++
    ADDED_TENSORS.flatMap fun name => if name ∉ postHashes.keys then [.addedMissing name] else []

-- `text in value`
def holdsText (text : Text) : Value → Except Exn Bool
  | .list items => .ok (items.any (isText text))
  | .dict fields => .ok (fields.any fun field => field.1 = text)
  | .str s => .ok (decide (text <:+: s))
  | _ => .error .typeError

def isTrue : Value → Bool
  | .bool b => b
  | _ => false

def isFalse : Value → Bool
  | .bool b => !b
  | _ => false

def checkSidecars (cfg quantizationConfig quantizerMapDiff : Value) : Except Exn (List Problem) := do
  let cfg ← fieldsOf cfg
  let qc ← fieldsOf quantizationConfig
  let recipe := (Dict.get qc (ascii "recipe")).getD .none
  let mp ← fieldsOf ((Dict.get qc (ascii "mixed_precision")).getD (.dict []))
  let listed ← holdsText (ascii "lm_head") ((Dict.get mp (ascii "quantized")).getD (.list []))
  let qmd ← fieldsOf quantizerMapDiff
  let dropped := (Dict.get qmd (ascii "dropped_action_keys")).getD .none
  return (if isTrue ((Dict.get cfg (ascii "action_gen")).getD .none) then [] else [.actionGen]) ++
    (if isText (ascii "fp8_blockwise_mixed") recipe then [] else [.recipe recipe]) ++
    (if isFalse ((Dict.get qc (ascii "quant_lmhead")).getD .none) then [] else [.quantLmhead]) ++
    (if listed then [.lmHeadQuantized] else []) ++
    if truth dropped then [.droppedActionKeys dropped] else []

def checkSourceIdentity (postHashes sourceHashes : Table Text Text) : List Problem :=
  ADDED_TENSORS.flatMap fun name =>
    match sourceHashes.get name with
    | none => [.sourceMissing name]
    | some digest => if postHashes.get name ≠ some digest then [.sourceDiffers name] else []

def isPickle (name : Text) : Bool :=
  SelfContained.suffixOf name ∈ [ascii ".pt", ascii ".pkl", ascii ".bin"]

-- What the disk has in a directory is files.
def unexpectedPickles (disk : Disk) (dir : Path) : List Text :=
  ((disk.keys.filter fun path => path.dropLast = dir ∧ path ≠ [] ∧ isPickle (nameOf path)).map nameOf).filter
    fun name => name ∉ ALLOWED_PICKLES

def checkPickleFree (disk : Disk) (dir : Path) : List Problem :=
  let unexpected := unexpectedPickles disk dir
  if unexpected = [] then []
  else [.pickles (unexpected.insertionSort fun first second => codePoints first ≤ codePoints second)]

end Predicates

section Probe

variable (arith : FloatArith) (sha : Bytes → Text)

-- `_source_hashes`
def sourceHashes (disk : Disk) (dir : Path) (wanted : List Text) : Except Failure (Table Text Text) :=
  scanShards arith.toFloatReader disk (hashTensor sha disk) wanted (shards disk dir) Table.empty

structure Facts where
  actionCount : Nat
  lmHeadDtype : Option Text
  f8WeightCount : Nat
  nQuantized : Value
  recipe : Value
  actionGen : Value
  byteIdentityChecked : Bool
  sourceIdentityChecked : Bool

structure ProbeReport where
  problems : List Problem
  facts : Facts

def ProbeReport.ok (report : ProbeReport) : Bool := report.problems.isEmpty

-- The checks that need the hashes, each with what it compares them to.
def compareBackup (disk : Disk) (post : Table Text Text) : Option Path → Except Failure (List Problem)
  | some path =>
    (hashAllTensors arith.toFloatReader sha disk path).map fun pre => checkScopedByteIdentity pre post
  | none => .ok []

def compareSource (disk : Disk) (post : Table Text Text) : Option Path → Except Failure (List Problem)
  | some dir =>
    (sourceHashes arith sha disk (transformerDir dir) ADDED_TENSORS).map (checkSourceIdentity post)
  | none => .ok []

def checkHashes (ck : Path) (backupSt sourceDir : Option Path) (disk : Disk) :
    Except Failure (List Problem) :=
  if backupSt = none ∧ sourceDir = none then .ok []
  else do
    let post ← hashAllTensors arith.toFloatReader sha disk (Target.st.path ck)
    let identity ← compareBackup arith sha disk post backupSt
    let source ← compareSource arith sha disk post sourceDir
    return identity ++ source

def getOr (value : Value) (key : Text) (default : Value) : Value :=
  match value with
  | .dict d => (Dict.get d key).getD default
  | _ => default

def factsOf (header : Header) (cfg qc : Value) (backupSt sourceDir : Option Path) : Facts where
  actionCount := actionCount header
  lmHeadDtype := (header.get lmHead).map (·.dtype)
  f8WeightCount := f8WeightCount header
  nQuantized := getOr (getOr qc (ascii "mixed_precision") (.dict [])) (ascii "n_quantized") .none
  recipe := getOr qc (ascii "recipe") .none
  actionGen := getOr cfg (ascii "action_gen") .none
  byteIdentityChecked := backupSt.isSome
  sourceIdentityChecked := sourceDir.isSome

def probeCheckpoint (ck : Path) (backupSt sourceDir : Option Path) (disk : Disk) :
    Except Failure ProbeReport := do
  let (header, _) ← readHeader arith.toFloatReader disk (Target.st.path ck)
  let cfg ← readJson arith.toFloatReader disk (Target.config.path ck)
  let qc ← readJson arith.toFloatReader disk (Target.quantization.path ck)
  let qmd ← readJson arith.toFloatReader disk (Target.mapDiff.path ck)
  let actions ← (checkActionSet arith header cfg).mapError .python
  let counts ← (checkQuantizedCount header qc).mapError .python
  let sidecars ← (checkSidecars cfg qc qmd).mapError .python
  let hashes ← checkHashes arith sha ck backupSt sourceDir disk
  return {
    problems := actions ++ checkInv7Structure header ++ counts ++ sidecars ++
      checkPickleFree disk (transformerDir ck) ++ hashes
    facts := factsOf header cfg qc backupSt sourceDir }

end Probe

end Cosmos3.Checkpoint
