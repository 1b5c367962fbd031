import Cosmos3.Basis.Files
import Cosmos3.Checkpoint.Sidecars
import Mathlib.Data.List.Infix
import Mathlib.Data.List.Lex

namespace Cosmos3.Checkpoint

open Basis Basis.Python

abbrev Disk := Files Path

abbrev Action (α : Type) := Program Disk Failure α

section Paths

def BACKUP_SUFFIX : Text := ascii ".s5-orig.bak"

def TMP_SUFFIX : Text := ascii ".s5-tmp"

def TRANSFORMER_ST : Text := ascii "diffusion_pytorch_model.safetensors"

def nameOf (path : Path) : Text := path.getLast?.getD []

-- `path.with_name(path.name + suffix)`
def withSuffix (path : Path) (suffix : Text) : Path := path.dropLast ++ [nameOf path ++ suffix]

def transformerDir (dir : Path) : Path := dir ++ [ascii "transformer"]

-- The four files of a checkpoint that the mutation replaces.
inductive Target where
  | st
  | config
  | quantization
  | mapDiff
deriving DecidableEq, Repr

def Target.path (ck : Path) : Target → Path
  | .st => transformerDir ck ++ [TRANSFORMER_ST]
  | .config => transformerDir ck ++ [ascii "config.json"]
  | .quantization => ck ++ [ascii "quantization_config.json"]
  | .mapDiff => ck ++ [ascii "quantizer_map_diff.json"]

def Target.backup (ck : Path) (target : Target) : Path := withSuffix (target.path ck) BACKUP_SUFFIX

def tmpPath (ck : Path) : Path := withSuffix (Target.st.path ck) TMP_SUFFIX

-- Paths are ordered by their parts, and those by their code points.
def pathLe (first second : Path) : Prop := first.map codePoints ≤ second.map codePoints

instance : DecidableRel pathLe := fun _ _ => inferInstanceAs (Decidable (_ ≤ _))

-- `sorted(dir.glob("*.safetensors"))`
def shards (disk : Disk) (dir : Path) : List Path :=
  (disk.keys.filter fun path => path.dropLast = dir ∧ path ≠ [] ∧
    ascii ".safetensors" <:+ nameOf path).insertionSort pathLe

end Paths

section Reading

variable (floats : FloatReader) (sha : Bytes → Text) (disk : Disk)

def openFile (path : Path) : Except Failure Bytes :=
  match disk.lookup path with
  | some file => .ok file
  | none => .error (.fileNotFound path)

def readHeader (path : Path) : Except Failure (Header × Nat) := do
  let file ← openFile disk path
  match readHeaderFile floats file with
  | some found => return found
  | none => throw (.notSafetensors path)

def readJson (path : Path) : Except Failure Value := do
  let file ← openFile disk path
  match loadsBytes floats file with
  | some value => return value
  | none => throw (.notJson path)

-- `_CHUNK`
def CHUNK : Nat := 64 * 2 ^ 20

-- The loop of the readers: what they read from a position on, `none` at the end of the
-- file. A chunk has at least one byte, so that there are not more of them than bytes.
def readChunks (file : Bytes) : Nat → Nat → Nat → Option (List Bytes)
  | _, _, 0 => some []
  | 0, _, _ + 1 => none
  | fuel + 1, pos, remaining + 1 =>
    let chunk := (file.drop pos).take (min CHUNK (remaining + 1))
    if chunk = [] then none
    else (readChunks file fuel (pos + chunk.length) (remaining + 1 - chunk.length)).map (chunk :: ·)

def hashTensor (path : Path) (start : Nat) (entry : Entry) : Except Failure Text := do
  let file ← openFile disk path
  match readChunks file entry.size (start + entry.start) entry.size with
  | some chunks => return sha chunks.flatten
  | none => throw (.mutation (.eofHashing path entry.start entry.stop))

def hashFields (path : Path) (start : Nat) (fields : List (Text × Entry)) :
    Except Failure (List (Text × Text)) :=
  fields.mapM fun field => (hashTensor sha disk path start field.2).map fun digest => (field.1, digest)

def hashAllTensors (path : Path) : Except Failure (Table Text Text) := do
  let (header, n) ← readHeader floats disk path
  let digests ← hashFields sha disk path (dataStart n) header.fields
  return Table.empty.setAll digests

def elemCount : Option Entry → Nat
  | none => 0
  | some entry => entry.shape.foldl (· * ·) 1

-- Where a tensor of the source was found.
structure Source where
  shard : Path
  start : Nat
  entry : Entry

-- The scan of the shards, with what is made of the first one that has a name.
def findIn {α : Type} (make : Path → Nat → Entry → Except Failure α) (shard : Path) (start : Nat)
    (header : Header) : List Text → Table Text α → Except Failure (Table Text α)
  | [], found => .ok found
  | name :: wanted, found =>
    match if name ∈ found.keys then none else header.get name with
    | some entry => do
      let a ← make shard start entry
      findIn make shard start header wanted (found.set name a)
    | none => findIn make shard start header wanted found

def scanShards {α : Type} (make : Path → Nat → Entry → Except Failure α) (wanted : List Text) :
    List Path → Table Text α → Except Failure (Table Text α)
  | [], found => .ok found
  | shard :: rest, found => do
    let (header, n) ← readHeader floats disk shard
    let found ← findIn make shard (dataStart n) header wanted found
    scanShards make wanted rest found

def resolveSourceTensors (dir : Path) (wanted : List Text) : Except Failure (Table Text Source) := do
  let found ← scanShards floats disk (fun shard start entry => .ok ⟨shard, start, entry⟩) wanted
    (shards disk dir) Table.empty
  let missing := wanted.filter fun name => name ∉ found.keys
  if missing ≠ [] then throw (.mutation (.sourceNotFound dir missing))
  return found

end Reading

section Writing

variable (floats : FloatReader) (sha : Bytes → Text)

def copyChunks (src out : Path) (failure : Failure) : Nat → Nat → Nat → Action Unit
  | _, _, 0 => .ret ()
  | 0, _, _ + 1 => .raise failure
  | fuel + 1, pos, remaining + 1 => do
    let file ← Files.readFile .fileNotFound src
    let chunk := (file.drop pos).take (min CHUNK (remaining + 1))
    if chunk = [] then .raise failure
    else
      Files.appendFile out chunk
      copyChunks src out failure fuel (pos + chunk.length) (remaining + 1 - chunk.length)

-- `_copy_range`
def copyRange (src : Path) (start : Nat) (entry : Entry) (out : Path) : Action Unit := do
  -- `open` and `seek`
  let _ ← Files.readFile .fileNotFound src
  copyChunks src out (.mutation (.eofCopying src entry.start entry.stop)) entry.size
    (start + entry.start) entry.size

-- Where the bytes of a tensor come from, and its entry there.
def origin (fp8Path : Path) (fp8Start : Nat) (fp8 : Header) (plan : MutationPlan)
    (srcmap : Table Text Source) (name : Text) : Except Failure Source :=
  if name ∈ plan.keep then
    match fp8.get name with
    | some entry => .ok ⟨fp8Path, fp8Start, entry⟩
    | none => .error (.python .keyError)
  else
    match srcmap.get name with
    | some source => .ok source
    | none => .error (.python .keyError)

def copyAll (fp8Path : Path) (fp8Start : Nat) (fp8 : Header) (plan : MutationPlan)
    (srcmap : Table Text Source) (out : Path) : List Text → Action Unit
  | [] => .ret ()
  | name :: rest => do
    let source ← Program.read fun _ => origin fp8Path fp8Start fp8 plan srcmap name
    copyRange source.shard source.start source.entry out
    copyAll fp8Path fp8Start fp8 plan srcmap out rest

def writeRewrite (fp8Path : Path) (fp8Start : Nat) (fp8 : Header) (plan : MutationPlan)
    (layout : Layout) (srcmap : Table Text Source) (out : Path) : Action Unit := do
  Files.createFile out
  match buildHeaderBytes floats layout.entries.toDict with
  | none => .raise .structError
  | some header =>
    Files.appendFile out header
    copyAll fp8Path fp8Start fp8 plan srcmap out layout.order

-- One name of `_verify_output`: the tensor is there with the expected hash.
def verifyTensor (disk : Disk) (out : Path) (start : Nat) (header : Header)
    (digests : Table Text Text) (missing changed : Text → MutationError) (name : Text) :
    Except Failure Unit := do
  match header.get name with
  | none => throw (.mutation (missing name))
  | some entry =>
    let digest ← hashTensor sha disk out start entry
    match digests.get name with
    | none => throw (.python .keyError)
    | some expected => if digest ≠ expected then throw (.mutation (changed name))

def verifyOutput (out : Path) (plan : MutationPlan) (preHashes srcHashes : Table Text Text)
    (disk : Disk) : Except Failure Unit := do
  let (header, n) ← readHeader floats disk out
  runChecks (verifyTensor sha disk out (dataStart n) header preHashes .keptMissing .keptChanged) plan.keep
  runChecks (verifyTensor sha disk out (dataStart n) header srcHashes .addedMissing .addedChanged) plan.add
  runChecks
    (fun name => if name ∈ header.keys then throw (.mutation (.sidecarPresent name)) else .ok ())
    (plan.drop.filter fun name => name ∉ ADDED_TENSORS)

def backupMove (path : Path) : Action Unit :=
  Files.replaceFile .fileNotFound path (withSuffix path BACKUP_SUFFIX)

def restoreOne (backup : Path) : Action Path :=
  let name := (nameOf backup).take ((nameOf backup).length - BACKUP_SUFFIX.length)
  if name = [] then .raise (.python .valueError)
  else do
    let target := backup.dropLast ++ [name]
    Files.replaceFile .fileNotFound backup target
    return target

def restoreAll : List Path → Action (List Path)
  | [] => .ret []
  | backup :: rest => do
    let target ← restoreOne backup
    let restored ← restoreAll rest
    return target :: restored

-- `sorted(root.rglob("*" + _BACKUP_SUFFIX))`
def backups (disk : Disk) (root : Path) : List Path :=
  (disk.keys.filter fun path => root <+: path ∧ path ≠ root ∧
    BACKUP_SUFFIX <:+ nameOf path).insertionSort pathLe

def restoreBackup (ck : Path) : Action (List Path) := do
  let found ← Program.read fun disk => .ok (backups disk ck)
  let restored ← restoreAll found
  if restored = [] then .raise (.mutation (.noBackups ck))
  else return restored

end Writing

section Apply

variable (arith : FloatArith) (sha : Bytes → Text) (order : SetOrder)

structure Report where
  ckptDir : Path
  sourceDir : Path
  actionCountBefore : Nat
  actionCountAfter : Nat
  lmHeadDtypeBefore : Text
  lmHeadDtypeAfter : Text
  keptTensorCount : Nat
  addedTensors : List Text
  droppedTensors : List Text
  droppedScaleElements : Nat
  backup : Bool
  verified : Bool

def actionCount (header : Header) : Nat := (ACTION_TENSORS.filter fun name => name ∈ header.keys).length

-- `header["lm_head.weight"]["dtype"]`
def lmHeadDtype (header : Header) : Except Failure Text :=
  match header.get lmHead with
  | some entry => .ok entry.dtype
  | none => .error (.python .keyError)

-- What the files are now, told at the end.
def makeReport (ck src : Path) (backup verify : Bool) (fp8 : Header) (plan : MutationPlan)
    (dropped : Nat) (disk : Disk) : Except Failure Report := do
  let (after, _) ← readHeader arith.toFloatReader disk (Target.st.path ck)
  let before ← lmHeadDtype fp8
  let now ← lmHeadDtype after
  return {
    ckptDir := ck, sourceDir := src
    actionCountBefore := actionCount fp8, actionCountAfter := actionCount after
    lmHeadDtypeBefore := before, lmHeadDtypeAfter := now
    keptTensorCount := plan.keep.length, addedTensors := plan.add, droppedTensors := plan.drop
    droppedScaleElements := dropped, backup := backup, verified := verify }

-- The bytes of a JSON file as the tool writes it.
def jsonBytes (d : Dict) : Bytes :=
  asciiBytes (dumpsStyled arith.toFloatText .indented 0 (.dict d) ++ [lf])

-- What the first half reads and decides.
structure Prepared where
  config : Value
  header : Header
  start : Nat
  srcmap : Table Text Source
  plan : MutationPlan
  layout : Layout
  preHashes : Table Text Text
  srcHashes : Table Text Text

def prepare (ck src : Path) (disk : Disk) : Except Failure Prepared := do
  let floats := arith.toFloatReader
  let config ← readJson floats disk (Target.config.path ck)
  let (header, n) ← readHeader floats disk (Target.st.path ck)
  let srcmap ← resolveSourceTensors floats disk (transformerDir src) ADDED_TENSORS
  let bf16Src := srcmap.map (·.entry)
  let plan ← planMutation arith order header bf16Src config
  let layout ← buildLayout arith plan header bf16Src
  let kept ← plan.keep.mapM fun name =>
    match header.get name with
    | some entry => .ok (name, entry)
    | none => .error (.python .keyError)
  let preHashes ← hashFields sha disk (Target.st.path ck) (dataStart n) kept
  let srcHashes ← srcmap.fields.mapM fun field =>
    (hashTensor sha disk field.2.shard field.2.start field.2.entry).map fun digest => (field.1, digest)
  return ⟨config, header, dataStart n, srcmap, plan, layout, Table.empty.setAll preHashes,
    Table.empty.setAll srcHashes⟩

-- The temporary file, written and verified, or discarded.
def writeTmp (ck : Path) (verify : Bool) (p : Prepared) : Action Unit :=
  (do
    writeRewrite arith.toFloatReader (Target.st.path ck) p.start p.header p.plan p.layout p.srcmap
      (tmpPath ck)
    if verify then
      Program.read (verifyOutput arith.toFloatReader sha (tmpPath ck) p.plan p.preHashes p.srcHashes)
    else .ret ()).onError (Files.discardFile (tmpPath ck))

def backupMoves (ck : Path) (backup : Bool) : List Target → Action Unit
  | [] => .ret ()
  | target :: rest => do
    if backup then backupMove (target.path ck) else .ret ()
    backupMoves ck backup rest

-- The moves that put the temporary file in the place of the old one.
def commitMoves (ck : Path) (backup : Bool) : Action Unit := do
  backupMoves ck backup [.st]
  Files.replaceFile .fileNotFound (tmpPath ck) (Target.st.path ck)
  backupMoves ck backup [.config, .quantization, .mapDiff]

-- The original of a sidecar: its backup, if there is one.
def originalPath (ck : Path) (backup : Bool) (target : Target) : Path :=
  if backup then target.backup ck else target.path ck

def writeSidecars (ck : Path) (backup : Bool) (config : Value) (dropped : Nat) : Action Unit := do
  let cfg ← Program.read fun _ => (asDict config).mapError .python
  Files.writeFile (Target.config.path ck) (jsonBytes arith (Dict.set cfg (ascii "action_gen") (.bool true)))
  let qc ← Program.read fun disk =>
    readJson arith.toFloatReader disk (originalPath ck backup .quantization)
  let qmd ← Program.read fun disk => readJson arith.toFloatReader disk (originalPath ck backup .mapDiff)
  let (newQc, newQmd) ← Program.read fun _ => (updatedSidecars arith qc qmd dropped).mapError .python
  Files.writeFile (Target.quantization.path ck) (jsonBytes arith newQc)
  Files.writeFile (Target.mapDiff.path ck) (jsonBytes arith newQmd)

def applyMutation (ck src : Path) (backup verify : Bool) : Action Report := do
  let p ← Program.read (prepare arith sha order ck src)
  let dropped := elemCount (p.header.get lmHeadAmax) + elemCount (p.header.get lmHeadScale)
  writeTmp arith sha ck verify p
  commitMoves ck backup
  writeSidecars arith ck backup p.config dropped
  Program.read (makeReport arith ck src backup verify p.header p.plan dropped)

end Apply

end Cosmos3.Checkpoint
