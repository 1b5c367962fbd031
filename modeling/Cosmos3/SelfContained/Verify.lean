import Cosmos3.Basis.Resolve
import Cosmos3.SelfContained.Copy
import Mathlib.Data.List.Infix

namespace Cosmos3.SelfContained

open Basis Basis.Posix

section Machine

structure Prov where
  group : Group
  rel : List Name
  source : Path
  sha256 : Option Text
  bytes : Option ℕ

structure Provenance where
  dst : List Name
  source : List Name
  fileCount : ℕ
  files : List Prov

-- The two directories as resolved paths, the hash, the text of a file, the tensors of one with
-- their hashes, the text of the record, and how deep calls may go.
structure Machine where
  dst : List Name
  source : List Name
  sha256 : List UInt8 → Text
  readText : List UInt8 → Text
  hashAllTensors : List UInt8 → Except OsError (List (Text × Text))
  render : Provenance → List UInt8
  baseRef : Text
  limit : ℕ

inductive Problem where
  | symlink (rel : List Name)
  | missingFile (rel : List Name)
  | missingDirectory (rel : List Name)
  | mismatch (rel : List Name)
  | backReference (rel : List Name)
  | tensorChanged (name : Text)
  | borrowed (name : Name)
deriving DecidableEq

structure CopyReport where
  ok : Bool
  problems : List Problem
  files : ℕ
  transformerTensorsChecked : ℕ

end Machine

section Sweep

variable (machine : Machine) (nodes : List Node) (dst : ℕ)

-- `link.parent / target`, or the target itself.
def linkPath (path : List Name) (target : Target) : List Component :=
  if target.absolute then target.parts else parts (path.tail ++ machine.dst) ++ target.parts

-- `_points_into`, for a path below the destination and the source as the base.
def pointsInto (path : List Name) : Except OsError Bool :=
  match lstat nodes dst path with
  | some (.link target) =>
    match resolve nodes machine.limit [] (linkPath machine path target) with
    | some place => .ok (decide (machine.source <:+ place))
    | none => .error .exhausted
  | _ => .ok false

def sweepItem (name : Name) : Except OsError (List CopyItem) :=
  match pointsInto machine nodes dst [name] with
  | .error e => .error e
  | .ok false => .ok []
  | .ok true =>
    match lstat nodes dst [name] with
    | some (.link target) =>
      let kind := if isDirAt nodes (below dst [name]) then Kind.dir else .file
      if target.absolute then .ok [⟨[name], kind, ⟨0, target.parts⟩, .sweep⟩]
      else
        match resolve nodes machine.limit [] (linkPath machine [name] target) with
        | some place => .ok [⟨[name], kind, below 0 place, .sweep⟩]
        | none => .error .exhausted
    | _ => .ok []

def entries : Except OsError (List Name) := (listDir nodes ⟨dst, []⟩).map (·.insertionSort nameLe)

def planSymlinkSweep : Except OsError (List CopyItem) := do
  let names ← entries nodes dst
  let items ← names.mapM (sweepItem machine nodes dst)
  return items.flatten

end Sweep

section Checks

def JSON : Text := ascii ".json"

def TXT : Text := ascii ".txt"

def SAFETENSORS : Text := ascii ".safetensors"

-- `path.suffix`
def suffixOf (name : Text) : Text :=
  let tail := (name.reverse.takeWhile (· ≠ 46)).reverse
  if tail = [] ∨ name.length ≤ tail.length + 1 then [] else 46 :: tail

variable (machine : Machine) (nodes : List Node) (dst : ℕ)

-- `_has_bf16_backref`
def hasBackRef (rel : List Name) (bytes : List UInt8) : Bool :=
  match rel with
  | [] => false
  | name :: _ =>
    (suffixOf name.text == JSON || suffixOf name.text == TXT) && decide (machine.baseRef <:+: machine.readText bytes)

abbrev Found := List Problem × List Prov

-- `problems += ...` for one after another.
def gather {ι : Type} (f : ι → Except OsError Found) : List ι → Except OsError Found
  | [] => .ok ([], [])
  | item :: rest => do
    let found ← f item
    let others ← gather f rest
    return (found.1 ++ others.1, found.2 ++ others.2)

-- `_sha256`
def sha256Of (path : Path) : Except OsError Text :=
  match openRead nodes path with
  | .ok i => .ok (machine.sha256 ((fileAt nodes i).getD []))
  | .error e => .error e

-- `_verify_file`
def verifyFile (src : Path) (rel : List Name) (group : Group) : Except OsError Found :=
  if isSymlink nodes dst rel then .ok ([.symlink rel], [])
  else
    match readAt nodes (below dst rel) with
    | none => .ok ([.missingFile rel], [])
    | some bytes => do
      let sha ← sha256Of machine nodes (below dst rel)
      let wanted ← sha256Of machine nodes src
      return ((if sha ≠ wanted then [.mismatch rel] else []) ++
          (if hasBackRef machine rel bytes then [.backReference rel] else []),
        [⟨group, rel, src, some sha, some bytes.length⟩])

-- `_verify_tree`
def verifyTree : ℕ → Path → List Name → Group → Except OsError Found
  | 0, _, _, _ => .error .exhausted
  | limit + 1, src, rel, group =>
    if isSymlink nodes dst rel then .ok ([.symlink rel], [])
    else if !isDirAt nodes (below dst rel) then .ok ([.missingDirectory rel], [])
    else
      match listDir nodes src with
      | .error e => .error e
      | .ok names =>
        gather
          (fun name =>
            if isDirAt nodes (src.child name) then verifyTree limit (src.child name) (name :: rel) group
            else verifyFile machine nodes dst (src.child name) (name :: rel) group)
          (names.insertionSort nameLe)

def verifyItem (item : CopyItem) : Except OsError Found :=
  match item.kind with
  | .dir => verifyTree machine nodes dst machine.limit item.source item.rel item.group
  | .file => verifyFile machine nodes dst item.source item.rel item.group

def hashFile (name : Name) : Except OsError (List (Text × Text)) :=
  match openRead nodes (below dst [name, transformer]) with
  | .error e => .error e
  | .ok i => do
    let hashes ← machine.hashAllTensors ((fileAt nodes i).getD [])
    return hashes.map fun hash => (name.text ++ 47 :: hash.1, hash.2)

def snapshotTransformerHashes : Except OsError (List (Text × Text)) :=
  if !isDirAt nodes (below dst [transformer]) then .ok []
  else do
    let names ← listDir nodes (below dst [transformer])
    let files := (names.filter fun name => decide (SAFETENSORS <:+ name.text)).insertionSort nameLe
    let hashes ← files.mapM (hashFile machine nodes dst)
    return hashes.flatten

def verifyTensors : Option (List (Text × Text)) → Except OsError Found
  | none => .ok ([], [])
  | some pre => do
    let post ← snapshotTransformerHashes machine nodes dst
    return ((pre.filter fun hash => post.lookup hash.1 ≠ some hash.2).map fun hash => .tensorChanged hash.1, [])

def verifyEntry (name : Name) : Except OsError Found := do
  let borrowed ← pointsInto machine nodes dst [name]
  return (if borrowed then [.borrowed name] else [], [])

-- What `verify_copy` finds.
def verifyProblems (items : List CopyItem) (pre : Option (List (Text × Text))) : Except OsError Found := do
  let planned ← gather (verifyItem machine nodes dst) items
  let tensors ← verifyTensors machine nodes dst pre
  let names ← entries nodes dst
  let borrowed ← gather (verifyEntry machine nodes dst) names
  return (planned.1 ++ tensors.1 ++ borrowed.1, planned.2)

end Checks

section Actions

variable (machine : Machine)

def PROVENANCE : Name := ⟨ascii "self_contained_provenance.json", by decide⟩

def relText (rel : List Name) : Text := ((rel.reverse.map (·.text)).intersperse [47]).flatten

def relLe (first second : Prov) : Prop :=
  Python.codePoints (relText first.rel) ≤ Python.codePoints (relText second.rel)

instance : DecidableRel relLe := fun _ _ => inferInstanceAs (Decidable (_ ≤ _))

-- `_write_provenance`
def writeProvenance (dst : ℕ) (prov : List Prov) : Posix.Action Unit :=
  (openWrite dst [PROVENANCE]).seq fun _ =>
    (descriptor dst [PROVENANCE]).seq fun i =>
      append i (machine.render ⟨machine.dst, machine.source, prov.length, prov.insertionSort relLe⟩)

def verifyCopy (plan : CopyPlan) (pre : Option (List (Text × Text))) (write : Bool) : Posix.Action CopyReport :=
  Program.seq (.read fun fs => verifyProblems machine fs.nodes plan.dst plan.items pre) fun found =>
    (if write then writeProvenance machine plan.dst found.2 else .ret ()).seq fun _ =>
      .ret ⟨found.1.isEmpty, found.1, found.2.length, (pre.getD []).length⟩

-- What `make_self_contained` does before it verifies: the plan with what was swept, and the
-- hashes from before the copy.
def assemble (dst source : ℕ) : Posix.Action (Except CopyError (CopyPlan × List (Text × Text))) :=
  Program.seq (.read fun fs => .ok (planCopy fs dst source)) fun planned =>
    match planned with
    | .error e => .ret (.error e)
    | .ok plan =>
      Program.seq (.read fun fs => snapshotTransformerHashes machine fs.nodes dst) fun pre =>
        (executeCopy machine.limit plan).seq fun _ =>
        Program.seq (.read fun fs => planSymlinkSweep machine fs.nodes dst) fun sweep =>
        (if sweep = [] then .ret () else executeCopy machine.limit { plan with items := sweep }).seq fun _ =>
          .ret (.ok ({ plan with items := plan.items ++ sweep }, pre))

def makeSelfContained (dst source : ℕ) (verify : Bool) : Posix.Action (Except CopyError CopyReport) :=
  (assemble machine dst source).seq fun assembled =>
    match assembled with
    | .error e => .ret (.error e)
    | .ok (plan, pre) =>
      if verify then (verifyCopy machine plan (some pre) true).seq fun report => .ret (.ok report)
      else
        (writeProvenance machine dst
          (plan.items.map fun item => ⟨item.group, item.rel, item.source, none, none⟩)).seq fun _ =>
          .ret (.ok ⟨true, [], plan.items.length, 0⟩)

end Actions

end Cosmos3.SelfContained
