import Cosmos3.Basis.Program
import Cosmos3.Basis.RealPath

namespace Basis.Posix

abbrev Action (α : Type) := Program Fs OsError α

section Reading

variable (nodes : List Node) (root : ℕ)

-- A path below a directory, its last name first, as one of a walk.
def below (path : List Name) : Path := ⟨root, parts path⟩

def Path.descend (path : Path) (names : List Name) : Path := ⟨path.anchor, path.parts ++ names.map .name⟩

-- The bytes of the file that a path leads to.
def readAt (path : Path) : Option (List UInt8) := (stat nodes path).bind (fileAt nodes)

def lstat : List Name → Option Node
  | [] => nodes[root]?
  | name :: up => (stat nodes (below root up)).bind fun d => (entryOf nodes d name).bind fun i => nodes[i]?

-- `path.is_symlink()`
def isSymlink (path : List Name) : Bool :=
  match lstat nodes root path with
  | some (.link _) => true
  | _ => false

-- `path.exists()`
def pathExists (path : Path) : Bool := (stat nodes path).isSome

-- `path.is_dir()`
def isDirAt (path : Path) : Bool := (stat nodes path).any (isDir nodes)

-- `open(path, "rb")`
def openRead (path : Path) : Except OsError ℕ :=
  match stat nodes path with
  | none => .error .notFound
  | some i => if (fileAt nodes i).isSome then .ok i else .error .isADirectory

def listDir (path : Path) : Except OsError (List Name) :=
  match (stat nodes path).bind (nodes[·]?) with
  | some (.dir _ entries) => .ok entries.keys
  | some _ => .error .notADirectory
  | none => .error .notFound

-- The entry that a path stands for when a file is made there: links are followed.
def locate : ℕ → ℕ → List Component → Option (ℕ × Name)
  | 0, d, path =>
    match path.getLast?, walk nodes 0 d path.dropLast with
    | some (.name name), some e =>
      match (entryOf nodes e name).bind (nodes[·]?) with
      | some (.link _) => none
      | _ => some (e, name)
    | _, _ => none
  | budget + 1, d, path =>
    match path.getLast?, walk nodes (budget + 1) d path.dropLast with
    | some (.name name), some e =>
      match (entryOf nodes e name).bind (nodes[·]?) with
      | some (.link target) => locate budget (target.start e) target.parts
      | _ => some (e, name)
    | _, _ => none

end Reading

section Writing

variable (root : ℕ) (path : List Name)

-- A change of the entry at a path.
def atParent (f : List Node → ℕ → Name → Except OsError (List Node))
    (hf : ∀ {nodes nodes' : List Node} {d : ℕ} {name : Name}, WellFormed nodes → f nodes d name = .ok nodes' →
      WellFormed nodes') (fs : Fs) : Except OsError Fs :=
  match path with
  | [] => .error .isADirectory
  | name :: up =>
    match stat fs.nodes (below root up) with
    | none => .error .notFound
    | some d => fs.change (fun nodes => f nodes d name) fun _ _ => hf

-- `path.unlink()`
def unlink : Action Unit := .act (atParent root path unlinkAt WellFormed.unlinkAt) fun _ _ => False

def makeDirStep (fs : Fs) : Except OsError Fs :=
  match atParent root path makeDirAt WellFormed.makeDirAt fs with
  | .ok fs' => .ok fs'
  | .error e => if isDirAt fs.nodes (below root path) then .ok fs else .error e

-- `os.mkdir(path)`, with a directory that is there already.
def makeDir : Action Unit := .act (makeDirStep root path) fun _ _ => False

-- `path.mkdir(parents=True, exist_ok=True)`
def mkdir : List Name → Action Unit
  | [] => .read fun fs => if isDir fs.nodes root then .ok () else .error .fileExists
  | name :: up =>
    Program.seq (.read fun fs => .ok (pathExists fs.nodes (below root up))) fun found =>
      if found then makeDir root (name :: up)
      else (mkdir up).seq fun _ => makeDir root (name :: up)

-- A file that is there is cut to nothing.
def openWriteStep (fs : Fs) : Except OsError Fs :=
  match locate fs.nodes MAXSYMLINKS root (parts path) with
  | none => .error .notFound
  | some (d, name) =>
    match entryOf fs.nodes d name with
    | none => fs.change (fun nodes => createAt nodes d name) fun _ _ => WellFormed.createAt
    | some i => fs.change (fun nodes => writeAt nodes i fun _ => []) fun _ _ => WellFormed.writeAt

-- `open(path, "wb")`
def openWrite : Action Unit := .act (openWriteStep root path) fun _ _ => False

-- The file that has just been opened there.
def descriptor : Action ℕ :=
  .read fun fs =>
    match (locate fs.nodes MAXSYMLINKS root (parts path)).bind fun entry => entryOf fs.nodes entry.1 entry.2 with
    | some i => .ok i
    | none => .error .notFound

def appendTo (i : ℕ) (bytes : List UInt8) (fs : Fs) : Except OsError Fs :=
  fs.change (fun nodes => writeAt nodes i (· ++ bytes)) fun _ _ => WellFormed.writeAt

-- A write that is cut short leaves the first bytes of it.
def append (i : ℕ) (bytes : List UInt8) : Action Unit :=
  .act (appendTo i bytes) fun fs fs' => ∃ written, written <+: bytes ∧ appendTo i written fs = .ok fs'

-- `os.replace` within a directory.
def replace (newName : Name) : Action Unit :=
  .act (atParent root path (fun nodes d name => renameAt nodes d name newName) WellFormed.renameAt) fun _ _ => False

end Writing

end Basis.Posix
