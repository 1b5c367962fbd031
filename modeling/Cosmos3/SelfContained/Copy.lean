import Cosmos3.Basis.Confined
import Cosmos3.Basis.Python
import Mathlib.Data.List.Lex
import Mathlib.Data.List.Sort

namespace Cosmos3.SelfContained

open Basis Basis.Posix

section Inventory

def CHUNK : ℕ := 64 * 2 ^ 20

def TMP_SUFFIX : Text := ascii ".s6-tmp"

def vae : Name := ⟨ascii "vae", by decide⟩

def scheduler : Name := ⟨ascii "scheduler", by decide⟩

def config : Name := ⟨ascii "config.json", by decide⟩

def vocab : Name := ⟨ascii "vocab.json", by decide⟩

def SHARED_DIRS : List Name :=
  [vae, ⟨ascii "text_tokenizer", by decide⟩, ⟨ascii "vision_encoder", by decide⟩,
    ⟨ascii "sound_tokenizer", by decide⟩, scheduler]

def ROOT_FILES : List Name :=
  [⟨ascii "model_index.json", by decide⟩, config,
    ⟨ascii "generation_config.json", by decide⟩, ⟨ascii "checkpoint.json", by decide⟩,
    ⟨ascii "tokenizer.json", by decide⟩, ⟨ascii "tokenizer_config.json", by decide⟩,
    vocab, ⟨ascii "merges.txt", by decide⟩, ⟨ascii "chat_template.json", by decide⟩,
    ⟨ascii "preprocessor_config.json", by decide⟩, ⟨ascii "video_preprocessor_config.json", by decide⟩]

def ASSET_FILES : List Name :=
  [⟨ascii "example_t2v_prompt.json", by decide⟩, ⟨ascii "example_t2v_output.mp4", by decide⟩,
    ⟨ascii "negative_prompt.json", by decide⟩, ⟨ascii "example_i2v_prompt.json", by decide⟩,
    ⟨ascii "example_i2v_input.jpg", by decide⟩, ⟨ascii "example_t2vs_prompt.json", by decide⟩,
    ⟨ascii "example_action_fd_agibotworld_first_frame.png", by decide⟩,
    ⟨ascii "example_action_fd_agibotworld_action_chunks.json", by decide⟩,
    ⟨ascii "example_action_fd_agibotworld_4chunk_output.mp4", by decide⟩]

def REASONER_DIRS : List Name := [⟨ascii "transformer", by decide⟩, ⟨ascii "vision_encoder", by decide⟩]

def REASONER_CONFIGS : List Name :=
  [config, ⟨ascii "generation_config.json", by decide⟩,
    ⟨ascii "tokenizer.json", by decide⟩, ⟨ascii "tokenizer_config.json", by decide⟩,
    vocab, ⟨ascii "merges.txt", by decide⟩, ⟨ascii "chat_template.json", by decide⟩,
    ⟨ascii "preprocessor_config.json", by decide⟩, ⟨ascii "video_preprocessor_config.json", by decide⟩]

def assets : Name := ⟨ascii "assets", by decide⟩

def reasoner : Name := ⟨ascii "reasoner", by decide⟩

def transformer : Name := ⟨ascii "transformer", by decide⟩

end Inventory

section Plan

inductive Kind where
  | file
  | dir
deriving DecidableEq

inductive Group where
  | shared
  | root
  | assets
  | reasoner
  | sweep
deriving DecidableEq

-- `rel` is the path below the destination, its last name first; `dest` is that path there.
structure CopyItem where
  rel : List Name
  kind : Kind
  source : Path
  group : Group
deriving DecidableEq

structure CopyPlan where
  items : List CopyItem
  dst : ℕ
  source : ℕ

inductive CopyError where
  | absent (missing : List Path)
  | transformer (rel : List Name)
deriving DecidableEq

-- The inventory under a source directory.
def inventory (src : Path) : List CopyItem :=
  SHARED_DIRS.map (fun d => ⟨[d], .dir, src.child d, .shared⟩) ++
    ROOT_FILES.map (fun f => ⟨[f], .file, src.child f, .root⟩) ++
    ASSET_FILES.map (fun a => ⟨[a, assets], .file, (src.child assets).child a, .assets⟩) ++
    REASONER_DIRS.map (fun d => ⟨[d, reasoner], .dir, src.child d, .reasoner⟩) ++
    REASONER_CONFIGS.map (fun f => ⟨[f, reasoner], .file, src.child f, .reasoner⟩)

def planCopy (fs : Fs) (dst source : ℕ) : Except CopyError CopyPlan :=
  let wanted := inventory ⟨source, []⟩
  let missing := wanted.filter fun item => !pathExists fs.nodes item.source
  if missing ≠ [] then .error (.absent (missing.map (·.source)))
  else
    match wanted.find? fun item => item.rel.getLast? = some transformer with
    | some item => .error (.transformer item.rel)
    | none => .ok ⟨wanted, dst, source⟩

end Plan

section Execute

-- `dest.name + _TMP_SUFFIX`
def tmpName (name : Name) : Name :=
  ⟨name.text ++ TMP_SUFFIX, by
    obtain ⟨-, -, -, hslash⟩ := name.isName
    have hlong : 7 ≤ (name.text ++ TMP_SUFFIX).length := by
      rw [List.length_append]
      exact Nat.le_add_left _ _
    refine ⟨fun h => ?_, fun h => ?_, fun h => ?_, ?_⟩
    · rw [h] at hlong
      exact absurd hlong (by decide)
    · rw [h] at hlong
      exact absurd hlong (by decide)
    · rw [h] at hlong
      exact absurd hlong (by decide)
    · rw [List.mem_append, not_or]
      exact ⟨hslash, by decide⟩⟩

def nameLe (first second : Name) : Prop := Python.codePoints first.text ≤ Python.codePoints second.text

instance : DecidableRel nameLe := fun _ _ => inferInstanceAs (Decidable (_ ≤ _))

variable (root : ℕ)

def readChunk (src pos : ℕ) : Posix.Action (List UInt8) :=
  .read fun fs =>
    match fileAt fs.nodes src with
    | some bytes => .ok ((bytes.drop pos).take CHUNK)
    | none => .error .isADirectory

-- The loop ends at the end of the file, and every chunk before has a byte at least.
def copyChunks (src out : ℕ) : ℕ → ℕ → Posix.Action Unit
  | 0, _ => .raise .exhausted
  | fuel + 1, pos =>
    (readChunk src pos).seq fun chunk =>
      if chunk = [] then .ret ()
      else (append out chunk).seq fun _ => copyChunks src out fuel (pos + chunk.length)

-- How long the loop can be.
def sizeOf (i : ℕ) : Posix.Action ℕ := .read fun fs => .ok ((fileAt fs.nodes i).elim 0 List.length)

-- `_copy_file_bytes`
def copyFileBytes (src : Path) : List Name → Posix.Action Unit
  | [] => .raise .isADirectory
  | name :: up =>
    Program.seq
      (.read fun fs => .ok (isSymlink fs.nodes root (tmpName name :: up) ||
        pathExists fs.nodes (below root (tmpName name :: up))))
      fun found =>
        (if found then unlink root (tmpName name :: up) else .ret ()).seq fun _ =>
        Program.seq (.read fun fs => openRead fs.nodes src) fun fi =>
        (openWrite root (tmpName name :: up)).seq fun _ =>
        (descriptor root (tmpName name :: up)).seq fun fo =>
        (sizeOf fi).seq fun size =>
        (copyChunks fi fo (size + 1) 0).seq fun _ =>
        replace root (tmpName name :: up) name

-- `if path.is_symlink(): path.unlink()`
def dropLink (path : List Name) : Posix.Action Unit :=
  Program.seq (.read fun fs => .ok (isSymlink fs.nodes root path)) fun link =>
    if link then unlink root path else .ret ()

-- `_ensure_real_dir`
def ensureRealDir (path : List Name) : Posix.Action Unit := (dropLink root path).seq fun _ => mkdir root path

-- `_ensure_real_parents`, for the path of the last of them.
def ensureRealDirs : List Name → Posix.Action Unit
  | [] => .ret ()
  | name :: up => (ensureRealDirs up).seq fun _ => ensureRealDir root (name :: up)

-- `_copy_tree`, as deep as the recursion may go.
def copyTree : ℕ → Path → List Name → Posix.Action Unit
  | 0, _, _ => .raise .exhausted
  | limit + 1, src, dst =>
    Program.seq (.read fun fs => listDir fs.nodes src) fun names =>
      Program.forEach
        (fun name =>
          Program.seq (.read fun fs => .ok (isDirAt fs.nodes (src.child name))) fun dir =>
            if dir then (ensureRealDir root (name :: dst)).seq fun _ => copyTree limit (src.child name) (name :: dst)
            else (dropLink root (name :: dst)).seq fun _ => copyFileBytes root (src.child name) (name :: dst))
        (names.insertionSort nameLe)

def copyItem (limit : ℕ) (item : CopyItem) : Posix.Action Unit :=
  (ensureRealDirs root item.rel.tail).seq fun _ =>
    match item.kind with
    | .dir => (ensureRealDir root item.rel).seq fun _ => copyTree root limit item.source item.rel
    | .file => (dropLink root item.rel).seq fun _ => copyFileBytes root item.source item.rel

def executeCopy (limit : ℕ) (plan : CopyPlan) : Posix.Action Unit :=
  Program.forEach (copyItem plan.dst limit) plan.items

end Execute

end Cosmos3.SelfContained
