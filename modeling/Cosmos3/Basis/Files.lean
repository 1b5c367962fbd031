import Cosmos3.Basis.Program
import Mathlib.Data.List.AList

namespace Basis

-- The regular files, by their paths.
abbrev Files (π : Type) := AList fun _ : π => List UInt8

namespace Files

variable {π ε : Type} [DecidableEq π]

-- `os.replace`
def replace (src dst : π) (files : Files π) : Option (Files π) :=
  (files.lookup src).map fun bytes => (files.erase src).insert dst bytes

def append (p : π) (bytes : List UInt8) (files : Files π) : Files π :=
  files.insert p ((files.lookup p).getD [] ++ bytes)

-- A write at an offset; a gap before it is filled with zeros.
def patch (offset : ℕ) (chunk bytes : List UInt8) : List UInt8 :=
  (bytes ++ List.replicate (offset - bytes.length) 0).take offset ++ chunk ++
    bytes.drop (offset + chunk.length)

def writeAt (p : π) (offset : ℕ) (chunk : List UInt8) (files : Files π) : Files π :=
  files.insert p (patch offset chunk ((files.lookup p).getD []))

section Patch

variable {offset k : ℕ} {chunk bytes : List UInt8}

theorem length_patch :
    (patch offset chunk bytes).length = max bytes.length (offset + chunk.length) := by
  simp only [patch, List.length_append, List.length_take, List.length_replicate, List.length_drop]
  omega

theorem patch_getElem?_of_lt (hk : k < bytes.length) (hlt : k < offset) :
    (patch offset chunk bytes)[k]? = bytes[k]? := by
  rw [patch, List.append_assoc, List.getElem?_append_left (by simp; omega),
    List.getElem?_take_of_lt hlt, List.getElem?_append_left hk]

theorem patch_getElem?_of_mem (hle : offset ≤ k) (hlt : k < offset + chunk.length) :
    (patch offset chunk bytes)[k]? = chunk[k - offset]? := by
  have hlen : ((bytes ++ List.replicate (offset - bytes.length) 0).take offset).length = offset := by
    simp only [List.length_take, List.length_append, List.length_replicate]
    omega
  rw [patch, List.append_assoc, List.getElem?_append_right (by omega), hlen,
    List.getElem?_append_left (by omega)]

theorem patch_getElem?_of_le (hle : offset + chunk.length ≤ k) :
    (patch offset chunk bytes)[k]? = bytes[k]? := by
  have hlen : ((bytes ++ List.replicate (offset - bytes.length) 0).take offset ++ chunk).length =
      offset + chunk.length := by
    simp only [List.length_take, List.length_append, List.length_replicate]
    omega
  rw [patch, List.getElem?_append_right (by omega), hlen, List.getElem?_drop]
  congr 1
  omega

end Patch

section Lookup

variable {files files' : Files π} {src dst p : π}

theorem lookup_writeAt (p : π) (offset : ℕ) (chunk : List UInt8) (files : Files π) :
    (writeAt p offset chunk files).lookup p =
      some (patch offset chunk ((files.lookup p).getD [])) := AList.lookup_insert _

theorem lookup_writeAt_ne {q : π} (hq : q ≠ p) (offset : ℕ) (chunk : List UInt8) (files : Files π) :
    (writeAt p offset chunk files).lookup q = files.lookup q := AList.lookup_insert_ne hq

theorem replace_eq_some (h : files.replace src dst = some files') :
    ∃ bytes, files.lookup src = some bytes ∧ files'.lookup dst = some bytes ∧
      (src ≠ dst → files'.lookup src = none) ∧
      ∀ p, p ≠ src → p ≠ dst → files'.lookup p = files.lookup p := by
  obtain ⟨bytes, hbytes, rfl⟩ := Option.map_eq_some_iff.mp h
  refine ⟨bytes, hbytes, AList.lookup_insert _, fun hne => ?_, fun p hsrc hdst => ?_⟩
  · rw [AList.lookup_insert_ne hne, AList.lookup_erase]
  · rw [AList.lookup_insert_ne hdst, AList.lookup_erase_ne hsrc]

theorem replace_mem (hsrc : src ∈ files) (dst : π) : ∃ files', files.replace src dst = some files' := by
  obtain ⟨bytes, hbytes⟩ := Option.isSome_iff_exists.mp (AList.lookup_isSome.mpr hsrc)
  exact ⟨_, by rw [replace, hbytes]; rfl⟩

theorem lookup_append (p : π) (bytes : List UInt8) (files : Files π) :
    (append p bytes files).lookup p = some ((files.lookup p).getD [] ++ bytes) :=
  AList.lookup_insert _

theorem lookup_append_ne {q : π} (hq : q ≠ p) (bytes : List UInt8) (files : Files π) :
    (append p bytes files).lookup q = files.lookup q := AList.lookup_insert_ne hq

end Lookup

section Operations

variable (missing : π → ε)

def readFile (p : π) : Program (Files π) ε (List UInt8) :=
  .read fun files =>
    match files.lookup p with
    | some bytes => .ok bytes
    | none => .error (missing p)

-- `open(path, "wb")`
def createFile (p : π) : Program (Files π) ε Unit :=
  .act (fun files => .ok (files.insert p [])) fun _ _ => False

-- A write that is cut short leaves the first bytes of it.
def appendFile (p : π) (bytes : List UInt8) : Program (Files π) ε Unit :=
  .act (fun files => .ok (append p bytes files))
    fun files files' => ∃ written, written <+: bytes ∧ files' = append p written files

def replaceFile (src dst : π) : Program (Files π) ε Unit :=
  .act
    (fun files =>
      match files.replace src dst with
      | some files' => .ok files'
      | none => .error (missing src))
    fun _ _ => False

-- `if path.exists(): path.unlink()`
def discardFile (p : π) : Program (Files π) ε Unit :=
  .act (fun files => .ok (files.erase p)) fun _ _ => False

-- `path.write_text(text)`
def writeFile (p : π) (bytes : List UInt8) : Program (Files π) ε Unit :=
  (createFile p).seq fun _ => appendFile p bytes

variable {missing} {files files' : Files π} {p src dst : π} {bytes : List UInt8} {u : Unit}

theorem exec_readFile : (readFile missing p).exec files = (.ok bytes, files') ↔
    files.lookup p = some bytes ∧ files' = files := by
  rw [readFile, Program.exec_read_ok]
  refine and_congr_left fun _ => ?_
  cases files.lookup p <;> simp

theorem exec_createFile : (createFile (ε := ε) p).exec files = (.ok u, files') ↔
    files' = files.insert p [] := by
  rw [createFile, Program.exec_act_ok, Except.ok.injEq, eq_comm]

theorem exec_appendFile : (appendFile (ε := ε) p bytes).exec files = (.ok u, files') ↔
    files' = append p bytes files := by
  rw [appendFile, Program.exec_act_ok, Except.ok.injEq, eq_comm]

theorem exec_replaceFile : (replaceFile missing src dst).exec files = (.ok u, files') ↔
    files.replace src dst = some files' := by
  rw [replaceFile, Program.exec_act_ok]
  cases files.replace src dst <;> simp

theorem writeFile_ok (h : (writeFile (ε := ε) p bytes).exec files = (.ok u, files')) :
    files'.lookup p = some bytes ∧ ∀ q, q ≠ p → files'.lookup q = files.lookup q := by
  obtain ⟨_, m, hcreate, hwrite⟩ := Program.exec_seq_ok.mp h
  obtain rfl := exec_createFile.mp hcreate
  obtain rfl := exec_appendFile.mp hwrite
  refine ⟨?_, fun q hq => ?_⟩
  · rw [lookup_append, AList.lookup_insert, Option.getD_some, List.nil_append]
  · rw [lookup_append_ne hq, AList.lookup_insert_ne hq]

theorem writeFile_returns (p : π) (bytes : List UInt8) (files : Files π) :
    ∃ files', (writeFile (ε := ε) p bytes).exec files = (.ok (), files') :=
  ⟨_, Program.exec_seq_ok.mpr ⟨(), _, exec_createFile.mpr rfl, exec_appendFile.mpr rfl⟩⟩

end Operations

section Rules

open Program

variable {missing : π → ε} {I P E : Files π → Prop} {p src dst : π}

-- What the file at a path does not matter for.
def Ignores (p : π) (I : Files π → Prop) : Prop :=
  ∀ files files', (∀ q, q ≠ p → files'.lookup q = files.lookup q) → I files → I files'

theorem spec_replaceFile {Q : Unit → Files π → Prop} (hE : ∀ files, P files → E files)
    (h : ∀ files files', P files → files.replace src dst = some files' → Q () files' ∧ E files') :
    Spec P (replaceFile missing src dst) Q E := by
  refine Spec.act (fun files files' hfiles hstep => ?_) (fun _ _ _ hpart => hpart.elim) hE
  split at hstep
  · rename_i hreplace
    cases hstep
    exact h files _ hfiles hreplace
  · cases hstep

theorem keeps_readFile (I : Files π → Prop) (p : π) : Keeps I (readFile missing p) := .read I _

variable (hI : Ignores p I)

include hI

theorem keeps_createFile : Keeps I (createFile (ε := ε) p) := by
  have hinsert : ∀ files, I files → I (files.insert p []) := fun files =>
    hI files _ fun q hq => AList.lookup_insert_ne hq
  refine Spec.act (fun files files' hfiles hstep => ?_) (fun _ _ _ hpart => hpart.elim) fun _ h => h
  cases hstep
  exact ⟨hinsert files hfiles, hinsert files hfiles⟩

theorem keeps_appendFile (bytes : List UInt8) : Keeps I (appendFile (ε := ε) p bytes) := by
  have happend : ∀ files written, I files → I (append p written files) := fun files written =>
    hI files _ fun q hq => lookup_append_ne hq written files
  refine Spec.act (fun files files' hfiles hstep => ?_) (fun files files' hfiles hpart => ?_) fun _ h => h
  · cases hstep
    exact ⟨happend files bytes hfiles, happend files bytes hfiles⟩
  · obtain ⟨written, -, rfl⟩ := hpart
    exact happend files written hfiles

theorem keeps_discardFile : Keeps I (discardFile (ε := ε) p) := by
  have herase : ∀ files, I files → I (files.erase p) := fun files =>
    hI files _ fun q hq => AList.lookup_erase_ne hq
  refine Spec.act (fun files files' hfiles hstep => ?_) (fun _ _ _ hpart => hpart.elim) fun _ h => h
  cases hstep
  exact ⟨herase files hfiles, herase files hfiles⟩

theorem keeps_writeFile (bytes : List UInt8) : Keeps I (writeFile (ε := ε) p bytes) :=
  (keeps_createFile hI).seq fun _ => keeps_appendFile hI bytes

end Rules

end Files

end Basis
