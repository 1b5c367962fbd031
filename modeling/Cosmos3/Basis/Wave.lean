import Cosmos3.Basis.Checks
import Cosmos3.Basis.Text
import Mathlib.Algebra.Ring.Nat

namespace Basis.Wave

-- A file that is one RIFF chunk: its bytes from the first of the chunk on, the
-- size that the chunk declares, and how much of it is read.
structure Riff where
  bytes : List UInt8
  size : Nat
  sizeRead : Nat

-- A chunk inside it.
structure Chunk where
  name : List UInt8
  size : Nat
  sizeRead : Nat

-- What stops the reader: `wave.Error`, the end of the file, and the error of a
-- seek that leaves the chunk.
inductive Stop where
  | error
  | endOfFile
  | runtimeError
deriving DecidableEq, Repr

structure Header where
  channels : Nat
  frameRate : Nat
  frames : Nat
deriving DecidableEq, Repr

def little (bytes : List UInt8) : Nat := bytes.foldr (fun byte n => byte.toNat + 256 * n) 0

def littleBytes : Nat → Nat → List UInt8
  | 0, _ => []
  | width + 1, n => n.toUInt8 :: littleBytes width (n / 256)

theorem length_littleBytes (width n : Nat) : (littleBytes width n).length = width := by
  induction width generalizing n with
  | zero => rfl
  | succ width ih => rw [littleBytes, List.length_cons, ih]

theorem little_littleBytes {width n : Nat} (h : n < 256 ^ width) : little (littleBytes width n) = n := by
  induction width generalizing n with
  | zero =>
      rw [Nat.pow_zero, Nat.lt_one_iff] at h
      rw [h]
      rfl
  | succ width ih =>
      have hdiv : n / 256 < 256 ^ width := by
        rw [Nat.pow_succ] at h
        exact Nat.div_lt_of_lt_mul (by omega)
      have hrest := ih hdiv
      rw [little] at hrest ⊢
      rw [littleBytes, List.foldr_cons, hrest, Nat.toUInt8, UInt8.toNat_ofNat']
      omega

-- A byte of padding follows a chunk of odd size.
def padding (size : Nat) : Nat := size % 2

-- A chunk that is read to its end takes the padding along.
def Riff.read (file : Riff) (n : Nat) : List UInt8 × Riff :=
  if file.size ≤ file.sizeRead then ([], file)
  else
    let rest := file.bytes.drop file.sizeRead
    let data := rest.take (min n (file.size - file.sizeRead))
    let sizeRead := file.sizeRead + data.length
    if sizeRead = file.size then
      (data, { file with
        sizeRead := sizeRead + ((file.bytes.drop sizeRead).take (padding file.size)).length })
    else (data, { file with sizeRead := sizeRead })

-- `seek(n, 1)`
def Riff.seek (file : Riff) (n : Nat) : Except Stop Riff :=
  if file.size < file.sizeRead + n then .error .runtimeError
  else .ok { file with sizeRead := file.sizeRead + n }

def Chunk.openIn (file : Riff) : Option (Chunk × Riff) :=
  let (name, file) := file.read 4
  let (size, file) := file.read 4
  if name.length < 4 ∨ size.length < 4 then none else some (⟨name, little size, 0⟩, file)

def Chunk.read (chunk : Chunk) (file : Riff) (n : Nat) : List UInt8 × Chunk × Riff :=
  if chunk.size ≤ chunk.sizeRead then ([], chunk, file)
  else
    let (data, file) := file.read (min n (chunk.size - chunk.sizeRead))
    let sizeRead := chunk.sizeRead + data.length
    if sizeRead = chunk.size ∧ padding chunk.size = 1 then
      let (pad, file) := file.read 1
      (data, { chunk with sizeRead := sizeRead + pad.length }, file)
    else (data, { chunk with sizeRead := sizeRead }, file)

def Chunk.skip (chunk : Chunk) (file : Riff) : Except Stop Riff :=
  file.seek (chunk.size + padding chunk.size - chunk.sizeRead)

-- What a format chunk says: the channels, the frame rate and the size of a frame.
structure Format where
  channels : Nat
  frameRate : Nat
  frameSize : Nat

def formatPcm : Nat := 0x0001

def formatExtensible : Nat := 0xFFFE

def subtypePcm : List UInt8 := [1, 0, 0, 0, 0, 0, 0x10, 0, 0x80, 0, 0, 0xAA, 0, 0x38, 0x9B, 0x71]

-- The rest of a format chunk of the extensible kind.
def readExtension (tag : Nat) (chunk : Chunk) (file : Riff) : Except Stop (Chunk × Riff) :=
  if tag ≠ formatExtensible then .ok (chunk, file)
  else
    let (extension, chunk, file) := chunk.read file 8
    let (subFormat, chunk, file) := chunk.read file 16
    if extension.length < 8 ∨ subFormat.length < 16 then .error .endOfFile
    else if subFormat ≠ subtypePcm then .error .error
    else .ok (chunk, file)

def readFormat (chunk : Chunk) (file : Riff) : Except Stop (Format × Chunk × Riff) :=
  let (basic, chunk, file) := chunk.read file 14
  let tag := little (basic.take 2)
  if basic.length < 14 then .error .endOfFile
  else if tag ≠ formatPcm ∧ tag ≠ formatExtensible then .error .error
  else
    let (bits, chunk, file) := chunk.read file 2
    if bits.length < 2 then .error .endOfFile
    else (readExtension tag chunk file).bind fun (chunk, file) =>
      let sampleWidth := (little bits + 7) / 8
      let channels := little ((basic.drop 2).take 2)
      if sampleWidth = 0 ∨ channels = 0 then .error .error
      else .ok (⟨channels, little ((basic.drop 4).take 4), channels * sampleWidth⟩, chunk, file)

section Progress

-- How much of the file is still to be read.
def Riff.left (file : Riff) : Nat := file.bytes.length - file.sizeRead

-- A later point of the same file.
def Riff.Before (file later : Riff) : Prop :=
  later.bytes = file.bytes ∧ file.sizeRead ≤ later.sizeRead

theorem Riff.Before.trans {first second third : Riff} (h : first.Before second)
    (h' : second.Before third) : first.Before third :=
  ⟨h'.1.trans h.1, Nat.le_trans h.2 h'.2⟩

theorem Riff.Before.left_le {file later : Riff} (h : file.Before later) :
    later.left ≤ file.left := by
  unfold Riff.left
  rw [h.1]
  have := h.2
  omega

theorem before_read (file : Riff) (n : Nat) : file.Before (file.read n).2 := by
  unfold Riff.read
  split
  · exact ⟨rfl, Nat.le_refl _⟩
  · dsimp only
    split
    · exact ⟨rfl, by dsimp only; omega⟩
    · exact ⟨rfl, by dsimp only; omega⟩

theorem length_read_add_left (file : Riff) (n : Nat) :
    (file.read n).1.length + (file.read n).2.left ≤ file.left := by
  unfold Riff.read Riff.left
  split
  · simp
  · dsimp only
    split
    · simp only [List.length_take, List.length_drop]
      omega
    · simp only [List.length_take, List.length_drop]
      omega

theorem left_openIn {file later : Riff} {chunk : Chunk} (h : Chunk.openIn file = some (chunk, later)) :
    later.left < file.left := by
  have hname := length_read_add_left file 4
  have hsize := length_read_add_left (file.read 4).2 4
  simp only [Chunk.openIn, Option.ite_none_left_eq_some, Option.some.injEq, Prod.mk.injEq] at h
  obtain ⟨hlong, -, rfl⟩ := h
  omega

theorem before_chunkRead (chunk : Chunk) (file : Riff) (n : Nat) :
    file.Before (chunk.read file n).2.2 := by
  unfold Chunk.read
  split
  · exact ⟨rfl, Nat.le_refl _⟩
  · dsimp only
    split
    · exact (before_read file _).trans (before_read _ 1)
    · exact before_read file _

theorem before_skip {chunk : Chunk} {file later : Riff} (h : chunk.skip file = .ok later) :
    file.Before later := by
  unfold Chunk.skip Riff.seek at h
  split at h
  · cases h
  · cases h
    exact ⟨rfl, Nat.le_add_right _ _⟩

theorem before_readExtension {tag : Nat} {chunk chunk' : Chunk} {file later : Riff}
    (h : readExtension tag chunk file = .ok (chunk', later)) : file.Before later := by
  unfold readExtension at h
  split at h
  · cases h
    exact ⟨rfl, Nat.le_refl _⟩
  · dsimp only at h
    split at h
    · cases h
    · split at h
      · cases h
      · cases h
        exact (before_chunkRead chunk file 8).trans (before_chunkRead _ _ 16)

theorem before_readFormat {chunk chunk' : Chunk} {file later : Riff} {format : Format}
    (h : readFormat chunk file = .ok (format, chunk', later)) : file.Before later := by
  have hbasic := before_chunkRead chunk file 14
  have hbits := before_chunkRead (chunk.read file 14).2.1 (chunk.read file 14).2.2 2
  unfold readFormat at h
  dsimp only at h
  split at h
  · cases h
  · split at h
    · cases h
    · split at h
      · cases h
      · obtain ⟨⟨next, rest⟩, hnext, h⟩ := bind_eq_ok.mp h
        dsimp only at h
        split at h
        · cases h
        · cases h
          exact (hbasic.trans hbits).trans (before_readExtension hnext)

end Progress

-- The chunks up to the data.
def findData (format : Option Format) (file : Riff) : Except Stop Header :=
  match _hopen : Chunk.openIn file with
  | none => .error .error
  | some (chunk, body) =>
    if chunk.name = [0x66, 0x6D, 0x74, 0x20] then
      match _hread : readFormat chunk body with
      | .error stop => .error stop
      | .ok (format, chunk, rest) =>
        match _hskip : chunk.skip rest with
        | .error stop => .error stop
        | .ok next => findData (some format) next
    else if chunk.name = [0x64, 0x61, 0x74, 0x61] then
      match format with
      | none => .error .error
      | some format => .ok ⟨format.channels, format.frameRate, chunk.size / format.frameSize⟩
    else
      match _hskip : chunk.skip body with
      | .error stop => .error stop
      | .ok next => findData format next
termination_by file.left
decreasing_by
  · exact Nat.lt_of_le_of_lt ((before_readFormat ‹_›).trans (before_skip ‹_›)).left_le
      (left_openIn ‹_›)
  · exact Nat.lt_of_le_of_lt (before_skip ‹_›).left_le (left_openIn ‹_›)

-- `wave.open(io.BytesIO(data), "rb")`
def openRead (data : List UInt8) : Except Stop Header :=
  let size := (data.drop 4).take 4
  if data.length < 8 then .error .endOfFile
  else if data.take 4 ≠ [0x52, 0x49, 0x46, 0x46] then .error .error
  else
    let file : Riff := ⟨data.drop 8, little size, 0⟩
    let (form, file) := file.read 4
    if form ≠ [0x57, 0x41, 0x56, 0x45] then .error .error
    else findData none file

end Basis.Wave
