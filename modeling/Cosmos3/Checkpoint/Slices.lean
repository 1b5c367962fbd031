import Cosmos3.Checkpoint.Rewrite

namespace Cosmos3.Checkpoint

open Basis

section Slices

-- The bytes from a position on, if the file has as many.
def slice (file : Bytes) (pos size : Nat) : Option Bytes :=
  if size = 0 ∨ pos + size ≤ file.length then some ((file.drop pos).take size) else none

variable {file bytes : Bytes} {pos size : Nat}

theorem length_of_slice (h : slice file pos size = some bytes) : bytes.length = size := by
  unfold slice at h
  split_ifs at h with hfits
  rw [← Option.some.inj h, List.length_take, List.length_drop]
  omega

theorem slice_zero (file : Bytes) (pos : Nat) : slice file pos 0 = some [] := by
  rw [slice, if_pos (.inl rfl), List.take_zero]

-- What stands between two parts is the slice behind the first.
theorem slice_middle (before block after : Bytes) :
    slice (before ++ block ++ after) before.length block.length = some block := by
  have hfits : before.length + block.length ≤ (before ++ block ++ after).length := by
    simp only [List.length_append]
    omega
  rw [slice, if_pos (.inr hfits), List.append_assoc, List.drop_left, List.take_left]

theorem slice_split {first : Nat} (hfirst : first ≤ size) (hpos : 0 < size) :
    slice file pos size = some bytes ↔
      ∃ rest, slice file (pos + first) (size - first) = some rest ∧ pos + first ≤ file.length ∧
        bytes = (file.drop pos).take first ++ rest := by
  unfold slice
  by_cases hfits : pos + size ≤ file.length
  · have hrest : size - first = 0 ∨ pos + first + (size - first) ≤ file.length := by omega
    have htake : (file.drop pos).take size =
        (file.drop pos).take first ++ (file.drop (pos + first)).take (size - first) := by
      rw [← List.drop_drop, ← List.take_add, Nat.add_sub_cancel' hfirst]
    rw [if_pos (.inr hfits), if_pos hrest, htake]
    constructor
    · intro h
      exact ⟨_, rfl, by omega, (Option.some.inj h).symm⟩
    · rintro ⟨rest, hsome, -, rfl⟩
      rw [← Option.some.inj hsome]
  · rw [if_neg (by omega)]
    constructor
    · intro h
      cases h
    · rintro ⟨rest, hsome, hend, -⟩
      split_ifs at hsome with hcase
      omega

-- One turn of a reader's loop: at the end of the file it reads nothing.
theorem chunk_eq_nil_iff {n : Nat} (hn : 0 < n) :
    (file.drop pos).take (min CHUNK n) = [] ↔ file.length ≤ pos := by
  have hchunk : 0 < CHUNK := by decide
  rw [← List.length_eq_zero_iff, List.length_take, List.length_drop]
  omega

theorem chunk_length_le (file : Bytes) (pos n : Nat) :
    ((file.drop pos).take (min CHUNK n)).length ≤ n := by
  rw [List.length_take]
  omega

theorem chunk_eq_take (file : Bytes) (pos n : Nat) :
    (file.drop pos).take ((file.drop pos).take (min CHUNK n)).length =
      (file.drop pos).take (min CHUNK n) := by
  rw [List.length_take, ← List.take_eq_take_min]

-- What a turn leaves to do.
theorem slice_chunk {n : Nat} (hn : 0 < n) (hchunk : (file.drop pos).take (min CHUNK n) ≠ []) :
    slice file pos n = some bytes ↔
      ∃ rest, slice file (pos + ((file.drop pos).take (min CHUNK n)).length)
          (n - ((file.drop pos).take (min CHUNK n)).length) = some rest ∧
        bytes = (file.drop pos).take (min CHUNK n) ++ rest := by
  have hend : pos + ((file.drop pos).take (min CHUNK n)).length ≤ file.length := by
    have hpos : ¬file.length ≤ pos := fun h => hchunk ((chunk_eq_nil_iff hn).mpr h)
    rw [List.length_take, List.length_drop]
    omega
  rw [slice_split (chunk_length_le file pos n) hn, chunk_eq_take]
  simp only [hend, true_and]

theorem slice_of_chunk_eq_nil {n : Nat} (hn : 0 < n)
    (hchunk : (file.drop pos).take (min CHUNK n) = []) : slice file pos n = none := by
  have hend := (chunk_eq_nil_iff hn).mp hchunk
  rw [slice, if_neg (by omega)]

theorem readChunks_eq (file : Bytes) {fuel pos remaining : Nat} (hfuel : remaining ≤ fuel) :
    (readChunks file fuel pos remaining).map List.flatten = slice file pos remaining := by
  induction fuel generalizing pos remaining with
  | zero =>
      obtain rfl := Nat.le_zero.mp hfuel
      rw [slice_zero]
      rfl
  | succ fuel ih =>
      cases remaining with
      | zero =>
          rw [slice_zero]
          rfl
      | succ n =>
          rw [readChunks]
          by_cases hchunk : (file.drop pos).take (min CHUNK (n + 1)) = []
          · rw [slice_of_chunk_eq_nil (Nat.succ_pos n) hchunk]
            simp only [if_pos hchunk, Option.map_none]
          · have hlength : 0 < ((file.drop pos).take (min CHUNK (n + 1))).length :=
              List.length_pos_of_ne_nil hchunk
            have hleft : n + 1 - ((file.drop pos).take (min CHUNK (n + 1))).length ≤ fuel := by omega
            have hrest := @ih (pos + ((file.drop pos).take (min CHUNK (n + 1))).length) _ hleft
            simp only [if_neg hchunk, Option.map_map]
            refine Option.ext fun bytes => ?_
            rw [slice_chunk (Nat.succ_pos n) hchunk, ← hrest]
            cases readChunks file fuel (pos + ((file.drop pos).take (min CHUNK (n + 1))).length)
                (n + 1 - ((file.drop pos).take (min CHUNK (n + 1))).length) with
            | none => simp
            | some chunks => simp [eq_comm]

end Slices

section Hashes

variable {sha : Bytes → Text} {disk : Disk} {path : Path} {start : Nat} {entry : Entry}

theorem openFile_eq_ok {file : Bytes} : openFile disk path = .ok file ↔ disk.lookup path = some file := by
  unfold openFile
  cases disk.lookup path <;> simp

-- The bytes of a tensor in a file.
def tensorBytes (disk : Disk) (path : Path) (start : Nat) (entry : Entry) : Option Bytes :=
  (disk.lookup path).bind fun file => slice file (start + entry.start) entry.size

theorem hashTensor_eq_ok {digest : Text} :
    hashTensor sha disk path start entry = .ok digest ↔
      ∃ bytes, tensorBytes disk path start entry = some bytes ∧ sha bytes = digest := by
  have hread : ∀ file, (readChunks file entry.size (start + entry.start) entry.size).map List.flatten =
      slice file (start + entry.start) entry.size := fun file => readChunks_eq file le_rfl
  rw [hashTensor, bind_eq_ok, tensorBytes]
  simp only [openFile_eq_ok]
  cases hlookup : disk.lookup path with
  | none => simp
  | some file =>
      simp only [Option.some.injEq, exists_eq_left', Option.bind_some, ← hread file]
      cases readChunks file entry.size (start + entry.start) entry.size with
      | none => simp [throw, throwThe, MonadExceptOf.throw]
      | some chunks => simp [pure, Except.pure]

theorem tensorBytes_congr {disk' : Disk} (h : disk'.lookup path = disk.lookup path) :
    tensorBytes disk' path start entry = tensorBytes disk path start entry := by
  rw [tensorBytes, h, tensorBytes]

end Hashes

end Cosmos3.Checkpoint
