import Cosmos3.Basis.Loads
import Cosmos3.Basis.Table
import Cosmos3.Basis.Wave

namespace Cosmos3.Checkpoint

open Basis Basis.Python

abbrev Bytes := List UInt8

-- A tensor as the header has it. The offsets are those in the data block.
structure Entry where
  dtype : Text
  shape : List Nat
  start : Nat
  stop : Nat
  ordered : start ≤ stop
deriving DecidableEq

-- `_size`
def Entry.size (entry : Entry) : Nat := entry.stop - entry.start

abbrev Header := Table Text Entry

def metadataKey : Text := ascii "__metadata__"

section Values

def natValue (n : Nat) : Value := .int n

def Entry.value (entry : Entry) : Value :=
  .dict [(ascii "dtype", .str entry.dtype), (ascii "shape", .list (entry.shape.map natValue)),
    (ascii "data_offsets", .list [natValue entry.start, natValue entry.stop])]

def natOf : Value → Option Nat
  | .int n => if 0 ≤ n then some n.toNat else none
  | _ => none

-- The format has nothing else for a tensor.
def Entry.ofValue : Value → Option Entry
  | .dict d =>
    match Dict.get d (ascii "dtype"), Dict.get d (ascii "shape"), Dict.get d (ascii "data_offsets") with
    | some (.str dtype), some (.list dims), some (.list [first, last]) =>
      match dims.mapM natOf, natOf first, natOf last with
      | some shape, some start, some stop =>
        if ordered : start ≤ stop then some ⟨dtype, shape, start, stop, ordered⟩ else none
      | _, _, _ => none
    | _, _, _ => none
  | _ => none

@[simp] theorem natOf_natValue (n : Nat) : natOf (natValue n) = some n := by
  simp [natOf, natValue]

theorem mapM_natOf (shape : List Nat) : (shape.map natValue).mapM natOf = some shape := by
  induction shape with
  | nil => rfl
  | cons n shape ih => simp [ih]

theorem Entry.ofValue_value (entry : Entry) : ofValue entry.value = some entry := by
  have hdtype : Dict.get [(ascii "dtype", .str entry.dtype), (ascii "shape", .list (entry.shape.map natValue)),
      (ascii "data_offsets", .list [natValue entry.start, natValue entry.stop])] (ascii "dtype") =
        some (.str entry.dtype) := rfl
  have hshape : Dict.get [(ascii "dtype", .str entry.dtype), (ascii "shape", .list (entry.shape.map natValue)),
      (ascii "data_offsets", .list [natValue entry.start, natValue entry.stop])] (ascii "shape") =
        some (.list (entry.shape.map natValue)) := rfl
  have hoffsets : Dict.get [(ascii "dtype", .str entry.dtype), (ascii "shape", .list (entry.shape.map natValue)),
      (ascii "data_offsets", .list [natValue entry.start, natValue entry.stop])] (ascii "data_offsets") =
        some (.list [natValue entry.start, natValue entry.stop]) := rfl
  rw [value, ofValue, hdtype, hshape, hoffsets]
  simp only [mapM_natOf, natOf_natValue, dif_pos entry.ordered]

theorem Entry.readable_value (floats : FloatReader) (entry : Entry) :
    Readable floats entry.value := by
  have hdims : ReadableItems floats (entry.shape.map natValue) := by
    refine readableItems_iff.mpr fun item hitem => ?_
    obtain ⟨n, -, rfl⟩ := List.mem_map.mp hitem
    trivial
  refine ⟨by simp; decide, trivial, hdims, ⟨trivial, trivial, trivial⟩, trivial⟩

end Values

namespace Header

-- `__metadata__` is no tensor.
def ofDict (d : Dict) : Option Header :=
  ((d.filter fun field => field.1 ≠ metadataKey).mapM fun field =>
    (Entry.ofValue field.2).map fun entry => (field.1, entry)).bind fun fields =>
      if nodup : (fields.map (·.1)).Nodup then some ⟨fields, nodup⟩ else none

def toDict (header : Header) : Dict := header.fields.map fun field => (field.1, field.2.value)

theorem map_toDict (header : Header) : header.toDict.map (·.1) = header.keys := by
  rw [toDict, List.map_map]
  rfl

theorem mapM_value (fields : List (Text × Entry)) :
    ((fields.map fun field => (field.1, field.2.value)).mapM fun field =>
      (Entry.ofValue field.2).map fun entry => (field.1, entry)) = some fields := by
  induction fields with
  | nil => rfl
  | cons field fields ih => simp [ih, Entry.ofValue_value]

theorem ofDict_toDict {header : Header} (h : metadataKey ∉ header.keys) :
    ofDict header.toDict = some header := by
  have hall : (header.toDict.filter fun field => field.1 ≠ metadataKey) = header.toDict := by
    refine List.filter_eq_self.mpr fun field hfield => ?_
    have hmem : field.1 ∈ header.keys := map_toDict header ▸ List.mem_map_of_mem hfield
    exact decide_eq_true fun heq => h (heq ▸ hmem)
  rw [ofDict, hall, toDict, mapM_value, Option.bind_some, dif_pos header.nodup]

theorem map_mapM {fields : Dict} {tensors : List (Text × Entry)}
    (h : (fields.mapM fun field => (Entry.ofValue field.2).map fun entry => (field.1, entry)) =
      some tensors) : tensors.map (·.1) = fields.map (·.1) := by
  induction fields generalizing tensors with
  | nil =>
      cases h
      rfl
  | cons field fields ih =>
      rw [List.mapM_cons] at h
      obtain ⟨tensor, htensor, hrest⟩ := Option.bind_eq_some_iff.mp h
      obtain ⟨rest, hmap, hcons⟩ := Option.bind_eq_some_iff.mp hrest
      obtain ⟨entry, -, rfl⟩ := Option.map_eq_some_iff.mp htensor
      cases hcons
      rw [List.map_cons, ih hmap, List.map_cons]

theorem metadataKey_notMem {d : Dict} {header : Header} (h : ofDict d = some header) :
    metadataKey ∉ header.keys := by
  obtain ⟨fields, hfields, hheader⟩ := Option.bind_eq_some_iff.mp h
  split_ifs at hheader with hnodup
  cases hheader
  intro hmem
  rw [Table.keys, map_mapM hfields] at hmem
  obtain ⟨field, hfield, hkey⟩ := List.mem_map.mp hmem
  simpa [hkey] using (List.mem_filter.mp hfield).2

theorem readable_toDict (floats : FloatReader) (header : Header) :
    Readable floats (.dict header.toDict) := by
  refine ⟨map_toDict header ▸ header.nodup, readableFields_iff.mpr fun field hfield => ?_⟩
  obtain ⟨tensor, -, rfl⟩ := List.mem_map.mp hfield
  exact tensor.2.readable_value floats

end Header

section Format

variable (floats : FloatReader)

def headerAlign : Nat := 8

def buildHeaderBytes (entries : Dict) (metadata : Option Dict := none) : Option Bytes :=
  let obj := match metadata with
    | some fields => Dict.set entries metadataKey (.dict fields)
    | none => entries
  let blob := asciiBytes (dumpsStyled floats.toFloatText .compact 0 (.dict obj))
  let padded := blob ++ List.replicate ((headerAlign - blob.length % headerAlign) % headerAlign) 32
  -- `struct.pack("<Q", len(blob))`
  if padded.length < 2 ^ 64 then some (Wave.littleBytes 8 padded.length ++ padded) else none

def readHeaderFile (file : Bytes) : Option (Header × Nat) :=
  if file.length < 8 then none
  else
    let n := Wave.little (file.take 8)
    match loadsBytes floats ((file.drop 8).take n) with
    | some (.dict d) => (Header.ofDict d).map fun header => (header, n)
    | _ => none

def dataStart (n : Nat) : Nat := 8 + n

variable {floats}

theorem metadataKey_notMem_of_read {file : Bytes} {header : Header} {n : Nat}
    (h : readHeaderFile floats file = some (header, n)) : metadataKey ∉ header.keys := by
  unfold readHeaderFile at h
  split_ifs at h
  dsimp only at h
  split at h
  · obtain ⟨header', hread, heq⟩ := Option.map_eq_some_iff.mp h
    cases heq
    exact Header.metadataKey_notMem hread
  · cases h

-- The header reads back, whatever data follows it, and the data starts where it ends.
theorem readHeaderFile_build {header : Header} (hmetadata : metadataKey ∉ header.keys) {bytes : Bytes}
    (h : buildHeaderBytes floats header.toDict = some bytes) (data : Bytes) :
    ∃ n, readHeaderFile floats (bytes ++ data) = some (header, n) ∧ dataStart n = bytes.length := by
  simp only [buildHeaderBytes] at h
  split_ifs at h with hbound
  have hbytes := (Option.some.inj h).symm
  set spaces := (headerAlign - (asciiBytes (dumpsStyled floats.toFloatText .compact 0
    (.dict header.toDict))).length % headerAlign) % headerAlign with hspaces
  set blob := asciiBytes (dumpsStyled floats.toFloatText .compact 0 (.dict header.toDict)) ++
    List.replicate spaces 32 with hblob
  have hpadded : blob = asciiBytes (dumpsStyled floats.toFloatText .compact 0 (.dict header.toDict) ++
      List.replicate spaces 32) := by
    rw [hblob, asciiBytes, asciiBytes, List.map_append, List.map_replicate]
    rfl
  have hloads : loadsBytes floats blob = some (.dict header.toDict) := by
    rw [hpadded]
    refine loadsBytes_dumpsStyled .compact (header.readable_toDict floats) 0 fun u hu => ?_
    rw [List.eq_of_mem_replicate hu]
    decide
  have hlength : (Wave.littleBytes 8 blob.length).length = 8 := Wave.length_littleBytes 8 _
  have htake : (bytes ++ data).take 8 = Wave.littleBytes 8 blob.length := by
    rw [hbytes, List.append_assoc, List.take_left' hlength]
  have hdrop : (bytes ++ data).drop 8 = blob ++ data := by
    rw [hbytes, List.append_assoc, List.drop_left' hlength]
  have hlittle : Wave.little (Wave.littleBytes 8 blob.length) = blob.length :=
    Wave.little_littleBytes (by omega)
  have hsize : bytes.length = 8 + blob.length := by
    rw [hbytes, List.length_append, hlength]
  refine ⟨blob.length, ?_, hsize.symm⟩
  have hlong : ¬(bytes ++ data).length < 8 := by
    rw [List.length_append]
    omega
  simp only [readHeaderFile, if_neg hlong, htake, hdrop, hlittle, List.take_left, hloads,
    Header.ofDict_toDict hmetadata, Option.map_some]

end Format

end Cosmos3.Checkpoint
