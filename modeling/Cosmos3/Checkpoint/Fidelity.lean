import Cosmos3.Checkpoint.Outcome

namespace Cosmos3.Checkpoint

open Basis Basis.Python

section Content

variable {arith : FloatArith} {sha : Bytes → Text} {order : SetOrder} {ck src : Path} {backup verify : Bool}
  {disk disk' : Disk} {report : Report} {p : Prepared} {content : Bytes} {n : Nat} {cfg newQc newQmd : Dict}
  {qc qmd : Value}

theorem Applied.readNew
    (h : Applied arith sha ck src backup verify disk disk' p content n cfg newQc newQmd qc qmd) :
    readHeader arith.toFloatReader disk' (Target.st.path ck) = .ok (p.layout.entries, n) :=
  readHeader_eq_ok.mpr ⟨content, h.st, h.written.header⟩

theorem Applied.tensorBytes_new
    (h : Applied arith sha ck src backup verify disk disk' p content n cfg newQc newQmd qc qmd) (entry : Entry) :
    tensorBytes disk' (Target.st.path ck) (dataStart n) entry =
      slice content (dataStart n + entry.start) entry.size := by
  rw [tensorBytes, h.st, Option.bind_some]

-- Verified or not, a kept tensor is the one of the old file.
theorem Applied.kept
    (h : Applied arith sha ck src backup verify disk disk' p content n cfg newQc newQmd qc qmd) {name : Text}
    (hname : name ∈ p.plan.keep) :
    ∃ before after bytes, p.header.get name = some before ∧ p.layout.entries.get name = some after ∧
      after.dtype = before.dtype ∧ after.shape = before.shape ∧
      tensorBytes disk (Target.st.path ck) p.start before = some bytes ∧
      tensorBytes disk' (Target.st.path ck) (dataStart n) after = some bytes := by
  obtain ⟨after, before, bytes, hafter, hbefore, hdtype, hshape, hbytes, hslice⟩ :=
    NewContent.kept h.prepares h.written hname
  exact ⟨before, after, bytes, hbefore, hafter, hdtype, hshape, hbytes, by rw [h.tensorBytes_new, hslice]⟩

-- An added tensor is the one of its shard, unless the old file has it too.
theorem Applied.added
    (h : Applied arith sha ck src backup verify disk disk' p content n cfg newQc newQmd qc qmd) {name : Text}
    (hname : name ∈ ADDED_TENSORS) (hkept : name ∉ p.plan.keep) :
    ∃ source after bytes, p.srcmap.get name = some source ∧ p.layout.entries.get name = some after ∧
      after.dtype = source.entry.dtype ∧ after.shape = source.entry.shape ∧
      tensorBytes disk source.shard source.start source.entry = some bytes ∧
      tensorBytes disk' (Target.st.path ck) (dataStart n) after = some bytes := by
  obtain ⟨after, source, bytes, hafter, hsource, hdtype, hshape, hbytes, hslice⟩ :=
    NewContent.added h.prepares h.written hname hkept
  exact ⟨source, after, bytes, hsource, hafter, hdtype, hshape, hbytes, by rw [h.tensorBytes_new, hslice]⟩

-- In that case only the verification tells whether both have the same bytes.
theorem Applied.addedVerified (hsha : Function.Injective sha)
    (h : Applied arith sha ck src backup true disk disk' p content n cfg newQc newQmd qc qmd) {name : Text}
    (hname : name ∈ ADDED_TENSORS) :
    ∃ source after bytes, p.srcmap.get name = some source ∧ p.layout.entries.get name = some after ∧
      tensorBytes disk source.shard source.start source.entry = some bytes ∧
      tensorBytes disk' (Target.st.path ck) (dataStart n) after = some bytes := by
  obtain ⟨source, bytes, hsource, hbytes, hdigest⟩ := h.prepares.added name hname
  obtain ⟨after, bytes', hafter, hslice, hdigest'⟩ := h.verified rfl name hname
  have hsame : bytes' = bytes := hsha (Option.some.inj (hdigest'.symm.trans hdigest))
  exact ⟨source, after, bytes, hsource, hafter, hbytes, by rw [h.tensorBytes_new, hslice, hsame]⟩

-- What the new transformer holds when a verified run has returned, read through its own
-- header.
theorem verified_content (hsha : Function.Injective sha)
    (hrun : (applyMutation arith sha order ck src backup true).exec disk = (.ok report, disk')) :
    ∃ old oldLength srcmap new newLength,
      readHeader arith.toFloatReader disk (Target.st.path ck) = .ok (old, oldLength) ∧
      resolveSourceTensors arith.toFloatReader disk (transformerDir src) ADDED_TENSORS = .ok srcmap ∧
      readHeader arith.toFloatReader disk' (Target.st.path ck) = .ok (new, newLength) ∧
      (∀ name, name ∈ new.keys ↔ (name ∈ old.keys ∧ name ∉ DROPPED_LMHEAD) ∨ name ∈ ADDED_TENSORS) ∧
      (∀ name ∈ old.keys, name ∉ DROPPED_LMHEAD → ∃ before after bytes,
        old.get name = some before ∧ new.get name = some after ∧ after.dtype = before.dtype ∧
        after.shape = before.shape ∧
        tensorBytes disk (Target.st.path ck) (dataStart oldLength) before = some bytes ∧
        tensorBytes disk' (Target.st.path ck) (dataStart newLength) after = some bytes) ∧
      (∀ name ∈ ADDED_TENSORS, ∃ source after bytes,
        srcmap.get name = some source ∧ new.get name = some after ∧
        tensorBytes disk source.shard source.start source.entry = some bytes ∧
        tensorBytes disk' (Target.st.path ck) (dataStart newLength) after = some bytes) ∧
      lmHeadAmax ∉ new.keys ∧ lmHeadScale ∉ new.keys := by
  obtain ⟨p, content, n, cfg, newQc, newQmd, qc, qmd, h⟩ := applyMutation_ok hrun
  obtain ⟨oldLength, hold, hstart⟩ := h.prepares.header
  have hkeep := h.prepares.plan.keep
  refine ⟨p.header, oldLength, p.srcmap, p.layout.entries, n, hold, h.prepares.srcmap, h.readNew,
    fun name => ?_, fun name hname hdropped => ?_, fun name hname => h.addedVerified hsha hname, ?_, ?_⟩
  · rw [h.prepares.mem_keys, hkeep]
  · exact hstart ▸ h.kept ((hkeep name).mpr ⟨hname, hdropped⟩)
  · exact h.prepares.sidecar_notMem (by decide) (by decide)
  · exact h.prepares.sidecar_notMem (by decide) (by decide)

end Content

section Sample

-- Numbers that are no literal of an integer are `NaN` here.
def sampleArith : FloatArith where
  toFloatReader := FloatText.ofFractions.unread
  sub _ _ := .nan
  mul _ _ := .nan
  readable_sub _ _ := trivial
  readable_mul _ _ := trivial

def sampleSha : Bytes → Text := List.map UInt8.toUInt16

def sampleOrder : SetOrder := ⟨id, fun _ => .refl _⟩

theorem sampleSha_injective : Function.Injective sampleSha :=
  List.map_injective_iff.mpr fun _ _ h => UInt8.toUInt16_inj.mp h

-- Two tensors of one byte each, the second one with this dtype.
def sampleOld (dtype : Text) : Header :=
  ⟨[(ascii "embed_tokens.weight", ⟨bf16, [1], 0, 1, by decide⟩),
    (lmHead, ⟨dtype, [1, 1], 1, 2, by decide⟩)], by simp only [List.map_cons, List.map_nil]; decide⟩

def sampleShard : Header :=
  ⟨[(ascii "action_modality_embed", ⟨bf16, [1], 0, 1, by decide⟩),
    (ascii "action_proj_in.bias.weight", ⟨bf16, [1, 1], 1, 2, by decide⟩),
    (ascii "action_proj_in.fc.weight", ⟨bf16, [1, 1], 2, 3, by decide⟩),
    (ascii "action_proj_out.bias.weight", ⟨bf16, [1, 1], 3, 4, by decide⟩),
    (ascii "action_proj_out.fc.weight", ⟨bf16, [1, 1], 4, 5, by decide⟩),
    (lmHead, ⟨bf16, [1, 1], 5, 6, by decide⟩)], by decide⟩

def sampleConfig : Dict :=
  [(ascii "hidden_size", .int 1), (ascii "action_dim", .int 1), (ascii "num_embodiment_domains", .int 1),
    (ascii "vocab_size", .int 1)]

def sampleFile (header : Header) (data : Bytes) : Bytes :=
  (buildHeaderBytes sampleArith.toFloatReader header.toDict).getD [] ++ data

def sampleQuantization (count : ℤ) : Dict :=
  [(ascii "recipe", .str (ascii "fp8_blockwise_mixed")),
    (ascii "mixed_precision", .dict [(ascii "n_quantized", .int count)])]

def sampleShardPath : Path := [ascii "bf16", ascii "transformer", ascii "model.safetensors"]

def sampleCkpt : Path := [ascii "fp8"]

def sampleDisk (dtype : Text) (count : ℤ) : Disk :=
  ((((∅ : Disk).insert sampleShardPath (sampleFile sampleShard [10, 11, 12, 13, 14, 15])).insert
    (Target.mapDiff.path sampleCkpt) (jsonBytes sampleArith [])).insert
    (Target.quantization.path sampleCkpt) (jsonBytes sampleArith (sampleQuantization count))).insert
    (Target.config.path sampleCkpt) (jsonBytes sampleArith sampleConfig) |>.insert
    (Target.st.path sampleCkpt) (sampleFile (sampleOld dtype) [1, 2])

theorem sample_lookup (dtype : Text) (count : ℤ) :
    (sampleDisk dtype count).lookup sampleShardPath =
      some (sampleFile sampleShard [10, 11, 12, 13, 14, 15]) := rfl

theorem sampleFile_reads {header : Header} (hmetadata : metadataKey ∉ header.keys)
    (hbuild : (buildHeaderBytes sampleArith.toFloatReader header.toDict).isSome = true) (data : Bytes) :
    ∃ n, readHeaderFile sampleArith.toFloatReader (sampleFile header data) = some (header, n) ∧
      ∀ pos size, slice (sampleFile header data) (dataStart n + pos) size = slice data pos size := by
  obtain ⟨bytes, hbytes⟩ := Option.isSome_iff_exists.mp hbuild
  obtain ⟨n, hread, hstart⟩ := readHeaderFile_build hmetadata hbytes data
  have hfile : sampleFile header data = bytes ++ data := by rw [sampleFile, hbytes, Option.getD_some]
  exact ⟨n, hfile ▸ hread, fun pos size => by rw [hfile, hstart, slice_append]⟩

theorem sample_resolve (dtype : Text) (count : ℤ) : ∃ n,
    resolveSourceTensors sampleArith.toFloatReader (sampleDisk dtype count)
      (transformerDir [ascii "bf16"]) ADDED_TENSORS =
        .ok (sampleShard.map fun entry => ⟨sampleShardPath, dataStart n, entry⟩) ∧
      ∀ entry, tensorBytes (sampleDisk dtype count) sampleShardPath (dataStart n) entry =
        slice [10, 11, 12, 13, 14, 15] entry.start entry.size := by
  obtain ⟨n, hread, hslice⟩ := @sampleFile_reads sampleShard (by decide) (by decide +kernel)
    [10, 11, 12, 13, 14, 15]
  have hheader : readHeader sampleArith.toFloatReader (sampleDisk dtype count) sampleShardPath =
      .ok (sampleShard, n) := readHeader_eq_ok.mpr ⟨_, sample_lookup dtype count, hread⟩
  refine ⟨n, ?_, fun entry => ?_⟩
  · rw [resolveSourceTensors, show shards (sampleDisk dtype count) (transformerDir [ascii "bf16"]) =
      [sampleShardPath] from rfl]
    simp only [scanShards, hheader]
    rfl
  · rw [tensorBytes, sample_lookup, Option.bind_some, hslice]

def samplePlan : MutationPlan := ⟨[ascii "embed_tokens.weight"], [lmHead], ADDED_TENSORS⟩

theorem sample_plan (dtype : Text) :
    planMutation sampleArith sampleOrder (sampleOld dtype) sampleShard (.dict sampleConfig) =
      .ok samplePlan := rfl

theorem sample_layout {dtype : Text} (hdtype : dtype = ascii "F8_E4M3" ∨ dtype = bf16) :
    (buildLayout sampleArith samplePlan (sampleOld dtype) sampleShard).toOption.isSome = true := by
  rcases hdtype with rfl | rfl
  · decide +kernel
  · decide +kernel

theorem sample_old {dtype : Text} (hdtype : dtype = ascii "F8_E4M3" ∨ dtype = bf16) :
    ∃ n, readHeaderFile sampleArith.toFloatReader (sampleFile (sampleOld dtype) [1, 2]) =
        some (sampleOld dtype, n) ∧
      ∀ pos size, slice (sampleFile (sampleOld dtype) [1, 2]) (dataStart n + pos) size =
        slice [1, 2] pos size := by
  refine sampleFile_reads ?_ ?_ [1, 2]
  · exact show metadataKey ∉ [ascii "embed_tokens.weight", lmHead] by decide
  · rcases hdtype with rfl | rfl
    · decide +kernel
    · decide +kernel

theorem sample_lookup_st (dtype : Text) (count : ℤ) :
    (sampleDisk dtype count).lookup (Target.st.path sampleCkpt) =
      some (sampleFile (sampleOld dtype) [1, 2]) := rfl

theorem sample_sources (n : Nat) :
    (sampleShard.map fun entry => (⟨sampleShardPath, dataStart n, entry⟩ : Source)).map (·.entry) =
      sampleShard := rfl

theorem sample_quantization (dtype : Text) (count : ℤ) :
    readJson sampleArith.toFloatReader (sampleDisk dtype count) (Target.quantization.path sampleCkpt) =
      .ok (.dict (sampleQuantization count)) := by
  refine readJson_jsonBytes ⟨?_, ?_⟩ rfl
  · exact show [ascii "recipe", ascii "mixed_precision"].Nodup by decide
  · simp [sampleQuantization, ReadableFields, Readable]

theorem sample_config (dtype : Text) (count : ℤ) :
    readJson sampleArith.toFloatReader (sampleDisk dtype count) (Target.config.path sampleCkpt) =
      .ok (.dict sampleConfig) :=
  readJson_jsonBytes ⟨by decide, by simp [sampleConfig, ReadableFields, Readable]⟩ rfl

theorem sample_mapDiff (dtype : Text) (count : ℤ) :
    readJson sampleArith.toFloatReader (sampleDisk dtype count) (Target.mapDiff.path sampleCkpt) =
      .ok (.dict []) :=
  readJson_jsonBytes ⟨List.nodup_nil, trivial⟩ rfl

theorem sample_updated (count : ℤ) : ∃ newQc newQmd,
    updatedSidecars sampleArith (.dict (sampleQuantization count)) (.dict []) 0 = .ok (newQc, newQmd) :=
  ⟨_, _, rfl⟩

theorem sample_slices : sampleShard.fields.all (fun field =>
    (slice [10, 11, 12, 13, 14, 15] field.2.start field.2.size).isSome) = true := by decide

theorem sample_prepares {dtype : Text} (hdtype : dtype = ascii "F8_E4M3" ∨ dtype = bf16) (count : ℤ) :
    ∃ p, prepare sampleArith sampleSha sampleOrder sampleCkpt [ascii "bf16"] (sampleDisk dtype count) = .ok p ∧
      p.header = sampleOld dtype ∧ p.plan = samplePlan := by
  obtain ⟨n, hold, hslice⟩ := sample_old hdtype
  obtain ⟨m, hsrcmap, hbytes⟩ := sample_resolve dtype count
  obtain ⟨layout, hlayout⟩ : ∃ layout,
      buildLayout sampleArith samplePlan (sampleOld dtype) sampleShard = .ok layout := by
    have hsome := sample_layout hdtype
    cases hbuild : buildLayout sampleArith samplePlan (sampleOld dtype) sampleShard with
    | ok layout => exact ⟨layout, rfl⟩
    | error e =>
        rw [hbuild] at hsome
        cases hsome
  have hheader : readHeader sampleArith.toFloatReader (sampleDisk dtype count)
      (Target.st.path sampleCkpt) = .ok (sampleOld dtype, n) :=
    readHeader_eq_ok.mpr ⟨_, sample_lookup_st dtype count, hold⟩
  have hplan := sample_plan dtype
  rw [← sample_sources m] at hplan hlayout
  have hkept : ∀ name ∈ samplePlan.keep, ∀ entry, (sampleOld dtype).get name = some entry →
      ∃ bytes, tensorBytes (sampleDisk dtype count) (Target.st.path sampleCkpt) (dataStart n) entry =
        some bytes := by
    intro name hname entry hentry
    obtain rfl := List.mem_singleton.mp hname
    obtain rfl : (⟨bf16, [1], 0, 1, by decide⟩ : Entry) = entry := Option.some.inj hentry
    refine ⟨[1], ?_⟩
    rw [tensorBytes, sample_lookup_st, Option.bind_some]
    exact hslice 0 1
  have hadded : ∀ field ∈ (sampleShard.map fun entry =>
      (⟨sampleShardPath, dataStart m, entry⟩ : Source)).fields,
        ∃ bytes, tensorBytes (sampleDisk dtype count) field.2.shard field.2.start field.2.entry =
          some bytes := by
    intro field hfield
    obtain ⟨field', hfield', rfl⟩ := List.mem_map.mp hfield
    rw [hbytes]
    exact Option.isSome_iff_exists.mp (List.all_eq_true.mp sample_slices field' hfield')
  obtain ⟨p, hp, hheader, -, -, hpplan⟩ := prepare_returns (sample_config dtype count) hheader hsrcmap hplan
    hlayout hkept hadded
  exact ⟨p, hp, hheader, hpplan⟩

theorem sample_returns {dtype : Text} (hdtype : dtype = ascii "F8_E4M3" ∨ dtype = bf16) (count : ℤ)
    (backup verify : Bool) :
    ∃ report disk', (applyMutation sampleArith sampleSha sampleOrder sampleCkpt [ascii "bf16"] backup
      verify).exec (sampleDisk dtype count) = (.ok report, disk') := by
  obtain ⟨p, hp, hheader, hplan⟩ := sample_prepares hdtype count
  obtain ⟨newQc, newQmd, hupdated⟩ := sample_updated count
  have hdropped : droppedScaleElements p = 0 := by
    rw [droppedScaleElements, hheader]
    rfl
  refine applyMutation_returns hp (fun _ name hname hkept => ?_) ?_ (sample_quantization dtype count)
    (sample_mapDiff dtype count) (hdropped ▸ hupdated)
  · rw [hplan] at hkept
    obtain rfl := List.mem_singleton.mp hkept
    exact absurd hname (by decide)
  · rw [hheader]
    exact ⟨_, rfl⟩

theorem verified_content_sampleDisk :
    ∃ report disk' old oldLength new newLength, (applyMutation sampleArith sampleSha sampleOrder sampleCkpt
        [ascii "bf16"] true true).exec (sampleDisk (ascii "F8_E4M3") 1) = (.ok report, disk') ∧
      readHeader sampleArith.toFloatReader (sampleDisk (ascii "F8_E4M3") 1) (Target.st.path sampleCkpt) =
        .ok (old, oldLength) ∧
      readHeader sampleArith.toFloatReader disk' (Target.st.path sampleCkpt) = .ok (new, newLength) ∧
      ∀ name, name ∈ new.keys ↔ (name ∈ old.keys ∧ name ∉ DROPPED_LMHEAD) ∨ name ∈ ADDED_TENSORS := by
  obtain ⟨report, disk', hrun⟩ := sample_returns (.inl rfl) 1 true true
  obtain ⟨old, oldLength, srcmap, new, newLength, hold, -, hnew, hnames, -⟩ :=
    verified_content sampleSha_injective hrun
  exact ⟨report, disk', old, oldLength, new, newLength, hrun, hold, hnew, hnames⟩

end Sample

end Cosmos3.Checkpoint
