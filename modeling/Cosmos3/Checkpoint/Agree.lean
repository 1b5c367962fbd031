import Cosmos3.Checkpoint.ProbeLaws

namespace Cosmos3.Checkpoint

open Basis Basis.Python

-- The old sidecar declares as many quantized weights as the old transformer has.
def CountsTruly (old : Header) (qc : Value) : Prop :=
  ∃ fields mp, qc = .dict fields ∧ Dict.get fields (ascii "mixed_precision") = some (.dict mp) ∧
    Dict.get mp (ascii "n_quantized") = some (.int (f8WeightCount old))

-- What the mutation leaves as it was and the probe looks at as well: the recipe, the embeddings,
-- which of the kept tensors are quantized, and what else lies in the directory.
structure Conforms (ck : Path) (disk : Disk) (old : Header) (qc : Value) : Prop where
  recipe : ∃ fields, qc = .dict fields ∧
    Dict.get fields (ascii "recipe") = some (.str (ascii "fp8_blockwise_mixed"))
  embedTokens : ∃ entry, old.get embedTokens = some entry ∧ entry.dtype = bf16
  quantized : ∀ name entry, old.get name = some entry → isQuant name entry = true →
    isMlpTarget name = true ∨ name ∈ DROPPED_LMHEAD
  pickles : checkPickleFree disk (transformerDir ck) = []

-- What the mutation takes for granted of the old transformer: `lm_head` is quantized, an
-- action tensor that is already there is the one of the source, and the tensors that are
-- dropped have their bytes.
structure AsAssumed (ck : Path) (disk : Disk) (old : Header) (start : Nat)
    (expected : Table Text (List Value)) (srcmap : Table Text Source) : Prop where
  lmHead : ∃ entry, old.get lmHead = some entry ∧ entry.dtype = FP8
  actions : ∀ name ∈ ACTION_TENSORS, ∀ before, old.get name = some before →
    before.dtype = bf16 ∧ eqShape before.shape ((expected.get name).getD []) = true
  bytes : ∀ name ∈ ACTION_TENSORS, ∀ before, old.get name = some before →
    ∃ source, srcmap.get name = some source ∧ tensorBytes disk (Target.st.path ck) start before =
      tensorBytes disk source.shard source.start source.entry
  dropped : ∀ name ∈ DROPPED_LMHEAD, ∀ entry, old.get name = some entry →
    ∃ bytes, tensorBytes disk (Target.st.path ck) start entry = some bytes

section Pickles

variable (ck : Path)

theorem isPickle_path (target : Target) : isPickle (nameOf (target.path ck)) = false := by
  cases target with
  | st =>
      rw [Target.path, nameOf_append]
      decide
  | config =>
      rw [Target.path, nameOf_append]
      decide
  | quantization =>
      rw [Target.path, nameOf_append]
      decide
  | mapDiff =>
      rw [Target.path, nameOf_append]
      decide

theorem isPickle_withSuffix (target : Target) {suffix : Text}
    (h : suffix = BACKUP_SUFFIX ∨ suffix = TMP_SUFFIX) :
    isPickle (nameOf (withSuffix (target.path ck) suffix)) = false := by
  obtain ⟨dir, name, hpath⟩ := target.exists_name
  have hnames : ∀ target : Target, isPickle (nameOf (target.path []) ++ BACKUP_SUFFIX) = false ∧
      isPickle (nameOf (target.path []) ++ TMP_SUFFIX) = false := by
    intro target
    cases target <;> decide
  rw [withSuffix_under, hpath, withSuffix_append, ← List.append_assoc, nameOf_append]
  have hname : nameOf (target.path []) = name := by rw [hpath, nameOf_append]
  rw [← hname]
  rcases h with rfl | rfl
  · exact (hnames target).1
  · exact (hnames target).2

theorem checkPickleFree_eq_nil {disk : Disk} {dir : Path} : checkPickleFree disk dir = [] ↔
    ∀ path ∈ disk, path.dropLast = dir → path ≠ [] → isPickle (nameOf path) = true →
      nameOf path ∈ ALLOWED_PICKLES := by
  have hiff : checkPickleFree disk dir = [] ↔ unexpectedPickles disk dir = [] := by
    rw [checkPickleFree]
    by_cases h : unexpectedPickles disk dir = [] <;> simp [h]
  rw [hiff, unexpectedPickles, List.filter_eq_nil_iff]
  constructor
  · intro h path hpath hdir hne hpickle
    have hmem : nameOf path ∈ (disk.keys.filter fun path => path.dropLast = dir ∧ path ≠ [] ∧
        isPickle (nameOf path)).map nameOf :=
      List.mem_map_of_mem (List.mem_filter.mpr ⟨AList.mem_keys.mp hpath, by simp [hdir, hne, hpickle]⟩)
    simpa using h _ hmem
  · intro h name hname
    obtain ⟨path, hpath, rfl⟩ := List.mem_map.mp hname
    obtain ⟨hmem, hcond⟩ := List.mem_filter.mp hpath
    rw [decide_eq_true_eq] at hcond
    simpa using h path (AList.mem_keys.mpr hmem) hcond.1 hcond.2.1 hcond.2.2

end Pickles

section Applied

variable {arith : FloatArith} {sha : Bytes → Text} {ck src : Path} {verify : Bool} {disk disk' : Disk}
  {p : Prepared} {content : Bytes} {n : Nat} {cfg newQc newQmd : Dict} {qc qmd : Value}
  (h : Applied arith sha ck src true verify disk disk' p content n cfg newQc newQmd qc qmd)

include h

theorem Applied.readConfig :
    readJson arith.toFloatReader disk' (Target.config.path ck) = .ok (.dict (newConfig cfg)) := by
  have hcfg := readable_readJson h.prepares.config
  rw [h.config] at hcfg
  exact readJson_jsonBytes (readable_set hcfg _ trivial) h.configFile

theorem Applied.readQuantization :
    readJson arith.toFloatReader disk' (Target.quantization.path ck) = .ok (.dict newQc) := by
  obtain ⟨qc', hqc, hrest⟩ := bind_eq_ok.mp h.updated
  obtain ⟨qmd', -, hpair⟩ := bind_eq_ok.mp hrest
  obtain ⟨rfl, rfl⟩ := Prod.mk.inj (Except.ok.inj hpair)
  exact readJson_jsonBytes (readable_updatedConfig (readable_readJson h.readQc) hqc) h.quantization

theorem Applied.readMapDiff :
    readJson arith.toFloatReader disk' (Target.mapDiff.path ck) = .ok (.dict newQmd) := by
  obtain ⟨qc', -, hrest⟩ := bind_eq_ok.mp h.updated
  obtain ⟨qmd', hqmd, hpair⟩ := bind_eq_ok.mp hrest
  obtain ⟨rfl, rfl⟩ := Prod.mk.inj (Except.ok.inj hpair)
  exact readJson_jsonBytes (readable_updatedMap (readable_readJson h.readQmd) hqmd) h.mapDiff

theorem Applied.exists_bytes {name : Text} {entry : Entry} (hentry : p.layout.entries.get name = some entry) :
    ∃ bytes, tensorBytes disk' (Target.st.path ck) (dataStart n) entry = some bytes := by
  by_cases hkept : name ∈ p.plan.keep
  · obtain ⟨before, after, bytes, -, hafter, -, -, -, hbytes⟩ := h.kept hkept
    obtain rfl := Option.some.inj (hentry.symm.trans hafter)
    exact ⟨bytes, hbytes⟩
  · have hadded := (h.prepares.mem_keys.mp (Table.mem_keys_iff.mpr ⟨entry, hentry⟩)).resolve_left hkept
    obtain ⟨source, after, bytes, -, hafter, -, -, -, hbytes⟩ := h.added hadded hkept
    obtain rfl := Option.some.inj (hentry.symm.trans hafter)
    exact ⟨bytes, hbytes⟩

-- A tensor that the old file does not have is one of the source, and so as planned.
theorem Applied.added_asPlanned {name : Text} (hname : name ∈ ADDED_TENSORS) (hkept : name ∉ p.plan.keep)
    {expected : Table Text (List Value)} (hexpected : expectedShapes arith p.config = .ok expected) :
    ∃ after, p.layout.entries.get name = some after ∧ after.dtype = bf16 ∧
      eqShape after.shape ((expected.get name).getD []) = true := by
  obtain ⟨source, after, bytes, hsource, hafter, hdtype, hshape, -, -⟩ := h.added hname hkept
  obtain ⟨expected', hexpected', hall⟩ := h.prepares.plan.sources
  obtain rfl := Except.ok.inj (hexpected.symm.trans hexpected')
  obtain ⟨ref, shape, href, hbf16, hget, heq⟩ := hall name hname
  rw [Table.get_map, hsource] at href
  obtain rfl := Option.some.inj href
  exact ⟨after, hafter, hdtype.trans hbf16, by rw [hget, Option.getD_some, hshape, heq]⟩

theorem Applied.lmHead_notMem_keep : Checkpoint.lmHead ∉ p.plan.keep :=
  fun hkept => ((h.prepares.plan.keep Checkpoint.lmHead).mp hkept).2 (by decide)

theorem Applied.exists_expected : ∃ expected, expectedShapes arith p.config = .ok expected := by
  obtain ⟨expected, hexpected, -⟩ := h.prepares.plan.sources
  exact ⟨expected, hexpected⟩

theorem Applied.mem_keep {name : Text} {before : Entry} (hbefore : p.header.get name = some before)
    (hname : name ∉ DROPPED_LMHEAD) : name ∈ p.plan.keep :=
  (h.prepares.plan.keep name).mpr ⟨Table.mem_keys_iff.mpr ⟨before, hbefore⟩, hname⟩

theorem Applied.checkActionSet_iff {expected : Table Text (List Value)}
    (hexpected : expectedShapes arith p.config = .ok expected) :
    checkActionSet arith p.layout.entries (.dict (newConfig cfg)) = .ok [] ↔
      ∀ name ∈ ACTION_TENSORS, ∀ before, p.header.get name = some before →
        before.dtype = bf16 ∧ eqShape before.shape ((expected.get name).getD []) = true := by
  have hshapes : expectedShapes arith (.dict (newConfig cfg)) = .ok expected := by
    rw [expectedShapes_newConfig, ← h.config, hexpected]
  rw [checkActionSet_eq_nil hshapes]
  refine forall₂_congr fun name hname => ?_
  constructor
  · rintro ⟨after, hafter, hbf16, hshape⟩ before hbefore
    obtain ⟨before', after', _, hbefore', hafter', hdtype, hsame, -, -⟩ :=
      h.kept (h.mem_keep hbefore (notMem_dropped_of_action hname))
    obtain rfl := Option.some.inj (hbefore.symm.trans hbefore')
    obtain rfl := Option.some.inj (hafter.symm.trans hafter')
    exact ⟨hdtype ▸ hbf16, hsame ▸ hshape⟩
  · intro hall
    by_cases hkept : name ∈ p.plan.keep
    · obtain ⟨before, after, _, hbefore, hafter, hdtype, hsame, -, -⟩ := h.kept hkept
      obtain ⟨hbf16, hshape⟩ := hall before hbefore
      exact ⟨after, hafter, hdtype.trans hbf16, by rw [hsame, hshape]⟩
    · exact h.added_asPlanned (List.mem_append_left _ hname) hkept hexpected

-- A tensor of the new file that is quantized was so in the old one.
theorem Applied.isQuant_iff {name : Text} {entry : Entry} (hentry : p.layout.entries.get name = some entry) :
    isQuant name entry = true ↔
      name ∈ p.plan.keep ∧ ∃ old, p.header.get name = some old ∧ isQuant name old = true := by
  by_cases hkept : name ∈ p.plan.keep
  · obtain ⟨old, new, _, hold, hnew, hsame, -, -, -⟩ := h.kept hkept
    obtain rfl := Option.some.inj (hentry.symm.trans hnew)
    have hquant : isQuant name entry = isQuant name old := by rw [isQuant, hsame, isQuant]
    rw [hquant, and_iff_right hkept]
    constructor
    · exact fun htrue => ⟨old, hold, htrue⟩
    · rintro ⟨old', hold', htrue⟩
      obtain rfl := Option.some.inj (hold.symm.trans hold')
      exact htrue
  · obtain ⟨expected, hexpected⟩ := h.exists_expected
    have hadded := (h.prepares.mem_keys.mp (Table.mem_keys_iff.mpr ⟨entry, hentry⟩)).resolve_left hkept
    obtain ⟨new, hnew, hbf16, -⟩ := h.added_asPlanned hadded hkept hexpected
    obtain rfl := Option.some.inj (hentry.symm.trans hnew)
    have hsuffix : ∀ name ∈ ADDED_TENSORS, (QUANT_SIDECAR.any fun suffix => suffix.isSuffixOf name) = false := by
      decide
    have hdtype : decide (bf16 = FP8) = false := by decide
    rw [isQuant, hbf16, hsuffix name hadded, hdtype]
    simp [hkept]

theorem Applied.embedTokens_iff : (p.layout.entries.get embedTokens).map (·.dtype) = some bf16 ↔
    ∃ entry, p.header.get embedTokens = some entry ∧ entry.dtype = bf16 := by
  have hnone : embedTokens ∉ ADDED_TENSORS := by decide
  constructor
  · intro hnew
    obtain ⟨after, hafter, hdtype⟩ := Option.map_eq_some_iff.mp hnew
    have hkept := (h.prepares.mem_keys.mp (Table.mem_keys_iff.mpr ⟨after, hafter⟩)).resolve_right hnone
    obtain ⟨before, after', _, hbefore, hafter', hsame, -, -, -⟩ := h.kept hkept
    obtain rfl := Option.some.inj (hafter.symm.trans hafter')
    exact ⟨before, hbefore, hsame.symm.trans hdtype⟩
  · rintro ⟨before, hbefore, hdtype⟩
    obtain ⟨before', after, _, hbefore', hafter, hsame, -, -, -⟩ := h.kept (h.mem_keep hbefore (by decide))
    obtain rfl := Option.some.inj (hbefore.symm.trans hbefore')
    rw [hafter, Option.map_some, hsame, hdtype]

theorem Applied.checkInv7Structure_iff : checkInv7Structure p.layout.entries = [] ↔
    (∃ entry, p.header.get embedTokens = some entry ∧ entry.dtype = bf16) ∧
      ∀ name entry, p.header.get name = some entry → isQuant name entry = true →
        isMlpTarget name = true ∨ name ∈ DROPPED_LMHEAD := by
  obtain ⟨expected, hexpected⟩ := h.exists_expected
  obtain ⟨head, hhead, hheadBf16, -⟩ :=
    h.added_asPlanned (show Checkpoint.lmHead ∈ ADDED_TENSORS by decide) h.lmHead_notMem_keep hexpected
  have houtside : (p.layout.entries.fields.flatMap fun field =>
      if isQuant field.1 field.2 && !isMlpTarget field.1 then [Problem.quantizedOutside field.1] else []) = [] ↔
      ∀ name entry, p.header.get name = some entry → isQuant name entry = true →
        isMlpTarget name = true ∨ name ∈ DROPPED_LMHEAD := by
    rw [List.flatMap_eq_nil_iff]
    constructor
    · intro hnone name old hold hquant
      by_cases hdropped : name ∈ DROPPED_LMHEAD
      · exact .inr hdropped
      · have hkept := h.mem_keep hold hdropped
        obtain ⟨_, after, _, -, hafter, -, -, -, -⟩ := h.kept hkept
        have hafterQuant := (h.isQuant_iff hafter).mpr ⟨hkept, old, hold, hquant⟩
        have hfield := hnone (name, after) (Table.get_eq_some_iff.mp hafter)
        exact .inl (by simpa [hafterQuant] using hfield)
    · rintro hall ⟨name, after⟩ hfield
      refine if_neg fun hboth => ?_
      obtain ⟨hquant, hmlp⟩ := (Bool.and_eq_true _ _).mp hboth
      obtain ⟨hkept, old, hold, hquantOld⟩ := (h.isQuant_iff (Table.get_eq_some_iff.mpr hfield)).mp hquant
      have hdropped := ((h.prepares.plan.keep name).mp hkept).2
      rw [(hall name old hold hquantOld).resolve_right hdropped] at hmlp
      cases hmlp
  rw [checkInv7Structure, hhead, Option.map_some, hheadBf16, ← h.embedTokens_iff, ← houtside]
  simp

-- The count of the new file is that of the old one without `lm_head`.
theorem Applied.f8WeightCount : Checkpoint.f8WeightCount p.header = Checkpoint.f8WeightCount p.layout.entries +
    if Checkpoint.lmHead ∈ f8Names p.header then 1 else 0 := by
  refine f8WeightCount_eq fun name => ?_
  obtain ⟨expected, hexpected⟩ := h.exists_expected
  have hsidecars : ∀ name ∈ DROPPED_LMHEAD, (ascii ".weight").isSuffixOf name = true → name = Checkpoint.lmHead := by
    decide
  rw [mem_f8Names, mem_f8Names]
  constructor
  · rintro ⟨hsuffix, after, hafter, hdtype⟩
    by_cases hkept : name ∈ p.plan.keep
    · obtain ⟨before, after', _, hbefore, hafter', hsame, -, -, -⟩ := h.kept hkept
      obtain rfl := Option.some.inj (hafter.symm.trans hafter')
      refine ⟨?_, hsuffix, before, hbefore, hsame ▸ hdtype⟩
      rintro rfl
      exact h.lmHead_notMem_keep hkept
    · have hadded := (h.prepares.mem_keys.mp (Table.mem_keys_iff.mpr ⟨after, hafter⟩)).resolve_left hkept
      obtain ⟨after', hafter', hbf16, -⟩ := h.added_asPlanned hadded hkept hexpected
      obtain rfl := Option.some.inj (hafter.symm.trans hafter')
      exact absurd (hbf16.symm.trans hdtype) (by decide)
  · rintro ⟨hne, hsuffix, before, hbefore, hdtype⟩
    have hkept := h.mem_keep hbefore fun hdropped => hne (hsidecars name hdropped hsuffix)
    obtain ⟨before', after, _, hbefore', hafter, hsame, -, -, -⟩ := h.kept hkept
    obtain rfl := Option.some.inj (hbefore.symm.trans hbefore')
    exact ⟨hsuffix, after, hafter, hsame.trans hdtype⟩

theorem Applied.checkQuantizedCount_iff (hcounts : CountsTruly p.header qc) :
    checkQuantizedCount p.layout.entries (.dict newQc) = .ok [] ↔
      ∃ entry, p.header.get Checkpoint.lmHead = some entry ∧ entry.dtype = FP8 := by
  obtain ⟨qc', hqc, hrest⟩ := bind_eq_ok.mp h.updated
  obtain ⟨qmd', -, hpair⟩ := bind_eq_ok.mp hrest
  obtain ⟨rfl, rfl⟩ := Prod.mk.inj (Except.ok.inj hpair)
  obtain ⟨fields, mp', rfl, -, -, hmp', hupdated⟩ := updatedConfig_spec hqc
  obtain ⟨fields', mp, hdict, hmp, hcount⟩ := hcounts
  obtain rfl := Value.dict.inj hdict
  rw [hmp, Option.getD_some] at hupdated
  obtain ⟨mp'', _, hdict', -, -, hdecrement⟩ := updatedPrecision_spec hupdated
  obtain rfl := Value.dict.inj hdict'
  have hresult : checkQuantizedCount p.layout.entries (.dict qc') =
      .ok (if eqNat (Checkpoint.f8WeightCount p.layout.entries)
        (.int (Checkpoint.f8WeightCount p.header - 1)) then []
          else [.quantizedCount (Checkpoint.f8WeightCount p.layout.entries)
            (.int (Checkpoint.f8WeightCount p.header - 1))]) := by
    simp only [checkQuantizedCount, fieldsOf, bind, Except.bind, hmp', Option.getD_some, hdecrement _ hcount]
    rfl
  have hhead : Checkpoint.lmHead ∈ f8Names p.header ↔ ∃ entry, p.header.get Checkpoint.lmHead = some entry ∧ entry.dtype = FP8 := by
    rw [mem_f8Names]
    exact and_iff_right (by decide)
  have hcounts := h.f8WeightCount
  rw [hresult, ← hhead, eqNat]
  by_cases hmem : Checkpoint.lmHead ∈ f8Names p.header
  · rw [if_pos hmem] at hcounts
    have heq : (Checkpoint.f8WeightCount p.header : ℤ) - 1 = Checkpoint.f8WeightCount p.layout.entries := by
      omega
    simp [heq, hmem]
  · rw [if_neg hmem] at hcounts
    have hne : ¬(Checkpoint.f8WeightCount p.header : ℤ) - 1 = Checkpoint.f8WeightCount p.layout.entries := by
      omega
    simp [hne, hmem]

theorem Applied.checkSidecars_iff :
    checkSidecars (.dict (newConfig cfg)) (.dict newQc) (.dict newQmd) = .ok [] ↔ ∃ fields, qc = .dict fields ∧
      Dict.get fields (ascii "recipe") = some (.str (ascii "fp8_blockwise_mixed")) := by
  obtain ⟨qc', hqc, hrest⟩ := bind_eq_ok.mp h.updated
  obtain ⟨qmd', hqmd, hpair⟩ := bind_eq_ok.mp hrest
  obtain ⟨rfl, rfl⟩ := Prod.mk.inj (Except.ok.inj hpair)
  obtain ⟨fields, mp', rfl, hlmhead, hsame, hmp', hupdated⟩ := updatedConfig_spec hqc
  obtain ⟨mp, quantized, -, hquantized, hnone, -⟩ := updatedPrecision_spec hupdated
  have hlisted : quantized.any (isText (ascii "lm_head")) = false := by
    refine List.any_eq_false.mpr fun value hvalue htext => ?_
    have heq : value = .str (ascii "lm_head") := by
      by_contra hne
      rw [isText_false_iff.mpr hne] at htext
      cases htext
    exact hnone (heq ▸ hvalue)
  have hgen : Dict.get (newConfig cfg) (ascii "action_gen") = some (.bool true) := Dict.get_set_self cfg _ _
  have hresult : checkSidecars (.dict (newConfig cfg)) (.dict qc') (.dict qmd') =
      .ok (if isText (ascii "fp8_blockwise_mixed") ((Dict.get fields (ascii "recipe")).getD .none) then []
        else [.recipe ((Dict.get fields (ascii "recipe")).getD .none)]) := by
    simp only [checkSidecars, fieldsOf, bind, Except.bind, hmp', hquantized, Option.getD_some, holdsText,
      hlisted, hgen, hlmhead, hsame, updatedMap_spec hqmd, isTrue, isFalse, truth]
    cases isText (ascii "fp8_blockwise_mixed") ((Dict.get fields (ascii "recipe")).getD .none) <;> rfl
  rw [hresult]
  constructor
  · intro hnil
    refine ⟨fields, rfl, ?_⟩
    by_contra hne
    have hfalse : isText (ascii "fp8_blockwise_mixed") ((Dict.get fields (ascii "recipe")).getD .none) = false := by
      refine isText_false_iff.mpr fun heq => hne ?_
      cases hget : Dict.get fields (ascii "recipe") with
      | none => rw [hget] at heq; cases heq
      | some value => rw [hget] at heq; exact congrArg some heq
    rw [hfalse] at hnil
    cases hnil
  · rintro ⟨fields', hdict, hrecipe⟩
    obtain rfl := Value.dict.inj hdict
    rw [hrecipe, Option.getD_some, isText]
    simp

-- What a run writes is no pickle.
theorem Applied.mem_disk_iff {path : Path} (hpickle : isPickle (nameOf path) = true) : path ∈ disk' ↔ path ∈ disk := by
  have hname : ∀ other, isPickle (nameOf other) = false → path ≠ other := by
    rintro other hother rfl
    rw [hpickle] at hother
    cases hother
  have hlookup : disk'.lookup path = disk.lookup path :=
    h.others path (hname _ (isPickle_withSuffix ck .st (.inr rfl)))
      fun target => ⟨hname _ (isPickle_path ck target), hname _ (isPickle_withSuffix ck target (.inl rfl))⟩
  rw [← AList.lookup_isSome, hlookup, AList.lookup_isSome]

theorem Applied.checkPickleFree_iff :
    checkPickleFree disk' (transformerDir ck) = [] ↔ checkPickleFree disk (transformerDir ck) = [] := by
  rw [checkPickleFree_eq_nil, checkPickleFree_eq_nil]
  constructor
  · exact fun hall path hpath hdir hne hpickle => hall path ((h.mem_disk_iff hpickle).mpr hpath) hdir hne hpickle
  · exact fun hall path hpath hdir hne hpickle => hall path ((h.mem_disk_iff hpickle).mp hpath) hdir hne hpickle

end Applied

section Hashes

theorem checkHashes_eq_nil {arith : FloatArith} {sha : Bytes → Text} {ck backupSt sourceDir : Path} {disk : Disk}
    {post : Table Text Text}
    (hpost : hashAllTensors arith.toFloatReader sha disk (Target.st.path ck) = .ok post) :
    checkHashes arith sha ck (some backupSt) (some sourceDir) disk = .ok [] ↔
      (hashAllTensors arith.toFloatReader sha disk backupSt).map
          (fun pre => checkScopedByteIdentity pre post) = .ok [] ∧
        (sourceHashes arith sha disk (transformerDir sourceDir) ADDED_TENSORS).map
          (checkSourceIdentity post) = .ok [] := by
  rw [checkHashes, if_neg (by simp)]
  constructor
  · intro h
    obtain ⟨found, hfound, h⟩ := bind_eq_ok.mp h
    obtain rfl := Except.ok.inj (hpost.symm.trans hfound)
    obtain ⟨identity, hidentity, h⟩ := bind_eq_ok.mp h
    obtain ⟨source, hsource, h⟩ := bind_eq_ok.mp h
    obtain ⟨rfl, rfl⟩ := List.append_eq_nil_iff.mp (Except.ok.inj h)
    exact ⟨hidentity, hsource⟩
  · rintro ⟨hidentity, hsource⟩
    exact bind_eq_ok.mpr ⟨post, hpost, bind_eq_ok.mpr ⟨[], hidentity, bind_eq_ok.mpr ⟨[], hsource, rfl⟩⟩⟩

variable {arith : FloatArith} {sha : Bytes → Text} {ck src : Path} {verify : Bool} {disk disk' : Disk}
  {p : Prepared} {content : Bytes} {n : Nat} {cfg newQc newQmd : Dict} {qc qmd : Value}
  (h : Applied arith sha ck src true verify disk disk' p content n cfg newQc newQmd qc qmd)

include h

theorem Applied.lookup_shard {other : Disk} {dir path : Path} (hmem : path ∈ shards other dir)
    (hne : path ≠ Target.st.path ck) : disk'.lookup path = disk.lookup path :=
  h.others path (shard_ne_tmp hmem) fun target =>
    ⟨fun heq => hne (by rw [heq, shard_eq_st hmem heq]), shard_ne_backup hmem target⟩

theorem Applied.shards_eq (dir : Path) : shards disk' dir = shards disk dir := by
  refine shards_congr fun path hname => ?_
  have hnil : path ≠ [] := by
    rintro rfl
    revert hname
    decide
  have hmem : ∀ other : Disk, path ∈ other → path ∈ shards other path.dropLast :=
    fun other hother => mem_shards.mpr ⟨hother, rfl, hnil, hname⟩
  by_cases hst : path = Target.st.path ck
  · obtain ⟨m, hold, -⟩ := h.prepares.header
    rw [hst]
    exact iff_of_true (mem_of_readHeader h.readNew) (mem_of_readHeader hold)
  · constructor
    · intro hpath
      rw [← AList.lookup_isSome, ← h.lookup_shard (hmem disk' hpath) hst, AList.lookup_isSome]
      exact hpath
    · intro hpath
      rw [← AList.lookup_isSome, h.lookup_shard (hmem disk hpath) hst, AList.lookup_isSome]
      exact hpath

theorem Applied.hashed : ∃ post, hashAllTensors arith.toFloatReader sha disk' (Target.st.path ck) = .ok post ∧
    (∀ name, name ∈ post.keys ↔ name ∈ p.layout.entries.keys) ∧
    ∀ name after, p.layout.entries.get name = some after → ∃ bytes,
      tensorBytes disk' (Target.st.path ck) (dataStart n) after = some bytes ∧
        post.get name = some (sha bytes) := by
  obtain ⟨hlaws, hreturns⟩ := hashAllTensors_ok sha h.readNew
  obtain ⟨post, hpost⟩ := hreturns fun name entry hentry => h.exists_bytes hentry
  exact ⟨post, hpost, hlaws post hpost⟩

-- The backup is the old file: its kept tensors are those of the new one.
theorem Applied.checkIdentity_iff {post : Table Text Text}
    (hkeys : ∀ name, name ∈ post.keys ↔ name ∈ p.layout.entries.keys)
    (hdigests : ∀ name after, p.layout.entries.get name = some after → ∃ bytes,
      tensorBytes disk' (Target.st.path ck) (dataStart n) after = some bytes ∧
        post.get name = some (sha bytes)) :
    (hashAllTensors arith.toFloatReader sha disk' (Target.st.backup ck)).map
        (fun pre => checkScopedByteIdentity pre post) = .ok [] ↔
      ∀ name ∈ DROPPED_LMHEAD, ∀ entry, p.header.get name = some entry →
        ∃ bytes, tensorBytes disk (Target.st.path ck) p.start entry = some bytes := by
  obtain ⟨m, hold, hstart⟩ := h.prepares.header
  have hlookup := h.backups rfl .st
  have hbytes : ∀ entry, tensorBytes disk' (Target.st.backup ck) (dataStart m) entry =
      tensorBytes disk (Target.st.path ck) p.start entry := by
    intro entry
    rw [tensorBytes, hlookup, hstart, tensorBytes]
  obtain ⟨hlaws, hreturns⟩ := hashAllTensors_ok sha ((readHeader_congr hlookup).mpr hold)
  simp only [hbytes] at hlaws hreturns
  constructor
  · intro hmap name _ entry hentry
    obtain ⟨pre, hpre, -⟩ := map_eq_ok.mp hmap
    obtain ⟨bytes, hsome, -⟩ := (hlaws pre hpre).2 name entry hentry
    exact ⟨bytes, hsome⟩
  · intro hdropped
    obtain ⟨pre, hpre⟩ : ∃ pre, hashAllTensors arith.toFloatReader sha disk' (Target.st.backup ck) = .ok pre := by
      refine hreturns fun name entry hentry => ?_
      by_cases hname : name ∈ DROPPED_LMHEAD
      · exact hdropped name hname entry hentry
      · obtain ⟨entry', bytes, hentry', hsome, -⟩ := h.prepares.kept name (h.mem_keep hentry hname)
        obtain rfl := Option.some.inj (hentry.symm.trans hentry')
        exact ⟨bytes, hsome⟩
    obtain ⟨hpreKeys, hpreDigests⟩ := hlaws pre hpre
    refine map_eq_ok.mpr ⟨pre, hpre, checkScopedByteIdentity_eq_nil.mpr ⟨fun name digest hname hget => ?_,
      ?_, ?_, fun name hname => ?_⟩⟩
    · obtain ⟨before, hbefore⟩ := Table.mem_keys_iff.mp
        ((hpreKeys name).mp (Table.mem_keys_iff.mpr ⟨digest, hget⟩))
      obtain ⟨bytes, hsome, hpreDigest⟩ := hpreDigests name before hbefore
      obtain ⟨before', after, bytes', hbefore', hafter, -, -, hsome', hnew⟩ :=
        h.kept (h.mem_keep hbefore hname)
      obtain rfl := Option.some.inj (hbefore.symm.trans hbefore')
      obtain rfl := Option.some.inj (hsome.symm.trans hsome')
      obtain ⟨bytes'', hsome'', hpost⟩ := hdigests name after hafter
      obtain rfl := Option.some.inj (hnew.symm.trans hsome'')
      rw [hpost, ← hpreDigest, hget]
    · rw [hkeys]
      exact h.prepares.sidecar_notMem (by decide) (by decide)
    · rw [hkeys]
      exact h.prepares.sidecar_notMem (by decide) (by decide)
    · rw [hkeys]
      exact h.prepares.mem_keys.mpr (.inr hname)

-- What the probe finds in the source for an added tensor. It is what the new file has,
-- but for a tensor that was there before and is not the one of the source.
theorem Applied.foundInSource {name : Text} (hname : name ∈ ADDED_TENSORS) {after : Entry} {bytes : Bytes}
    (hafter : p.layout.entries.get name = some after)
    (hbytes : tensorBytes disk' (Target.st.path ck) (dataStart n) after = some bytes) :
    ∃ source bytes', firstWith arith.toFloatReader disk' name (shards disk' (transformerDir src)) = some source ∧
      tensorBytes disk' source.shard source.start source.entry = some bytes' ∧
      (bytes = bytes' ↔ (name ∈ p.plan.keep → AgreesWithSource ck disk p name)) := by
  obtain ⟨m, hold, hstart⟩ := h.prepares.header
  obtain ⟨source, hsource, hfirst⟩ := resolve_get h.prepares.srcmap hname
  obtain ⟨source', found, hsource', hfound, -⟩ := h.prepares.added name hname
  obtain rfl := Option.some.inj (hsource.symm.trans hsource')
  rw [h.shards_eq]
  rcases firstWith_changed (fun shard hshard hne => h.lookup_shard hshard hne) h.readNew hafter hfirst with
    ⟨hsame, hne⟩ | ⟨hchanged, hself⟩
  · have hthere : tensorBytes disk' source.shard source.start source.entry = some found := by
      rw [tensorBytes_congr (h.lookup_shard (firstWith_mem hfirst).1 hne), hfound]
    refine ⟨source, found, hsame, hthere, ?_⟩
    by_cases hkept : name ∈ p.plan.keep
    · obtain ⟨before, after', bytes', hbefore, hafter', -, -, hsome, hnew⟩ := h.kept hkept
      obtain rfl := Option.some.inj (hafter.symm.trans hafter')
      obtain rfl := Option.some.inj (hbytes.symm.trans hnew)
      constructor
      · rintro rfl - entry other hentry hother
        obtain rfl := Option.some.inj (hbefore.symm.trans hentry)
        obtain rfl := Option.some.inj (hsource.symm.trans hother)
        rw [hsome, hfound]
      · intro hagrees
        have heq := hagrees hkept before source hbefore hsource
        rw [hsome, hfound] at heq
        exact Option.some.inj heq
    · obtain ⟨other, after', bytes', hother, hafter', -, -, hsome, hnew⟩ := h.added hname hkept
      obtain rfl := Option.some.inj (hafter.symm.trans hafter')
      obtain rfl := Option.some.inj (hbytes.symm.trans hnew)
      obtain rfl := Option.some.inj (hsource.symm.trans hother)
      exact iff_of_true (Option.some.inj (hsome.symm.trans hfound)) fun hmem => absurd hmem hkept
  · refine ⟨_, bytes, hchanged, hbytes, iff_of_true rfl fun hkept before other hbefore hother => ?_⟩
    obtain rfl := Option.some.inj (hsource.symm.trans hother)
    rw [hself p.header m before hold hbefore, hstart]

theorem Applied.checkSource_iff (hsha : Function.Injective sha) {post : Table Text Text}
    (hdigests : ∀ name after, p.layout.entries.get name = some after → ∃ bytes,
      tensorBytes disk' (Target.st.path ck) (dataStart n) after = some bytes ∧
        post.get name = some (sha bytes)) :
    (sourceHashes arith sha disk' (transformerDir src) ADDED_TENSORS).map (checkSourceIdentity post) = .ok [] ↔
      ∀ name ∈ ACTION_TENSORS, name ∈ p.plan.keep → AgreesWithSource ck disk p name := by
  have hafter : ∀ name ∈ ADDED_TENSORS, ∃ after, p.layout.entries.get name = some after :=
    fun name hname => Table.mem_keys_iff.mp (h.prepares.mem_keys.mpr (.inr hname))
  constructor
  · intro hmap name haction hkept
    have hname : name ∈ ADDED_TENSORS := List.mem_append_left _ haction
    obtain ⟨found, hscan, hnil⟩ := map_eq_ok.mp hmap
    obtain ⟨after, hget⟩ := hafter name hname
    obtain ⟨bytes, hbytes, hpost⟩ := hdigests name after hget
    obtain ⟨source, bytes', hfirst, hbytes', hiff⟩ := h.foundInSource hname hget hbytes
    obtain ⟨digest, hfound, hsame⟩ := checkSourceIdentity_eq_nil.mp hnil name hname
    rcases scan_get hscan hname rfl with ⟨-, hnone⟩ | ⟨source', digest', hfirst', hdigest, hget'⟩
    · rw [hfound] at hnone
      cases hnone
    · obtain rfl := Option.some.inj (hfirst.symm.trans hfirst')
      obtain ⟨bytes'', hbytes'', rfl⟩ := hashTensor_eq_ok.mp hdigest
      obtain rfl := Option.some.inj (hbytes'.symm.trans hbytes'')
      obtain rfl := Option.some.inj (hfound.symm.trans hget')
      exact hiff.mp (hsha (Option.some.inj (hpost.symm.trans hsame))) hkept
  · intro hagrees
    have hreads : ∀ shard ∈ shards disk' (transformerDir src),
        ∃ read, readHeader arith.toFloatReader disk' shard = .ok read := by
      intro shard hshard
      obtain ⟨found, hscan, -⟩ := bind_eq_ok.mp h.prepares.srcmap
      by_cases hst : shard = Target.st.path ck
      · exact ⟨_, hst ▸ h.readNew⟩
      · obtain ⟨⟨header, m⟩, hread⟩ := scan_reads hscan shard (h.shards_eq _ ▸ hshard)
        exact ⟨_, (readHeader_congr (h.lookup_shard hshard hst)).mpr hread⟩
    obtain ⟨found, hscan⟩ : ∃ found, sourceHashes arith sha disk' (transformerDir src) ADDED_TENSORS = .ok found := by
      refine scan_ok hreads fun name hname _ source hfirst => ?_
      obtain ⟨after, hget⟩ := hafter name hname
      obtain ⟨bytes, hbytes, -⟩ := hdigests name after hget
      obtain ⟨source', bytes', hfirst', hbytes', -⟩ := h.foundInSource hname hget hbytes
      obtain rfl := Option.some.inj (hfirst.symm.trans hfirst')
      exact ⟨_, hashTensor_eq_ok.mpr ⟨bytes', hbytes', rfl⟩⟩
    refine map_eq_ok.mpr ⟨found, hscan, checkSourceIdentity_eq_nil.mpr fun name hname => ?_⟩
    obtain ⟨after, hget⟩ := hafter name hname
    obtain ⟨bytes, hbytes, hpost⟩ := hdigests name after hget
    obtain ⟨source, bytes', hfirst, hbytes', hiff⟩ := h.foundInSource hname hget hbytes
    have hsame : bytes = bytes' := by
      refine hiff.mpr fun hkept => hagrees name ?_ hkept
      rcases List.mem_append.mp hname with haction | hhead
      · exact haction
      · rw [List.mem_singleton.mp hhead] at hkept
        exact absurd hkept h.lmHead_notMem_keep
    rcases scan_get hscan hname rfl with ⟨hnone, -⟩ | ⟨source', digest, hfirst', hdigest, hget'⟩
    · rw [hfirst] at hnone
      cases hnone
    · obtain rfl := Option.some.inj (hfirst.symm.trans hfirst')
      obtain ⟨bytes'', hbytes'', rfl⟩ := hashTensor_eq_ok.mp hdigest
      obtain rfl := Option.some.inj (hbytes'.symm.trans hbytes'')
      exact ⟨sha bytes', hget', hsame ▸ hpost⟩

end Hashes

section Agree

variable {arith : FloatArith} {sha : Bytes → Text} {order : SetOrder} {ck src : Path} {verify : Bool}
  {disk disk' : Disk} {report : Report}

-- The probe of what a run has left, with the backup of that run and its source.
theorem probe_clean_iff (hsha : Function.Injective sha)
    (hrun : (applyMutation arith sha order ck src true verify).exec disk = (.ok report, disk')) :
    ∃ old n cfg expected srcmap qc,
      readHeader arith.toFloatReader disk (Target.st.path ck) = .ok (old, n) ∧
      readJson arith.toFloatReader disk (Target.config.path ck) = .ok cfg ∧
      expectedShapes arith cfg = .ok expected ∧
      resolveSourceTensors arith.toFloatReader disk (transformerDir src) ADDED_TENSORS = .ok srcmap ∧
      readJson arith.toFloatReader disk (Target.quantization.path ck) = .ok qc ∧
      (CountsTruly old qc →
        ((∃ found, probeCheckpoint arith sha ck (some (Target.st.backup ck)) (some src) disk' = .ok found ∧
            found.ok = true) ↔
          Conforms ck disk old qc ∧ AsAssumed ck disk old (dataStart n) expected srcmap)) := by
  obtain ⟨p, content, n', cfg, newQc, newQmd, qc, qmd, h⟩ := applyMutation_ok hrun
  obtain ⟨n, hold, hstart⟩ := h.prepares.header
  obtain ⟨expected, hexpected⟩ := h.exists_expected
  refine ⟨p.header, n, p.config, expected, p.srcmap, qc, hold, h.prepares.config, hexpected,
    h.prepares.srcmap, h.readQc, fun htruly => ?_⟩
  obtain ⟨post, hpost, hkeys, hdigests⟩ := h.hashed
  have hactions := h.checkActionSet_iff hexpected
  have hcount := h.checkQuantizedCount_iff htruly
  have hrecipe := h.checkSidecars_iff
  have hinv7 := h.checkInv7Structure_iff
  have hpickles := h.checkPickleFree_iff
  have hidentity := h.checkIdentity_iff hkeys hdigests
  have hsource := h.checkSource_iff hsha hdigests
  have hagrees : (∀ name ∈ ACTION_TENSORS, name ∈ p.plan.keep → AgreesWithSource ck disk p name) ↔
      ∀ name ∈ ACTION_TENSORS, ∀ before, p.header.get name = some before →
        ∃ source, p.srcmap.get name = some source ∧ tensorBytes disk (Target.st.path ck) (dataStart n) before =
          tensorBytes disk source.shard source.start source.entry := by
    refine forall₂_congr fun name hname => ⟨fun hall before hbefore => ?_, fun hall _ before source hbefore hget => ?_⟩
    · obtain ⟨source, hget, -⟩ := resolve_get h.prepares.srcmap (List.mem_append_left _ hname)
      exact ⟨source, hget, hstart ▸ hall (h.mem_keep hbefore (notMem_dropped_of_action hname))
        before source hbefore hget⟩
    · obtain ⟨source', hget', heq⟩ := hall before hbefore
      obtain rfl := Option.some.inj (hget.symm.trans hget')
      rw [hstart, heq]
  rw [hstart] at hidentity
  constructor
  · rintro ⟨found, hprobe, hok⟩
    obtain ⟨read, hread, hprobe⟩ := bind_eq_ok.mp hprobe
    obtain rfl := Except.ok.inj (h.readNew.symm.trans hread)
    obtain ⟨cfg', hcfg', hprobe⟩ := bind_eq_ok.mp hprobe
    obtain rfl := Except.ok.inj (h.readConfig.symm.trans hcfg')
    obtain ⟨qc', hqc', hprobe⟩ := bind_eq_ok.mp hprobe
    obtain rfl := Except.ok.inj (h.readQuantization.symm.trans hqc')
    obtain ⟨qmd', hqmd', hprobe⟩ := bind_eq_ok.mp hprobe
    obtain rfl := Except.ok.inj (h.readMapDiff.symm.trans hqmd')
    obtain ⟨actions, hactions', hprobe⟩ := bind_eq_ok.mp hprobe
    obtain ⟨counts', hcounts', hprobe⟩ := bind_eq_ok.mp hprobe
    obtain ⟨sidecars, hsidecars, hprobe⟩ := bind_eq_ok.mp hprobe
    obtain ⟨hashes, hhashes, hprobe⟩ := bind_eq_ok.mp hprobe
    obtain rfl := Except.ok.inj hprobe
    rw [ProbeReport.ok, List.isEmpty_iff] at hok
    simp only [List.append_eq_nil_iff] at hok
    obtain ⟨⟨⟨⟨⟨rfl, hstructure⟩, rfl⟩, rfl⟩, hfree⟩, rfl⟩ := hok
    obtain ⟨hbackup, hsources⟩ := (checkHashes_eq_nil hpost).mp hhashes
    obtain ⟨hembed, hquantized⟩ := hinv7.mp hstructure
    exact ⟨⟨hrecipe.mp (mapError_eq_ok.mp hsidecars), hembed, hquantized, hpickles.mp hfree⟩,
      hcount.mp (mapError_eq_ok.mp hcounts'), hactions.mp (mapError_eq_ok.mp hactions'),
      hagrees.mp (hsource.mp hsources), hidentity.mp hbackup⟩
  · rintro ⟨hconforms, hassumed⟩
    have hhashes := (checkHashes_eq_nil hpost).mpr
      ⟨hidentity.mpr hassumed.dropped, hsource.mpr (hagrees.mpr hassumed.bytes)⟩
    refine ⟨_, bind_eq_ok.mpr ⟨_, h.readNew, bind_eq_ok.mpr ⟨_, h.readConfig, bind_eq_ok.mpr
      ⟨_, h.readQuantization, bind_eq_ok.mpr ⟨_, h.readMapDiff, bind_eq_ok.mpr
        ⟨[], mapError_eq_ok.mpr (hactions.mpr hassumed.actions), bind_eq_ok.mpr
          ⟨[], mapError_eq_ok.mpr (hcount.mpr hassumed.lmHead), bind_eq_ok.mpr
            ⟨[], mapError_eq_ok.mpr (hrecipe.mpr hconforms.recipe), bind_eq_ok.mpr ⟨[], hhashes, rfl⟩⟩⟩⟩⟩⟩⟩⟩, ?_⟩
    simp only [ProbeReport.ok, hinv7.mpr ⟨hconforms.embedTokens, hconforms.quantized⟩,
      hpickles.mpr hconforms.pickles, List.append_nil]
    rfl

end Agree

section Sample

theorem sample_conforms : Conforms sampleCkpt (sampleDisk FP8 1) (sampleOld FP8)
    (.dict (sampleQuantization 1)) where
  recipe := ⟨_, rfl, rfl⟩
  quantized := by
    intro name entry hentry hquant
    rcases List.mem_cons.mp (Table.get_eq_some_iff.mp hentry) with hfield | hfield
    · obtain ⟨rfl, rfl⟩ := Prod.mk.inj hfield
      exact absurd hquant (by decide)
    · obtain ⟨rfl, rfl⟩ := Prod.mk.inj (List.mem_singleton.mp hfield)
      exact .inr (by decide)
  embedTokens := ⟨_, rfl, rfl⟩
  pickles := by decide +kernel

theorem sample_asAssumed {n : Nat} {expected : Table Text (List Value)} {srcmap : Table Text Source}
    (hold : readHeader sampleArith.toFloatReader (sampleDisk FP8 1) (Target.st.path sampleCkpt) =
      .ok (sampleOld FP8, n)) :
    AsAssumed sampleCkpt (sampleDisk FP8 1) (sampleOld FP8) (dataStart n) expected srcmap := by
  have habsent : ∀ name ∈ ACTION_TENSORS, (sampleOld FP8).get name = none := by decide
  obtain ⟨m, hread, hslice⟩ := sample_old (.inl rfl)
  obtain ⟨-, rfl⟩ := Prod.mk.inj (Except.ok.inj (hold.symm.trans
    (readHeader_eq_ok.mpr ⟨_, sample_lookup_st FP8 1, hread⟩)))
  refine ⟨⟨_, rfl, rfl⟩, fun name hname before hbefore => ?_, fun name hname before hbefore => ?_,
    fun name hname entry hentry => ?_⟩
  · rw [habsent name hname] at hbefore
    cases hbefore
  · rw [habsent name hname] at hbefore
    cases hbefore
  · have hhead : name = lmHead ∧ entry = ⟨FP8, [1, 1], 1, 2, by decide⟩ := by
      rcases List.mem_cons.mp (Table.get_eq_some_iff.mp hentry) with hfield | hfield
      · obtain ⟨rfl, rfl⟩ := Prod.mk.inj hfield
        exact absurd hname (by decide)
      · exact Prod.mk.inj (List.mem_singleton.mp hfield)
    rw [hhead.2, tensorBytes, sample_lookup_st, Option.bind_some]
    exact ⟨[2], hslice 1 1⟩

theorem probe_clean_iff_sampleDisk :
    ∃ report disk' found, (applyMutation sampleArith sampleSha sampleOrder sampleCkpt [ascii "bf16"] true
        true).exec (sampleDisk FP8 1) = (.ok report, disk') ∧
      probeCheckpoint sampleArith sampleSha sampleCkpt (some (Target.st.backup sampleCkpt))
        (some [ascii "bf16"]) disk' = .ok found ∧ found.ok = true := by
  obtain ⟨report, disk', hrun⟩ := sample_returns (.inl rfl) 1 true true
  obtain ⟨old, n, cfg, expected, srcmap, qc, hold, -, -, -, hqc, hiff⟩ :=
    probe_clean_iff sampleSha_injective hrun
  obtain ⟨m, hread, -⟩ := sample_old (.inl rfl)
  obtain ⟨rfl, rfl⟩ := Prod.mk.inj (Except.ok.inj (hold.symm.trans
    (readHeader_eq_ok.mpr ⟨_, sample_lookup_st FP8 1, hread⟩)))
  obtain rfl := Except.ok.inj (hqc.symm.trans (sample_quantization FP8 1))
  obtain ⟨found, hfound, hok⟩ := (hiff ⟨_, _, rfl, rfl, rfl⟩).mpr ⟨sample_conforms, sample_asAssumed hold⟩
  exact ⟨report, disk', found, hrun, hfound, hok⟩

end Sample

end Cosmos3.Checkpoint
