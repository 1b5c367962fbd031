import Cosmos3.Checkpoint.Scan
import Cosmos3.Checkpoint.Written

namespace Cosmos3.Checkpoint

open Basis Basis.Python

section Plan

variable {arith : FloatArith} {order : SetOrder} {fp8 : Header} {bf16Src : Table Text Entry} {cfg : Value}
  {plan : MutationPlan}

-- What a plan that is not refused says.
structure Planned (arith : FloatArith) (fp8 : Header) (bf16Src : Table Text Entry) (cfg : Value)
    (plan : MutationPlan) : Prop where
  fresh : already fp8 = false
  keep : ∀ name, name ∈ plan.keep ↔ name ∈ fp8.keys ∧ name ∉ DROPPED_LMHEAD
  nodup : plan.keep.Nodup
  drop : plan.drop = DROPPED_LMHEAD.filter fun name => name ∈ fp8.keys
  add : plan.add = ADDED_TENSORS
  sources : ∃ expected, expectedShapes arith cfg = .ok expected ∧
    ∀ name ∈ ADDED_TENSORS, ∃ ref shape, bf16Src.get name = some ref ∧ ref.dtype = bf16 ∧
      expected.get name = some shape ∧ eqShape ref.shape shape = true

theorem expectedShapes_get {expected : Table Text (List Value)} (h : expectedShapes arith cfg = .ok expected) :
    ∀ name ∈ ADDED_TENSORS, ∃ shape, expected.get name = some shape := by
  obtain ⟨d, -, h⟩ := bind_eq_ok.mp h
  obtain ⟨hiddenSize, -, h⟩ := bind_eq_ok.mp h
  obtain ⟨actionDim, -, h⟩ := bind_eq_ok.mp h
  obtain ⟨domains, -, h⟩ := bind_eq_ok.mp h
  obtain ⟨vocabSize, -, h⟩ := bind_eq_ok.mp h
  obtain ⟨inner, -, h⟩ := bind_eq_ok.mp h
  obtain rfl := Except.ok.inj h
  intro name hname
  refine Table.mem_keys_iff.mp (Table.mem_keys_setAll.mpr (.inr ?_))
  simpa [ADDED_TENSORS, ACTION_TENSORS] using hname

theorem checkSource_ok {expected : Table Text (List Value)} {name : Text} {shape : List Value}
    (hshape : expected.get name = some shape) :
    checkSource expected bf16Src name = .ok () ↔
      ∃ ref, bf16Src.get name = some ref ∧ ref.dtype = bf16 ∧ eqShape ref.shape shape = true := by
  unfold checkSource
  cases bf16Src.get name with
  | none => simp
  | some ref =>
      by_cases hdtype : ref.dtype = bf16
      · by_cases heq : eqShape ref.shape shape = true
        · simp [hdtype, hshape, heq]
        · simp [hdtype, hshape, heq]
      · simp [hdtype]

theorem planMutation_ok (h : planMutation arith order fp8 bf16Src cfg = .ok plan) :
    Planned arith fp8 bf16Src cfg plan := by
  rw [planMutation] at h
  by_cases halready : already fp8 = true
  · rw [if_pos halready] at h
    cases h
  · rw [if_neg halready] at h
    obtain ⟨-, -, h⟩ := bind_eq_ok.mp h
    obtain ⟨expected, hexpected, h⟩ := bind_eq_ok.mp h
    obtain ⟨_, hchecks, h⟩ := bind_eq_ok.mp h
    obtain rfl := Except.ok.inj h
    have hexpected := mapError_eq_ok.mp hexpected
    refine ⟨Bool.not_eq_true _ ▸ halready, fun name => ?_, ?_, rfl, rfl, expected, hexpected,
      fun name hname => ?_⟩
    · simp only [names, List.mem_filter, (order.perm fp8.keys).mem_iff, decide_eq_true_eq]
    · exact ((order.perm fp8.keys).nodup_iff.mpr fp8.nodup).filter _
    · obtain ⟨shape, hshape⟩ := expectedShapes_get hexpected name hname
      obtain ⟨ref, href, hdtype, heq⟩ :=
        (checkSource_ok hshape).mp ((runChecks_eq_ok _).mp hchecks name hname)
      exact ⟨ref, shape, href, hdtype, hshape, heq⟩

end Plan

section Layout

variable {arith : FloatArith} {fp8 : Header} {srcmap : Table Text Source} {plan : MutationPlan}
  {layout : Layout} {fp8Path : Path} {fp8Start : Nat}

-- The layout and the copy take a tensor from the same place.
theorem sourceEntry_eq_ok (hkeep : ∀ name ∈ plan.keep, name ∈ fp8.keys) {name : Text} {entry : Entry} :
    sourceEntry plan fp8 (srcmap.map (·.entry)) name = .ok entry ↔
      ∃ source, origin fp8Path fp8Start fp8 plan srcmap name = .ok source ∧ source.entry = entry := by
  unfold sourceEntry origin
  by_cases hname : name ∈ plan.keep
  · rw [if_pos hname, if_pos ⟨hkeep name hname, hname⟩]
    cases fp8.get name <;> simp
  · rw [if_neg hname, if_neg fun h => hname h.2, Table.get_map]
    cases srcmap.get name <;> simp

theorem mem_keptOrdered {name : Text} : name ∈ keptOrdered plan fp8 ↔ name ∈ plan.keep := by
  rw [keptOrdered]
  exact (List.perm_insertionSort _ plan.keep).mem_iff

-- What a layout is made of: an entry for each name of the order, and a header that can
-- be written.
theorem buildLayout_ok {bf16Src : Table Text Entry} (h : buildLayout arith plan fp8 bf16Src = .ok layout) :
    ∃ sources header, layout.order = keptOrdered plan fp8 ++ plan.add ∧
      layout.entries = Table.empty.setAll (place 0 sources) ∧
      List.Forall₂ (fun name source => source.1 = name ∧
        sourceEntry plan fp8 bf16Src name = .ok source.2) layout.order sources ∧
      buildHeaderBytes arith.toFloatReader layout.entries.toDict = some header ∧
      layout.dataLen = (sources.map fun source => source.2.size).sum := by
  obtain ⟨sources, hsources, h⟩ := bind_eq_ok.mp h
  dsimp only at h
  split at h
  · cases h
  · rename_i header hheader
    obtain rfl := Except.ok.inj h
    refine ⟨sources, header, rfl, rfl, ?_, hheader, rfl⟩
    refine (mapM_eq_ok.mp hsources).imp fun name source hsource => ?_
    obtain ⟨entry, hentry, rfl⟩ := map_eq_ok.mp hsource
    exact ⟨rfl, hentry⟩

theorem map_eq_of_forall₂ {α β γ : Type} {p : α → β → Prop} {f : α → γ} {g : β → γ} {as : List α}
    {bs : List β} (h : List.Forall₂ p as bs) (hp : ∀ a b, p a b → g b = f a) : bs.map g = as.map f := by
  induction h with
  | nil => rfl
  | cons hhead _ ih => rw [List.map_cons, ih, hp _ _ hhead, List.map_cons]

-- The names of the new file.
theorem mem_layout_keys (h : buildLayout arith plan fp8 (srcmap.map (·.entry)) = .ok layout)
    {name : Text} : name ∈ layout.entries.keys ↔ name ∈ plan.keep ∨ name ∈ plan.add := by
  obtain ⟨sources, header, horder, hentries, hsources, -⟩ := buildLayout_ok h
  have hnames : sources.map (·.1) = layout.order := by
    rw [map_eq_of_forall₂ (f := id) hsources fun name source h => h.1, List.map_id]
  rw [hentries, Table.mem_keys_setAll, map_place, hnames, horder, List.mem_append, mem_keptOrdered]
  simp [Table.empty, Table.keys]

theorem forall₂_join {α β γ : Type} {p : α → β → Prop} {q : α → γ → Prop} {as : List α} {bs : List β}
    {cs : List γ} (h : List.Forall₂ p as bs) (h' : List.Forall₂ q as cs) :
    List.Forall₂ (fun b c => ∃ a, p a b ∧ q a c) bs cs := by
  induction h generalizing cs with
  | nil =>
      cases h'
      exact .nil
  | @cons a b as bs hp _ ih =>
      obtain ⟨c, cs', hq, hrest, rfl⟩ := List.forall₂_cons_left_iff.mp h'
      exact .cons ⟨a, hp, hq⟩ (ih hrest)

-- The content of the new file: its header is the layout, and each tensor has the dtype,
-- the shape and the bytes of where it comes from.
structure Content (floats : FloatReader) (fp8Path : Path) (fp8Start : Nat) (fp8 : Header)
    (plan : MutationPlan) (srcmap : Table Text Source) (layout : Layout) (disk : Disk)
    (content : Bytes) (n : Nat) : Prop where
  header : readHeaderFile floats content = some (layout.entries, n)
  tensors : ∀ name entry, layout.entries.get name = some entry →
    ∃ source bytes, origin fp8Path fp8Start fp8 plan srcmap name = .ok source ∧
      tensorBytes disk source.shard source.start source.entry = some bytes ∧
      entry.dtype = source.entry.dtype ∧ entry.shape = source.entry.shape ∧
      slice content (dataStart n + entry.start) entry.size = some bytes

theorem slice_append (before file : Bytes) (pos size : Nat) :
    slice (before ++ file) (before.length + pos) size = slice file pos size := by
  unfold slice
  rw [List.length_append, ← List.drop_drop, List.drop_left]
  refine if_congr ?_ rfl rfl
  omega

theorem content_of_blocks (hkeep : ∀ name ∈ plan.keep, name ∈ fp8.keys)
    (hmetadata : metadataKey ∉ layout.entries.keys)
    (hlayout : buildLayout arith plan fp8 (srcmap.map (·.entry)) = .ok layout) {disk : Disk}
    {header : Bytes} (hheader : buildHeaderBytes arith.toFloatReader layout.entries.toDict = some header)
    {blocks : List Bytes}
    (hblocks : List.Forall₂ (IsBlock fp8Path fp8Start fp8 plan srcmap disk) layout.order blocks) :
    ∃ n, Content arith.toFloatReader fp8Path fp8Start fp8 plan srcmap layout disk
      (header ++ blocks.flatten) n := by
  obtain ⟨sources, -, -, hentries, hsources, -⟩ := buildLayout_ok hlayout
  obtain ⟨n, hread, hstart⟩ := readHeaderFile_build hmetadata hheader blocks.flatten
  refine ⟨n, hread, fun name entry hentry => ?_⟩
  have hjoined := forall₂_join hsources hblocks
  have hsizes : List.Forall₂ (fun source block => block.length = source.2.size) sources blocks := by
    refine hjoined.imp fun source block hboth => ?_
    obtain ⟨name, ⟨-, hsource⟩, hblock⟩ := hboth
    obtain ⟨src, horigin, hbytes⟩ := hblock
    obtain ⟨src', horigin', heq⟩ := (sourceEntry_eq_ok hkeep).mp hsource
    obtain rfl := Except.ok.inj (horigin.symm.trans horigin')
    obtain ⟨file, -, hslice⟩ := Option.bind_eq_some_iff.mp hbytes
    rw [← heq, length_of_slice hslice]
  rw [hentries] at hentry
  have hplaced := (Table.get_setAll hentry).resolve_left (by simp)
  obtain ⟨src, block, hzip, hdtype, hshape, hslice⟩ := @mem_place _ _ _ _ _ hplaced hsizes [] rfl
  obtain ⟨name', ⟨rfl, hsource⟩, source, horigin, hbytes⟩ := (List.forall₂_iff_zip.mp hjoined).2 hzip
  obtain ⟨source', horigin', rfl⟩ := (sourceEntry_eq_ok hkeep).mp hsource
  obtain rfl := Except.ok.inj (horigin.symm.trans horigin')
  refine ⟨source, block, horigin, hbytes, hdtype, hshape, ?_⟩
  rw [hstart, slice_append]
  exact hslice

theorem writeRewrite_spec (hkeep : ∀ name ∈ plan.keep, name ∈ fp8.keys)
    (hmetadata : metadataKey ∉ layout.entries.keys)
    (hlayout : buildLayout arith plan fp8 (srcmap.map (·.entry)) = .ok layout) {disk : Disk} {out : Path}
    (hne : ∀ name ∈ layout.order, ∀ source, origin fp8Path fp8Start fp8 plan srcmap name = .ok source →
      source.shard ≠ out) :
    (∀ u disk', (writeRewrite arith.toFloatReader fp8Path fp8Start fp8 plan layout srcmap out).exec disk =
        (.ok u, disk') →
      (∀ path, path ≠ out → disk'.lookup path = disk.lookup path) ∧
        ∃ content n, disk'.lookup out = some content ∧
          Content arith.toFloatReader fp8Path fp8Start fp8 plan srcmap layout disk content n) ∧
      ∀ blocks, List.Forall₂ (IsBlock fp8Path fp8Start fp8 plan srcmap disk) layout.order blocks →
        ∃ disk', (writeRewrite arith.toFloatReader fp8Path fp8Start fp8 plan layout srcmap out).exec disk =
          (.ok (), disk') := by
  obtain ⟨-, header, -, -, -, hheader, -⟩ := buildLayout_ok hlayout
  set empty : Disk := disk.insert out [] with hempty
  have hothers : ∀ path, path ≠ out → empty.lookup path = disk.lookup path :=
    fun path hpath => AList.lookup_insert_ne hpath
  have happended := Appended.append out header empty
  set begun : Disk := Files.append out header empty with hbegun
  have hbegun : begun.lookup out = some header := happended.written [] (AList.lookup_insert disk)
  have hsame : ∀ path, path ≠ out → begun.lookup path = disk.lookup path :=
    fun path hpath => (happended.others path hpath).trans (hothers path hpath)
  have hblock : ∀ blocks, List.Forall₂ (IsBlock fp8Path fp8Start fp8 plan srcmap begun) layout.order blocks ↔
      List.Forall₂ (IsBlock fp8Path fp8Start fp8 plan srcmap disk) layout.order blocks := by
    intro blocks
    rw [List.forall₂_iff_zip, List.forall₂_iff_zip]
    refine and_congr_right fun _ => forall_congr' fun name => forall_congr' fun bytes => ?_
    refine imp_congr_right fun hmem => exists_congr fun source => and_congr_right fun hsource => ?_
    rw [tensorBytes_congr (hsame _ (hne name (List.of_mem_zip hmem).1 source hsource))]
  refine ⟨fun u disk' h => ?_, fun blocks hblocks => ?_⟩
  · obtain ⟨_, m, hcreate, hrest⟩ := Program.exec_seq_ok.mp h
    obtain rfl : m = empty := Files.exec_createFile.mp hcreate
    simp only [hheader] at hrest
    obtain ⟨_, m', hwrite, hcopy⟩ := Program.exec_seq_ok.mp hrest
    obtain rfl : m' = begun := Files.exec_appendFile.mp hwrite
    obtain ⟨blocks, hblocks, hdone⟩ := (copyAll_spec hne).1 u disk' hcopy
    obtain ⟨n, hcontent⟩ := content_of_blocks hkeep hmetadata hlayout hheader ((hblock blocks).mp hblocks)
    exact ⟨fun path hpath => (hdone.others path hpath).trans (hsame path hpath), _, n,
      hdone.written header hbegun, hcontent⟩
  · obtain ⟨disk', hdone⟩ := (copyAll_spec hne).2 blocks ((hblock blocks).mpr hblocks)
    refine ⟨disk', Program.exec_seq_ok.mpr ⟨(), empty, Files.exec_createFile.mpr rfl, ?_⟩⟩
    simp only [hheader]
    exact Program.exec_seq_ok.mpr ⟨(), begun, Files.exec_appendFile.mpr rfl, hdone⟩

end Layout

end Cosmos3.Checkpoint
