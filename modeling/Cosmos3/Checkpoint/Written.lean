import Cosmos3.Checkpoint.Slices

namespace Cosmos3.Checkpoint

open Basis Basis.Python

-- The bytes were written behind what the file held, and nothing else was touched.
structure Appended (out : Path) (bytes : Bytes) (disk disk' : Disk) : Prop where
  written : ∀ before, disk.lookup out = some before → disk'.lookup out = some (before ++ bytes)
  others : ∀ path, path ≠ out → disk'.lookup path = disk.lookup path

section Copy

variable {disk disk' : Disk} {src out : Path} {bytes : Bytes}

theorem Appended.refl (out : Path) (disk : Disk) : Appended out [] disk disk :=
  ⟨fun before h => by rw [h, List.append_nil], fun _ _ => rfl⟩

theorem Appended.trans {disk'' : Disk} {more : Bytes} (h : Appended out bytes disk disk')
    (h' : Appended out more disk' disk'') : Appended out (bytes ++ more) disk disk'' :=
  ⟨fun before hbefore => by rw [h'.written _ (h.written before hbefore), List.append_assoc],
    fun path hne => (h'.others path hne).trans (h.others path hne)⟩

theorem Appended.append (out : Path) (bytes : Bytes) (disk : Disk) :
    Appended out bytes disk (Files.append out bytes disk) :=
  ⟨fun before h => by rw [Files.lookup_append, h, Option.getD_some],
    fun _ hne => Files.lookup_append_ne hne bytes disk⟩

-- The loop copies the slice, and it does so to its end when there is one.
theorem copyChunks_spec (hne : src ≠ out) (failure : Failure) {file : Bytes} {fuel pos remaining : Nat}
    (hfile : disk.lookup src = some file) (hfuel : remaining ≤ fuel) :
    (∀ u disk', (copyChunks src out failure fuel pos remaining).exec disk = (.ok u, disk') →
        ∃ bytes, slice file pos remaining = some bytes ∧ Appended out bytes disk disk') ∧
      ∀ bytes, slice file pos remaining = some bytes →
        ∃ disk', (copyChunks src out failure fuel pos remaining).exec disk = (.ok (), disk') := by
  induction fuel generalizing disk pos remaining with
  | zero =>
      obtain rfl := Nat.le_zero.mp hfuel
      refine ⟨fun u disk' h => ⟨[], slice_zero file pos, ?_⟩, fun bytes _ => ⟨disk, rfl⟩⟩
      cases h
      exact .refl out disk
  | succ fuel ih =>
      cases remaining with
      | zero =>
          refine ⟨fun u disk' h => ⟨[], slice_zero file pos, ?_⟩, fun bytes _ => ⟨disk, rfl⟩⟩
          cases h
          exact .refl out disk
      | succ n =>
          set chunk := (file.drop pos).take (min CHUNK (n + 1)) with hchunk
          have hread : (Files.readFile Failure.fileNotFound src).exec disk = (.ok file, disk) :=
            Files.exec_readFile.mpr ⟨hfile, rfl⟩
          by_cases hempty : chunk = []
          · refine ⟨fun u disk' h => ?_, fun bytes h => ?_⟩
            · obtain ⟨read, m, hfirst, hlast⟩ := Program.exec_seq_ok.mp h
              obtain ⟨hlookup, rfl⟩ := Files.exec_readFile.mp hfirst
              obtain rfl := Option.some.inj (hfile.symm.trans hlookup)
              rw [if_pos hempty] at hlast
              cases hlast
            · rw [slice_of_chunk_eq_nil (Nat.succ_pos n) hempty] at h
              cases h
          · have hlength : 0 < chunk.length := List.length_pos_of_ne_nil hempty
            have happended := Appended.append out chunk disk
            have hsrc := (happended.others src hne).trans hfile
            have hleft : n + 1 - chunk.length ≤ fuel := by omega
            obtain ⟨hback, hforth⟩ := @ih _ (pos + chunk.length) _ hsrc hleft
            refine ⟨fun u disk' h => ?_, fun bytes h => ?_⟩
            · obtain ⟨read, m, hfirst, hlast⟩ := Program.exec_seq_ok.mp h
              obtain ⟨hlookup, rfl⟩ := Files.exec_readFile.mp hfirst
              obtain rfl := Option.some.inj (hfile.symm.trans hlookup)
              rw [if_neg hempty] at hlast
              obtain ⟨_, m', hwrite, hloop⟩ := Program.exec_seq_ok.mp hlast
              obtain rfl := Files.exec_appendFile.mp hwrite
              obtain ⟨rest, hrest, hdone⟩ := hback u disk' hloop
              refine ⟨chunk ++ rest, ?_, happended.trans hdone⟩
              exact (slice_chunk (Nat.succ_pos n) hempty).mpr ⟨rest, hrest, rfl⟩
            · obtain ⟨rest, hrest, -⟩ := (slice_chunk (Nat.succ_pos n) hempty).mp h
              obtain ⟨disk', hdone⟩ := hforth rest hrest
              refine ⟨disk', Program.exec_seq_ok.mpr ⟨file, disk, hread, ?_⟩⟩
              rw [if_neg hempty]
              exact Program.exec_seq_ok.mpr ⟨(), _, Files.exec_appendFile.mpr rfl, hdone⟩

theorem copyRange_spec (hne : src ≠ out) (start : Nat) (entry : Entry) :
    (∀ u disk', (copyRange src start entry out).exec disk = (.ok u, disk') →
        ∃ bytes, tensorBytes disk src start entry = some bytes ∧ Appended out bytes disk disk') ∧
      ∀ bytes, tensorBytes disk src start entry = some bytes →
        ∃ disk', (copyRange src start entry out).exec disk = (.ok (), disk') := by
  refine ⟨fun u disk' h => ?_, fun bytes h => ?_⟩
  · obtain ⟨file, m, hfirst, hlast⟩ := Program.exec_seq_ok.mp h
    obtain ⟨hlookup, rfl⟩ := Files.exec_readFile.mp hfirst
    obtain ⟨bytes, hbytes, happended⟩ := (copyChunks_spec hne _ hlookup le_rfl).1 u disk' hlast
    exact ⟨bytes, by rw [tensorBytes, hlookup, Option.bind_some, hbytes], happended⟩
  · obtain ⟨file, hlookup, hbytes⟩ := Option.bind_eq_some_iff.mp h
    obtain ⟨disk', hdone⟩ := (copyChunks_spec hne _ hlookup le_rfl).2 bytes hbytes
    exact ⟨disk', Program.exec_seq_ok.mpr ⟨file, disk, Files.exec_readFile.mpr ⟨hlookup, rfl⟩, hdone⟩⟩

variable {fp8Path : Path} {fp8Start : Nat} {fp8 : Header} {plan : MutationPlan}
  {srcmap : Table Text Source}

-- The block of a tensor: its bytes where it comes from.
def IsBlock (fp8Path : Path) (fp8Start : Nat) (fp8 : Header) (plan : MutationPlan)
    (srcmap : Table Text Source) (disk : Disk) (name : Text) (block : Bytes) : Prop :=
  ∃ source, origin fp8Path fp8Start fp8 plan srcmap name = .ok source ∧
    tensorBytes disk source.shard source.start source.entry = some block

theorem copyAll_spec {names : List Text}
    (hne : ∀ name ∈ names, ∀ source, origin fp8Path fp8Start fp8 plan srcmap name = .ok source →
      source.shard ≠ out) :
    (∀ u disk', (copyAll fp8Path fp8Start fp8 plan srcmap out names).exec disk = (.ok u, disk') →
        ∃ blocks, List.Forall₂ (IsBlock fp8Path fp8Start fp8 plan srcmap disk) names blocks ∧
          Appended out blocks.flatten disk disk') ∧
      ∀ blocks, List.Forall₂ (IsBlock fp8Path fp8Start fp8 plan srcmap disk) names blocks →
        ∃ disk', (copyAll fp8Path fp8Start fp8 plan srcmap out names).exec disk = (.ok (), disk') := by
  induction names generalizing disk with
  | nil =>
      refine ⟨fun u disk' h => ⟨[], .nil, ?_⟩, fun blocks _ => ⟨disk, rfl⟩⟩
      cases h
      exact .refl out disk
  | cons name names ih =>
      -- A step of the loop leaves the blocks that follow as they are.
      have hkept : ∀ {first m : Disk} {block : Bytes}, Appended out block first m → ∀ {other bytes},
          other ∈ names → (IsBlock fp8Path fp8Start fp8 plan srcmap m other bytes ↔
            IsBlock fp8Path fp8Start fp8 plan srcmap first other bytes) := by
        intro first m block happended other bytes hother
        refine exists_congr fun source => and_congr_right fun hsource => ?_
        rw [tensorBytes_congr (happended.others _
          (hne other (List.mem_cons_of_mem _ hother) source hsource))]
      have hall : ∀ {first m : Disk} {block : Bytes}, Appended out block first m → ∀ {blocks},
          List.Forall₂ (IsBlock fp8Path fp8Start fp8 plan srcmap m) names blocks ↔
            List.Forall₂ (IsBlock fp8Path fp8Start fp8 plan srcmap first) names blocks := by
        intro first m block happended blocks
        rw [List.forall₂_iff_zip, List.forall₂_iff_zip]
        refine and_congr_right fun _ => forall_congr' fun other => forall_congr' fun bytes => ?_
        exact imp_congr_right fun hmem => hkept happended (List.of_mem_zip hmem).1
      have hrest : ∀ other ∈ names, ∀ source,
          origin fp8Path fp8Start fp8 plan srcmap other = .ok source → source.shard ≠ out :=
        fun other hother => hne other (List.mem_cons_of_mem _ hother)
      refine ⟨fun u disk' h => ?_, fun blocks h => ?_⟩
      · obtain ⟨source, m, hread, hlast⟩ := Program.exec_seq_ok.mp h
        obtain ⟨hsource, rfl⟩ := Program.exec_read_ok.mp hread
        obtain ⟨u', m', hcopy, hloop⟩ := Program.exec_seq_ok.mp hlast
        have hshard := hne name List.mem_cons_self source hsource
        obtain ⟨block, hblock, happended⟩ := (copyRange_spec hshard _ _).1 u' m' hcopy
        obtain ⟨blocks, hblocks, hdone⟩ := (ih hrest).1 u disk' hloop
        exact ⟨block :: blocks, .cons ⟨source, hsource, hblock⟩ ((hall happended).mp hblocks),
          happended.trans hdone⟩
      · obtain ⟨block, blocks', ⟨source, hsource, hblock⟩, hblocks, rfl⟩ :=
          List.forall₂_cons_left_iff.mp h
        have hshard := hne name List.mem_cons_self source hsource
        obtain ⟨m', hcopy⟩ := (copyRange_spec hshard _ _).2 block hblock
        obtain ⟨_, _, happended⟩ := (copyRange_spec hshard _ _).1 () m' hcopy
        obtain ⟨disk', hdone⟩ := (ih hrest).2 blocks' ((hall happended).mpr hblocks)
        refine ⟨disk', Program.exec_seq_ok.mpr
          ⟨source, disk, Program.exec_read_ok.mpr ⟨hsource, rfl⟩, ?_⟩⟩
        exact Program.exec_seq_ok.mpr ⟨(), m', hcopy, hdone⟩

end Copy

section Place

-- A placed tensor has the dtype and the shape of what it is made from, and its offsets
-- are those of its block, whatever comes before the first.
theorem mem_place {sources : List (Text × Entry)} {blocks : List Bytes} {cursor : Nat}
    {name : Text} {placed : Entry} (h : (name, placed) ∈ place cursor sources)
    (hblocks : List.Forall₂ (fun source block => block.length = source.2.size) sources blocks)
    {before : Bytes} (hbefore : before.length = cursor) :
    ∃ src block, ((name, src), block) ∈ sources.zip blocks ∧ placed.dtype = src.dtype ∧
      placed.shape = src.shape ∧ slice (before ++ blocks.flatten) placed.start placed.size = some block := by
  induction hblocks generalizing cursor before with
  | nil => exact absurd h List.not_mem_nil
  | @cons source block sources blocks hlength _ ih =>
      obtain ⟨first, src⟩ := source
      rcases List.mem_cons.mp h with heq | hmem
      · obtain ⟨rfl, rfl⟩ := Prod.mk.inj heq
        refine ⟨src, block, by simp, rfl, rfl, ?_⟩
        have hlength : block.length = src.size := hlength
        have hsize : cursor + src.size - cursor = block.length := by omega
        simp only [Entry.size, List.flatten_cons] at hsize ⊢
        rw [hsize, ← hbefore, ← List.append_assoc]
        exact slice_middle before block blocks.flatten
      · have hcursor : (before ++ block).length = cursor + src.size := by
          rw [List.length_append, hbefore, hlength]
        obtain ⟨src', block', hzip, hdtype, hshape, hslice⟩ := ih hmem hcursor
        refine ⟨src', block', List.mem_cons_of_mem _ hzip, hdtype, hshape, ?_⟩
        rwa [List.append_assoc] at hslice

theorem map_place (cursor : Nat) (sources : List (Text × Entry)) :
    (place cursor sources).map (·.1) = sources.map (·.1) := by
  induction sources generalizing cursor with
  | nil => rfl
  | cons source sources ih => rw [place, List.map_cons, ih, List.map_cons]

end Place

end Cosmos3.Checkpoint
