import Cosmos3.Checkpoint.Slices

namespace Cosmos3.Checkpoint

open Basis Basis.Python

section Paths

theorem nameOf_append (dir : Path) (name : Text) : nameOf (dir ++ [name]) = name := by
  rw [nameOf, List.getLast?_append]
  rfl

theorem withSuffix_append (dir : Path) (name suffix : Text) :
    withSuffix (dir ++ [name]) suffix = dir ++ [name ++ suffix] := by
  rw [withSuffix, nameOf_append, List.dropLast_concat]

-- The paths of a checkpoint are those under its directory.
theorem Target.path_eq (ck : Path) (target : Target) : target.path ck = ck ++ target.path [] := by
  cases target <;> simp [Target.path, transformerDir]

theorem Target.exists_name (target : Target) : ∃ dir name, target.path [] = dir ++ [name] := by
  cases target <;> exact ⟨_, _, rfl⟩

theorem withSuffix_under (ck : Path) (target : Target) (suffix : Text) :
    withSuffix (target.path ck) suffix = ck ++ withSuffix (target.path []) suffix := by
  obtain ⟨dir, name, hpath⟩ := target.exists_name
  rw [target.path_eq ck, hpath, ← List.append_assoc, withSuffix_append, withSuffix_append,
    List.append_assoc]

theorem Target.backup_eq (ck : Path) (target : Target) :
    target.backup ck = ck ++ target.backup [] := withSuffix_under ck target BACKUP_SUFFIX

theorem tmpPath_eq (ck : Path) : tmpPath ck = ck ++ tmpPath [] := withSuffix_under ck .st TMP_SUFFIX

variable (ck : Path)

theorem Target.path_injective : Function.Injective (Target.path ck) := by
  intro first second h
  rw [first.path_eq, second.path_eq, List.append_cancel_left_eq] at h
  revert h
  cases first <;> cases second <;> decide

theorem Target.backup_injective : Function.Injective (Target.backup ck) := by
  intro first second h
  rw [first.backup_eq, second.backup_eq, List.append_cancel_left_eq] at h
  revert h
  cases first <;> cases second <;> decide

theorem Target.path_ne_backup (first second : Target) : first.path ck ≠ second.backup ck := by
  rw [first.path_eq, second.backup_eq, Ne, List.append_cancel_left_eq]
  cases first <;> cases second <;> decide

theorem Target.path_ne_tmp (target : Target) : target.path ck ≠ tmpPath ck := by
  rw [target.path_eq, tmpPath_eq, Ne, List.append_cancel_left_eq]
  cases target <;> decide

theorem Target.backup_ne_tmp (target : Target) : target.backup ck ≠ tmpPath ck := by
  rw [target.backup_eq, tmpPath_eq, Ne, List.append_cancel_left_eq]
  cases target <;> decide

variable {ck}

theorem mem_shards {disk : Disk} {dir path : Path} :
    path ∈ shards disk dir ↔ path ∈ disk ∧ path.dropLast = dir ∧ path ≠ [] ∧
      ascii ".safetensors" <:+ nameOf path := by
  rw [shards, (List.perm_insertionSort pathLe _).mem_iff, List.mem_filter, AList.mem_keys]
  simp only [decide_eq_true_eq]

-- Of the files that the mutation changes only the transformer is a shard.
theorem not_shard_of_suffix {disk : Disk} {dir path : Path} {suffix : Text}
    (h : withSuffix path suffix ∈ shards disk dir) (hpath : ∃ target, path = Target.path ck target)
    (hsuffix : suffix = BACKUP_SUFFIX ∨ suffix = TMP_SUFFIX) : False := by
  obtain ⟨target, rfl⟩ := hpath
  obtain ⟨-, -, -, hname⟩ := mem_shards.mp h
  obtain ⟨parent, name, hparent⟩ := target.exists_name
  rw [withSuffix_under, hparent, withSuffix_append, ← List.append_assoc, nameOf_append] at hname
  have hfinal : ascii ".safetensors" <:+ ascii "diffusion_pytorch_model.safetensors" ++ suffix ∨
      ascii ".safetensors" <:+ ascii "config.json" ++ suffix ∨
      ascii ".safetensors" <:+ ascii "quantization_config.json" ++ suffix ∨
      ascii ".safetensors" <:+ ascii "quantizer_map_diff.json" ++ suffix := by
    have hlast : nameOf (target.path []) = name := by rw [hparent, nameOf_append]
    cases target with
    | st => exact .inl (by rwa [← hlast] at hname)
    | config => exact .inr (.inl (by rwa [← hlast] at hname))
    | quantization => exact .inr (.inr (.inl (by rwa [← hlast] at hname)))
    | mapDiff => exact .inr (.inr (.inr (by rwa [← hlast] at hname)))
  rcases hsuffix with rfl | rfl
  · exact absurd hfinal (by decide)
  · exact absurd hfinal (by decide)

theorem shard_ne_tmp {disk : Disk} {dir path : Path} (h : path ∈ shards disk dir) :
    path ≠ tmpPath ck := by
  rintro rfl
  exact not_shard_of_suffix h ⟨.st, rfl⟩ (.inr rfl)

theorem shard_ne_backup {disk : Disk} {dir path : Path} (h : path ∈ shards disk dir)
    (target : Target) : path ≠ target.backup ck := by
  rintro rfl
  exact not_shard_of_suffix h ⟨target, rfl⟩ (.inl rfl)

theorem shard_eq_st {disk : Disk} {dir path : Path} (h : path ∈ shards disk dir) {target : Target}
    (heq : path = target.path ck) : target = .st := by
  obtain ⟨-, -, -, hname⟩ := mem_shards.mp h
  obtain ⟨parent, name, hparent⟩ := target.exists_name
  have hlast : nameOf (target.path []) = name := by rw [hparent, nameOf_append]
  rw [heq, target.path_eq, hparent, ← List.append_assoc, nameOf_append, ← hlast] at hname
  revert hname
  cases target with
  | st => exact fun _ => rfl
  | config => exact fun h => absurd h (by decide)
  | quantization => exact fun h => absurd h (by decide)
  | mapDiff => exact fun h => absurd h (by decide)

end Paths

section Scan

variable {floats : FloatReader} {disk disk' : Disk} {α : Type}
  {make : Path → Nat → Entry → Except Failure α}

-- The first shard whose header has the name.
def firstWith (floats : FloatReader) (disk : Disk) (name : Text) : List Path → Option Source
  | [] => none
  | shard :: rest =>
    match readHeader floats disk shard with
    | .error _ => none
    | .ok (header, n) =>
      match header.get name with
      | some entry => some ⟨shard, dataStart n, entry⟩
      | none => firstWith floats disk name rest

variable {shard : Path} {start : Nat} {header : Header} {wanted : List Text} {found found' : Table Text α}
  {name : Text}

theorem findIn_cons {first : Text} (h : findIn make shard start header (first :: wanted) found = .ok found') :
    (∃ entry a, header.get first = some entry ∧ found.get first = none ∧ make shard start entry = .ok a ∧
      findIn make shard start header wanted (found.set first a) = .ok found') ∨
    ((header.get first = none ∨ ∃ a, found.get first = some a) ∧
      findIn make shard start header wanted found = .ok found') := by
  rw [findIn] at h
  by_cases hkey : first ∈ found.keys
  · rw [if_pos hkey] at h
    exact .inr ⟨.inr (Table.mem_keys_iff.mp hkey), h⟩
  · rw [if_neg hkey] at h
    cases hentry : header.get first with
    | none =>
        rw [hentry] at h
        exact .inr ⟨.inl rfl, h⟩
    | some entry =>
        rw [hentry] at h
        obtain ⟨a, ha, hrest⟩ := bind_eq_ok.mp h
        exact .inl ⟨entry, a, rfl, Table.get_eq_none_iff.mpr hkey, ha, hrest⟩

theorem findIn_kept {a : α} (h : findIn make shard start header wanted found = .ok found')
    (ha : found.get name = some a) : found'.get name = some a := by
  induction wanted generalizing found with
  | nil =>
      cases h
      exact ha
  | cons first wanted ih =>
      rcases findIn_cons h with ⟨entry, b, -, hnone, -, hrest⟩ | ⟨-, hrest⟩
      · have hne : name ≠ first := by
          rintro rfl
          rw [ha] at hnone
          cases hnone
        apply ih hrest
        rw [Table.get_set, if_neg hne, ha]
      · exact ih hrest ha

theorem findIn_absent (h : findIn make shard start header wanted found = .ok found')
    (hnone : found.get name = none) (hheader : header.get name = none) : found'.get name = none := by
  induction wanted generalizing found with
  | nil =>
      cases h
      exact hnone
  | cons first wanted ih =>
      rcases findIn_cons h with ⟨entry, b, hentry, -, -, hrest⟩ | ⟨-, hrest⟩
      · have hne : name ≠ first := by
          rintro rfl
          rw [hheader] at hentry
          cases hentry
        apply ih hrest
        rw [Table.get_set, if_neg hne, hnone]
      · exact ih hrest hnone

theorem findIn_found {entry : Entry} (h : findIn make shard start header wanted found = .ok found')
    (hname : name ∈ wanted) (hnone : found.get name = none) (hentry : header.get name = some entry) :
    ∃ a, make shard start entry = .ok a ∧ found'.get name = some a := by
  induction wanted generalizing found with
  | nil => exact absurd hname List.not_mem_nil
  | cons first wanted ih =>
      by_cases hfirst : name = first
      · subst hfirst
        rcases findIn_cons h with ⟨entry', a, hentry', -, ha, hrest⟩ | ⟨hskip, -⟩
        · obtain rfl := Option.some.inj (hentry.symm.trans hentry')
          refine ⟨a, ha, findIn_kept hrest ?_⟩
          rw [Table.get_set, if_pos rfl]
        · rcases hskip with hskip | ⟨a, hskip⟩
          · rw [hentry] at hskip
            cases hskip
          · rw [hnone] at hskip
            cases hskip
      · have hmem := (List.mem_cons.mp hname).resolve_left hfirst
        rcases findIn_cons h with ⟨entry', a, -, -, -, hrest⟩ | ⟨-, hrest⟩
        · apply ih hrest hmem
          rw [Table.get_set, if_neg hfirst, hnone]
        · exact ih hrest hmem hnone

theorem findIn_ok (h : ∀ name ∈ wanted, found.get name = none → ∀ entry, header.get name = some entry →
    ∃ a, make shard start entry = .ok a) : ∃ found', findIn make shard start header wanted found = .ok found' := by
  induction wanted generalizing found with
  | nil => exact ⟨found, rfl⟩
  | cons first wanted ih =>
      have hrest : ∀ name ∈ wanted, found.get name = none → ∀ entry, header.get name = some entry →
          ∃ a, make shard start entry = .ok a := fun name hname => h name (List.mem_cons_of_mem _ hname)
      rw [findIn]
      by_cases hkey : first ∈ found.keys
      · rw [if_pos hkey]
        exact ih hrest
      · rw [if_neg hkey]
        cases hentry : header.get first with
        | none => exact ih hrest
        | some entry =>
            obtain ⟨a, ha⟩ := h first List.mem_cons_self (Table.get_eq_none_iff.mpr hkey) entry hentry
            have hset : ∀ name ∈ wanted, (found.set first a).get name = none → ∀ entry,
                header.get name = some entry → ∃ a, make shard start entry = .ok a := by
              intro name hname hnone
              rw [Table.get_set] at hnone
              split_ifs at hnone
              exact hrest name hname hnone
            obtain ⟨found', hfound⟩ := ih hset
            exact ⟨found', bind_eq_ok.mpr ⟨a, ha, hfound⟩⟩

theorem scan_kept {list : List Path} {a : α} (h : scanShards floats disk make wanted list found = .ok found')
    (ha : found.get name = some a) : found'.get name = some a := by
  induction list generalizing found with
  | nil =>
      cases h
      exact ha
  | cons shard list ih =>
      obtain ⟨⟨header, n⟩, -, hrest⟩ := bind_eq_ok.mp h
      obtain ⟨found₁, hfind, hscan⟩ := bind_eq_ok.mp hrest
      exact ih hscan (findIn_kept hfind ha)

theorem scan_reads {list : List Path} (h : scanShards floats disk make wanted list found = .ok found') :
    ∀ shard ∈ list, ∃ read, readHeader floats disk shard = .ok read := by
  induction list generalizing found with
  | nil => exact fun shard hshard => absurd hshard List.not_mem_nil
  | cons shard list ih =>
      obtain ⟨read, hread, hrest⟩ := bind_eq_ok.mp h
      obtain ⟨found₁, -, hscan⟩ := bind_eq_ok.mp hrest
      exact List.forall_mem_cons.mpr ⟨⟨read, hread⟩, ih hscan⟩

-- A name that was not there before has what is made of its first shard, if any.
theorem scan_get {list : List Path} (h : scanShards floats disk make wanted list found = .ok found')
    (hname : name ∈ wanted) (hnone : found.get name = none) :
    (firstWith floats disk name list = none ∧ found'.get name = none) ∨
      ∃ source a, firstWith floats disk name list = some source ∧
        make source.shard source.start source.entry = .ok a ∧ found'.get name = some a := by
  induction list generalizing found with
  | nil =>
      cases h
      exact .inl ⟨rfl, hnone⟩
  | cons shard list ih =>
      obtain ⟨⟨header, n⟩, hread, hrest⟩ := bind_eq_ok.mp h
      obtain ⟨found₁, hfind, hscan⟩ := bind_eq_ok.mp hrest
      rw [firstWith, hread]
      cases hentry : header.get name with
      | none => simpa only [hentry] using ih hscan (findIn_absent hfind hnone hentry)
      | some entry =>
          obtain ⟨a, ha, hget⟩ := findIn_found hfind hname hnone hentry
          exact .inr ⟨⟨shard, dataStart n, entry⟩, a, by simp only [hentry], ha, scan_kept hscan hget⟩

theorem scan_ok {list : List Path}
    (hread : ∀ shard ∈ list, ∃ read, readHeader floats disk shard = .ok read)
    (hmake : ∀ name ∈ wanted, found.get name = none → ∀ source,
      firstWith floats disk name list = some source →
        ∃ a, make source.shard source.start source.entry = .ok a) :
    ∃ found', scanShards floats disk make wanted list found = .ok found' := by
  induction list generalizing found with
  | nil => exact ⟨found, rfl⟩
  | cons shard list ih =>
      obtain ⟨⟨⟨header, n⟩, hheader⟩, hreads⟩ := List.forall_mem_cons.mp hread
      have hfirst : ∀ name ∈ wanted, found.get name = none → ∀ entry, header.get name = some entry →
          ∃ a, make shard (dataStart n) entry = .ok a := by
        intro name hname hnone entry hentry
        refine hmake name hname hnone ⟨shard, dataStart n, entry⟩ ?_
        simp only [firstWith, hheader, hentry]
      obtain ⟨found₁, hfind⟩ := findIn_ok hfirst
      have hlater : ∀ name ∈ wanted, found₁.get name = none → ∀ source,
          firstWith floats disk name list = some source →
            ∃ a, make source.shard source.start source.entry = .ok a := by
        intro name hname hnone source hsource
        have hbefore : found.get name = none := by
          cases hget : found.get name with
          | none => rfl
          | some a =>
              rw [findIn_kept hfind hget] at hnone
              cases hnone
        have habsent : header.get name = none := by
          cases hentry : header.get name with
          | none => rfl
          | some entry =>
              obtain ⟨a, -, hget⟩ := findIn_found hfind hname hbefore hentry
              rw [hget] at hnone
              cases hnone
        apply hmake name hname hbefore source
        simp only [firstWith, hheader, habsent, hsource]
      obtain ⟨found', hscan⟩ := ih hreads hlater
      exact ⟨found', bind_eq_ok.mpr ⟨_, hheader, bind_eq_ok.mpr ⟨found₁, hfind, hscan⟩⟩⟩

theorem firstWith_mem {list : List Path} {source : Source} (h : firstWith floats disk name list = some source) :
    source.shard ∈ list ∧ ∃ header n, readHeader floats disk source.shard = .ok (header, n) ∧
      source.start = dataStart n ∧ header.get name = some source.entry := by
  induction list with
  | nil => cases h
  | cons shard list ih =>
      rw [firstWith] at h
      split at h
      · cases h
      · rename_i header n hread
        split at h
        · rename_i entry hentry
          cases h
          exact ⟨List.mem_cons_self, header, n, hread, rfl, hentry⟩
        · obtain ⟨hmem, hrest⟩ := ih h
          exact ⟨List.mem_cons_of_mem _ hmem, hrest⟩

-- The tensors of the source: each wanted name in the first shard that has it.
theorem resolve_get {dir : Path} {srcmap : Table Text Source}
    (h : resolveSourceTensors floats disk dir wanted = .ok srcmap) (hname : name ∈ wanted) :
    ∃ source, srcmap.get name = some source ∧
      firstWith floats disk name (shards disk dir) = some source := by
  obtain ⟨found, hscan, hrest⟩ := bind_eq_ok.mp h
  dsimp only at hrest
  split_ifs at hrest with hmissing
  · cases hrest
  · obtain rfl : found = srcmap := Except.ok.inj hrest
    rcases scan_get hscan hname rfl with ⟨-, hnone⟩ | ⟨source, a, hfirst, ha, hget⟩
    · have hkey : name ∈ wanted.filter fun name => name ∉ found.keys :=
        List.mem_filter.mpr ⟨hname, decide_eq_true (Table.get_eq_none_iff.mp hnone)⟩
      rw [not_not.mp hmissing] at hkey
      exact absurd hkey List.not_mem_nil
    · cases ha
      exact ⟨source, hget, hfirst⟩

end Scan

end Cosmos3.Checkpoint
