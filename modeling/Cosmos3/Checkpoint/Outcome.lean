import Cosmos3.Checkpoint.Commit

namespace Cosmos3.Checkpoint

open Basis Basis.Python

section Reads

variable {floats : FloatReader} {disk disk' : Disk} {path path' : Path}

theorem readJson_congr (h : disk'.lookup path' = disk.lookup path) {value : Value} :
    readJson floats disk' path' = .ok value ↔ readJson floats disk path = .ok value := by
  have hread : ∀ (disk : Disk) (path : Path), readJson floats disk path = .ok value ↔
      ∃ file, disk.lookup path = some file ∧ loadsBytes floats file = some value := by
    intro disk path
    rw [readJson, bind_eq_ok]
    refine exists_congr fun file => and_congr openFile_eq_ok ?_
    cases loadsBytes floats file with
    | none => simp [throw, throwThe, MonadExceptOf.throw]
    | some found => simp [pure, Except.pure]
  rw [hread, hread, h]

theorem mem_of_readJson {value : Value} (h : readJson floats disk path = .ok value) : path ∈ disk := by
  obtain ⟨file, hfile, -⟩ := bind_eq_ok.mp h
  exact AList.lookup_isSome.mp (by rw [openFile_eq_ok.mp hfile]; rfl)

theorem mem_of_readHeader {header : Header} {n : Nat} (h : readHeader floats disk path = .ok (header, n)) :
    path ∈ disk := by
  obtain ⟨file, hfile, -⟩ := readHeader_eq_ok.mp h
  exact AList.lookup_isSome.mp (by rw [hfile]; rfl)

-- What the tool writes as JSON reads back.
theorem readJson_jsonBytes {arith : FloatArith} {d : Dict}
    (hd : Readable arith.toFloatReader (.dict d)) (hlookup : disk.lookup path = some (jsonBytes arith d)) :
    readJson arith.toFloatReader disk path = .ok (.dict d) := by
  have hspace : ∀ u ∈ [lf], Json.isSpace u = true := by simp [Json.isSpace, lf]
  have hloads : loadsBytes arith.toFloatReader (jsonBytes arith d) = some (.dict d) :=
    loadsBytes_dumpsStyled .indented hd 0 hspace
  rw [readJson, openFile, hlookup]
  simp only [bind, Except.bind, hloads]
  rfl

end Reads

section Commit

variable {arith : FloatArith} {ck : Path} {disk disk' : Disk} {backup : Bool} {content : Bytes}

-- The new transformer is in its place. With a backup the old files have left theirs.
structure Committed (ck : Path) (backup : Bool) (content : Bytes) (disk disk' : Disk) : Prop where
  st : disk'.lookup (Target.st.path ck) = some content
  originals : ∀ target : Target, target ≠ .st → disk'.lookup (originalPath ck backup target) =
    disk.lookup (target.path ck)
  backups : backup = true → ∀ target : Target, disk'.lookup (target.backup ck) = disk.lookup (target.path ck)
  kept : backup = false → ∀ target : Target, disk'.lookup (target.backup ck) = disk.lookup (target.backup ck)
  tmp : disk'.lookup (tmpPath ck) = none
  others : ∀ path, path ≠ tmpPath ck → (∀ target, path ≠ Target.path ck target ∧
    path ≠ Target.backup ck target) → disk'.lookup path = disk.lookup path

theorem commitMoves_ok {u : Unit} (hcontent : disk.lookup (tmpPath ck) = some content)
    (h : (commitMoves ck backup).exec disk = (.ok u, disk')) : Committed ck backup content disk disk' := by
  obtain ⟨_, d₁, hfirst, hrest⟩ := Program.exec_seq_ok.mp h
  obtain ⟨_, d₂, hreplace, hlast⟩ := Program.exec_seq_ok.mp hrest
  obtain ⟨bytes, hbytes, hst, htmp, hothers⟩ := Files.replace_eq_some (Files.exec_replaceFile.mp hreplace)
  have htmp := htmp (Target.st.path_ne_tmp ck).symm
  cases backup with
  | false =>
      cases (backupMoves_false ck _ disk).symm.trans hfirst
      cases (backupMoves_false ck _ d₂).symm.trans hlast
      rw [hcontent, Option.some.injEq] at hbytes
      refine ⟨hbytes ▸ hst, fun target hne => ?_, by simp, fun _ target => ?_, htmp, fun path hpath hall => ?_⟩
      · exact hothers _ (target.path_ne_tmp ck) fun heq => hne (Target.path_injective ck heq)
      · exact hothers _ (target.backup_ne_tmp ck) (Target.st.path_ne_backup ck target).symm
      · exact hothers path hpath (hall .st).1
  | true =>
      obtain ⟨hmoved, hkept⟩ := backupMoves_ok (List.nodup_singleton _) hfirst
      obtain ⟨hmoved', hkept'⟩ := backupMoves_ok (by decide) hlast
      have hst' : ∀ path, path ≠ Target.st.path ck ∧ path ≠ Target.st.backup ck →
          d₁.lookup path = disk.lookup path := fun path hpath => hkept path (by simpa using hpath)
      have hlater : ∀ path, (∀ target, target ≠ Target.st → path ≠ target.path ck ∧
          path ≠ target.backup ck) → disk'.lookup path = d₂.lookup path :=
        fun path hpath => hkept' path (by
          intro target htarget
          refine hpath target ?_
          rintro rfl
          revert htarget
          decide)
      have htmp₁ : d₁.lookup (tmpPath ck) = disk.lookup (tmpPath ck) :=
        hst' _ ⟨(Target.st.path_ne_tmp ck).symm, (Target.st.backup_ne_tmp ck).symm⟩
      rw [htmp₁, hcontent, Option.some.injEq] at hbytes
      -- What is at the path of a target just before its move is what was there at first.
      have hbefore : ∀ target : Target, target ≠ Target.st → d₂.lookup (target.path ck) =
          disk.lookup (target.path ck) := by
        intro target hne
        have hpath : target.path ck ≠ Target.st.path ck := fun heq => hne (Target.path_injective ck heq)
        rw [hothers _ (target.path_ne_tmp ck) hpath]
        exact hst' _ ⟨hpath, target.path_ne_backup ck .st⟩
      have hbackups : ∀ target : Target, disk'.lookup (target.backup ck) = disk.lookup (target.path ck) := by
        intro target
        by_cases hne : target = .st
        · subst hne
          rw [hlater, hothers _ (Target.st.backup_ne_tmp ck) (Target.st.path_ne_backup ck .st).symm,
            (hmoved .st (by simp)).2]
          exact fun other hother => ⟨(other.path_ne_backup ck .st).symm,
            fun heq => hother (Target.backup_injective ck heq).symm⟩
        · have hmem : target ∈ [Target.config, .quantization, .mapDiff] := by
            revert hne
            cases target <;> decide
          rw [(hmoved' target hmem).2, hbefore target hne]
      refine ⟨?_, fun target _ => hbackups target, fun _ => hbackups, by simp, ?_, fun path hpath hall => ?_⟩
      · rw [hlater, hst, hbytes]
        exact fun other hother => ⟨fun heq => hother (Target.path_injective ck heq).symm,
          Target.st.path_ne_backup ck other⟩
      · rw [hlater, htmp]
        exact fun other _ => ⟨(other.path_ne_tmp ck).symm, (other.backup_ne_tmp ck).symm⟩
      · rw [hlater path fun other _ => hall other, hothers path hpath (hall .st).1]
        exact hst' path (hall .st)

theorem commitMoves_returns (hcontent : disk.lookup (tmpPath ck) = some content)
    (h : ∀ target, Target.path ck target ∈ disk) :
    ∃ disk', (commitMoves ck backup).exec disk = (.ok (), disk') := by
  have htmp : tmpPath ck ∈ disk := AList.lookup_isSome.mp (by rw [hcontent]; rfl)
  cases backup with
  | false =>
      obtain ⟨m, hreplace⟩ := Files.replace_mem htmp (Target.st.path ck)
      exact ⟨m, Program.exec_seq_ok.mpr ⟨(), disk, backupMoves_false ck _ disk,
        Program.exec_seq_ok.mpr ⟨(), m, Files.exec_replaceFile.mpr hreplace, backupMoves_false ck _ m⟩⟩⟩
  | true =>
      obtain ⟨d₁, hfirst⟩ := backupMoves_returns (List.nodup_singleton Target.st) fun t _ => h t
      obtain ⟨-, hkept⟩ := backupMoves_ok (List.nodup_singleton Target.st) hfirst
      have htmp₁ : tmpPath ck ∈ d₁ := by
        rw [← AList.lookup_isSome, hkept _ (by
          simpa using ⟨(Target.st.path_ne_tmp ck).symm, (Target.st.backup_ne_tmp ck).symm⟩), hcontent]
        rfl
      obtain ⟨d₂, hreplace⟩ := Files.replace_mem htmp₁ (Target.st.path ck)
      obtain ⟨-, -, -, -, hothers⟩ := Files.replace_eq_some hreplace
      have hstill : ∀ target ∈ [Target.config, .quantization, .mapDiff], target.path ck ∈ d₂ := by
        intro target htarget
        have hpath : target.path ck ≠ Target.st.path ck := fun heq => by
          rw [Target.path_injective ck heq] at htarget
          revert htarget
          decide
        rw [← AList.lookup_isSome, hothers _ (target.path_ne_tmp ck) hpath,
          hkept _ (by simpa using ⟨hpath, target.path_ne_backup ck .st⟩), AList.lookup_isSome]
        exact h target
      obtain ⟨d₃, hlast⟩ := backupMoves_returns (by decide) hstill
      exact ⟨d₃, Program.exec_seq_ok.mpr ⟨(), d₁, hfirst,
        Program.exec_seq_ok.mpr ⟨(), d₂, Files.exec_replaceFile.mpr hreplace, hlast⟩⟩⟩

end Commit

section Sidecars

variable {arith : FloatArith} {ck : Path} {disk disk' : Disk} {backup : Bool} {config : Value}
  {dropped : Nat}

def newConfig (cfg : Dict) : Dict := Dict.set cfg (ascii "action_gen") (.bool true)

-- What the three JSON files hold at the end, and what they are made from.
structure SidecarsWritten (arith : FloatArith) (ck : Path) (backup : Bool) (config : Value) (dropped : Nat)
    (cfg newQc newQmd : Dict) (oldQc oldQmd : Value) (disk disk' : Disk) : Prop where
  config : config = .dict cfg
  readQc : readJson arith.toFloatReader disk (originalPath ck backup .quantization) = .ok oldQc
  readQmd : readJson arith.toFloatReader disk (originalPath ck backup .mapDiff) = .ok oldQmd
  updated : updatedSidecars arith oldQc oldQmd dropped = .ok (newQc, newQmd)
  configFile : disk'.lookup (Target.config.path ck) = some (jsonBytes arith (newConfig cfg))
  quantization : disk'.lookup (Target.quantization.path ck) = some (jsonBytes arith newQc)
  mapDiff : disk'.lookup (Target.mapDiff.path ck) = some (jsonBytes arith newQmd)
  others : ∀ path, path ≠ Target.config.path ck → path ≠ Target.quantization.path ck →
    path ≠ Target.mapDiff.path ck → disk'.lookup path = disk.lookup path

theorem originalPath_ne (ck : Path) (backup : Bool) {target other : Target} (hne : target ≠ other) :
    originalPath ck backup target ≠ other.path ck := by
  unfold originalPath
  split
  · exact (other.path_ne_backup ck target).symm
  · exact fun heq => hne (Target.path_injective ck heq)

theorem asDict_eq_ok {value : Value} {d : Dict} : asDict value = .ok d ↔ value = .dict d := by
  cases value <;> simp [asDict]

theorem Target.path_ne {target other : Target} (ck : Path) (hne : target ≠ other) :
    target.path ck ≠ other.path ck := fun heq => hne (Target.path_injective ck heq)

theorem writeSidecars_ok {u : Unit}
    (h : (writeSidecars arith ck backup config dropped).exec disk = (.ok u, disk')) :
    ∃ cfg newQc newQmd qc qmd,
      SidecarsWritten arith ck backup config dropped cfg newQc newQmd qc qmd disk disk' := by
  obtain ⟨cfg, hcfg, h⟩ := Program.exec_read_seq_ok.mp h
  obtain ⟨_, d₁, hwrite, h⟩ := Program.exec_seq_ok.mp h
  obtain ⟨qc, hqc, h⟩ := Program.exec_read_seq_ok.mp h
  obtain ⟨qmd, hqmd, h⟩ := Program.exec_read_seq_ok.mp h
  obtain ⟨⟨newQc, newQmd⟩, hnew, h⟩ := Program.exec_read_seq_ok.mp h
  obtain ⟨_, d₂, hwriteQc, hwriteQmd⟩ := Program.exec_seq_ok.mp h
  obtain ⟨hconfig, hothers⟩ := Files.writeFile_ok hwrite
  obtain ⟨hquantization, hothers₂⟩ := Files.writeFile_ok hwriteQc
  obtain ⟨hmapDiff, hothers₃⟩ := Files.writeFile_ok hwriteQmd
  refine ⟨cfg, newQc, newQmd, qc, qmd, asDict_eq_ok.mp (mapError_eq_ok.mp hcfg), ?_, ?_,
    mapError_eq_ok.mp hnew, ?_, ?_, hmapDiff, fun path hpath hpath₂ hpath₃ => ?_⟩
  · exact (readJson_congr (hothers _ (originalPath_ne ck backup (by decide)))).mp hqc
  · exact (readJson_congr (hothers _ (originalPath_ne ck backup (by decide)))).mp hqmd
  · rw [hothers₃ _ (Target.path_ne ck (by decide)), hothers₂ _ (Target.path_ne ck (by decide)), hconfig,
      newConfig]
  · rw [hothers₃ _ (Target.path_ne ck (by decide)), hquantization]
  · rw [hothers₃ path hpath₃, hothers₂ path hpath₂, hothers path hpath]

theorem writeSidecars_returns {cfg newQc newQmd : Dict} {qc qmd : Value} (hconfig : config = .dict cfg)
    (hqc : readJson arith.toFloatReader disk (originalPath ck backup .quantization) = .ok qc)
    (hqmd : readJson arith.toFloatReader disk (originalPath ck backup .mapDiff) = .ok qmd)
    (hnew : updatedSidecars arith qc qmd dropped = .ok (newQc, newQmd)) :
    ∃ disk', (writeSidecars arith ck backup config dropped).exec disk = (.ok (), disk') := by
  obtain ⟨d₁, hwrite⟩ := Files.writeFile_returns (Target.config.path ck) (jsonBytes arith (newConfig cfg)) disk
  obtain ⟨-, hothers⟩ := Files.writeFile_ok hwrite
  obtain ⟨d₂, hwriteQc⟩ := Files.writeFile_returns (Target.quantization.path ck) (jsonBytes arith newQc) d₁
  obtain ⟨d₃, hwriteQmd⟩ := Files.writeFile_returns (Target.mapDiff.path ck) (jsonBytes arith newQmd) d₂
  have hqc₁ := (readJson_congr (hothers _ (originalPath_ne ck backup (by decide)))).mpr hqc
  have hqmd₁ := (readJson_congr (hothers _ (originalPath_ne ck backup (by decide)))).mpr hqmd
  refine ⟨d₃, Program.exec_read_seq_ok.mpr ⟨cfg, mapError_eq_ok.mpr (asDict_eq_ok.mpr hconfig), ?_⟩⟩
  refine Program.exec_seq_ok.mpr ⟨(), d₁, hwrite, Program.exec_read_seq_ok.mpr ⟨qc, hqc₁, ?_⟩⟩
  refine Program.exec_read_seq_ok.mpr ⟨qmd, hqmd₁, ?_⟩
  refine Program.exec_read_seq_ok.mpr ⟨(newQc, newQmd), mapError_eq_ok.mpr hnew, ?_⟩
  exact Program.exec_seq_ok.mpr ⟨(), d₂, hwriteQc, hwriteQmd⟩

end Sidecars

section Apply

variable {arith : FloatArith} {sha : Bytes → Text} {order : SetOrder} {ck src : Path} {backup verify : Bool}
  {disk disk' : Disk} {report : Report}

def droppedScaleElements (p : Prepared) : Nat :=
  elemCount (p.header.get lmHeadAmax) + elemCount (p.header.get lmHeadScale)

-- A run that returned: what it read, what it wrote, and the disk it left.
structure Applied (arith : FloatArith) (sha : Bytes → Text) (ck src : Path) (backup verify : Bool)
    (disk disk' : Disk) (p : Prepared) (content : Bytes) (n : Nat) (cfg newQc newQmd : Dict)
    (qc qmd : Value) : Prop where
  prepares : Prepares arith sha ck src disk p
  written : NewContent arith ck disk p content n
  verified : verify = true → ∀ name ∈ ADDED_TENSORS, ∃ entry bytes, p.layout.entries.get name = some entry ∧
    slice content (dataStart n + entry.start) entry.size = some bytes ∧
    p.srcHashes.get name = some (sha bytes)
  config : p.config = .dict cfg
  readQc : readJson arith.toFloatReader disk (Target.quantization.path ck) = .ok qc
  readQmd : readJson arith.toFloatReader disk (Target.mapDiff.path ck) = .ok qmd
  updated : updatedSidecars arith qc qmd (droppedScaleElements p) = .ok (newQc, newQmd)
  lmHead : ∃ entry, p.header.get lmHead = some entry
  st : disk'.lookup (Target.st.path ck) = some content
  configFile : disk'.lookup (Target.config.path ck) = some (jsonBytes arith (newConfig cfg))
  quantization : disk'.lookup (Target.quantization.path ck) = some (jsonBytes arith newQc)
  mapDiff : disk'.lookup (Target.mapDiff.path ck) = some (jsonBytes arith newQmd)
  backups : backup = true → ∀ target : Target, disk'.lookup (target.backup ck) = disk.lookup (target.path ck)
  tmp : disk'.lookup (tmpPath ck) = none
  others : ∀ path, path ≠ tmpPath ck → (∀ target, path ≠ Target.path ck target ∧
    path ≠ Target.backup ck target) → disk'.lookup path = disk.lookup path

theorem lmHeadDtype_ok {header : Header} {dtype : Text} (h : lmHeadDtype header = .ok dtype) :
    ∃ entry, header.get lmHead = some entry := by
  unfold lmHeadDtype at h
  split at h
  · exact ⟨_, by assumption⟩
  · cases h

theorem applyMutation_ok
    (h : (applyMutation arith sha order ck src backup verify).exec disk = (.ok report, disk')) :
    ∃ p content n cfg newQc newQmd qc qmd,
      Applied arith sha ck src backup verify disk disk' p content n cfg newQc newQmd qc qmd := by
  obtain ⟨p, hprepare, h⟩ := Program.exec_read_seq_ok.mp h
  obtain ⟨_, d₁, hwrite, h⟩ := Program.exec_seq_ok.mp h
  obtain ⟨_, d₂, hcommit, h⟩ := Program.exec_seq_ok.mp h
  obtain ⟨_, d₃, hsidecars, h⟩ := Program.exec_seq_ok.mp h
  obtain ⟨hreport, hlast⟩ := Program.exec_read_ok.mp h
  have hp := prepare_ok hprepare
  obtain ⟨hothers, content, n, htmp, hc, hverified⟩ := writeTmp_ok hp hwrite
  have hcommitted := commitMoves_ok htmp hcommit
  obtain ⟨cfg, newQc, newQmd, qc, qmd, hwritten⟩ := writeSidecars_ok hsidecars
  -- The sidecars are read where the commit has put them.
  have horiginal : ∀ target : Target, target ≠ .st →
      d₂.lookup (originalPath ck backup target) = disk.lookup (target.path ck) := fun target hne =>
    (hcommitted.originals target hne).trans (hothers _ (target.path_ne_tmp ck))
  have hlast : disk' = d₃ := hlast
  subst hlast
  have hnew : ∀ path, (∀ target : Target, target ≠ .st → path ≠ target.path ck) →
      disk'.lookup path = d₂.lookup path := fun path hpath =>
    hwritten.others path (hpath .config (by decide)) (hpath .quantization (by decide))
      (hpath .mapDiff (by decide))
  refine ⟨p, content, n, cfg, newQc, newQmd, qc, qmd, hp, hc, fun hflag name hname => ?_, hwritten.config,
    (readJson_congr (horiginal .quantization (by decide))).mp hwritten.readQc,
    (readJson_congr (horiginal .mapDiff (by decide))).mp hwritten.readQmd, hwritten.updated, ?_, ?_,
    hwritten.configFile, hwritten.quantization, hwritten.mapDiff, fun hflag target => ?_, ?_,
    fun path hpath hall => ?_⟩
  · obtain ⟨entry, bytes, hentry, hbytes, hdigest⟩ := hverified hflag name hname
    rw [tensorBytes, htmp, Option.bind_some] at hbytes
    exact ⟨entry, bytes, hentry, hbytes, hdigest⟩
  · obtain ⟨_, -, hreport⟩ := bind_eq_ok.mp hreport
    obtain ⟨dtype, hdtype, -⟩ := bind_eq_ok.mp hreport
    exact lmHeadDtype_ok hdtype
  · rw [hnew _ fun target hne => (Target.path_ne ck hne).symm]
    exact hcommitted.st
  · rw [hnew _ fun other _ => (other.path_ne_backup ck target).symm, hcommitted.backups hflag]
    exact hothers _ (target.path_ne_tmp ck)
  · rw [hnew _ fun target _ => (target.path_ne_tmp ck).symm]
    exact hcommitted.tmp
  · rw [hnew path fun target _ => (hall target).1, hcommitted.others path hpath hall]
    exact hothers path hpath

-- When a run returns.
theorem applyMutation_returns {p : Prepared} {newQc newQmd : Dict} {qc qmd : Value}
    (hprepare : prepare arith sha order ck src disk = .ok p)
    (hagrees : verify = true → ∀ name ∈ ADDED_TENSORS, name ∈ p.plan.keep → AgreesWithSource ck disk p name)
    (hlmHead : ∃ entry, p.header.get lmHead = some entry)
    (hqc : readJson arith.toFloatReader disk (Target.quantization.path ck) = .ok qc)
    (hqmd : readJson arith.toFloatReader disk (Target.mapDiff.path ck) = .ok qmd)
    (hnew : updatedSidecars arith qc qmd (droppedScaleElements p) = .ok (newQc, newQmd)) :
    ∃ report disk', (applyMutation arith sha order ck src backup verify).exec disk = (.ok report, disk') := by
  have hp := prepare_ok hprepare
  obtain ⟨d₁, hwrite⟩ := writeTmp_returns hp hagrees
  obtain ⟨hothers, content, n, htmp, hc, -⟩ := writeTmp_ok hp hwrite
  obtain ⟨cfg, hcfg⟩ : ∃ cfg, p.config = .dict cfg := by
    obtain ⟨expected, hexpected, -⟩ := hp.plan.sources
    obtain ⟨cfg, hdict, -⟩ := bind_eq_ok.mp hexpected
    exact ⟨cfg, asDict_eq_ok.mp hdict⟩
  have hthere : ∀ target : Target, target.path ck ∈ d₁ := by
    intro target
    rw [← AList.lookup_isSome, hothers _ (target.path_ne_tmp ck), AList.lookup_isSome]
    obtain ⟨m, hheader, -⟩ := hp.header
    cases target with
    | st => exact mem_of_readHeader hheader
    | config => exact mem_of_readJson hp.config
    | quantization => exact mem_of_readJson hqc
    | mapDiff => exact mem_of_readJson hqmd
  obtain ⟨d₂, hcommit⟩ := @commitMoves_returns ck d₁ backup content htmp hthere
  have hcommitted := commitMoves_ok htmp hcommit
  have horiginal : ∀ target : Target, target ≠ .st →
      d₂.lookup (originalPath ck backup target) = disk.lookup (target.path ck) := fun target hne =>
    (hcommitted.originals target hne).trans (hothers _ (target.path_ne_tmp ck))
  obtain ⟨d₃, hsidecars⟩ := writeSidecars_returns hcfg
    ((readJson_congr (horiginal .quantization (by decide))).mpr hqc)
    ((readJson_congr (horiginal .mapDiff (by decide))).mpr hqmd) hnew
  obtain ⟨_, _, _, _, _, hwritten⟩ := writeSidecars_ok hsidecars
  have hread : readHeader arith.toFloatReader d₃ (Target.st.path ck) = .ok (p.layout.entries, n) := by
    refine readHeader_eq_ok.mpr ⟨content, ?_, hc.header⟩
    rw [hwritten.others _ (Target.path_ne ck (by decide)) (Target.path_ne ck (by decide))
      (Target.path_ne ck (by decide)), hcommitted.st]
  obtain ⟨old, hold⟩ := hlmHead
  obtain ⟨new, hnewHead⟩ : ∃ entry, p.layout.entries.get lmHead = some entry :=
    Table.mem_keys_iff.mp (hp.mem_keys.mpr (.inr (by decide)))
  obtain ⟨report, hreport⟩ : ∃ report, makeReport arith ck src backup verify p.header p.plan
      (droppedScaleElements p) d₃ = .ok report := by
    have hbefore : lmHeadDtype p.header = .ok old.dtype := by rw [lmHeadDtype, hold]
    have hafter : lmHeadDtype p.layout.entries = .ok new.dtype := by rw [lmHeadDtype, hnewHead]
    exact ⟨_, bind_eq_ok.mpr ⟨_, hread, bind_eq_ok.mpr ⟨_, hbefore, bind_eq_ok.mpr ⟨_, hafter, rfl⟩⟩⟩⟩
  refine ⟨report, d₃, Program.exec_read_seq_ok.mpr ⟨p, hprepare, ?_⟩⟩
  refine Program.exec_seq_ok.mpr ⟨(), d₁, hwrite, Program.exec_seq_ok.mpr ⟨(), d₂, hcommit, ?_⟩⟩
  exact Program.exec_seq_ok.mpr ⟨(), d₃, hsidecars, Program.exec_read_ok.mpr ⟨hreport, rfl⟩⟩

end Apply

end Cosmos3.Checkpoint
