import Cosmos3.Checkpoint.Run

namespace Cosmos3.Checkpoint

open Basis Basis.Python

section Verify

variable {floats : FloatReader} {sha : Bytes → Text} {disk : Disk} {out : Path} {start : Nat}
  {header : Header} {digests : Table Text Text} {missing changed : Text → MutationError} {name : Text}

-- The tensor of that name has the expected hash.
def Verified (sha : Bytes → Text) (disk : Disk) (out : Path) (start : Nat) (header : Header)
    (digests : Table Text Text) (name : Text) : Prop :=
  ∃ entry bytes, header.get name = some entry ∧ tensorBytes disk out start entry = some bytes ∧
    digests.get name = some (sha bytes)

theorem verifyTensor_ok :
    verifyTensor sha disk out start header digests missing changed name = .ok () ↔
      Verified sha disk out start header digests name := by
  unfold verifyTensor Verified
  cases header.get name with
  | none => simp [throw, throwThe, MonadExceptOf.throw]
  | some entry =>
      simp only [Option.some.injEq, exists_and_left, exists_eq_left', bind_eq_ok, hashTensor_eq_ok]
      constructor
      · rintro ⟨digest, ⟨bytes, hbytes, rfl⟩, hrest⟩
        split at hrest
        · cases hrest
        · rename_i expected hexpected
          split_ifs at hrest with hsame
          exact ⟨bytes, hbytes, by rw [hexpected, not_not.mp hsame]⟩
      · rintro ⟨bytes, hbytes, hexpected⟩
        refine ⟨sha bytes, ⟨bytes, hbytes, rfl⟩, ?_⟩
        rw [hexpected]
        simp [pure, Except.pure]

theorem verifyOutput_ok {plan : MutationPlan} {preHashes srcHashes : Table Text Text} :
    verifyOutput floats sha out plan preHashes srcHashes disk = .ok () ↔
      ∃ header n, readHeader floats disk out = .ok (header, n) ∧
        (∀ name ∈ plan.keep, Verified sha disk out (dataStart n) header preHashes name) ∧
        (∀ name ∈ plan.add, Verified sha disk out (dataStart n) header srcHashes name) ∧
        ∀ name ∈ plan.drop, name ∉ ADDED_TENSORS → name ∉ header.keys := by
  have hdropped : ∀ header : Header,
      runChecks (fun name => if name ∈ header.keys then throw (.mutation (.sidecarPresent name)) else .ok ())
        (plan.drop.filter fun name => name ∉ ADDED_TENSORS) = (.ok () : Except Failure Unit) ↔
          ∀ name ∈ plan.drop, name ∉ ADDED_TENSORS → name ∉ header.keys := by
    intro header
    rw [runChecks_eq_ok]
    constructor
    · intro h name hname hadded
      have hcheck := h name (List.mem_filter.mpr ⟨hname, decide_eq_true hadded⟩)
      split_ifs at hcheck with hkey
      exact hkey
    · intro h name hname
      obtain ⟨hdrop, hadded⟩ := List.mem_filter.mp hname
      rw [if_neg (h name hdrop (of_decide_eq_true hadded))]
  unfold verifyOutput
  rw [bind_eq_ok]
  constructor
  · rintro ⟨⟨header, n⟩, hread, hrest⟩
    obtain ⟨⟨⟩, hkeep, hrest⟩ := bind_eq_ok.mp hrest
    obtain ⟨⟨⟩, hadd, hdrop⟩ := bind_eq_ok.mp hrest
    exact ⟨header, n, hread, fun name hname => verifyTensor_ok.mp ((runChecks_eq_ok _).mp hkeep name hname),
      fun name hname => verifyTensor_ok.mp ((runChecks_eq_ok _).mp hadd name hname),
      (hdropped header).mp hdrop⟩
  · rintro ⟨header, n, hread, hkeep, hadd, hdrop⟩
    refine ⟨(header, n), hread, bind_eq_ok.mpr ⟨(), ?_, bind_eq_ok.mpr ⟨(), ?_, (hdropped header).mpr hdrop⟩⟩⟩
    · exact (runChecks_eq_ok _).mpr fun name hname => verifyTensor_ok.mpr (hkeep name hname)
    · exact (runChecks_eq_ok _).mpr fun name hname => verifyTensor_ok.mpr (hadd name hname)

theorem readHeader_eq_ok {n : Nat} :
    readHeader floats disk out = .ok (header, n) ↔
      ∃ file, disk.lookup out = some file ∧ readHeaderFile floats file = some (header, n) := by
  rw [readHeader, bind_eq_ok]
  refine exists_congr fun file => and_congr openFile_eq_ok ?_
  cases readHeaderFile floats file with
  | none => simp [throw, throwThe, MonadExceptOf.throw]
  | some found => simp [pure, Except.pure]

end Verify

section Tmp

variable {arith : FloatArith} {sha : Bytes → Text} {ck src : Path} {disk disk' : Disk} {p : Prepared}
  {verify : Bool}

-- The bytes that a name has in the old file are those that the source has for it.
def AgreesWithSource (ck : Path) (disk : Disk) (p : Prepared) (name : Text) : Prop :=
  ∀ entry source, p.header.get name = some entry → p.srcmap.get name = some source →
    tensorBytes disk (Target.st.path ck) p.start entry =
      tensorBytes disk source.shard source.start source.entry

abbrev NewContent (arith : FloatArith) (ck : Path) (disk : Disk) (p : Prepared) (content : Bytes)
    (n : Nat) : Prop :=
  Content arith.toFloatReader (Target.st.path ck) p.start p.header p.plan p.srcmap p.layout disk content n

variable (hp : Prepares arith sha ck src disk p)

include hp

-- A kept tensor of the new file: where it comes from is the old file.
theorem NewContent.kept {content : Bytes} {n : Nat} (hc : NewContent arith ck disk p content n)
    {name : Text} (hname : name ∈ p.plan.keep) :
    ∃ entry old bytes, p.layout.entries.get name = some entry ∧ p.header.get name = some old ∧
      entry.dtype = old.dtype ∧ entry.shape = old.shape ∧
      tensorBytes disk (Target.st.path ck) p.start old = some bytes ∧
      slice content (dataStart n + entry.start) entry.size = some bytes := by
  obtain ⟨entry, hentry⟩ := Table.mem_keys_iff.mp (hp.mem_keys.mpr (.inl hname))
  obtain ⟨source, bytes, hsource, hbytes, hdtype, hshape, hslice⟩ := hc.tensors name entry hentry
  obtain ⟨old, -, hold, -⟩ := hp.kept name hname
  rw [origin, if_pos hname, hold] at hsource
  cases hsource
  exact ⟨entry, old, bytes, hentry, hold, hdtype, hshape, hbytes, hslice⟩

-- A tensor that is not kept comes from the shard in which it was found.
theorem NewContent.added {content : Bytes} {n : Nat} (hc : NewContent arith ck disk p content n)
    {name : Text} (hname : name ∈ ADDED_TENSORS) (hkept : name ∉ p.plan.keep) :
    ∃ entry source bytes, p.layout.entries.get name = some entry ∧ p.srcmap.get name = some source ∧
      entry.dtype = source.entry.dtype ∧ entry.shape = source.entry.shape ∧
      tensorBytes disk source.shard source.start source.entry = some bytes ∧
      slice content (dataStart n + entry.start) entry.size = some bytes := by
  obtain ⟨entry, hentry⟩ := Table.mem_keys_iff.mp (hp.mem_keys.mpr (.inr hname))
  obtain ⟨source, bytes, hsource, hbytes, hdtype, hshape, hslice⟩ := hc.tensors name entry hentry
  obtain ⟨source', -, hfound, -⟩ := hp.added name hname
  rw [origin, if_neg hkept, hfound] at hsource
  cases hsource
  exact ⟨entry, source, bytes, hentry, hfound, hdtype, hshape, hbytes, hslice⟩

-- No name of the quantizers of `lm_head` is one of the new file.
theorem Prepares.sidecar_notMem {name : Text} (hname : name ∈ DROPPED_LMHEAD)
    (hadded : name ∉ ADDED_TENSORS) : name ∉ p.layout.entries.keys := by
  rw [hp.mem_keys]
  rintro (hkept | hmem)
  · exact ((hp.plan.keep name).mp hkept).2 hname
  · exact hadded hmem

theorem verifyOutput_iff {content : Bytes} {n : Nat} (hc : NewContent arith ck disk p content n)
    {tmp : Disk} (htmp : tmp.lookup (tmpPath ck) = some content) :
    verifyOutput arith.toFloatReader sha (tmpPath ck) p.plan p.preHashes p.srcHashes tmp = .ok () ↔
      ∀ name ∈ ADDED_TENSORS, Verified sha tmp (tmpPath ck) (dataStart n) p.layout.entries p.srcHashes name := by
  have hread : readHeader arith.toFloatReader tmp (tmpPath ck) = .ok (p.layout.entries, n) :=
    readHeader_eq_ok.mpr ⟨content, htmp, hc.header⟩
  have hbytes : ∀ entry, tensorBytes tmp (tmpPath ck) (dataStart n) entry =
      slice content (dataStart n + entry.start) entry.size := by
    intro entry
    rw [tensorBytes, htmp, Option.bind_some]
  rw [verifyOutput_ok]
  constructor
  · rintro ⟨header, n', hread', -, hadd, -⟩
    cases hread.symm.trans hread'
    exact hp.plan.add ▸ hadd
  · refine fun hadd => ⟨p.layout.entries, n, hread, fun name hname => ?_, hp.plan.add ▸ hadd,
      fun name hdrop hadded => ?_⟩
    · obtain ⟨entry, old, bytes, hentry, hold, -, -, hbytes', hslice⟩ := NewContent.kept hp hc hname
      obtain ⟨old', bytes', hold', hsame, hdigest⟩ := hp.kept name hname
      obtain rfl := Option.some.inj (hold.symm.trans hold')
      obtain rfl := Option.some.inj (hbytes'.symm.trans hsame)
      exact ⟨entry, bytes, hentry, by rw [hbytes, hslice], hdigest⟩
    · rw [hp.plan.drop] at hdrop
      exact hp.sidecar_notMem (List.mem_filter.mp hdrop).1 hadded

theorem Prepares.source_ne {name : Text} (hname : name ∈ p.layout.order) {source : Source}
    (hsource : origin (Target.st.path ck) p.start p.header p.plan p.srcmap name = .ok source) :
    source.shard ≠ tmpPath ck := hp.source_ne_tmp hsource (hp.mem_order hname)

-- The write never fails: all that it copies has been read.
theorem Prepares.writes :
    (∀ u m, (writeRewrite arith.toFloatReader (Target.st.path ck) p.start p.header p.plan p.layout p.srcmap
        (tmpPath ck)).exec disk = (.ok u, m) →
      (∀ path, path ≠ tmpPath ck → m.lookup path = disk.lookup path) ∧
        ∃ content n, m.lookup (tmpPath ck) = some content ∧ NewContent arith ck disk p content n) ∧
      ∃ m, (writeRewrite arith.toFloatReader (Target.st.path ck) p.start p.header p.plan p.layout p.srcmap
        (tmpPath ck)).exec disk = (.ok (), m) := by
  obtain ⟨hback, hforth⟩ := writeRewrite_spec hp.keep_keys hp.metadataKey_notMem hp.layout
    fun name hname source hsource => hp.source_ne hname hsource
  obtain ⟨blocks, hblocks⟩ : ∃ blocks, List.Forall₂
      (IsBlock (Target.st.path ck) p.start p.header p.plan p.srcmap disk) p.layout.order blocks :=
    exists_forall₂ fun name hname => hp.exists_block (hp.mem_order hname)
  exact ⟨hback, hforth blocks hblocks⟩

-- What is left when the temporary file is written and, if so, verified.
theorem writeTmp_ok {u : Unit} (h : (writeTmp arith sha ck verify p).exec disk = (.ok u, disk')) :
    (∀ path, path ≠ tmpPath ck → disk'.lookup path = disk.lookup path) ∧
      ∃ content n, disk'.lookup (tmpPath ck) = some content ∧ NewContent arith ck disk p content n ∧
        (verify = true → ∀ name ∈ ADDED_TENSORS,
          Verified sha disk' (tmpPath ck) (dataStart n) p.layout.entries p.srcHashes name) := by
  obtain ⟨_, m, hwrite, hverify⟩ := Program.exec_seq_ok.mp (Program.exec_onError_ok.mp h)
  obtain ⟨hothers, content, n, hlookup, hc⟩ := hp.writes.1 _ m hwrite
  by_cases hflag : verify = true
  · rw [if_pos hflag] at hverify
    obtain ⟨hout, rfl⟩ := Program.exec_read_ok.mp hverify
    exact ⟨hothers, content, n, hlookup, hc, fun _ => (verifyOutput_iff hp hc hlookup).mp hout⟩
  · rw [if_neg hflag] at hverify
    obtain ⟨-, rfl⟩ := Program.exec_read_ok.mp hverify
    exact ⟨hothers, content, n, hlookup, hc, fun h => absurd h hflag⟩

-- It fails only when it verifies a tensor that both files have, with other bytes.
theorem writeTmp_returns (hagrees : verify = true → ∀ name ∈ ADDED_TENSORS, name ∈ p.plan.keep →
    AgreesWithSource ck disk p name) :
    ∃ disk', (writeTmp arith sha ck verify p).exec disk = (.ok (), disk') := by
  obtain ⟨m, hwrite⟩ := hp.writes.2
  obtain ⟨-, content, n, hlookup, hc⟩ := hp.writes.1 () m hwrite
  have hc : NewContent arith ck disk p content n := hc
  refine ⟨m, Program.exec_onError_ok.mpr (Program.exec_seq_ok.mpr ⟨(), m, hwrite, ?_⟩)⟩
  by_cases hflag : verify = true
  · rw [if_pos hflag]
    refine Program.exec_read_ok.mpr ⟨(verifyOutput_iff hp hc hlookup).mpr fun name hname => ?_, rfl⟩
    have hbytes : ∀ entry, tensorBytes m (tmpPath ck) (dataStart n) entry =
        slice content (dataStart n + entry.start) entry.size := by
      intro entry
      rw [tensorBytes, hlookup, Option.bind_some]
    obtain ⟨source, bytes, hsource, hsourceBytes, hdigest⟩ := hp.added name hname
    by_cases hkept : name ∈ p.plan.keep
    · obtain ⟨entry, old, bytes', hentry, hold, -, -, holdBytes, hslice⟩ := NewContent.kept hp hc hkept
      have hsame := hagrees hflag name hname hkept old source hold hsource
      rw [holdBytes, hsourceBytes, Option.some.injEq] at hsame
      exact ⟨entry, bytes', hentry, by rw [hbytes, hslice], by rw [hdigest, hsame]⟩
    · obtain ⟨entry, source', bytes', hentry, hsource', -, -, hbytes', hslice⟩ := NewContent.added hp hc hname hkept
      obtain rfl := Option.some.inj (hsource.symm.trans hsource')
      obtain rfl := Option.some.inj (hsourceBytes.symm.trans hbytes')
      exact ⟨entry, bytes, hentry, by rw [hbytes, hslice], hdigest⟩
  · rw [if_neg hflag]
    rfl

end Tmp

section Moves

variable {ck : Path} {disk disk' : Disk} {u : Unit}

theorem backupMoves_false (ck : Path) (targets : List Target) (disk : Disk) :
    (backupMoves ck false targets).exec disk = (.ok (), disk) := by
  induction targets with
  | nil => rfl
  | cons target targets ih => exact Program.exec_seq_ok.mpr ⟨(), disk, rfl, ih⟩

theorem backupMoves_ok {targets : List Target} (hnodup : targets.Nodup)
    (h : (backupMoves ck true targets).exec disk = (.ok u, disk')) :
    (∀ target ∈ targets, target.path ck ∈ disk ∧
      disk'.lookup (target.backup ck) = disk.lookup (target.path ck)) ∧
    ∀ path, (∀ target ∈ targets, path ≠ target.path ck ∧ path ≠ target.backup ck) →
      disk'.lookup path = disk.lookup path := by
  induction targets generalizing disk with
  | nil =>
      cases h
      exact ⟨by simp, fun _ _ => rfl⟩
  | cons target targets ih =>
      rw [List.nodup_cons] at hnodup
      obtain ⟨_, m, hmove, hrest⟩ := Program.exec_seq_ok.mp h
      have hmove := Files.exec_replaceFile.mp hmove
      obtain ⟨bytes, hbytes, hbackup, -, hothers⟩ := Files.replace_eq_some hmove
      obtain ⟨hmoved, hkept⟩ := ih hnodup.2 hrest
      have hne : ∀ other ∈ targets, target ≠ other := fun other hother heq =>
        hnodup.1 (heq ▸ hother)
      refine ⟨List.forall_mem_cons.mpr ⟨⟨?_, ?_⟩, fun other hother => ⟨?_, ?_⟩⟩, fun path hpath => ?_⟩
      · exact AList.lookup_isSome.mp (by rw [hbytes]; rfl)
      · rw [hbytes, ← hbackup]
        exact hkept _ fun other hother => ⟨(other.path_ne_backup ck target).symm,
          fun heq => hne other hother (Target.backup_injective ck heq)⟩
      · have hother' := AList.lookup_isSome.mpr (hmoved other hother).1
        rw [hothers _ (fun heq => hne other hother (Target.path_injective ck heq.symm))
          (other.path_ne_backup ck target)] at hother'
        exact AList.lookup_isSome.mp hother'
      · rw [(hmoved other hother).2]
        exact hothers _ (fun heq => hne other hother (Target.path_injective ck heq.symm))
          (other.path_ne_backup ck target)
      · rw [hkept path fun other hother => hpath other (List.mem_cons_of_mem _ hother)]
        obtain ⟨hpath₁, hpath₂⟩ := hpath target List.mem_cons_self
        exact hothers path hpath₁ hpath₂

theorem backupMoves_returns {targets : List Target} (hnodup : targets.Nodup)
    (h : ∀ target ∈ targets, target.path ck ∈ disk) :
    ∃ disk', (backupMoves ck true targets).exec disk = (.ok (), disk') := by
  induction targets generalizing disk with
  | nil => exact ⟨disk, rfl⟩
  | cons target targets ih =>
      rw [List.nodup_cons] at hnodup
      obtain ⟨hfirst, hrest⟩ := List.forall_mem_cons.mp h
      obtain ⟨m, hmove⟩ := Files.replace_mem hfirst (target.backup ck)
      obtain ⟨bytes, -, -, -, hothers⟩ := Files.replace_eq_some hmove
      have hstill : ∀ other ∈ targets, other.path ck ∈ m := by
        intro other hother
        have hlookup := hothers (other.path ck)
          (fun heq => hnodup.1 (Target.path_injective ck heq ▸ hother)) (other.path_ne_backup ck target)
        rw [← AList.lookup_isSome, hlookup, AList.lookup_isSome]
        exact hrest other hother
      obtain ⟨disk', hdone⟩ := ih hnodup.2 hstill
      exact ⟨disk', Program.exec_seq_ok.mpr ⟨(), m, Files.exec_replaceFile.mpr hmove, hdone⟩⟩

end Moves

end Cosmos3.Checkpoint
