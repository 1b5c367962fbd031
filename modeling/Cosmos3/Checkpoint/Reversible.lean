import Cosmos3.Checkpoint.Fidelity

namespace Cosmos3.Checkpoint

open Basis Basis.Python

section Tmp

variable {I : Disk → Prop} {out : Path} (hI : Files.Ignores out I)

include hI

-- However the copy stops, it has only written to its output.
theorem keeps_copyChunks (src : Path) (failure : Failure) (fuel pos remaining : Nat) :
    Program.Keeps I (copyChunks src out failure fuel pos remaining) := by
  induction fuel generalizing pos remaining with
  | zero =>
      cases remaining with
      | zero => exact Program.Keeps.read I _
      | succ n => exact Program.Keeps.read I _
  | succ fuel ih =>
      cases remaining with
      | zero => exact Program.Keeps.read I _
      | succ n =>
          refine Program.Spec.seq (Files.keeps_readFile I src) fun file => ?_
          dsimp only
          split_ifs with hempty
          · exact Program.Keeps.read I _
          · exact Program.Spec.seq (Files.keeps_appendFile hI _) fun _ => ih _ _

theorem keeps_copyRange (src : Path) (start : Nat) (entry : Entry) :
    Program.Keeps I (copyRange src start entry out) :=
  Program.Spec.seq (Files.keeps_readFile I src) fun _ => keeps_copyChunks hI _ _ _ _ _

variable {fp8Path : Path} {fp8Start : Nat} {fp8 : Header} {plan : MutationPlan}
  {srcmap : Table Text Source}

theorem keeps_copyAll (names : List Text) :
    Program.Keeps I (copyAll fp8Path fp8Start fp8 plan srcmap out names) := by
  induction names with
  | nil => exact Program.Keeps.read I _
  | cons name names ih =>
      refine Program.Spec.seq (Program.Keeps.read I _) fun source => ?_
      exact Program.Spec.seq (keeps_copyRange hI _ _ _) fun _ => ih

theorem keeps_writeRewrite (floats : FloatReader) (layout : Layout) :
    Program.Keeps I (writeRewrite floats fp8Path fp8Start fp8 plan layout srcmap out) := by
  refine Program.Spec.seq (Files.keeps_createFile hI) fun _ => ?_
  split
  · exact Program.Keeps.read I _
  · exact Program.Spec.seq (Files.keeps_appendFile hI _) fun _ => keeps_copyAll hI _

omit hI

theorem keeps_writeTmp {ck : Path} (hI : Files.Ignores (tmpPath ck) I) (arith : FloatArith)
    (sha : Bytes → Text) (verify : Bool) (p : Prepared) :
    Program.Keeps I (writeTmp arith sha ck verify p) := by
  refine Program.Spec.onError (Program.Spec.seq (keeps_writeRewrite hI _ _) fun _ => ?_)
    (Files.keeps_discardFile hI)
  split_ifs
  · exact Program.Keeps.read I _
  · exact Program.Keeps.read I _

end Tmp

section States

variable (floats : FloatReader) (ck : Path) (disk₀ : Disk)

-- A file of the checkpoint that has not been touched, and one that has been moved aside.
def InPlace (target : Target) (disk : Disk) : Prop :=
  disk.lookup (target.path ck) = disk₀.lookup (target.path ck) ∧ disk.lookup (target.backup ck) = none

def BackedUp (target : Target) (disk : Disk) : Prop :=
  disk.lookup (target.backup ck) = disk₀.lookup (target.path ck) ∧ target.path ck ∈ disk₀

def OthersKept (disk : Disk) : Prop :=
  ∀ path, path ≠ tmpPath ck → (∀ target, path ≠ Target.path ck target ∧ path ≠ Target.backup ck target) →
    disk.lookup path = disk₀.lookup path

-- The file is a transformer for which the plan is refused.
def HoldsMutated (path : Path) (disk : Disk) : Prop :=
  ∃ content header n, disk.lookup path = some content ∧
    readHeaderFile floats content = some (header, n) ∧ already header = true

-- What every run, wherever it stops, leaves. The last field is why a rerun does not move
-- a new file over a backup: it plans nothing unless all is as it was.
structure Reversible (disk : Disk) : Prop where
  others : OthersKept ck disk₀ disk
  files : ∀ target, InPlace ck disk₀ target disk ∨ BackedUp ck disk₀ target disk
  refused : ∀ header n, readHeader floats disk (Target.st.path ck) = .ok (header, n) →
    already header = false → ∀ target, InPlace ck disk₀ target disk

structure Untouched (disk : Disk) : Prop where
  others : OthersKept ck disk₀ disk
  files : ∀ target, InPlace ck disk₀ target disk

-- Between the two moves of the transformer.
structure MovedAside (disk : Disk) : Prop where
  others : OthersKept ck disk₀ disk
  absent : disk.lookup (Target.st.path ck) = none
  backedUp : BackedUp ck disk₀ .st disk
  files : ∀ target, target ≠ .st → InPlace ck disk₀ target disk

-- After them, with these files still to be moved.
structure Committing (left : List Target) (disk : Disk) : Prop where
  others : OthersKept ck disk₀ disk
  mutated : HoldsMutated floats (Target.st.path ck) disk
  pending : ∀ target ∈ left, InPlace ck disk₀ target disk
  moved : ∀ target ∉ left, BackedUp ck disk₀ target disk

variable {floats ck disk₀} {disk disk' : Disk}

theorem HoldsMutated.already {path : Path} (h : HoldsMutated floats path disk) {header : Header} {n : Nat}
    (hread : readHeader floats disk path = .ok (header, n)) : Checkpoint.already header = true := by
  obtain ⟨content, header', n', hcontent, hheader, hmutated⟩ := h
  obtain ⟨content', hcontent', hheader'⟩ := readHeader_eq_ok.mp hread
  obtain rfl := Option.some.inj (hcontent.symm.trans hcontent')
  cases hheader.symm.trans hheader'
  exact hmutated

theorem Untouched.reversible (h : Untouched ck disk₀ disk) : Reversible floats ck disk₀ disk :=
  ⟨h.others, fun target => .inl (h.files target), fun _ _ _ _ => h.files⟩

theorem MovedAside.reversible (h : MovedAside ck disk₀ disk) : Reversible floats ck disk₀ disk := by
  refine ⟨h.others, fun target => ?_, fun header n hread => ?_⟩
  · by_cases hst : target = .st
    · exact .inr (hst ▸ h.backedUp)
    · exact .inl (h.files target hst)
  · obtain ⟨content, hcontent, -⟩ := readHeader_eq_ok.mp hread
    rw [h.absent] at hcontent
    cases hcontent

theorem Committing.reversible {left : List Target} (h : Committing floats ck disk₀ left disk) :
    Reversible floats ck disk₀ disk := by
  refine ⟨h.others, fun target => ?_, fun header n hread hfresh => ?_⟩
  · by_cases hleft : target ∈ left
    · exact .inl (h.pending target hleft)
    · exact .inr (h.moved target hleft)
  · rw [h.mutated.already hread] at hfresh
    cases hfresh

end States

section Moves

variable {floats : FloatReader} {ck : Path} {disk₀ : Disk} {disk disk' : Disk} {target : Target}

-- What a move aside changes: the two paths of its target.
theorem backupMove_spec {P Q E : Disk → Prop} (hE : ∀ disk, P disk → E disk)
    (h : ∀ disk disk', P disk → target.path ck ∈ disk →
      disk'.lookup (target.backup ck) = disk.lookup (target.path ck) →
      disk'.lookup (target.path ck) = none →
      (∀ path, path ≠ target.path ck → path ≠ target.backup ck → disk'.lookup path = disk.lookup path) →
      Q disk' ∧ E disk') :
    Program.Spec P (backupMove (target.path ck)) (fun _ => Q) E := by
  refine Files.spec_replaceFile hE fun disk disk' hdisk hreplace => ?_
  obtain ⟨bytes, hbytes, hbackup, habsent, hothers⟩ := Files.replace_eq_some hreplace
  refine h disk disk' hdisk (AList.lookup_isSome.mp (by rw [hbytes]; rfl)) ?_
    (habsent (target.path_ne_backup ck target)) hothers
  rw [hbytes]
  exact hbackup

theorem InPlace.kept (h : InPlace ck disk₀ target disk)
    (hpath : disk'.lookup (target.path ck) = disk.lookup (target.path ck))
    (hbackup : disk'.lookup (target.backup ck) = disk.lookup (target.backup ck)) :
    InPlace ck disk₀ target disk' :=
  ⟨hpath.trans h.1, hbackup.trans h.2⟩

theorem BackedUp.kept (h : BackedUp ck disk₀ target disk)
    (hbackup : disk'.lookup (target.backup ck) = disk.lookup (target.backup ck)) :
    BackedUp ck disk₀ target disk' :=
  ⟨hbackup.trans h.1, h.2⟩

-- A file in its place may be moved aside: no backup is lost.
theorem InPlace.backedUp (h : InPlace ck disk₀ target disk) (hmem : target.path ck ∈ disk)
    (hbackup : disk'.lookup (target.backup ck) = disk.lookup (target.path ck)) :
    BackedUp ck disk₀ target disk' := by
  refine ⟨hbackup.trans h.1, AList.lookup_isSome.mp ?_⟩
  rw [← h.1]
  exact AList.lookup_isSome.mpr hmem

theorem spec_moveSt : Program.Spec
    (fun disk => Untouched ck disk₀ disk ∧ HoldsMutated floats (tmpPath ck) disk)
    (backupMoves ck true [.st])
    (fun _ disk => MovedAside ck disk₀ disk ∧ HoldsMutated floats (tmpPath ck) disk)
    (Reversible floats ck disk₀) := by
  have hmove : Program.Spec
      (fun disk => Untouched ck disk₀ disk ∧ HoldsMutated floats (tmpPath ck) disk)
      (backupMove (Target.st.path ck))
      (fun _ disk => MovedAside ck disk₀ disk ∧ HoldsMutated floats (tmpPath ck) disk)
      (Reversible floats ck disk₀) := by
    refine backupMove_spec (fun disk h => h.1.reversible) fun disk disk' h hmem hbackup habsent hothers => ?_
    obtain ⟨huntouched, content, header, n, hcontent, hheader⟩ := h
    have hmoved : MovedAside ck disk₀ disk' := by
      refine ⟨fun path htmp hall => ?_, habsent, (huntouched.files .st).backedUp hmem hbackup,
        fun target hne => (huntouched.files target).kept ?_ ?_⟩
      · rw [hothers path (hall .st).1 (hall .st).2]
        exact huntouched.others path htmp hall
      · exact hothers _ (Target.path_ne ck hne) (target.path_ne_backup ck .st)
      · exact hothers _ (Target.st.path_ne_backup ck target).symm
          fun heq => hne (Target.backup_injective ck heq)
    refine ⟨⟨hmoved, content, header, n, ?_, hheader⟩, hmoved.reversible⟩
    rw [hothers _ (Target.st.path_ne_tmp ck).symm (Target.st.backup_ne_tmp ck).symm]
    exact hcontent
  exact hmove.seq fun _ => Program.Spec.ret (fun _ h => h) fun _ h => h.1.reversible

theorem spec_replaceTmp : Program.Spec
    (fun disk => MovedAside ck disk₀ disk ∧ HoldsMutated floats (tmpPath ck) disk)
    (Files.replaceFile Failure.fileNotFound (tmpPath ck) (Target.st.path ck))
    (fun _ => Committing floats ck disk₀ [.config, .quantization, .mapDiff])
    (Reversible floats ck disk₀) := by
  refine Files.spec_replaceFile (fun _ h => h.1.reversible) fun disk disk' h hreplace => ?_
  obtain ⟨hmoved, content, header, n, hcontent, hheader⟩ := h
  obtain ⟨bytes, hbytes, hst, -, hothers⟩ := Files.replace_eq_some hreplace
  have hbackup : ∀ target : Target, disk'.lookup (target.backup ck) = disk.lookup (target.backup ck) :=
    fun target => hothers _ (target.backup_ne_tmp ck) (Target.st.path_ne_backup ck target).symm
  have hdone : Committing floats ck disk₀ [.config, .quantization, .mapDiff] disk' := by
    refine ⟨fun path htmp hall => ?_, ⟨content, header, n, ?_, hheader⟩, fun target hleft => ?_,
      fun target hleft => ?_⟩
    · rw [hothers path htmp (hall .st).1]
      exact hmoved.others path htmp hall
    · rw [hst, ← hbytes, hcontent]
    · have hne : target ≠ .st := by
        rintro rfl
        exact absurd hleft (by decide)
      exact (hmoved.files target hne).kept (hothers _ (target.path_ne_tmp ck) (Target.path_ne ck hne))
        (hbackup target)
    · obtain rfl : target = .st := by
        revert hleft
        cases target <;> decide
      exact hmoved.backedUp.kept (hbackup .st)
  exact ⟨hdone, hdone.reversible⟩

theorem Committing.move {left : List Target} (hnodup : (target :: left).Nodup) (hst : Target.st ∉ target :: left)
    (h : Committing floats ck disk₀ (target :: left) disk) (hmem : target.path ck ∈ disk)
    (hbackup : disk'.lookup (target.backup ck) = disk.lookup (target.path ck))
    (hothers : ∀ path, path ≠ target.path ck → path ≠ target.backup ck →
      disk'.lookup path = disk.lookup path) : Committing floats ck disk₀ left disk' := by
  have hnotMem := (List.nodup_cons.mp hnodup).1
  have hkept : ∀ other : Target, other ≠ target →
      disk'.lookup (other.path ck) = disk.lookup (other.path ck) ∧
        disk'.lookup (other.backup ck) = disk.lookup (other.backup ck) := fun other hne =>
    ⟨hothers _ (Target.path_ne ck hne) (other.path_ne_backup ck target),
      hothers _ (target.path_ne_backup ck other).symm fun heq => hne (Target.backup_injective ck heq)⟩
  refine ⟨fun path htmp hall => ?_, ?_, fun other hleft => ?_, fun other hleft => ?_⟩
  · rw [hothers path (hall target).1 (hall target).2]
    exact h.others path htmp hall
  · obtain ⟨content, header, n, hcontent, hheader⟩ := h.mutated
    have hne : Target.st ≠ target := fun heq => hst (heq ▸ List.mem_cons_self)
    exact ⟨content, header, n, (hkept .st hne).1.trans hcontent, hheader⟩
  · have hne : other ≠ target := fun heq => hnotMem (heq ▸ hleft)
    exact (h.pending other (List.mem_cons_of_mem _ hleft)).kept (hkept other hne).1 (hkept other hne).2
  · by_cases hne : other = target
    · subst hne
      exact (h.pending other List.mem_cons_self).backedUp hmem hbackup
    · have hother : other ∉ target :: left := by
        rw [List.mem_cons]
        exact fun hor => hor.elim hne hleft
      exact (h.moved other hother).kept (hkept other hne).2

theorem spec_backupMoves {left : List Target} (hnodup : left.Nodup) (hst : Target.st ∉ left) :
    Program.Spec (Committing floats ck disk₀ left) (backupMoves ck true left)
      (fun _ => Committing floats ck disk₀ []) (Reversible floats ck disk₀) := by
  induction left with
  | nil => exact Program.Spec.ret (fun _ h => h) fun _ h => h.reversible
  | cons target left ih =>
      have hmove : Program.Spec (Committing floats ck disk₀ (target :: left)) (backupMove (target.path ck))
          (fun _ => Committing floats ck disk₀ left) (Reversible floats ck disk₀) := by
        refine backupMove_spec (fun _ h => h.reversible) fun disk disk' h hmem hbackup _ hothers => ?_
        have hmoved := h.move hnodup hst hmem hbackup hothers
        exact ⟨hmoved, hmoved.reversible⟩
      exact hmove.seq fun _ => ih (List.nodup_cons.mp hnodup).2
        fun hmem => hst (List.mem_cons_of_mem _ hmem)

theorem spec_commitMoves : Program.Spec
    (fun disk => Untouched ck disk₀ disk ∧ HoldsMutated floats (tmpPath ck) disk)
    (commitMoves ck true) (fun _ => Committing floats ck disk₀ []) (Reversible floats ck disk₀) :=
  spec_moveSt.seq fun _ => spec_replaceTmp.seq fun _ => spec_backupMoves (by decide) (by decide)

-- With all backups made, the new sidecars may be written in any state of their files.
theorem ignores_committing (hne : target ≠ .st) :
    Files.Ignores (target.path ck) (Committing floats ck disk₀ []) := by
  intro disk disk' hothers h
  refine ⟨fun path htmp hall => ?_, ?_, by simp, fun other hother => ?_⟩
  · rw [hothers path (hall target).1]
    exact h.others path htmp hall
  · obtain ⟨content, header, n, hcontent, hheader⟩ := h.mutated
    exact ⟨content, header, n, (hothers _ (Target.path_ne ck hne.symm)).trans hcontent, hheader⟩
  · exact (h.moved other hother).kept (hothers _ (target.path_ne_backup ck other).symm)

theorem keeps_writeSidecars (arith : FloatArith) (config : Value) (dropped : Nat) :
    Program.Keeps (Committing floats ck disk₀ []) (writeSidecars arith ck true config dropped) := by
  have hwrite : ∀ target : Target, target ≠ .st → ∀ bytes, Program.Keeps (Committing floats ck disk₀ [])
      (@Files.writeFile Path Failure _ (target.path ck) bytes) :=
    fun target hne bytes => Files.keeps_writeFile (ignores_committing hne) bytes
  refine Program.Spec.seq (Program.Keeps.read _ _) fun cfg => ?_
  refine Program.Spec.seq (hwrite .config (by decide) _) fun _ => ?_
  refine Program.Spec.seq (Program.Keeps.read _ _) fun qc => ?_
  refine Program.Spec.seq (Program.Keeps.read _ _) fun qmd => ?_
  refine Program.Spec.seq (Program.Keeps.read _ _) fun new => ?_
  exact Program.Spec.seq (hwrite .quantization (by decide) _) fun _ => hwrite .mapDiff (by decide) _

end Moves

section Restore

variable {ck path : Path} {disk : Disk} {target : Target}

theorem mem_backups : path ∈ backups disk ck ↔
    path ∈ disk ∧ ck <+: path ∧ path ≠ ck ∧ BACKUP_SUFFIX <:+ nameOf path := by
  rw [backups, (List.perm_insertionSort pathLe _).mem_iff, List.mem_filter, AList.mem_keys]
  simp only [decide_eq_true_eq]

theorem nodup_backups (disk : Disk) (ck : Path) : (backups disk ck).Nodup :=
  (List.perm_insertionSort pathLe _).nodup_iff.mpr (disk.keys_nodup.filter _)

theorem Target.exists_path (ck : Path) (target : Target) : ∃ dir name, name ≠ [] ∧
    target.path ck = dir ++ [name] ∧ target.backup ck = dir ++ [name ++ BACKUP_SUFFIX] := by
  cases target with
  | st => exact ⟨_, _, by decide, rfl, withSuffix_append _ _ _⟩
  | config => exact ⟨_, _, by decide, rfl, withSuffix_append _ _ _⟩
  | quantization => exact ⟨_, _, by decide, rfl, withSuffix_append _ _ _⟩
  | mapDiff => exact ⟨_, _, by decide, rfl, withSuffix_append _ _ _⟩

theorem backup_mem_backups : target.backup ck ∈ backups disk ck ↔ target.backup ck ∈ disk := by
  rw [mem_backups, and_iff_left_iff_imp]
  intro _
  obtain ⟨dir, name, -, -, hbackup⟩ := target.exists_path ck
  refine ⟨?_, fun heq => ?_, ?_⟩
  · exact target.backup_eq ck ▸ List.prefix_append _ _
  · rw [target.backup_eq, List.append_right_eq_self] at heq
    revert heq
    cases target <;> decide
  · rw [hbackup, nameOf_append]
    exact List.suffix_append _ _

theorem path_notMem_backups : target.path ck ∉ backups disk ck := by
  intro hmem
  obtain ⟨-, -, -, hsuffix⟩ := mem_backups.mp hmem
  cases target with
  | st => exact absurd (nameOf_append _ _ ▸ hsuffix) (by decide)
  | config => exact absurd (nameOf_append _ _ ▸ hsuffix) (by decide)
  | quantization => exact absurd (nameOf_append _ _ ▸ hsuffix) (by decide)
  | mapDiff => exact absurd (nameOf_append _ _ ▸ hsuffix) (by decide)

theorem tmp_notMem_backups : tmpPath ck ∉ backups disk ck := by
  intro hmem
  obtain ⟨-, -, -, hsuffix⟩ := mem_backups.mp hmem
  rw [tmpPath, Target.path, withSuffix_append, nameOf_append] at hsuffix
  exact absurd hsuffix (by decide)

theorem exec_restoreOne {disk' : Disk} (h : disk.replace (target.backup ck) (target.path ck) = some disk') :
    (restoreOne (target.backup ck)).exec disk = (.ok (target.path ck), disk') := by
  obtain ⟨dir, name, hname, hpath, hbackup⟩ := target.exists_path ck
  have hlength : (name ++ BACKUP_SUFFIX).length - BACKUP_SUFFIX.length = name.length := by simp
  rw [restoreOne, hbackup, nameOf_append, hlength, List.take_left, if_neg hname, List.dropLast_concat]
  rw [hbackup, hpath] at h
  rw [hpath]
  exact Program.exec_seq_ok.mpr ⟨(), disk', Files.exec_replaceFile.mpr h, rfl⟩

-- Each backup goes back to the path of its target, and nothing else changes.
theorem exec_restoreAll {targets : List Target} (hnodup : targets.Nodup)
    (h : ∀ target ∈ targets, target.backup ck ∈ disk) :
    ∃ disk', (restoreAll (targets.map (Target.backup ck))).exec disk =
        (.ok (targets.map (Target.path ck)), disk') ∧
      (∀ target ∈ targets, disk'.lookup (target.path ck) = disk.lookup (target.backup ck)) ∧
      ∀ path, (∀ target ∈ targets, path ≠ target.path ck ∧ path ≠ target.backup ck) →
        disk'.lookup path = disk.lookup path := by
  induction targets generalizing disk with
  | nil => exact ⟨disk, rfl, by simp, fun _ _ => rfl⟩
  | cons target targets ih =>
      rw [List.nodup_cons] at hnodup
      obtain ⟨hfirst, hrest⟩ := List.forall_mem_cons.mp h
      obtain ⟨m, hreplace⟩ := Files.replace_mem hfirst (target.path ck)
      obtain ⟨bytes, hbytes, hpath, -, hothers⟩ := Files.replace_eq_some hreplace
      have hne : ∀ other ∈ targets, other ≠ target := fun other hother heq => hnodup.1 (heq ▸ hother)
      have hbackup : ∀ other ∈ targets, m.lookup (other.backup ck) = disk.lookup (other.backup ck) :=
        fun other hother => hothers _ (fun heq => hne other hother (Target.backup_injective ck heq))
          (target.path_ne_backup ck other).symm
      have hstill : ∀ other ∈ targets, other.backup ck ∈ m := by
        intro other hother
        rw [← AList.lookup_isSome, hbackup other hother, AList.lookup_isSome]
        exact hrest other hother
      obtain ⟨disk', hdone, hrestored, hkept⟩ := ih hnodup.2 hstill
      refine ⟨disk', ?_, List.forall_mem_cons.mpr ⟨?_, fun other hother => ?_⟩, fun path hall => ?_⟩
      · exact Program.exec_seq_ok.mpr ⟨_, m, exec_restoreOne hreplace,
          Program.exec_seq_ok.mpr ⟨_, disk', hdone, rfl⟩⟩
      · rw [hbytes, ← hpath]
        exact hkept _ fun other hother => ⟨Target.path_ne ck (hne other hother).symm,
          target.path_ne_backup ck other⟩
      · rw [hrestored other hother, hbackup other hother]
      · obtain ⟨htarget, hothers'⟩ := List.forall_mem_cons.mp hall
        rw [hkept path hothers']
        exact hothers path htarget.2 htarget.1

-- In a disk that the runs have left, the backups are those of the four files.
theorem Reversible.exists_targets {floats : FloatReader} {disk₀ : Disk} (hfresh : backups disk₀ ck = [])
    (h : Reversible floats ck disk₀ disk) : ∃ targets : List Target,
      targets.Nodup ∧ targets.map (Target.backup ck) = backups disk ck := by
  have htarget : ∀ path ∈ backups disk ck, ∃ target : Target, path = target.backup ck := by
    intro path hpath
    by_contra hnone
    have hall : ∀ target : Target, path ≠ target.path ck ∧ path ≠ target.backup ck := by
      refine fun target => ⟨?_, fun heq => hnone ⟨target, heq⟩⟩
      rintro rfl
      exact path_notMem_backups hpath
    have htmp : path ≠ tmpPath ck := by
      rintro rfl
      exact tmp_notMem_backups hpath
    obtain ⟨hmem, hunder⟩ := mem_backups.mp hpath
    have hbefore : path ∈ backups disk₀ ck := by
      refine mem_backups.mpr ⟨?_, hunder⟩
      rw [← AList.lookup_isSome, ← h.others path htmp hall, AList.lookup_isSome]
      exact hmem
    rw [hfresh] at hbefore
    exact absurd hbefore List.not_mem_nil
  obtain ⟨targets, htargets⟩ := exists_forall₂ htarget
  have hmap : targets.map (Target.backup ck) = backups disk ck := by
    rw [map_eq_of_forall₂ (g := Target.backup ck) (f := id) htargets fun _ _ heq => heq.symm, List.map_id]
  exact ⟨targets, List.Nodup.of_map _ (hmap ▸ nodup_backups disk ck), hmap⟩

theorem Reversible.restores {floats : FloatReader} {disk₀ : Disk} (hfresh : backups disk₀ ck = [])
    (h : Reversible floats ck disk₀ disk) (hsome : backups disk ck ≠ []) :
    ∃ restored disk', (restoreBackup ck).exec disk = (.ok restored, disk') ∧
      ∀ target : Target, disk'.lookup (target.path ck) = disk₀.lookup (target.path ck) := by
  obtain ⟨targets, hnodup, hmap⟩ := h.exists_targets hfresh
  have hmem : ∀ target : Target, target ∈ targets ↔ target.backup ck ∈ disk := by
    intro target
    rw [← backup_mem_backups, ← hmap, List.mem_map_of_injective (Target.backup_injective ck)]
  obtain ⟨disk', hdone, hrestored, hkept⟩ := exec_restoreAll hnodup fun target hin => (hmem target).mp hin
  refine ⟨targets.map (Target.path ck), disk', ?_, fun target => ?_⟩
  · refine Program.exec_read_seq_ok.mpr ⟨backups disk ck, rfl, ?_⟩
    refine Program.exec_seq_ok.mpr ⟨_, disk', hmap ▸ hdone, ?_⟩
    have hne : targets.map (Target.path ck) ≠ [] := by
      rw [Ne, List.map_eq_nil_iff]
      rintro rfl
      exact hsome hmap.symm
    rw [if_neg hne]
    rfl
  · rcases h.files target with hplace | hbacked
    · have hnotMem : target ∉ targets := by
        rw [hmem, ← AList.lookup_isSome, hplace.2]
        simp
      rw [hkept _ fun other hother => ⟨Target.path_ne ck fun heq => hnotMem (by rwa [heq]),
        target.path_ne_backup ck other⟩]
      exact hplace.1
    · have hin : target ∈ targets := by
        rw [hmem, ← AList.lookup_isSome, hbacked.1, AList.lookup_isSome]
        exact hbacked.2
      rw [hrestored target hin]
      exact hbacked.1

end Restore

section Runs

variable {arith : FloatArith} {sha : Bytes → Text} {ck : Path} {disk₀ disk : Disk}

theorem untouched_of_fresh (h : backups disk₀ ck = []) : Untouched ck disk₀ disk₀ := by
  refine ⟨fun _ _ _ => rfl, fun target => ⟨rfl, ?_⟩⟩
  rw [AList.lookup_eq_none, ← backup_mem_backups, h]
  exact List.not_mem_nil

theorem ignores_untouched : Files.Ignores (tmpPath ck) (Untouched ck disk₀) := by
  intro disk disk' hothers h
  refine ⟨fun path htmp hall => ?_, fun target => ?_⟩
  · rw [hothers path htmp]
    exact h.others path htmp hall
  · exact (h.files target).kept (hothers _ (target.path_ne_tmp ck)) (hothers _ (target.backup_ne_tmp ck))

-- For the file that a run writes the plan is refused.
theorem already_new {src : Path} {p : Prepared} {content : Bytes} {n : Nat}
    (hp : Prepares arith sha ck src disk p) (hc : NewContent arith ck disk p content n) :
    already p.layout.entries = true := by
  have hkept : lmHead ∉ p.plan.keep := fun hmem => ((hp.plan.keep lmHead).mp hmem).2 (by decide)
  obtain ⟨entry, source, -, hentry, hsource, hdtype, -⟩ := NewContent.added hp hc (by decide) hkept
  obtain ⟨expected, -, hsources⟩ := hp.plan.sources
  obtain ⟨ref, -, href, hbf16, -⟩ := hsources lmHead (by decide)
  rw [Table.get_map, hsource, Option.map_some, Option.some.injEq] at href
  rw [already, Bool.and_eq_true, List.all_eq_true, decide_eq_true_eq]
  refine ⟨fun name hname => decide_eq_true ?_, ?_⟩
  · exact hp.mem_keys.mpr (.inr (List.mem_append_left _ hname))
  · rw [hentry, Option.map_some, hdtype, href, hbf16]

theorem spec_writeTmp (src : Path) (verify : Bool) (p : Prepared) : Program.Spec
    (fun disk => Untouched ck disk₀ disk ∧ Prepares arith sha ck src disk p)
    (writeTmp arith sha ck verify p)
    (fun _ disk => Untouched ck disk₀ disk ∧ HoldsMutated arith.toFloatReader (tmpPath ck) disk)
    (Reversible arith.toFloatReader ck disk₀) := by
  have hkeeps : Program.Keeps (Untouched ck disk₀) (writeTmp arith sha ck verify p) :=
    keeps_writeTmp ignores_untouched arith sha verify p
  refine ⟨fun disk u disk' h hend => ⟨hkeeps.returns disk u disk' h.1 hend, ?_⟩,
    fun disk stop disk' h hend => (hkeeps.stops disk stop disk' h.1 hend).reversible⟩
  obtain ⟨-, content, n, hcontent, hc, -⟩ := writeTmp_ok h.2 ((Program.ends_ok_iff _).mp hend)
  exact ⟨content, p.layout.entries, n, hcontent, hc.header, already_new h.2 hc⟩

theorem keeps_applyMutation (order : SetOrder) (src : Path) (verify : Bool) :
    Program.Keeps (Reversible arith.toFloatReader ck disk₀)
      (applyMutation arith sha order ck src true verify) := by
  have hprepare : Program.Spec (Reversible arith.toFloatReader ck disk₀)
      (.read (prepare arith sha order ck src))
      (fun p disk => Untouched ck disk₀ disk ∧ Prepares arith sha ck src disk p)
      (Reversible arith.toFloatReader ck disk₀) := by
    refine Program.Spec.read (fun disk p h hread => ?_) fun _ h => h
    have hp := prepare_ok hread
    obtain ⟨n, hheader, -⟩ := hp.header
    exact ⟨⟨h.others, h.refused p.header n hheader hp.plan.fresh⟩, hp⟩
  refine hprepare.seq fun p => (spec_writeTmp src verify p).seq fun _ => ?_
  refine spec_commitMoves.seq fun _ => ?_
  have hsidecars : Program.Spec (Committing arith.toFloatReader ck disk₀ [])
      (writeSidecars arith ck true p.config (droppedScaleElements p))
      (fun _ => Committing arith.toFloatReader ck disk₀ []) (Reversible arith.toFloatReader ck disk₀) :=
    (keeps_writeSidecars arith p.config (droppedScaleElements p)).mono (fun _ h => h) (fun _ _ h => h)
      fun _ h => h.reversible
  exact hsidecars.seq fun _ => Program.Spec.read (fun _ _ h _ => h.reversible) fun _ h => h.reversible

-- The arguments of a run, and the order in which its set gives the names.
structure RunArgs where
  src : Path
  verify : Bool
  order : SetOrder

-- Any number of runs, each cut wherever it was, can be undone.
theorem runs_reversible (hfresh : backups disk₀ ck = [])
    (hruns : Program.Runs (fun run : RunArgs => applyMutation arith sha run.order ck run.src true run.verify)
      disk₀ disk) :
    (∀ target : Target,
      (disk.lookup (target.path ck) = disk₀.lookup (target.path ck) ∧ disk.lookup (target.backup ck) = none) ∨
      (disk.lookup (target.backup ck) = disk₀.lookup (target.path ck) ∧ target.path ck ∈ disk₀)) ∧
    (backups disk ck ≠ [] → ∃ restored disk', (restoreBackup ck).exec disk = (.ok restored, disk') ∧
      ∀ target : Target, disk'.lookup (target.path ck) = disk₀.lookup (target.path ck)) := by
  have hkeeps : ∀ run : RunArgs, Program.Keeps (Reversible arith.toFloatReader ck disk₀)
      (applyMutation arith sha run.order ck run.src true run.verify) :=
    fun run => keeps_applyMutation run.order run.src run.verify
  have hstart : Reversible arith.toFloatReader ck disk₀ disk₀ := (untouched_of_fresh hfresh).reversible
  have h : Reversible arith.toFloatReader ck disk₀ disk := Program.Runs.invariant hkeeps hruns hstart
  exact ⟨h.files, h.restores hfresh⟩

theorem sample_fresh (dtype : Text) (count : ℤ) : backups (sampleDisk dtype count) sampleCkpt = [] := by
  refine List.eq_nil_iff_forall_not_mem.mpr fun path hpath => ?_
  obtain ⟨hmem, hunder, -⟩ := mem_backups.mp hpath
  simp only [sampleDisk, AList.mem_insert, AList.notMem_empty, or_false] at hmem
  rcases hmem with rfl | rfl | rfl | rfl | rfl
  · exact path_notMem_backups hpath
  · exact path_notMem_backups hpath
  · exact path_notMem_backups hpath
  · exact path_notMem_backups hpath
  · exact absurd hunder (by decide)

-- A run that returns might as well have crashed when the old transformer was moved aside and
-- the new one was not in its place yet.
theorem crashed_movedAside {order : SetOrder} {src : Path} {verify : Bool} {report : Report}
    (hfresh : backups disk₀ ck = [])
    (hrun : (applyMutation arith sha order ck src true verify).exec disk₀ = (.ok report, disk)) :
    ∃ m, (applyMutation arith sha order ck src true verify).ends disk₀ (.error .crashed) m ∧
      MovedAside ck disk₀ m := by
  obtain ⟨p, hread, hrest⟩ := Program.exec_read_seq_ok.mp hrun
  obtain ⟨_, m₁, hwrite, hrest⟩ := Program.exec_seq_ok.mp hrest
  obtain ⟨_, _, hcommit, -⟩ := Program.exec_seq_ok.mp hrest
  obtain ⟨_, m, hmove, -⟩ := Program.exec_seq_ok.mp hcommit
  have hcrashed : (commitMoves ck true).ends m₁ (.error .crashed) m :=
    Program.ends_seq hmove (Program.ends_crashed _ m)
  have hwritten := (@spec_writeTmp arith sha ck disk₀ src verify p).returns disk₀ () m₁
    ⟨untouched_of_fresh hfresh, prepare_ok hread⟩ ((Program.ends_ok_iff _).mpr hwrite)
  have hmoved := spec_moveSt.returns m₁ () m hwritten ((Program.ends_ok_iff _).mpr hmove)
  refine ⟨m, ?_, hmoved.1⟩
  refine Program.ends_seq (Program.exec_read_ok.mpr ⟨hread, rfl⟩) (Program.ends_seq hwrite ?_)
  exact .inr ⟨.crashed, rfl, hcrashed⟩

theorem runs_reversible_sampleDisk : ∃ disk,
    (applyMutation sampleArith sampleSha sampleOrder sampleCkpt [ascii "bf16"] true true).ends
      (sampleDisk (ascii "F8_E4M3") 1) (.error .crashed) disk ∧
    disk.lookup (Target.st.path sampleCkpt) = none ∧
    ∃ restored disk', (restoreBackup sampleCkpt).exec disk = (.ok restored, disk') ∧
      ∀ target : Target, disk'.lookup (target.path sampleCkpt) =
        (sampleDisk (ascii "F8_E4M3") 1).lookup (target.path sampleCkpt) := by
  obtain ⟨report, done, hrun⟩ := sample_returns (.inl rfl) 1 true true
  obtain ⟨disk, hcrashed, hmoved⟩ := crashed_movedAside (sample_fresh _ 1) hrun
  have hruns : Program.Runs (fun run : RunArgs => applyMutation sampleArith sampleSha run.order sampleCkpt
      run.src true run.verify) (sampleDisk (ascii "F8_E4M3") 1) disk :=
    Relation.ReflTransGen.single ⟨⟨[ascii "bf16"], true, sampleOrder⟩, .error .crashed, hcrashed⟩
  have hbackup : Target.st.backup sampleCkpt ∈ backups disk sampleCkpt := by
    rw [backup_mem_backups, ← AList.lookup_isSome, hmoved.backedUp.1]
    exact AList.lookup_isSome.mpr hmoved.backedUp.2
  exact ⟨disk, hcrashed, hmoved.absent,
    (runs_reversible (sample_fresh _ 1) hruns).2 (List.ne_nil_of_mem hbackup)⟩

end Runs

end Cosmos3.Checkpoint
