import Cosmos3.SelfContained.Safe

namespace Cosmos3.SelfContained

open Basis Basis.Posix

section Real

variable {nodes : List Node} {root d : ℕ} {path place : List Name}

theorem realDir_suffix (h : realDir nodes root path = some d) (hplace : place <:+ path) :
    ∃ e, realDir nodes root place = some e := by
  induction path generalizing d with
  | nil =>
      obtain rfl := List.suffix_nil.mp hplace
      exact ⟨d, h⟩
  | cons name up ih =>
      rcases List.suffix_cons_iff.mp hplace with rfl | hup
      · exact ⟨d, h⟩
      · obtain ⟨e, hreal, -⟩ := realDir_cons.mp h
        exact ih hreal hup

end Real

section Directories

-- The directories alone, for sources of which nothing is known.
abbrev Dirs (before : List Node) (root : ℕ) (G : List Name → Prop) : Fs → Prop :=
  Holds before root (fun _ _ => False) G

variable {before : List Node} {root : ℕ} {F : List Name → List UInt8 → Prop} {G : List Name → Prop} {name : Name}
  {up : List Name} {source : Path}

theorem spec_copyChunks_any {i o : ℕ} (hF : ∀ bytes, ¬F (name :: up) bytes) (fuel pos : ℕ) :
    Program.Spec (fun fs => ∃ written, Opened before root F G name up o written fs) (copyChunks i o fuel pos)
      (fun _ fs => ∃ written, Opened before root F G name up o written fs) (Confined before root) := by
  have hconfined : ∀ fs, (∃ written, Opened before root F G name up o written fs) → Confined before root fs :=
    fun _ h => h.choose_spec.holds.confined
  induction fuel generalizing pos with
  | zero => exact .read (fun _ _ _ h => by cases h) hconfined
  | succ fuel ih =>
      have hread : Program.Spec (fun fs => ∃ written, Opened before root F G name up o written fs) (readChunk i pos)
          (fun _ fs => ∃ written, Opened before root F G name up o written fs) (Confined before root) :=
        .read (fun _ _ h _ => h) hconfined
      refine hread.seq fun chunk => ?_
      by_cases hend : chunk = []
      · rw [if_pos hend]
        exact .ret (fun _ h => h) hconfined
      · rw [if_neg hend]
        refine Program.Spec.seq (.exists fun written => ?_) fun _ => ih (pos + chunk.length)
        exact (spec_append hF chunk).mono (fun _ h => h) (fun _ _ h => ⟨_, h⟩) fun _ h => h

theorem dirs_copyFileBytes (hG : G up) :
    Program.Spec (Dirs before root G) (copyFileBytes root source (name :: up)) (fun _ => Dirs before root G)
      (Confined before root) := by
  have hcopied := @spec_copyFileBytes_of before root (fun _ _ => False) G name up source (fun _ => True) (fun _ => True)
    hG (fun _ h => h) (fun _ h => h) (fun _ _ _ _ => trivial) fun i o size _ =>
      (spec_copyChunks_any (fun _ h => h) (size + 1) 0).mono (fun _ h => ⟨_, h⟩) (fun _ _ h => h.imp fun _ h => ⟨h, trivial⟩)
        fun _ h => h
  refine hcopied.mono (fun _ h => h) (fun _ fs h => ?_) fun _ h => h
  obtain ⟨bytes, hholds, -⟩ := h
  exact hholds.mono_files fun _ _ => .inl

theorem dirs_copyTree (limit : ℕ) {dst : List Name} (hG : G dst) :
    Program.Spec (Dirs before root G) (copyTree root limit source dst) (fun _ => Dirs before root G)
      (Confined before root) := by
  induction limit generalizing G dst source with
  | zero => exact .read (fun _ _ _ h => by cases h) fun _ h => h.confined
  | succ limit ih =>
      have hlisted : Program.Spec (Dirs before root G)
          (.read fun fs => listDir fs.nodes source : Posix.Action (List Name)) (fun _ => Dirs before root G)
          (Confined before root) := .read (fun _ _ h _ => h) fun _ h => h.confined
      rw [copyTree]
      refine hlisted.seq fun names => ?_
      refine Program.Spec.forEach (P := fun _ => Dirs before root G) (fun front name back _ => ?_) fun _ h => h.confined
      have hdir : Program.Spec (Dirs before root G)
          (.read fun fs => .ok (isDirAt fs.nodes (source.child name)) : Posix.Action Bool) (fun _ => Dirs before root G)
          (Confined before root) := .read (fun _ _ h _ => h) fun _ h => h.confined
      refine hdir.seq fun dir => ?_
      cases dir with
      | true =>
          refine (spec_ensureRealDir hG).seq fun _ => (ih (.inr rfl)).mono (fun _ h => h) (fun _ _ h => ?_) fun _ h => h
          exact h.mono_dirs fun _ => .inl
      | false =>
          refine ((spec_dropLink hG).mono (fun _ h => h) (fun _ _ h => h.1) fun _ h => h).seq fun _ => ?_
          exact dirs_copyFileBytes hG

theorem dirs_copyItem (limit : ℕ) {item : CopyItem} (hrel : item.rel = name :: up) (hnil : G []) :
    Program.Spec (Dirs before root G) (copyItem root limit item)
      (fun _ => Dirs before root fun path => G path ∨ path = up) (Confined before root) := by
  have hparents := @spec_ensureRealDirs before root (fun _ _ => False) G hnil up
  rw [copyItem, hrel]
  refine hparents.seq fun _ => ?_
  cases item.kind with
  | dir =>
      refine (spec_ensureRealDir (.inr rfl)).seq fun _ => (dirs_copyTree limit (.inr rfl)).mono (fun _ h => h)
        (fun _ _ h => ?_) fun _ h => h
      exact h.mono_dirs fun _ => .inl
  | file =>
      refine ((spec_dropLink (.inr rfl)).mono (fun _ h => h) (fun _ _ h => h.1) fun _ h => h).seq fun _ => ?_
      exact dirs_copyFileBytes (.inr rfl)

-- The directories that planned paths lead through are there afterwards.
theorem dirs_executeCopy (limit : ℕ) {plan : CopyPlan} (hrels : ∀ item ∈ plan.items, item.rel ≠ []) (hnil : G []) :
    Program.Spec (Dirs before plan.dst G) (executeCopy limit plan)
      (fun _ => Dirs before plan.dst fun path => G path ∨ ∃ item ∈ plan.items, path = item.rel.tail)
      (Confined before plan.dst) := by
  have hloop := @Program.Spec.forEach Fs OsError (Confined before plan.dst) CopyItem (copyItem plan.dst limit)
    (fun front => Dirs before plan.dst fun path => G path ∨ ∃ item ∈ front, path = item.rel.tail) plan.items
    (fun front item back hitems => ?_) fun _ h => h.confined
  · refine hloop.mono (fun _ h => h.mono_dirs ?_) (fun _ _ h => h) fun _ h => h
    rintro path (hpath | ⟨item, hitem, -⟩)
    · exact hpath
    · cases hitem
  · have hmem : item ∈ plan.items := hitems ▸ List.mem_append_right front List.mem_cons_self
    obtain ⟨name, up, hrel⟩ := List.exists_cons_of_ne_nil (hrels item hmem)
    refine (dirs_copyItem limit hrel (.inl hnil)).mono (fun _ h => h) (fun _ _ h => h.mono_dirs ?_) fun _ h => h
    rintro path (hpath | ⟨other, hother, rfl⟩)
    · exact .inl (.inl hpath)
    · rcases List.mem_append.mp hother with hother | hother
      · exact .inl (.inr ⟨other, hother, rfl⟩)
      · rw [List.mem_singleton.mp hother, hrel]
        exact .inr rfl

end Directories

end Cosmos3.SelfContained
