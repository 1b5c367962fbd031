import Cosmos3.Basis.Encode
import Cosmos3.SelfContained.Copy

namespace Cosmos3.SelfContained

open Basis Basis.Posix

section Order

instance : Std.Total nameLe := ⟨fun first second =>
  le_total (Python.codePoints first.text) (Python.codePoints second.text)⟩

instance : IsTrans Name nameLe := ⟨fun _ _ _ hfirst hsecond => le_trans hfirst hsecond⟩

theorem lt_append_cons (front back : List ℕ) (c : ℕ) : front < front ++ c :: back := by
  induction front with
  | nil => exact List.Lex.nil
  | cons d front ih => exact List.Lex.cons ih

-- A name comes before the one of its temporary sibling.
theorem ne_tmpName {name other : Name} (h : nameLe other name) : other ≠ tmpName name := by
  rintro rfl
  have htmp : (tmpName name).text = name.text ++ 46 :: ascii "s6-tmp" := rfl
  rw [nameLe, htmp, Python.codePoints_append (by decide)] at h
  exact absurd (lt_append_cons _ _ _) (not_lt.mpr h)

end Order

section Sources

variable {before nodes : List Node} {root : ℕ} {source : Path}

-- A path of which nothing leads below the root.
structure Sourced (before : List Node) (root : ℕ) (source : Path) : Prop where
  wellFormed : WellFormed before
  anchor_lt : source.anchor < before.length
  apart : ∀ names, Apart before root (source.descend names)

variable (h : Sourced before root source) (hframe : Frame before root nodes)

include h

theorem Sourced.apart_self : Apart before root source := by
  rw [← descend_nil source]
  exact h.apart []

theorem Sourced.child (name : Name) : Sourced before root (source.child name) :=
  ⟨h.wellFormed, h.anchor_lt, fun names => by rw [← descend_cons]; exact h.apart (name :: names)⟩

include hframe

theorem Sourced.stat_eq : stat nodes source = stat before source :=
  hframe.stat_eq h.wellFormed h.anchor_lt h.apart_self

theorem Sourced.node_eq {i : ℕ} (hi : stat before source = some i) : nodes[i]? = before[i]? :=
  hframe.node_eq h.wellFormed h.anchor_lt h.apart_self hi

theorem Sourced.isDirAt_eq : isDirAt nodes source = isDirAt before source := by
  rw [isDirAt, isDirAt, h.stat_eq hframe]
  cases hi : stat before source with
  | none => rfl
  | some i => simp only [Option.any_some, isDir, h.node_eq hframe hi]

theorem Sourced.listDir_eq : listDir nodes source = listDir before source := by
  rw [listDir, listDir, h.stat_eq hframe]
  cases hi : stat before source with
  | none => rfl
  | some i => simp only [Option.bind_some, h.node_eq hframe hi]

-- What is opened for reading has the bytes that it had.
theorem Sourced.openRead_ok {i : ℕ} (hopen : openRead nodes source = .ok i) :
    ∃ bytes, readAt before source = some bytes ∧
      ∀ nodes', Frame before root nodes' → fileAt nodes' i = some bytes := by
  rw [openRead, h.stat_eq hframe] at hopen
  cases hi : stat before source with
  | none =>
      rw [hi] at hopen
      cases hopen
  | some j =>
      rw [hi] at hopen
      dsimp only at hopen
      split_ifs at hopen with hfile
      cases hopen
      obtain ⟨bytes, hbytes⟩ := Option.isSome_iff_exists.mp hfile
      rw [fileAt, h.node_eq hframe hi] at hbytes
      refine ⟨bytes, ?_, fun nodes' hframe' => ?_⟩
      · rw [readAt, hi]
        exact hbytes
      · rw [fileAt, h.node_eq hframe' hi]
        exact hbytes

end Sources

section Steps

variable {before : List Node} {root : ℕ} {F : List Name → List UInt8 → Prop} {G : List Name → Prop}
  {name : Name} {up : List Name} {source : Path}

theorem spec_dropLink (hG : G up) :
    Program.Spec (Holds before root F G) (dropLink root (name :: up))
      (fun _ fs => Holds before root F G fs ∧ isSymlink fs.nodes root (name :: up) = false)
      (Confined before root) := by
  have hread : Program.Spec (Holds before root F G)
      (.read fun fs => .ok (isSymlink fs.nodes root (name :: up)) : Posix.Action Bool)
      (fun link fs => Holds before root F G fs ∧ isSymlink fs.nodes root (name :: up) = link)
      (Confined before root) := by
    refine .read (fun fs link h hlink => ?_) fun _ h => h.confined
    cases hlink
    exact ⟨h, rfl⟩
  refine hread.seq fun link => ?_
  cases link with
  | true =>
      refine (spec_unlink_link hG).mono (fun _ h => h) (fun _ fs h => ⟨h.1, ?_⟩) fun _ h => h
      obtain ⟨d, hup⟩ := h.1.dirs up hG
      have hnone := h.2
      rw [realEntry, hup, Option.bind_some] at hnone
      rw [isSymlink, lstat_realDir hup, hnone]
      rfl
  | false => exact .ret (fun _ h => h) fun _ h => h.1.confined

theorem spec_ensureRealDir (hG : G up) :
    Program.Spec (Holds before root F G) (ensureRealDir root (name :: up))
      (fun _ => Holds before root F fun path => G path ∨ path = name :: up) (Confined before root) :=
  (spec_dropLink hG).seq fun _ => spec_mkdir hG

theorem spec_ensureRealDirs (hroot : G []) (path : List Name) :
    Program.Spec (Holds before root F G) (ensureRealDirs root path)
      (fun _ => Holds before root F fun other => G other ∨ other = path) (Confined before root) := by
  induction path with
  | nil =>
      refine .ret (fun fs h => h.mono_dirs ?_) fun _ h => h.confined
      rintro other (hother | rfl)
      · exact hother
      · exact hroot
  | cons name up ih =>
      refine ih.seq fun _ => (spec_ensureRealDir (.inr rfl)).mono (fun _ h => h)
        (fun _ fs h => h.mono_dirs ?_) fun _ h => h
      rintro other (hother | rfl)
      · exact .inl (.inl hother)
      · exact .inr rfl

-- Chunk after chunk, what is written are the first bytes of the source.
theorem spec_copyChunks {i o : ℕ} {bytes : List UInt8} (hF : ∀ bytes, ¬F (name :: up) bytes)
    (hsource : ∀ nodes, Frame before root nodes → fileAt nodes i = some bytes) (fuel pos : ℕ) :
    Program.Spec (Opened before root F G name up o (bytes.take pos)) (copyChunks i o fuel pos)
      (fun _ => Opened before root F G name up o bytes) (Confined before root) := by
  induction fuel generalizing pos with
  | zero => exact .read (fun _ _ _ h => by cases h) fun _ h => h.holds.confined
  | succ fuel ih =>
      have hread : Program.Spec (Opened before root F G name up o (bytes.take pos)) (readChunk i pos)
          (fun chunk fs => Opened before root F G name up o (bytes.take pos) fs ∧
            chunk = (bytes.drop pos).take CHUNK) (Confined before root) := by
        refine .read (fun fs chunk h hchunk => ?_) fun _ h => h.holds.confined
        rw [hsource fs.nodes h.holds.frame] at hchunk
        cases hchunk
        exact ⟨h, rfl⟩
      refine hread.seq fun chunk => .assume fun hchunk => ?_
      by_cases hend : chunk = []
      · have hdrop : bytes.drop pos = [] := by
          rw [hend] at hchunk
          rcases List.take_eq_nil_iff.mp hchunk.symm with hzero | hdrop
          · exact absurd hzero (by decide)
          · exact hdrop
        rw [if_pos hend]
        refine .ret (fun fs h => ?_) fun _ h => h.holds.confined
        rwa [List.take_of_length_le (List.drop_eq_nil_iff.mp hdrop)] at h
      · have htaken : chunk = (bytes.drop pos).take chunk.length := by
          rw [hchunk, List.length_take, ← List.take_take, List.take_length]
        rw [if_neg hend]
        refine (spec_append hF chunk).seq fun _ => ?_
        have hwritten : bytes.take pos ++ chunk = bytes.take (pos + chunk.length) := by
          rw [List.take_add, ← htaken]
        rw [hwritten]
        exact ih (pos + chunk.length)

-- The copy of one file, whatever its temporary sibling was and whatever is known of the source.
theorem spec_copyFileBytes_of {C : ℕ → Prop} {R : List UInt8 → Prop} (hG : G up)
    (hF : ∀ bytes, ¬F (name :: up) bytes) (htmp : ∀ bytes, ¬F (tmpName name :: up) bytes)
    (hopen : ∀ nodes i, Frame before root nodes → openRead nodes source = .ok i → C i)
    (hchunks : ∀ i o size, C i → Program.Spec (Opened before root F G (tmpName name) up o [])
      (copyChunks i o (size + 1) 0)
      (fun _ fs => ∃ bytes, Opened before root F G (tmpName name) up o bytes fs ∧ R bytes) (Confined before root)) :
    Program.Spec (Holds before root F G) (copyFileBytes root source (name :: up))
      (fun _ fs => ∃ bytes, Holds before root
        (fun path content => F path content ∨ path = name :: up ∧ content = bytes) G fs ∧ R bytes)
      (Confined before root) := by
  have hfound : Program.Spec (Holds before root F G)
      (.read fun fs => .ok (isSymlink fs.nodes root (tmpName name :: up) ||
        pathExists fs.nodes (below root (tmpName name :: up))) : Posix.Action Bool)
      (fun found fs => Holds before root F G fs ∧
        (found = false → realEntry fs.nodes root (tmpName name :: up) = none)) (Confined before root) := by
    refine .read (fun fs found h hread => ⟨h, fun habsent => ?_⟩) fun _ h => h.confined
    cases hread
    obtain ⟨hlink, hexists⟩ := Bool.or_eq_false_iff.mp habsent
    obtain ⟨d, hup⟩ := h.dirs up hG
    rw [realEntry, hup, Option.bind_some]
    cases hentry : entryOf fs.nodes d (tmpName name) with
    | none => rfl
    | some i =>
        rw [pathExists, stat_entry hup hentry hlink] at hexists
        cases hexists
  have hcleared : ∀ found : Bool, Program.Spec
      (fun fs => Holds before root F G fs ∧
        (found = false → realEntry fs.nodes root (tmpName name :: up) = none))
      (if found then unlink root (tmpName name :: up) else .ret ())
      (fun _ fs => Holds before root F G fs ∧ realEntry fs.nodes root (tmpName name :: up) = none)
      (Confined before root) := by
    intro found
    cases found with
    | true => exact (spec_unlink hG htmp).mono (fun _ h => h.1) (fun _ _ h => h) fun _ h => h
    | false => exact .ret (fun _ h => ⟨h.1, h.2 rfl⟩) fun _ h => h.1.confined
  have hopened : Program.Spec
      (fun fs => Holds before root F G fs ∧ realEntry fs.nodes root (tmpName name :: up) = none)
      (.read fun fs => openRead fs.nodes source : Posix.Action ℕ)
      (fun i fs => (Holds before root F G fs ∧ realEntry fs.nodes root (tmpName name :: up) = none) ∧ C i)
      (Confined before root) :=
    .read (fun fs i h hread => ⟨h, hopen fs.nodes i h.1.frame hread⟩) fun _ h => h.1.confined
  rw [copyFileBytes]
  refine hfound.seq fun found => (hcleared found).seq fun _ => hopened.seq fun i => .assume fun hC => ?_
  refine (spec_openWrite hG htmp).seq fun _ => spec_descriptor.seq fun o => ?_
  have hsize : Program.Spec (Opened before root F G (tmpName name) up o []) (sizeOf i)
      (fun _ => Opened before root F G (tmpName name) up o []) (Confined before root) :=
    .read (fun _ _ h _ => h) fun _ h => h.holds.confined
  refine hsize.seq fun size => (hchunks i o size hC).seq fun _ => .exists fun bytes => .assume fun hR => ?_
  exact (spec_replace htmp hF).mono (fun _ h => h) (fun _ _ h => ⟨bytes, h, hR⟩) fun _ h => h

theorem spec_copyFileBytes (hG : G up) (hF : ∀ bytes, ¬F (name :: up) bytes)
    (htmp : ∀ bytes, ¬F (tmpName name :: up) bytes) (hsource : Sourced before root source) :
    Program.Spec (Holds before root F G) (copyFileBytes root source (name :: up))
      (fun _ fs => Holds before root
        (fun path bytes => F path bytes ∨ path = name :: up ∧ readAt before source = some bytes) G fs ∧
        ∃ bytes, readAt before source = some bytes)
      (Confined before root) := by
  have hchunks : ∀ i o size, (∃ bytes, readAt before source = some bytes ∧
        ∀ nodes, Frame before root nodes → fileAt nodes i = some bytes) →
      Program.Spec (Opened before root F G (tmpName name) up o []) (copyChunks i o (size + 1) 0)
        (fun _ fs => ∃ bytes, Opened before root F G (tmpName name) up o bytes fs ∧
          readAt before source = some bytes) (Confined before root) := by
    rintro i o size ⟨bytes, hbytes, hread⟩
    exact (spec_copyChunks htmp hread (size + 1) 0).mono (fun _ h => h) (fun _ _ h => ⟨bytes, h, hbytes⟩) fun _ h => h
  refine (spec_copyFileBytes_of hG hF htmp (fun nodes i hframe => hsource.openRead_ok hframe) hchunks).mono
    (fun _ h => h) (fun _ fs h => ?_) fun _ h => h
  obtain ⟨bytes, hholds, hbytes⟩ := h
  refine ⟨hholds.mono_files ?_, bytes, hbytes⟩
  rintro path content (hpath | ⟨hpath, hcontent⟩)
  · exact .inl hpath
  · exact .inr ⟨hpath, Option.some.inj (hcontent.symm.trans hbytes)⟩

end Steps

section Trees

variable {before : List Node} {root : ℕ} {F : List Name → List UInt8 → Prop} {G : List Name → Prop}
  {dst : List Name} {source : Path}

-- The files of a source directory, each at its path below a destination.
def TreeOf (before : List Node) (source : Path) (dst path : List Name) (bytes : List UInt8) : Prop :=
  ∃ names, path = names.reverse ++ dst ∧ readAt before (source.descend names) = some bytes

theorem TreeOf.suffix {path : List Name} {bytes : List UInt8} (h : TreeOf before source dst path bytes) :
    dst <:+ path := by
  obtain ⟨names, rfl, -⟩ := h
  exact List.suffix_append _ _

theorem suffix_cons_inj {name name' : Name} {path : List Name} (h : name :: dst <:+ path)
    (h' : name' :: dst <:+ path) : name = name' := by
  have hsame := List.suffix_of_suffix_length_le h h' (Nat.le_of_eq (by simp))
  exact (List.cons.inj (hsame.eq_of_length (by simp))).1

theorem isDirAt_of_descend {name : Name} {names : List Name} {bytes : List UInt8}
    (h : readAt before (source.descend (name :: names)) = some bytes) : isDirAt before source = true := by
  obtain ⟨i, hi, -⟩ := Option.bind_eq_some_iff.mp h
  obtain ⟨e, he, hentry⟩ := stat_through hi
  obtain ⟨j, hj⟩ := Option.isSome_iff_exists.mp hentry
  rw [isDirAt, he]
  exact isDir_of_entryOf hj

-- A file below a directory is below one of the entries that are listed.
theorem mem_of_descend {name : Name} {names listed : List Name} {bytes : List UInt8}
    (hlist : listDir before source = .ok listed)
    (h : readAt before (source.descend (name :: names)) = some bytes) : name ∈ listed := by
  obtain ⟨i, hi, -⟩ := Option.bind_eq_some_iff.mp h
  obtain ⟨e, he, hentry⟩ := stat_through hi
  rw [listDir, he, Option.bind_some] at hlist
  split at hlist
  · rename_i parent entries hdir
    cases hlist
    rw [entryOf_dir hdir] at hentry
    exact AList.mem_keys.mp (AList.lookup_isSome.mp hentry)
  · cases hlist
  · cases hlist

theorem readAt_of_listDir {listed : List Name} (hlist : listDir before source = .ok listed) :
    readAt before source = none := by
  rw [listDir] at hlist
  rw [readAt]
  cases hi : stat before source with
  | none => rfl
  | some i =>
      rw [hi, Option.bind_some] at hlist
      rw [Option.bind_some, fileAt]
      split at hlist
      · rename_i parent entries hdir
        rw [hdir]
      · cases hlist
      · cases hlist

theorem nodup_of_listDir {listed : List Name} (hlist : listDir before source = .ok listed) : listed.Nodup := by
  rw [listDir] at hlist
  split at hlist
  · rename_i parent entries hdir
    cases hlist
    exact entries.keys_nodup
  · cases hlist
  · cases hlist

theorem spec_copyTree (limit : ℕ) (hG : G dst) (hF : ∀ path bytes, F path bytes → ¬dst <:+ path)
    (hsource : Sourced before root source) :
    Program.Spec (Holds before root F G) (copyTree root limit source dst)
      (fun _ => Holds before root (fun path bytes => F path bytes ∨ TreeOf before source dst path bytes) G)
      (Confined before root) := by
  induction limit generalizing F G dst source with
  | zero => exact .read (fun _ _ _ h => by cases h) fun _ h => h.confined
  | succ limit ih =>
      have hlisted : Program.Spec (Holds before root F G)
          (.read fun fs => listDir fs.nodes source : Posix.Action (List Name))
          (fun names fs => Holds before root F G fs ∧ listDir before source = .ok names) (Confined before root) :=
        .read (fun fs names h hread => ⟨h, hsource.listDir_eq h.frame ▸ hread⟩) fun _ h => h.confined
      rw [copyTree]
      refine hlisted.seq fun names => .assume fun hlist => ?_
      -- after some of the entries, the files below these are there
      have hloop := @Program.Spec.forEach Fs OsError (Confined before root) Name
        (fun name =>
          Program.seq (.read fun fs => .ok (isDirAt fs.nodes (source.child name))) fun dir =>
            if dir then
              (ensureRealDir root (name :: dst)).seq fun _ => copyTree root limit (source.child name) (name :: dst)
            else (dropLink root (name :: dst)).seq fun _ => copyFileBytes root (source.child name) (name :: dst))
        (fun front => Holds before root (fun path bytes => F path bytes ∨
          ∃ name ∈ front, TreeOf before (source.child name) (name :: dst) path bytes) G)
        (names.insertionSort nameLe) ?_ fun _ h => h.confined
      · refine hloop.mono (fun _ h => h.mono_files ?_) (fun _ fs h => h.mono_files ?_) fun _ h => h
        · rintro path bytes (hpath | ⟨name, hname, -⟩)
          · exact hpath
          · cases hname
        · rintro path bytes (hpath | ⟨places, rfl, hread⟩)
          · exact .inl hpath
          · cases places with
            | nil =>
                rw [descend_nil, readAt_of_listDir hlist] at hread
                cases hread
            | cons name places =>
                refine .inr ⟨name, (List.mem_insertionSort nameLe).mpr (mem_of_descend hlist hread), places, by simp, ?_⟩
                rw [← descend_cons]
                exact hread
      · intro front name back hitems
        have hchild := hsource.child name
        have hsorted : (front ++ name :: back).Pairwise nameLe := hitems ▸ List.pairwise_insertionSort nameLe names
        have hnodup : (front ++ name :: back).Nodup :=
          hitems ▸ (List.perm_insertionSort nameLe names).nodup_iff.mpr (nodup_of_listDir hlist)
        have hbefore : ∀ other ∈ front, other ≠ name ∧ other ≠ tmpName name := by
          intro other hother
          refine ⟨?_, ne_tmpName ((List.pairwise_append.mp hsorted).2.2 other hother name List.mem_cons_self)⟩
          exact (List.nodup_append.mp hnodup).2.2 other hother name List.mem_cons_self
        -- nothing that is there is below this entry
        have havoid : ∀ path bytes, (F path bytes ∨
            ∃ other ∈ front, TreeOf before (source.child other) (other :: dst) path bytes) →
            ¬name :: dst <:+ path := by
          rintro path bytes (hpath | ⟨other, hother, htree⟩) hsuffix
          · exact hF path bytes hpath ((List.suffix_cons name dst).trans hsuffix)
          · exact (hbefore other hother).1 (suffix_cons_inj htree.suffix hsuffix)
        have hdirRead : Program.Spec
            (Holds before root (fun path bytes => F path bytes ∨
              ∃ other ∈ front, TreeOf before (source.child other) (other :: dst) path bytes) G)
            (.read fun fs => .ok (isDirAt fs.nodes (source.child name)) : Posix.Action Bool)
            (fun dir fs => Holds before root (fun path bytes => F path bytes ∨
              ∃ other ∈ front, TreeOf before (source.child other) (other :: dst) path bytes) G fs ∧
                isDirAt before (source.child name) = dir) (Confined before root) := by
          refine .read (fun fs dir h hread => ⟨h, ?_⟩) fun _ h => h.confined
          rw [← hchild.isDirAt_eq h.frame]
          exact Except.ok.inj hread
        refine hdirRead.seq fun dir => .assume fun hdir => ?_
        cases dir with
        | true =>
            refine (spec_ensureRealDir hG).seq fun _ => (ih (.inr rfl) havoid hchild).mono (fun _ h => h)
              (fun _ fs h => (h.mono_dirs fun _ => .inl).mono_files ?_) fun _ h => h
            rintro path bytes (hpath | ⟨other, hother, htree⟩)
            · exact .inl (.inl hpath)
            · rcases List.mem_append.mp hother with hother | hother
              · exact .inl (.inr ⟨other, hother, htree⟩)
              · obtain rfl := List.mem_singleton.mp hother
                exact .inr htree
        | false =>
            have hfresh : ∀ bytes, ¬(F (name :: dst) bytes ∨
                ∃ other ∈ front, TreeOf before (source.child other) (other :: dst) (name :: dst) bytes) :=
              fun bytes hpath => havoid _ bytes hpath (List.suffix_refl _)
            have htmp : ∀ bytes, ¬(F (tmpName name :: dst) bytes ∨
                ∃ other ∈ front, TreeOf before (source.child other) (other :: dst) (tmpName name :: dst) bytes) := by
              rintro bytes (hpath | ⟨other, hother, htree⟩)
              · exact hF _ bytes hpath (List.suffix_cons _ _)
              · exact (hbefore other hother).2 (suffix_cons_inj htree.suffix (List.suffix_refl _))
            refine ((spec_dropLink hG).mono (fun _ h => h) (fun _ _ h => h.1) fun _ h => h).seq fun _ =>
              (spec_copyFileBytes hG hfresh htmp hchild).mono (fun _ h => h) (fun _ fs h => h.1.mono_files ?_) fun _ h => h
            rintro path bytes (hpath | ⟨other, hother, htree⟩)
            · exact .inl (.inl hpath)
            · rcases List.mem_append.mp hother with hother | hother
              · exact .inl (.inr ⟨other, hother, htree⟩)
              · obtain rfl := List.mem_singleton.mp hother
                obtain ⟨places, rfl, hread⟩ := htree
                cases places with
                | nil =>
                    rw [descend_nil] at hread
                    exact .inr ⟨rfl, hread⟩
                | cons place places =>
                    rw [isDirAt_of_descend hread] at hdir
                    cases hdir

end Trees

end Cosmos3.SelfContained
